import KVOffload.Core.GroupSpecs

/-!
# Complete layouts

Every tensor of a worker is as large as the pages of its layers exactly when the specs behind the tensors have the page sizes of
the layers.
-/

namespace KVOffload.Core

open List KVCacheGroupSpec KVCacheTensor

/-- Each layer of the worker has its place, and the tensors have the sizes of their layers and fit. -/
structure CompleteLayout (worker : Worker) (config : KVCacheConfig) : Prop where
  oneGroup : ∀ name ∈ worker.specs.names, (config.kvCacheGroups.flatMap layerNames).count name = 1
  oneTensor : ∀ name ∈ worker.specs.names, (config.kvCacheTensors.flatMap sharedBy).count name = 1
  apart : ∀ tensor ∈ config.kvCacheTensors, ∀ group ∈ config.kvCacheGroups, ∀ a ∈ tensor.sharedBy, ∀ b ∈ tensor.sharedBy,
    a ∈ group.layerNames → b ∈ group.layerNames → a = b
  sized : ∀ tensor ∈ config.kvCacheTensors, ∀ group ∈ config.kvCacheGroups, ∀ layer ∈ group.layers,
    layer.1 ∈ tensor.sharedBy → tensor.size = config.numBlocks * layer.2.pageSizeBytes
  fits : (config.kvCacheTensors.map size).sum ≤ worker.availableMemory

/-- The page sizes that the tensors of the groups are made with are those of the layers. -/
def PagesMatch (groups : List KVCacheGroupSpec) : Prop :=
  match layoutKind groups with
  | .general => ∀ group ∈ groups, ∀ layer ∈ group.layers, layer.2.pageSizeBytes = group.kvCacheSpec.pageSizeBytes
  | .uniformGroups first _ => ∀ group ∈ groups, ∀ layer ∈ group.layers, layer.2.pageSizeBytes ∈ first.kvCacheSpec.specs.pageSizes
  | _ => True

def blockBytes (groups : List KVCacheGroupSpec) : Nat :=
  match layoutKind groups with
  | .attentionFree => 0
  | .uniformType group => (group.layers.values.map LayerSpec.pageSizeBytes).sum
  | .uniformGroups first _ => first.kvCacheSpec.specs.pageSizes.sum * (groups.map longestBucket).foldr max 0
  | .general => (groups.map fun group => group.kvCacheSpec.pageSizeBytes).headD 0 * maxLayers groups

def blockMemory (groups : List KVCacheGroupSpec) : Nat :=
  match layoutKind groups with
  | .uniformType group => group.kvCacheSpec.pageSizeBytes
  | _ => blockBytes groups

def OverrideFits (vllm : VllmConfig) (groups : List KVCacheGroupSpec) (availableMemory : Nat) : Prop :=
  ∀ numBlocks ∈ vllm.numGpuBlocksOverride, numBlocks * blockBytes groups ≤ availableMemory

def HoldsBlocks (vllm : VllmConfig) (groups : List KVCacheGroupSpec) (availableMemory n : Nat) : Prop :=
  if groups = [] then n ≤ 1
  else match vllm.numGpuBlocksOverride with
    | some numBlocks => n ≤ numBlocks
    | none => n * blockMemory groups ≤ availableMemory

/-! ### Bounds of maxima -/

theorem le_foldr_max {ns : List Nat} {n : Nat} (hm : n ∈ ns) : n ≤ ns.foldr max 0 := by
  induction ns with
  | nil => cases hm
  | cons m ns ih =>
    rcases mem_cons.mp hm with rfl | later
    · exact le_max_left _ _
    · exact le_trans (ih later) (le_max_right _ _)

/-! ### Layers and their names -/

section

variable {groups : List KVCacheGroupSpec} {group group' : KVCacheGroupSpec}

theorem flatMap_layerNames (groups : List KVCacheGroupSpec) :
    groups.flatMap layerNames = (allLayers groups).names := by
  unfold allLayers LayerSpecs.names
  rw [map_flatMap]
  rfl

section

variable (hd : (allLayers groups).names.Nodup) (hm : group ∈ groups) (hm' : group' ∈ groups)

include hd hm hm'

theorem eq_of_same_name {layer layer' : LayerName × LayerSpec} (hi : layer ∈ group.layers) (hi' : layer' ∈ group'.layers)
    (hs : layer.1 = layer'.1) : layer = layer' :=
  inj_on_of_nodup_map hd (mem_flatMap.mpr ⟨group, hm, hi⟩)
    (mem_flatMap.mpr ⟨group', hm', hi'⟩) hs

theorem eq_of_shared_name
    {name : LayerName} (hi : name ∈ group.layerNames) (hi' : name ∈ group'.layerNames) : group = group' := by
  rw [← flatMap_layerNames] at hd
  by_contra other
  have symm : Std.Symm (Function.onFun List.Disjoint layerNames) := ⟨fun _ _ apart _ left right => apart right left⟩
  exact (nodup_flatMap.mp hd).2.forall hm hm' other hi hi'

end

theorem eq_of_mem_entriesAt (hd : (allLayers groups).names.Nodup) {row : KVCacheGroupSpec → List LayerName}
    (hw : ∀ group, row group ⊆ group.layerNames) {i : Nat} {a b : LayerName} (hm : group ∈ groups)
    (here : a ∈ entriesAt (groups.map row) i) (here' : b ∈ entriesAt (groups.map row) i) (hi : a ∈ group.layerNames)
    (hi' : b ∈ group.layerNames) : a = b := by
  have row_at : ∀ {name}, name ∈ entriesAt (groups.map row) i → name ∈ group.layerNames → (row group)[i]? = some name := by
    intro name hf named
    obtain ⟨_, occurs, entry⟩ := mem_entriesAt.mp hf
    obtain ⟨group', hm', rfl⟩ := mem_map.mp occurs
    have hs := eq_of_shared_name hd hm hm' named (hw group' (mem_of_getElem? entry))
    exact hs ▸ entry
  exact Option.some.inj ((row_at here hi).symm.trans (row_at here' hi'))

end

/-! ### The layout of a worker before it shrinks -/

section

variable {vllm : VllmConfig} {groups : List KVCacheGroupSpec} {group first : KVCacheGroupSpec} {config : KVCacheConfig}
  {availableMemory : Nat}

variable (groups) in
def placedLayers : LayerSpecs :=
  match layoutKind groups with
  | .uniformGroups first _ => (allLayers groups).filter fun layer => layer.2.pageSizeBytes ∈ first.kvCacheSpec.specs.pageSizes
  | _ => allLayers groups

variable (groups group) in
def tensorPageSize (layer : LayerName × LayerSpec) : Nat :=
  match layoutKind groups with
  | .general => group.kvCacheSpec.pageSizeBytes
  | _ => layer.2.pageSizeBytes

variable (groups config) in
structure TensorLayout : Prop where
  groups_eq : config.kvCacheGroups = groups
  named : (config.kvCacheTensors.flatMap sharedBy).Perm (placedLayers groups).names
  apart : ∀ tensor ∈ config.kvCacheTensors, ∀ group ∈ groups, ∀ a ∈ tensor.sharedBy, ∀ b ∈ tensor.sharedBy,
    a ∈ group.layerNames → b ∈ group.layerNames → a = b
  sized : ∀ tensor ∈ config.kvCacheTensors, ∃ pageSize, tensor.size = pageSize * config.numBlocks ∧
    ∀ group ∈ groups, ∀ layer ∈ group.layers, layer.1 ∈ tensor.sharedBy → tensorPageSize groups group layer = pageSize
  total : ∃ pages : List Nat, config.kvCacheTensors.map size = pages.map (· * config.numBlocks) ∧
    pages.sum = blockBytes groups

theorem getUniformPageSize_ok {specs : List GroupSpec} {size : Nat} (run : getUniformPageSize specs = .ok size) :
    ∀ spec ∈ specs, spec.pageSizeBytes = size := by
  intro spec hm
  unfold getUniformPageSize at run
  split at run
  · rename_i one sizes
    rw [except_pure_ok] at run
    have occurs := mem_firstOccurrences.mpr (mem_map_of_mem (f := GroupSpec.pageSizeBytes) hm)
    rw [sizes, mem_singleton] at occurs
    exact occurs.trans run
  · simp at run

theorem blockBytes_general (kind : layoutKind groups = .general) {pageSize : Nat}
    (pages : getUniformPageSize (groups.map kvCacheSpec) = .ok pageSize) :
    blockBytes groups = pageSize * maxLayers groups := by
  unfold blockBytes
  rw [kind]
  cases groups with
  | nil => simp [layoutKind] at kind
  | cons group groups =>
    exact congrArg (· * maxLayers (group :: groups)) (getUniformPageSize_ok pages _ (.head _))

theorem tensorLayout_general (kind : layoutKind groups = .general) (hd : (allLayers groups).names.Nodup)
    (run : layoutGeneral vllm groups availableMemory = .ok config) :
    TensorLayout groups config ∧ config.kvCacheTensors ≠ [] := by
  obtain ⟨pageSize, pages, run⟩ := except_bind_ok.mp run
  obtain ⟨_, hp, run⟩ := except_bind_ok.mp run
  obtain ⟨_, -, hs⟩ := except_bind_ok.mp run
  rw [require_ok] at hp
  rw [except_pure_ok] at hs
  have page : ∀ group ∈ groups, group.kvCacheSpec.pageSizeBytes = pageSize :=
    fun group hm => getUniformPageSize_ok pages _ (mem_map_of_mem hm)
  have short : ∀ row ∈ groups.map layerNames, row.length ≤ maxLayers groups := by
    intro row hm
    obtain ⟨group, hi, rfl⟩ := mem_map.mp hm
    rw [layerNames, LayerSpecs.names, length_map]
    exact le_foldr_max (mem_map_of_mem hi)
  subst hs
  refine ⟨⟨rfl, ?_, ?_, ?_, ?_⟩, by simpa using hp.ne'⟩
  · have names : placedLayers groups = allLayers groups := by
      unfold placedLayers
      rw [kind]
    rw [names, ← flatMap_layerNames, flatMap_def, map_map]
    exact perm_entriesAt short
  · intro tensor hm group hi a here b here'
    obtain ⟨i, -, rfl⟩ := mem_map.mp hm
    exact eq_of_mem_entriesAt hd (fun _ => List.Subset.refl _) hi here here'
  · intro tensor hm
    obtain ⟨i, -, rfl⟩ := mem_map.mp hm
    refine ⟨pageSize, rfl, fun group hi layer _ _ => ?_⟩
    unfold tensorPageSize
    rw [kind]
    exact page group hi
  · refine ⟨replicate (maxLayers groups) pageSize, ?_, ?_⟩
    · simp [Function.comp_def]
    · rw [sum_replicate_nat, blockBytes_general kind pages, mul_comm]

theorem groups_of_attentionFree (kind : layoutKind groups = .attentionFree) : groups = [] := by
  unfold layoutKind at kind
  split at kind
  · rfl
  · split at kind <;> cases kind
  · split at kind <;> cases kind

variable (kind : layoutKind groups = .uniformType group)

include kind in
theorem groups_of_uniformType : groups = [group] := by
  unfold layoutKind at kind
  split at kind
  · cases kind
  · split at kind
    · rw [LayoutKind.uniformType.inj kind]
    · cases kind
  · split at kind <;> cases kind

include kind in
theorem tensorLayout_uniformType (hd : (allLayers groups).names.Nodup)
    (run : layoutUniformType vllm group availableMemory = .ok config) : TensorLayout groups config := by
  have single := groups_of_uniformType kind
  obtain ⟨_, -, hs⟩ := except_bind_ok.mp run
  rw [except_pure_ok] at hs
  subst hs single
  refine ⟨rfl, ?_, ?_, ?_, ?_⟩
  · have names : placedLayers [group] = group.layers := by
      unfold placedLayers
      rw [kind]
      exact append_nil _
    rw [names, flatMap_map]
    exact List.Perm.of_eq map_eq_flatMap.symm
  · intro tensor hm _ _ a here b here' _ _
    obtain ⟨layer, -, rfl⟩ := mem_map.mp hm
    rw [mem_singleton] at here here'
    exact here.trans here'.symm
  · intro tensor hm
    obtain ⟨layer, hi, rfl⟩ := mem_map.mp hm
    refine ⟨layer.2.pageSizeBytes, rfl, fun group' hm' layer' hi' shared => ?_⟩
    have equal := eq_of_same_name hd hm' (.head _) hi' hi (mem_singleton.mp shared)
    unfold tensorPageSize
    rw [kind, equal]
  · refine ⟨group.layers.values.map LayerSpec.pageSizeBytes, ?_, ?_⟩
    · simp [LayerSpecs.values]
    · unfold blockBytes
      rw [kind]

theorem length_sizeBucket_le (size : Nat) (group : KVCacheGroupSpec) : (sizeBucket size group).length ≤ longestBucket group := by
  by_cases occurs : size ∈ group.layers.pageSizes
  · exact le_foldr_max (mem_map_of_mem occurs)
  · have empty : bucket (fun entry => entry.2.pageSizeBytes) size group.layers = [] := by
      apply filter_eq_nil_iff.mpr
      intro layer hi equal
      apply occurs
      rw [← of_decide_eq_true equal]
      exact mem_firstOccurrences.mpr (mem_map_of_mem (mem_map_of_mem hi))
    simp [sizeBucket, empty]

theorem flatMap_sizeBucket (size : Nat) (groups : List KVCacheGroupSpec) :
    groups.flatMap (sizeBucket size) = ((allLayers groups).filter fun layer => layer.2.pageSizeBytes = size).map Prod.fst := by
  unfold allLayers
  rw [filter_flatMap, map_flatMap]
  rfl

theorem perm_sizeBuckets {sizes : List Nat} {n : Nat} (different : sizes.Nodup)
    (long : ∀ group ∈ groups, longestBucket group ≤ n) :
    ((range n).flatMap fun i => sizes.flatMap fun size => entriesAt (groups.map (sizeBucket size)) i).Perm
      (((allLayers groups).filter fun layer => layer.2.pageSizeBytes ∈ sizes).map Prod.fst) := by
  have each : ∀ size ∈ sizes, ((range n).flatMap (entriesAt (groups.map (sizeBucket size)))).Perm
      (((allLayers groups).filter fun layer => layer.2.pageSizeBytes = size).map Prod.fst) := by
    intro size _
    rw [← flatMap_sizeBucket]
    apply perm_entriesAt
    intro row hm
    obtain ⟨group, hi, rfl⟩ := mem_map.mp hm
    exact le_trans (length_sizeBucket_le size group) (long group hi)
  refine (flatMap_comm_perm ..).trans ((List.Perm.flatMap_left sizes each).trans ?_)
  rw [← map_flatMap]
  apply List.Perm.map
  have parts := perm_flatMap_filter (fun layer => layer.2.pageSizeBytes)
    ((allLayers groups).filter fun layer => layer.2.pageSizeBytes ∈ sizes) different
    (fun layer kept => by simpa using (mem_filter.mp kept).2)
  refine List.Perm.trans (List.Perm.of_eq ?_) parts
  apply flatMap_congr
  intro size hm
  rw [filter_filter]
  apply filter_congr
  intro layer _
  by_cases equal : layer.2.pageSizeBytes = size
  · simp [equal, hm]
  · simp [equal]

theorem tensorLayout_uniformGroups {rest : List KVCacheGroupSpec} (kind : layoutKind groups = .uniformGroups first rest)
    (hd : (allLayers groups).names.Nodup) (run : layoutUniformGroups vllm first groups availableMemory = .ok config) :
    TensorLayout groups config := by
  obtain ⟨_, -, run⟩ := except_bind_ok.mp run
  obtain ⟨_, -, hs⟩ := except_bind_ok.mp run
  rw [except_pure_ok] at hs
  have sorted := perm_insertionSort (· ≤ ·) first.kvCacheSpec.specs.pageSizes
  have different := sorted.nodup_iff.mpr (nodup_firstOccurrences _)
  have bytes : blockBytes groups = (first.kvCacheSpec.specs.pageSizes.insertionSort (· ≤ ·)).sum *
      (groups.map longestBucket).foldr max 0 := by
    unfold blockBytes
    rw [kind, sorted.sum_eq]
  generalize first.kvCacheSpec.specs.pageSizes.insertionSort (· ≤ ·) = sizes at hs sorted different bytes
  subst hs
  refine ⟨rfl, ?_, ?_, ?_, ?_⟩
  · have names : placedLayers groups = (allLayers groups).filter fun layer => layer.2.pageSizeBytes ∈ sizes := by
      unfold placedLayers
      rw [kind]
      apply filter_congr
      intro layer _
      exact decide_eq_decide.mpr sorted.mem_iff.symm
    rw [names, flatMap_assoc]
    simp only [flatMap_map]
    exact perm_sizeBuckets different fun group hi => le_foldr_max (mem_map_of_mem hi)
  · intro tensor hm group hi a here b here'
    obtain ⟨i, -, occurs⟩ := mem_flatMap.mp hm
    obtain ⟨size, -, rfl⟩ := mem_map.mp occurs
    exact eq_of_mem_entriesAt hd (fun group => map_subset _ (filter_subset_self _)) hi here here'
  · intro tensor hm
    obtain ⟨i, -, occurs⟩ := mem_flatMap.mp hm
    obtain ⟨size, -, rfl⟩ := mem_map.mp occurs
    refine ⟨size, rfl, fun group hi layer hw shared => ?_⟩
    obtain ⟨_, row, entry⟩ := mem_entriesAt.mp shared
    obtain ⟨group', hi', rfl⟩ := mem_map.mp row
    obtain ⟨layer', kept, named⟩ := mem_map.mp (mem_of_getElem? entry)
    obtain ⟨hw', equal⟩ := mem_filter.mp kept
    have alike := eq_of_same_name hd hi hi' hw hw' named.symm
    unfold tensorPageSize
    rw [kind, alike]
    exact of_decide_eq_true equal
  · refine ⟨(range ((groups.map longestBucket).foldr max 0)).flatMap fun _ => sizes, ?_, ?_⟩
    · rw [map_flatMap, map_flatMap]
      simp [Function.comp_def]
    · rw [bytes, flatMap_def, sum_flatten, map_map]
      simp [Function.comp_def, mul_comm]

theorem sum_pages_project (specs : LayerSpecs) (group : KVCacheGroupSpec) :
    (projectGroup specs group).kvCacheSpec.isUniformType = true →
      (((projectGroup specs group).layers.values).map LayerSpec.pageSizeBytes).sum ≤
      (projectGroup specs group).kvCacheSpec.pageSizeBytes := by
  unfold projectGroup
  split
  · intro _
    by_cases empty : (group.layers.filter fun entry => decide (entry.1 ∈ specs.names)) = []
    · simp [empty, LayerSpecs.values]
    · simp [empty, GroupSpec.pageSizeBytes]
  · intro never
    cases never

include kind in
theorem isUniformType_of_kind : group.kvCacheSpec.isUniformType = true := by
  rw [groups_of_uniformType kind] at kind
  unfold layoutKind at kind
  simp only at kind
  split at kind
  · assumption
  · cases kind

theorem numBlocks_fromGroups (run : getKvCacheConfigFromGroups vllm groups availableMemory = .ok config)
    (nonempty : groups ≠ []) : blockMemory groups ≠ 0 ∧
      config.numBlocks = vllm.numGpuBlocksOverride.getD (availableMemory / blockMemory groups) := by
  unfold getKvCacheConfigFromGroups at run
  cases kind : layoutKind groups with
  | attentionFree => exact absurd (groups_of_attentionFree kind) nonempty
  | uniformType group =>
    simp only [kind] at run
    obtain ⟨_, hp, hs⟩ := except_bind_ok.mp run
    rw [require_ok] at hp
    rw [except_pure_ok] at hs
    unfold blockMemory
    rw [kind, ← hs]
    exact ⟨hp, rfl⟩
  | uniformGroups first rest =>
    simp only [kind] at run
    obtain ⟨_, -, run⟩ := except_bind_ok.mp run
    obtain ⟨_, hp, hs⟩ := except_bind_ok.mp run
    rw [require_ok, (perm_insertionSort (· ≤ ·) first.kvCacheSpec.specs.pageSizes).sum_eq] at hp
    rw [except_pure_ok, (perm_insertionSort (· ≤ ·) first.kvCacheSpec.specs.pageSizes).sum_eq] at hs
    unfold blockMemory blockBytes
    rw [kind, ← hs]
    exact ⟨hp, rfl⟩
  | general =>
    simp only [kind] at run
    obtain ⟨pageSize, pages, run⟩ := except_bind_ok.mp run
    obtain ⟨_, hp, run⟩ := except_bind_ok.mp run
    obtain ⟨_, sized, hs⟩ := except_bind_ok.mp run
    rw [require_ok] at hp sized
    rw [except_pure_ok] at hs
    unfold blockMemory
    rw [kind, blockBytes_general kind pages, ← hs, ← Nat.div_div_eq_div_mul]
    exact ⟨mul_ne_zero sized hp.ne', rfl⟩

theorem blockBytes_le {specs : LayerSpecs} {model : List KVCacheGroupSpec} (projected : groups = model.map (projectGroup specs)) :
    blockBytes groups ≤ blockMemory groups := by
  cases kind : layoutKind groups with
  | uniformType group =>
    have hm : group ∈ groups := groups_of_uniformType kind ▸ (.head _)
    rw [projected] at hm
    obtain ⟨original, -, rfl⟩ := mem_map.mp hm
    unfold blockMemory blockBytes
    rw [kind]
    exact sum_pages_project specs original (isUniformType_of_kind kind)
  | _ =>
    unfold blockMemory
    rw [kind]

theorem tensorLayout_fromGroups (hd : (allLayers groups).names.Nodup)
    (run : getKvCacheConfigFromGroups vllm groups availableMemory = .ok config) :
    TensorLayout groups config ∧ (layoutKind groups = .general → config.kvCacheTensors ≠ []) := by
  unfold getKvCacheConfigFromGroups at run
  cases kind : layoutKind groups with
  | attentionFree =>
    simp only [kind, except_pure_ok] at run
    have empty := groups_of_attentionFree kind
    subst run empty
    exact ⟨⟨rfl, List.Perm.refl _, by simp, by simp, [], rfl, rfl⟩, by simp⟩
  | uniformType group =>
    simp only [kind] at run
    exact ⟨tensorLayout_uniformType kind hd run, by simp⟩
  | uniformGroups first rest =>
    simp only [kind] at run
    exact ⟨tensorLayout_uniformGroups kind hd run, by simp⟩
  | general =>
    simp only [kind] at run
    exact (tensorLayout_general kind hd run).imp_right fun some _ => some

variable {minNumBlocks : Nat}

theorem TensorLayout.shrink {shrunk : KVCacheConfig} (laid : TensorLayout groups config)
    (run : shrinkConfig vllm minNumBlocks config = .ok shrunk) :
    TensorLayout groups shrunk ∧ shrunk.numBlocks = minNumBlocks ∧ (config.kvCacheTensors ≠ [] → config.numBlocks ≠ 0) := by
  obtain ⟨_, checked, run⟩ := except_bind_ok.mp run
  obtain ⟨_, -, run⟩ := except_bind_ok.mp run
  obtain ⟨_, -, hs⟩ := except_bind_ok.mp run
  rw [require_ok] at checked
  rw [except_pure_ok] at hs
  have hp : config.kvCacheTensors ≠ [] → 0 < config.numBlocks :=
    fun nonempty => pos_of_ne_zero (checked.resolve_left nonempty)
  have scaled : ∀ page, config.kvCacheTensors ≠ [] → page * config.numBlocks / config.numBlocks * minNumBlocks =
      page * minNumBlocks := by
    intro page nonempty
    rw [Nat.mul_div_cancel _ (hp nonempty)]
  obtain ⟨pages, sizes, total⟩ := laid.total
  subst hs
  refine ⟨⟨laid.groups_eq, ?_, ?_, ?_, pages, ?_, total⟩, rfl, fun nonempty => (hp nonempty).ne'⟩
  · simpa [flatMap_map] using laid.named
  · intro tensor hm group hi a here b here'
    obtain ⟨old, occurs, rfl⟩ := mem_map.mp hm
    exact laid.apart old occurs group hi a here b here'
  · intro tensor hm
    obtain ⟨old, occurs, rfl⟩ := mem_map.mp hm
    obtain ⟨page, size, hs⟩ := laid.sized old occurs
    refine ⟨page, ?_, hs⟩
    rw [size]
    exact scaled page (ne_nil_of_mem occurs)
  rw [map_map]
  by_cases empty : config.kvCacheTensors = []
  · rw [empty] at sizes ⊢
    rw [map_eq_nil_iff.mp sizes.symm]
    rfl
  · have each : ∀ ns : List Nat, (ns.map (· * config.numBlocks)).map (fun size => size / config.numBlocks * minNumBlocks) =
        ns.map (· * minNumBlocks) := by
      intro ns
      rw [map_map]
      exact map_congr_left fun page _ => scaled page empty
    rw [← each, ← sizes, map_map]
    rfl

end

/-! ### Complete layouts -/

section

variable {groups : List KVCacheGroupSpec} {config : KVCacheConfig} {worker : Worker}

theorem placedLayers_eq_of_pagesMatch (matching : PagesMatch groups) : placedLayers groups = allLayers groups := by
  unfold placedLayers
  unfold PagesMatch at matching
  cases kind : layoutKind groups with
  | uniformGroups first rest =>
    simp only [kind] at matching ⊢
    apply filter_eq_self.mpr
    intro layer hm
    obtain ⟨group, hi, hw⟩ := mem_flatMap.mp hm
    exact decide_eq_true (matching group hi layer hw)
  | _ => rfl

theorem tensorPageSize_of_pagesMatch (matching : PagesMatch groups) {group : KVCacheGroupSpec} (hi : group ∈ groups)
    {layer : LayerName × LayerSpec} (hw : layer ∈ group.layers) :
    tensorPageSize groups group layer = layer.2.pageSizeBytes := by
  unfold tensorPageSize
  unfold PagesMatch at matching
  cases kind : layoutKind groups with
  | general =>
    simp only [kind] at matching ⊢
    exact (matching group hi layer hw).symm
  | _ => rfl

variable (laid : TensorLayout groups config) (hd : (allLayers groups).names.Nodup)
  (all : (allLayers groups).names.Perm worker.specs.names) (hp : layoutKind groups = .general → config.numBlocks ≠ 0)

include laid hd all hp

theorem pagesMatch_of_complete (complete : CompleteLayout worker config) : PagesMatch groups := by
  have placed : ∀ group ∈ groups, ∀ layer ∈ group.layers, ∃ tensor ∈ config.kvCacheTensors, layer.1 ∈ tensor.sharedBy := by
    intro group hi layer hw
    have known := all.mem_iff.mp (mem_map_of_mem (mem_flatMap.mpr ⟨group, hi, hw⟩))
    have once := complete.oneTensor layer.1 known
    have hm := count_pos_iff.mp (by rw [once]; exact one_pos)
    exact mem_flatMap.mp hm
  unfold PagesMatch
  cases kind : layoutKind groups with
  | attentionFree => trivial
  | uniformType group => trivial
  | uniformGroups first rest =>
    intro group hi layer hw
    have hm := laid.named.mem_iff.mp (mem_flatMap.mpr (placed group hi layer hw))
    unfold placedLayers at hm
    rw [kind] at hm
    obtain ⟨layer', kept, named⟩ := mem_map.mp hm
    obtain ⟨occurs, size⟩ := mem_filter.mp kept
    have alike := inj_on_of_nodup_map hd occurs (mem_flatMap.mpr ⟨group, hi, hw⟩) named
    rw [← alike]
    exact of_decide_eq_true size
  | general =>
    intro group hi layer hw
    obtain ⟨tensor, hm, shared⟩ := placed group hi layer hw
    obtain ⟨page, size, hs⟩ := laid.sized tensor hm
    have told := complete.sized tensor hm group (laid.groups_eq ▸ hi) layer hw shared
    have page_eq := hs group hi layer hw shared
    unfold tensorPageSize at page_eq
    rw [kind] at page_eq
    rw [size, mul_comm] at told
    exact (Nat.eq_of_mul_eq_mul_left (Nat.pos_of_ne_zero (hp kind)) told).symm.trans page_eq.symm

theorem completeLayout_iff :
    CompleteLayout worker config ↔ PagesMatch groups ∧ config.numBlocks * blockBytes groups ≤ worker.availableMemory := by
  have total : (config.kvCacheTensors.map size).sum = config.numBlocks * blockBytes groups := by
    obtain ⟨pages, sizes, sum⟩ := laid.total
    rw [sizes, sum_map_mul_right, map_id', sum, mul_comm]
  constructor
  · intro complete
    exact ⟨pagesMatch_of_complete laid hd all hp complete, total ▸ complete.fits⟩
  rintro ⟨matching, fits⟩
  have once : ∀ name ∈ worker.specs.names, (allLayers groups).names.count name = 1 :=
    fun name known => count_eq_one_of_mem hd (all.mem_iff.mpr known)
  have named := laid.named
  rw [placedLayers_eq_of_pagesMatch matching] at named
  exact
    { oneGroup := fun name known => by rw [laid.groups_eq, flatMap_layerNames, once name known]
      oneTensor := fun name known => by rw [named.count_eq, once name known]
      apart := laid.groups_eq ▸ laid.apart
      sized := by
        intro tensor hm group hi layer hw shared
        rw [laid.groups_eq] at hi
        obtain ⟨page, size, hs⟩ := laid.sized tensor hm
        rw [size, ← hs group hi layer hw shared, tensorPageSize_of_pagesMatch matching hi hw, mul_comm]
      fits := total ▸ fits }

end

/-! ### All workers -/

section

variable {vllm fitted : VllmConfig} {workers : List Worker} {groups : List KVCacheGroupSpec} {configs : List KVCacheConfig}
  {worker : Worker}

theorem isUniformType_project (specs : LayerSpecs) (group : KVCacheGroupSpec) :
    (projectGroup specs group).kvCacheSpec.isUniformType = group.kvCacheSpec.isUniformType := by
  unfold projectGroup
  split <;> simp_all [GroupSpec.isUniformType]

theorem layoutKind_general_iff :
    layoutKind groups = .general ↔ ∃ group ∈ groups, group.kvCacheSpec.isUniformType = false := by
  unfold layoutKind
  split
  · simp
  · split <;> simp_all
  split
  · rename_i uniform
    simpa using all_eq_true.mp uniform
  · rename_i mixed
    refine iff_of_true rfl ?_
    by_contra uniform
    apply mixed
    apply all_eq_true.mpr
    intro group hi
    by_contra other
    exact uniform ⟨group, hi, by simpa using other⟩

theorem general_project (specs : LayerSpecs) (groups : List KVCacheGroupSpec) :
    layoutKind (groups.map (projectGroup specs)) = .general ↔ layoutKind groups = .general := by
  simp [layoutKind_general_iff, isUniformType_project]

structure Configured (vllm fitted : VllmConfig) (groups : List KVCacheGroupSpec) (worker : Worker) (config : KVCacheConfig) : Prop where
  laid : TensorLayout (groups.map (projectGroup worker.specs)) config
  all : (allLayers (groups.map (projectGroup worker.specs))).names.Perm worker.specs.names
  fits : vllm.numGpuBlocksOverride = none →
    config.numBlocks * blockBytes (groups.map (projectGroup worker.specs)) ≤ worker.availableMemory
  set : ∀ numBlocks ∈ vllm.numGpuBlocksOverride, groups ≠ [] → config.numBlocks = numBlocks
  placed : layoutKind groups = .general → config.kvCacheTensors ≠ []
  count : ∀ n, n ≤ config.numBlocks ↔ HoldsBlocks vllm (groups.map (projectGroup worker.specs)) worker.availableMemory n

theorem nodup_project (hd : (allLayers groups).names.Nodup) (specs : LayerSpecs) :
    (allLayers (groups.map (projectGroup specs))).names.Nodup := by
  rw [allLayers_project]
  exact hd.sublist (filter_sublist.map Prod.fst)

theorem configured_of_run {projected : Projected} {config : KVCacheConfig}
    (hd : (allLayers groups).names.Nodup) (hs : fitted.numGpuBlocksOverride = vllm.numGpuBlocksOverride)
    (project : projectWorker vllm groups worker = .ok projected) (run : configWorker fitted projected = .ok config) :
    Configured vllm fitted groups worker config := by
  obtain ⟨memory, effective, made⟩ := except_bind_ok.mp project
  rw [except_pure_ok] at made
  subst made
  obtain ⟨_, complete, run⟩ := except_bind_ok.mp run
  rw [require_ok] at complete
  obtain ⟨laid, placed⟩ := tensorLayout_fromGroups (nodup_project hd _) run
  have counts := numBlocks_fromGroups run
  have available : vllm.numGpuBlocksOverride = none → memory = worker.availableMemory := by
    intro unset
    unfold effectiveMemory at effective
    rw [unset] at effective
    exact (except_pure_ok.mp effective).symm
  refine ⟨laid, perm_project hd complete, fun unset => ?_, fun numBlocks hm nonempty => ?_, fun general => ?_, fun n => ?_⟩
  · by_cases empty : groups = []
    · simp [empty, blockBytes, layoutKind]
    · rw [(counts (by simpa using empty)).2, hs, unset, ← available unset]
      exact Nat.le_trans (Nat.mul_le_mul_left _ (blockBytes_le rfl)) (Nat.div_mul_le_self _ _)
  · rw [(counts (by simpa using nonempty)).2, hs, Option.mem_def.mp hm]
    rfl
  · exact placed ((general_project worker.specs groups).mpr general)
  unfold HoldsBlocks
  split
  · rename_i empty
    simp only [empty] at run
    rw [← except_pure_ok.mp run]
  · rename_i nonempty
    split
    · rename_i numBlocks chosen
      rw [(counts nonempty).2, hs, chosen]
      rfl
    · rename_i unset
      rw [(counts nonempty).2, hs, unset, ← available unset]
      exact Nat.le_div_iff_mul_le (Nat.pos_of_ne_zero (counts nonempty).1)

theorem fitModelLen_override {projected : List Projected} (run : fitModelLen vllm projected = .ok fitted) :
    fitted.numGpuBlocksOverride = vllm.numGpuBlocksOverride := by
  unfold fitModelLen autoFitMaxModelLen at run
  split at run
  · split at run
    · rw [except_pure_ok] at run
      rw [run]
    obtain ⟨lengths, -, run⟩ := except_bind_ok.mp run
    obtain ⟨_, -, hs⟩ := except_bind_ok.mp run
    rw [except_pure_ok] at hs
    rw [← hs]
  · rw [except_pure_ok] at run
    rw [run]

theorem accepted_cases (ha : getKvCacheConfigs vllm workers = .ok (fitted, configs)) :
    ∃ groups starts minNumBlocks, modelGroups vllm workers = .ok groups ∧
      List.Forall₂ (Configured vllm fitted groups) workers starts ∧
      (starts.map KVCacheConfig.numBlocks).min? = some minNumBlocks ∧
      List.Forall₂ (fun start config => shrinkConfig fitted minNumBlocks start = .ok config) starts configs := by
  obtain ⟨merged, union, ha⟩ := except_bind_ok.mp ha
  obtain ⟨groups, grouped, ha⟩ := except_bind_ok.mp ha
  obtain ⟨projected, project, ha⟩ := except_bind_ok.mp ha
  obtain ⟨fitted', fitting, ha⟩ := except_bind_ok.mp ha
  obtain ⟨_, -, ha⟩ := except_bind_ok.mp ha
  obtain ⟨starts, configure, ha⟩ := except_bind_ok.mp ha
  have model := except_bind_ok.mpr ⟨merged, union, grouped⟩
  have override := fitModelLen_override fitting
  cases least : (starts.map KVCacheConfig.numBlocks).min? with
  | none =>
    rw [least] at ha
    simp at ha
  | some minNumBlocks =>
    rw [least] at ha
    obtain ⟨shrunk, shrinking, hs⟩ := except_bind_ok.mp ha
    rw [except_pure_ok] at hs
    obtain ⟨rfl, rfl⟩ := Prod.mk.inj hs
    refine ⟨groups, starts, minNumBlocks, model, ?_, least, except_mapM_ok.mp shrinking⟩
    apply (forall₂_comp (except_mapM_ok.mp project) (except_mapM_ok.mp configure)).imp
    rintro worker start ⟨projected, made, configured⟩
    exact configured_of_run (nodup_modelGroups model) override made configured

theorem completeLayout_worker_iff {start config : KVCacheConfig}
    (hd : (allLayers groups).names.Nodup) (configured : Configured vllm fitted groups worker start)
    (shrunk : shrinkConfig fitted minNumBlocks start = .ok config) (least : minNumBlocks ≤ start.numBlocks)
    (set : ∀ numBlocks ∈ vllm.numGpuBlocksOverride, groups ≠ [] → minNumBlocks = numBlocks)
    (hp : layoutKind groups = .general → minNumBlocks ≠ 0) :
    CompleteLayout worker config ↔ PagesMatch (groups.map (projectGroup worker.specs)) ∧
      OverrideFits vllm (groups.map (projectGroup worker.specs)) worker.availableMemory := by
  obtain ⟨laid, count, -⟩ := configured.laid.shrink shrunk
  rw [completeLayout_iff laid (nodup_project hd _) configured.all
    (fun general => count ▸ hp ((general_project worker.specs groups).mp general)), count]
  refine and_congr_right fun _ => ?_
  unfold OverrideFits
  cases chosen : vllm.numGpuBlocksOverride with
  | none =>
    refine iff_of_true ?_ (by simp)
    exact Nat.le_trans (Nat.mul_le_mul_right _ least) (configured.fits chosen)
  | some numBlocks =>
    simp only [Option.mem_some_iff, forall_eq']
    by_cases empty : groups = []
    · subst empty
      simp [blockBytes, layoutKind]
    · rw [set numBlocks chosen empty]

theorem layout_complete_iff (accepted : getKvCacheConfigs vllm workers = .ok (fitted, configs))
    (grouped : modelGroups vllm workers = .ok groups) :
    ((∃ numBlocks, ∀ config ∈ configs, config.numBlocks = numBlocks) ∧ List.Forall₂ CompleteLayout workers configs) ↔
      ∀ worker ∈ workers, PagesMatch (groups.map (projectGroup worker.specs)) ∧
        OverrideFits vllm (groups.map (projectGroup worker.specs)) worker.availableMemory := by
  obtain ⟨groups', starts, minNumBlocks, model, configured, least, shrinking⟩ := accepted_cases accepted
  obtain rfl : groups' = groups := Except.ok.inj (model.symm.trans grouped)
  obtain ⟨attained, below⟩ := List.min?_eq_some_iff.mp least
  -- The worker with the fewest blocks decides what holds of their number.
  obtain ⟨start, member, count⟩ := List.mem_map.mp attained
  obtain ⟨fewest, origin⟩ : ∃ worker, Configured vllm fitted groups' worker start :=
    forall_mem_right (p := fun start => ∃ worker, Configured vllm fitted groups' worker start)
      (configured.imp fun worker _ made => ⟨worker, made⟩) start member
  obtain ⟨result, shrunk⟩ : ∃ config, shrinkConfig fitted minNumBlocks start = .ok config :=
    forall_mem_right (p := fun start => ∃ config, shrinkConfig fitted minNumBlocks start = .ok config)
      (shrinking.flip.imp fun config _ made => ⟨config, made⟩) start member
  have set : ∀ numBlocks ∈ vllm.numGpuBlocksOverride, groups' ≠ [] → minNumBlocks = numBlocks :=
    fun numBlocks chosen nonempty => count.symm.trans (origin.set numBlocks chosen nonempty)
  have positive : layoutKind groups' = .general → minNumBlocks ≠ 0 :=
    fun general => count ▸ (origin.laid.shrink shrunk).2.2 (origin.placed general)
  have bounded := (List.forall₂_and_left starts configs).mpr
    ⟨fun start member => below _ (List.mem_map_of_mem member), shrinking⟩
  have each := forall₂_comp configured bounded
  have counts : List.Forall₂ (fun _ config => config.numBlocks = minNumBlocks) workers configs := by
    apply each.imp
    rintro worker config ⟨start, made, -, shrunk⟩
    exact (made.laid.shrink shrunk).2.1
  rw [and_iff_right ⟨minNumBlocks, forall_mem_right counts⟩]
  apply forall₂_iff_left
  apply each.imp
  rintro worker config ⟨start, made, least, shrunk⟩
  exact completeLayout_worker_iff (nodup_modelGroups model) made shrunk least set positive

end

/-! ### Layouts of small models -/

instance (groups : List KVCacheGroupSpec) : Decidable (PagesMatch groups) := by
  unfold PagesMatch
  split <;> infer_instance

instance (vllm : VllmConfig) (groups : List KVCacheGroupSpec) (availableMemory : Nat) :
    Decidable (OverrideFits vllm groups availableMemory) := by
  unfold OverrideFits
  infer_instance

def bfloat16 : DType := ⟨"bfloat16", 2⟩

def valueHeadSpec (headSizeV : Nat) : LayerSpec :=
  .fullAttention { blockSize := 1, numKvHeads := 1, headSize := 1, dtype := bfloat16 } { headSizeV }

def windowSpec : LayerSpec := .slidingWindow { blockSize := 1, numKvHeads := 1, headSize := 1, dtype := bfloat16 } 1 2

def shortContext : VllmConfig := { maxModelLen := 4, maxNumBatchedTokens := 4 }

def hybridWorkers : List Worker :=
  [⟨[("full.0", valueHeadSpec 1), ("sw.0", windowSpec), ("sw.1", windowSpec)], 100⟩,
    ⟨[("full.1", valueHeadSpec 1), ("sw.2", windowSpec)], 200⟩]

theorem layout_complete_hybrid : ∃ fitted configs, getKvCacheConfigs shortContext hybridWorkers = .ok (fitted, configs) ∧
    (∃ numBlocks, ∀ config ∈ configs, config.numBlocks = numBlocks) ∧ List.Forall₂ CompleteLayout hybridWorkers configs := by
  obtain ⟨⟨fitted, configs⟩, accepted, -⟩ := okWith_iff.mp
    (show okWith (getKvCacheConfigs shortContext hybridWorkers) (fun _ => True) = true by decide)
  obtain ⟨groups, grouped, conditions⟩ := okWith_iff.mp
    (show okWith (modelGroups shortContext hybridWorkers) (fun groups => ∀ worker ∈ hybridWorkers,
      PagesMatch (groups.map (projectGroup worker.specs)) ∧
        OverrideFits shortContext (groups.map (projectGroup worker.specs)) worker.availableMemory) = true by decide)
  exact ⟨fitted, configs, accepted, (layout_complete_iff accepted grouped).mpr conditions⟩

/-- DeepSeek V4 layers: a page of an MLA layer has `584 * 4 / compressRatio` bytes. -/
def mlaSpec (compressRatio : Nat) : LayerSpec :=
  .mlaAttention { blockSize := 4, numKvHeads := 1, headSize := 1, dtype := bfloat16 } { headSizeV := 1 }
    { cacheDtypeStr := some "fp8_ds_mla", compressRatio, modelVersion := some "deepseek_v4" }

def slidingMlaSpec : LayerSpec :=
  .slidingWindowMLA { blockSize := 1, numKvHeads := 1, headSize := 1, dtype := bfloat16 } none 2
    { cacheDtypeStr := some "fp8_ds_mla", modelVersion := some "deepseek_v4" }

/-- The merged spec has the page size of the first layer; and the first stage has no MLA layer with the page size of its
sliding-window layer. -/
theorem layout_incomplete :
    (∃ fitted configs, getKvCacheConfigs shortContext [⟨[("a", valueHeadSpec 1), ("b", valueHeadSpec 2)], 100⟩] =
        .ok (fitted, configs) ∧
      ¬ List.Forall₂ CompleteLayout [⟨[("a", valueHeadSpec 1), ("b", valueHeadSpec 2)], 100⟩] configs) ∧
    ∃ fitted configs, getKvCacheConfigs shortContext
        [⟨[("mla.0", mlaSpec 1), ("sw.0", slidingMlaSpec)], 100000⟩, ⟨[("mla.1", mlaSpec 4)], 100000⟩] = .ok (fitted, configs) ∧
      ¬ List.Forall₂ CompleteLayout
        [⟨[("mla.0", mlaSpec 1), ("sw.0", slidingMlaSpec)], 100000⟩, ⟨[("mla.1", mlaSpec 4)], 100000⟩] configs := by
  constructor
  · obtain ⟨⟨fitted, configs⟩, accepted, small⟩ := okWith_iff.mp
      (show okWith (getKvCacheConfigs shortContext [⟨[("a", valueHeadSpec 1), ("b", valueHeadSpec 2)], 100⟩])
        (fun result => ∀ config ∈ result.2, ∃ tensor ∈ config.kvCacheTensors, ∃ group ∈ config.kvCacheGroups,
          ∃ layer ∈ group.layers, layer.1 ∈ tensor.sharedBy ∧ tensor.size ≠ config.numBlocks * layer.2.pageSizeBytes) = true by
        decide)
    refine ⟨fitted, configs, accepted, fun complete => ?_⟩
    cases complete with
    | cons first _ =>
      obtain ⟨tensor, member, group, inside, layer, within, shared, wrong⟩ := small _ (.head _)
      exact wrong (first.sized tensor member group inside layer within shared)
  obtain ⟨⟨fitted, configs⟩, accepted, missing⟩ := okWith_iff.mp
    (show okWith (getKvCacheConfigs shortContext
        [⟨[("mla.0", mlaSpec 1), ("sw.0", slidingMlaSpec)], 100000⟩, ⟨[("mla.1", mlaSpec 4)], 100000⟩])
      (fun result => ∀ config ∈ result.2, "sw.0" ∉ config.kvCacheTensors.flatMap sharedBy) = true by
      decide)
  refine ⟨fitted, configs, accepted, fun complete => ?_⟩
  cases complete with
  | cons first _ =>
    have once := first.oneTensor "sw.0" (by decide)
    exact missing _ List.mem_cons_self (List.count_pos_iff.mp (by rw [once]; exact one_pos))

end KVOffload.Core
