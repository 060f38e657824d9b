import KVOffload.Core.CacheLayout

/-!
# What the groups of a model keep of its layers

No strategy of `get_kv_cache_groups` puts a layer in two groups or makes one up.
-/

namespace KVOffload.Core

open List LayerSpecs

def allLayers (groups : List KVCacheGroupSpec) : LayerSpecs := groups.flatMap KVCacheGroupSpec.layers

theorem names_append (a b : LayerSpecs) : names (a ++ b) = a.names ++ b.names := map_append

def DrawnFrom (groups : List KVCacheGroupSpec) (specs : LayerSpecs) : Prop := (allLayers groups).names.Subperm specs.names

section

variable {specs unified : LayerSpecs} {groups : List KVCacheGroupSpec} {numLayerTuples : Nat}
  {sizes : List Nat}

theorem createKvCacheGroupSpecs_layers {grouped : List LayerSpecs} (run : createKvCacheGroupSpecs grouped = .ok groups) :
    groups.map KVCacheGroupSpec.layers = grouped := by
  rw [← map_id grouped]
  apply map_eq_of_mapM _ run
  intro layers group one
  cases layers with
  | nil => simp at one
  | cons first layers =>
    simp only [except_bind_ok, except_pure_ok] at one
    obtain ⟨merged, -, rfl⟩ := one
    rfl

theorem names_unifyKvCacheSpecPageSize (run : unifyKvCacheSpecPageSize specs = .ok unified) :
    unified.names = specs.names := by
  unfold unifyKvCacheSpecPageSize at run
  split at run
  · rw [except_pure_ok] at run
    rw [run]
  · apply map_eq_of_mapM _ run
    intro entry new one
    simp only [except_bind_ok, except_pure_ok] at one
    obtain ⟨spec, -, rfl⟩ := one
    rfl

theorem drawnFrom_groupsUniformPageSize (run : groupsUniformPageSize specs = .ok groups) : DrawnFrom groups specs := by
  obtain ⟨_, -, run⟩ := except_bind_ok.mp run
  have layers := createKvCacheGroupSpecs_layers run
  generalize groupSizeOf ((buckets Prod.snd specs).map fun hs => hs.2.length) = groupSize at layers
  have slices : (allLayers groups).Subperm ((buckets Prod.snd specs).flatMap Prod.snd) := by
    unfold allLayers
    rw [flatMap_def, layers, ← flatMap_id, flatMap_assoc]
    apply subperm_flatMap_left
    intro part _
    simpa [flatMap_map] using subperm_strided (cdiv part.2.length groupSize) part.2
  exact subperm_map (slices.trans (perm_buckets Prod.snd specs).subperm) Prod.fst

theorem drawnFrom_splitSlidingGroup
    (run : splitSlidingGroup sizes numLayerTuples specs = .ok groups) : DrawnFrom groups specs := by
  obtain ⟨_, -, run⟩ := except_bind_ok.mp run
  obtain ⟨_, level, run⟩ := except_bind_ok.mp run
  generalize padding : (specs.map fun entry => (entry.1, padToCandidate sizes entry.2)) = padded at level run
  have sameNames : padded.map Prod.fst = specs.names := by
    rw [← padding]
    simp [names]
  generalize parts : (buckets (fun entry => entry.2.pageSizeBytes) padded).map Prod.snd = rows
    at level run
  rw [require_ok] at level
  generalize (rows.headD []).length = n at level run
  generalize cdiv n numLayerTuples = numTupleGroups at run
  have layers : groups.map KVCacheGroupSpec.layers =
      (range numTupleGroups).map fun i => (strided numTupleGroups i ((range n).map (entriesAt rows))).flatten := by
    apply map_eq_of_mapM _ run
    intro i group one
    obtain ⟨_, -, hs⟩ := except_bind_ok.mp one
    rw [except_pure_ok] at hs
    rw [← hs]
    rfl
  have slices : (allLayers groups).Subperm rows.flatten := by
    have tuples := perm_entriesAt fun row hm => (level row hm).le
    have grouped : allLayers groups = ((range numTupleGroups).flatMap fun i =>
        strided numTupleGroups i ((range n).map (entriesAt rows))).flatMap id := by
      unfold allLayers
      rw [flatMap_assoc, flatMap_def, layers, flatMap_def]
      simp
    rw [grouped]
    refine List.Subperm.trans ?_ tuples.subperm
    rw [flatMap_def (l := range n), ← flatMap_id]
    exact subperm_flatMap (subperm_strided numTupleGroups _) id
  have back : rows.flatten.Perm padded := by
    rw [← parts]
    exact perm_buckets _ padded
  have named := subperm_map (slices.trans back.subperm) Prod.fst
  rw [sameNames] at named
  exact named

theorem isMLAAttention_of_sliding {spec : LayerSpec} (sliding : spec.isSlidingWindowMLA = true) : spec.isMLAAttention = false := by
  cases spec with
  | slidingWindowMLA base headSizeV window mla => rfl
  | _ => cases sliding

theorem names_filter_subperm {p q : LayerName × LayerSpec → Bool} (exclusive : ∀ entry, q entry = true → p entry = false)
    (specs : LayerSpecs) : (names (specs.filter p) ++ names (specs.filter q)).Subperm specs.names := by
  have rest : (specs.filter q).Sublist (specs.filter fun entry => !p entry) := by
    apply monotone_filter_right
    intro entry holds
    simp [exclusive entry holds]
  have parts := (List.Sublist.subperm (rest.append_left _)).trans (filter_append_perm p specs).subperm
  rw [← names_append]
  exact subperm_map parts Prod.fst

theorem allLayers_append (a b : List KVCacheGroupSpec) : allLayers (a ++ b) = allLayers a ++ allLayers b := flatMap_append

variable {slidingSpecs : List LayerSpecs} {mlaSpecs : LayerSpecs}

theorem drawnFrom_splitAll
    {split : List (List KVCacheGroupSpec)} (run : slidingSpecs.mapM (splitSlidingGroup sizes numLayerTuples) = .ok split) :
    (allLayers split.flatten).names.Subperm (names slidingSpecs.flatten) := by
  have all := except_mapM_ok.mp run
  clear run
  induction all with
  | nil => exact nil_subperm
  | cons one later ih =>
    rw [flatten_cons, flatten_cons, allLayers_append, names_append, names_append]
    exact List.Subperm.append (drawnFrom_splitSlidingGroup one) ih

theorem drawnFrom_groupsUniformGroups (run : groupsUniformGroups mlaSpecs slidingSpecs = .ok groups) :
    (allLayers groups).names.Subperm (mlaSpecs.names ++ names slidingSpecs.flatten) := by
  obtain ⟨numLayerTuples, -, run⟩ := except_bind_ok.mp run
  obtain ⟨split, each, hs⟩ := except_bind_ok.mp run
  rw [except_pure_ok] at hs
  rw [← hs]
  have first : allLayers (uniformGroup mlaSpecs :: split.flatten) = mlaSpecs ++ allLayers split.flatten := rfl
  rw [first, names_append]
  exact List.Subperm.append (List.Subperm.refl _) (drawnFrom_splitAll each)

theorem drawnFrom_groupAndUnify
    (run : groupAndUnifyKvCacheSpecs specs = .ok (some (mlaSpecs, slidingSpecs))) :
    (mlaSpecs.names ++ names slidingSpecs.flatten).Subperm specs.names := by
  unfold groupAndUnifyKvCacheSpecs at run
  split at run
  · simp at run
  · obtain ⟨_, -, run⟩ := except_bind_ok.mp run
    obtain ⟨_, -, hs⟩ := except_bind_ok.mp run
    obtain ⟨rfl, rfl⟩ := hs
    have sliding := (perm_buckets (fun entry => (entry.2.blockSize, entry.2.slidingWindow?))
      (specs.filter fun entry => entry.2.isSlidingWindowMLA)).map Prod.fst
    refine (List.Perm.subperm (sliding.append_left _)).trans (names_filter_subperm ?_ specs)
    intro entry holds
    exact isMLAAttention_of_sliding holds

theorem drawnFrom_groupsGeneral (run : groupsGeneral specs = .ok groups) : DrawnFrom groups specs := by
  obtain ⟨filtered, unified, run⟩ := except_bind_ok.mp run
  obtain ⟨visible, grouped, run⟩ := except_bind_ok.mp run
  have here := drawnFrom_groupsUniformPageSize grouped
  unfold DrawnFrom at here
  rw [names_unifyKvCacheSpecPageSize unified] at here
  split at run
  · rw [except_pure_ok] at run
    rw [← run]
    exact here.trans (List.Sublist.subperm (filter_sublist.map Prod.fst))
  obtain ⟨commonPage, -, run⟩ := except_bind_ok.mp run
  obtain ⟨hidden, each, hs⟩ := except_bind_ok.mp run
  rw [except_pure_ok] at hs
  have added : (allLayers hidden).names = names (specs.filter fun entry => entry.2.isHiddenState) := by
    have single : hidden.map (fun group => group.layers.map Prod.fst) =
        (specs.filter fun entry => entry.2.isHiddenState).map (fun entry => [entry.1]) := ?_
    · unfold allLayers names
      rw [map_flatMap, flatMap_def, single, ← flatMap_def, ← map_eq_flatMap]
    · apply map_eq_of_mapM _ each
      rintro entry group one
      obtain ⟨_, -, rest⟩ := except_bind_ok.mp one
      obtain ⟨_, -, made⟩ := except_bind_ok.mp rest
      rw [except_pure_ok] at made
      rw [← made]
      rfl
  rw [← hs]
  unfold DrawnFrom
  rw [allLayers_append, names_append, added]
  refine (List.Subperm.append here (List.Subperm.refl _)).trans (names_filter_subperm ?_ specs)
  rintro entry holds
  simp [holds]

theorem drawnFrom_groupLayers (run : groupLayers specs = .ok groups) : DrawnFrom groups specs := by
  unfold groupLayers at run
  split at run
  · rw [except_pure_ok] at run
    rw [← run]
    exact nil_subperm
  obtain ⟨uniformSpec, -, run⟩ := except_bind_ok.mp run
  split at run
  · have layers := createKvCacheGroupSpecs_layers run
    unfold DrawnFrom allLayers
    rw [flatMap_def, layers, flatten_singleton]
  obtain ⟨uniformType, -, run⟩ := except_bind_ok.mp run
  split at run
  · rw [except_pure_ok] at run
    have one : allLayers groups = specs := by
      rw [← run]
      exact append_nil specs
    unfold DrawnFrom
    rw [one]
  obtain ⟨grouped, tried, run⟩ := except_bind_ok.mp run
  match grouped, run with
  | some (mlaSpecs, slidingSpecs), run => exact (drawnFrom_groupsUniformGroups run).trans (drawnFrom_groupAndUnify tried)
  | none, run => exact drawnFrom_groupsGeneral run

theorem names_unifyHybrid (run : unifyHybridKvCacheSpecs specs = .ok unified) :
    unified.names = specs.names := by
  obtain ⟨oneType, -, run⟩ := except_bind_ok.mp run
  split at run
  · rw [except_pure_ok] at run
    rw [run]
  obtain ⟨_, -, run⟩ := except_bind_ok.mp run
  obtain ⟨oneType', -, run⟩ := except_bind_ok.mp run
  obtain ⟨_, -, hs⟩ := except_bind_ok.mp run
  rw [except_pure_ok] at hs
  rw [← hs]
  split
  · simp [names]
  · rfl

variable {vllm : VllmConfig}

theorem drawnFrom_getKvCacheGroups (run : getKvCacheGroups vllm specs = .ok groups) :
    DrawnFrom groups specs := by
  unfold getKvCacheGroups at run
  split at run
  · obtain ⟨unified, converted, run⟩ := except_bind_ok.mp run
    have drawn := drawnFrom_groupLayers run
    unfold DrawnFrom at drawn ⊢
    rwa [names_unifyHybrid converted] at drawn
  · exact drawnFrom_groupLayers run

end

theorem nodup_mergeLayer {merged merged' : LayerSpecs} {entry : LayerName × LayerSpec} (hd : merged.names.Nodup)
    (run : mergeLayer merged entry = .ok merged') : merged'.names.Nodup := by
  unfold mergeLayer at run
  split at run
  · rename_i absent
    rw [except_pure_ok] at run
    rw [← run, names_append]
    refine nodup_append'.mpr ⟨hd, nodup_singleton _, ?_⟩
    intro name known new
    obtain ⟨hf, hm, named⟩ := mem_map.mp known
    have clash := lookup_eq_none_iff.mp absent hf hm
    simp only [names, map_cons, map_nil, mem_singleton] at new
    simp [named, new] at clash
  · obtain ⟨_, -, hs⟩ := except_bind_ok.mp run
    rw [except_pure_ok] at hs
    exact hs ▸ hd

variable {workers : List Worker}

theorem nodup_mergeWorkers {merged : LayerSpecs} (run : mergeWorkers workers = .ok merged) :
    merged.names.Nodup :=
  foldlM_ok (I := fun _ merged => merged.names.Nodup) (fun _ _ _ _ hd one => nodup_mergeLayer hd one)
    nodup_nil run

def modelGroups (vllm : VllmConfig) (workers : List Worker) : Except ConfigError (List KVCacheGroupSpec) := do
  getKvCacheGroups vllm (← mergeWorkers workers)

variable {groups : List KVCacheGroupSpec}

theorem nodup_modelGroups
    (run : modelGroups vllm workers = .ok groups) : (allLayers groups).names.Nodup := by
  obtain ⟨merged, union, grouped⟩ := except_bind_ok.mp run
  obtain ⟨names, hs, hi⟩ := drawnFrom_getKvCacheGroups grouped
  exact hs.nodup_iff.mp ((nodup_mergeWorkers union).sublist hi)

@[simp] theorem projectGroup_layers (specs : LayerSpecs) (group : KVCacheGroupSpec) :
    (projectGroup specs group).layers = group.layers.filter fun entry => entry.1 ∈ specs.names := by
  unfold projectGroup
  split <;> rfl

theorem allLayers_project (specs : LayerSpecs) (groups : List KVCacheGroupSpec) :
    allLayers (groups.map (projectGroup specs)) = (allLayers groups).filter fun entry => entry.1 ∈ specs.names := by
  unfold allLayers
  simp [flatMap_map, filter_flatMap]

theorem perm_project {specs : LayerSpecs} (hd : (allLayers groups).names.Nodup)
    (complete : ((groups.map (projectGroup specs)).map fun group => group.layers.length).sum = specs.length) :
    (allLayers (groups.map (projectGroup specs))).names.Perm specs.names := by
  have here : (allLayers (groups.map (projectGroup specs))).names.Nodup := by
    rw [allLayers_project]
    exact hd.sublist (filter_sublist.map Prod.fst)
  have hi : (allLayers (groups.map (projectGroup specs))).names ⊆ specs.names := by
    intro name hm
    rw [allLayers_project] at hm
    obtain ⟨entry, kept, rfl⟩ := mem_map.mp hm
    simpa using (mem_filter.mp kept).2
  apply (here.subperm hi).perm_of_length_le
  have count : (allLayers (groups.map (projectGroup specs))).length = specs.length := by
    unfold allLayers
    rw [length_flatMap]
    exact complete
  simp [names, count]

end KVOffload.Core
