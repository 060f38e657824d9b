import KVOffload.Core.LayoutSpec
import KVOffload.Core.SingleRequest

/-!
# What is accepted at start-up and what can then run

A request of the length of the model, alone in the manager, gets all its chunks exactly when every worker has one block more
than the request holds at a time: the check at start-up does not count the null block.
-/

namespace KVOffload.Core

open List KVCacheManager LayerSpec

/-- `generate_scheduler_kv_cache_config` for one group: any layer stands for a group of one type. -/
def schedulerSpec : GroupSpec → Option LayerSpec
  | .layer spec => some spec
  | .uniformType _ specs => specs.values.head?

/-- What `Scheduler.__init__` gives to `KVCacheManager`. Two groups have one `layout` if their specs are equal. -/
def schedulerCacheConfig (pool : PoolConfig) (vllm : VllmConfig) (configs : List KVCacheConfig) : Option CacheConfig := do
  let config ← configs.head?
  guard (∀ other ∈ configs, other.numBlocks = config.numBlocks)
  let specs ← config.kvCacheGroups.mapM fun group => schedulerSpec group.kvCacheSpec
  let managed ← specs.mapM fun spec => spec.managed?.map fun kind => { kind with layout := specs.idxOf spec }
  return { pool := { pool with numGpuBlocks := config.numBlocks }
           maxModelLen := vllm.maxModelLen
           maxNumBatchedTokens := vllm.maxNumBatchedTokens
           numGroups := managed.length
           spec := fun g => managed.getD g { blockSize := 1, kind := .fullAttention } }

section

variable {vllm fitted : VllmConfig} {workers : List Worker} {configs : List KVCacheConfig} {groups : List KVCacheGroupSpec}
  {pool : PoolConfig} {cfg : CacheConfig} {s : KVCacheManager} {r : Request} {reserve : Bool}

theorem schedulerCacheConfig_cases (made : schedulerCacheConfig pool vllm configs = some cfg) :
    ∃ config ∈ configs, cfg.pool.numGpuBlocks = config.numBlocks ∧ cfg.maxModelLen = vllm.maxModelLen ∧
      cfg.maxNumBatchedTokens = vllm.maxNumBatchedTokens ∧
      ∀ g < cfg.numGroups, ∃ group ∈ config.kvCacheGroups, ∃ spec kind, schedulerSpec group.kvCacheSpec = some spec ∧
      spec.managed? = some kind ∧ (cfg.spec g).blockSize = kind.blockSize ∧ (cfg.spec g).kind = kind.kind := by
  obtain ⟨config, head, made⟩ := Option.bind_eq_some_iff.mp made
  obtain ⟨_, -, made⟩ := Option.bind_eq_some_iff.mp made
  obtain ⟨specs, chosen, made⟩ := Option.bind_eq_some_iff.mp made
  obtain ⟨managed, kinds, hs⟩ := Option.bind_eq_some_iff.mp made
  cases hs
  refine ⟨config, mem_of_head? head, rfl, rfl, rfl, fun g hi => ?_⟩
  obtain ⟨count, each⟩ := mapM_some_getElem? kinds
  obtain ⟨count', each'⟩ := mapM_some_getElem? chosen
  have known := count ▸ hi
  obtain ⟨kind, here, one⟩ := each g _ (getElem?_eq_getElem known)
  obtain ⟨spec, here', one'⟩ := each' g _ (getElem?_eq_getElem (count' ▸ known))
  obtain ⟨hf, manages, rfl⟩ := Option.map_eq_some_iff.mp one
  refine ⟨_, getElem_mem (count' ▸ known), specs.get ⟨g, known⟩, hf, ?_, manages, ?_⟩
  · rw [one', ← here', getElem?_eq_getElem]
    rfl
  · simp [here]

section

variable (ha : getKvCacheConfigs vllm workers = .ok (fitted, configs)) (grouped : modelGroups vllm workers = .ok groups)

include ha grouped

theorem accepted_numBlocks {config : KVCacheConfig} (hm : config ∈ configs) (n : Nat) :
    n ≤ config.numBlocks ↔
      ∀ worker ∈ workers, HoldsBlocks vllm (groups.map (projectGroup worker.specs)) worker.availableMemory n := by
  obtain ⟨groups', starts, minNumBlocks, model, configured, least, shrinking⟩ := accepted_cases ha
  obtain rfl : groups' = groups := Except.ok.inj (model.symm.trans grouped)
  have counts : List.Forall₂ (fun _ config => config.numBlocks = minNumBlocks) workers configs := by
    apply (forall₂_comp configured shrinking).imp
    rintro worker config ⟨start, made, shrunk⟩
    exact (made.laid.shrink shrunk).2.1
  rw [forall_mem_right counts config hm]
  obtain ⟨attained, hb⟩ := min?_eq_some_iff.mp least
  have smallest : n ≤ minNumBlocks ↔ List.Forall₂ (fun _ start => n ≤ start.numBlocks) workers starts := by
    constructor
    · intro few
      apply forall₂_iff_get.mpr
      refine ⟨configured.length_eq, fun i _ hi => few.trans (hb _ (mem_map_of_mem (get_mem _ _)))⟩
    · intro all
      obtain ⟨start, occurs, count⟩ := mem_map.mp attained
      exact count ▸ forall_mem_right all start occurs
  rw [smallest]
  apply forall₂_iff_left
  exact configured.imp fun worker start made => made.count n

theorem accepted_groups : ∀ config ∈ configs, ∃ specs, config.kvCacheGroups = groups.map (projectGroup specs) := by
  obtain ⟨groups', starts, minNumBlocks, model, configured, -, shrinking⟩ := accepted_cases ha
  obtain rfl : groups' = groups := Except.ok.inj (model.symm.trans grouped)
  have each : List.Forall₂ (fun _ config => ∃ specs, config.kvCacheGroups = groups'.map (projectGroup specs)) workers configs := by
    apply (forall₂_comp configured shrinking).imp
    rintro worker config ⟨start, made, shrunk⟩
    exact ⟨worker.specs, (made.laid.shrink shrunk).1.groups_eq⟩
  exact forall_mem_right each

end

/-- The request of maximum length gets all its chunks if every worker has one block more than it holds at a time. With the
gate, one more than the gate counts as well. -/
theorem max_length_served_iff (accepted : getKvCacheConfigs vllm workers = .ok (fitted, configs))
    (grouped : modelGroups vllm workers = .ok groups) (made : schedulerCacheConfig pool fitted configs = some cfg)
    (valid : cfg.Valid) (attention : ∀ g < cfg.numGroups, (cfg.spec g).kind.Attention)
    (start : KVCacheManager.init cfg = .ok s) (new : r.numComputedTokens = 0) (whole : r.numTokens = fitted.maxModelLen)
    (hashes : cfg.pool.enableCaching → r.blockHashes.length = r.numTokens / cfg.pool.hashBlockSize) :
    (∀ chunks, KVCacheManager.ChunkSchedule cfg chunks → ∃ t, KVCacheManager.serveChunks cfg r reserve chunks s = .ok true t) ↔
      ∀ computed n, 0 < n → n ≤ fitted.maxNumBatchedTokens → computed + n ≤ fitted.maxModelLen → ∀ worker ∈ workers,
        HoldsBlocks vllm (groups.map (projectGroup worker.specs)) worker.availableMemory
          (KVCacheManager.blockDemand cfg computed n + 1) ∧
        (reserve = true → HoldsBlocks vllm (groups.map (projectGroup worker.specs)) worker.availableMemory
          (KVCacheManager.admissionDemand cfg fitted.maxModelLen + 1)) := by
  obtain ⟨config, member, blocks, length, batch, -⟩ := schedulerCacheConfig_cases made
  have holds := accepted_numBlocks accepted grouped member
  rw [KVCacheManager.serveChunks_all_iff valid attention start new (whole.trans length.symm) hashes, blocks, length, batch]
  apply forall₂_congr
  intro computed n
  apply forall₃_congr
  intro _ _ _
  rw [holds, holds]
  exact ⟨fun ⟨demand, gate⟩ worker inside => ⟨demand worker inside, fun on => gate on worker inside⟩,
    fun each => ⟨fun worker inside => (each worker inside).1, fun on worker inside => (each worker inside).2 on⟩⟩

end

instance (vllm : VllmConfig) (groups : List KVCacheGroupSpec) (availableMemory n : Nat) :
    Decidable (HoldsBlocks vllm groups availableMemory n) := by
  unfold HoldsBlocks
  split
  · infer_instance
  · split <;> infer_instance

variable {vllm : VllmConfig}

theorem HoldsBlocks.mono {groups : List KVCacheGroupSpec} {availableMemory m n : Nat}
    (holds : HoldsBlocks vllm groups availableMemory n) (fewer : m ≤ n) : HoldsBlocks vllm groups availableMemory m := by
  unfold HoldsBlocks at *
  split
  · rename_i empty
    rw [if_pos empty] at holds
    exact fewer.trans holds
  · split
    · simp_all only
      exact fewer.trans holds
    · simp_all only
      exact (Nat.mul_le_mul_right _ fewer).trans holds

def oneLayer (availableMemory : Nat) : List Worker := [⟨[("full.0", valueHeadSpec 1)], availableMemory⟩]

def oneLayerConfig (numBlocks : Nat) : KVCacheConfig where
  numBlocks := numBlocks
  kvCacheTensors := [⟨4 * numBlocks, ["full.0"]⟩]
  kvCacheGroups := [⟨[("full.0", valueHeadSpec 1)], .layer (valueHeadSpec 1)⟩]

def singleTokenPool : PoolConfig := { numGpuBlocks := 0, hashBlockSize := 1, scheme := spelledScheme }

def singleTokenCache (numBlocks : Nat) : CacheConfig where
  pool := { singleTokenPool with numGpuBlocks := numBlocks }
  maxModelLen := 4
  maxNumBatchedTokens := 4
  numGroups := 1
  spec g := [{ blockSize := 1, kind := .fullAttention }].getD g { blockSize := 1, kind := .fullAttention }

theorem singleTokenCache_spec (numBlocks g : Nat) :
    (singleTokenCache numBlocks).spec g = { blockSize := 1, kind := .fullAttention } := by
  cases g <;> rfl

theorem singleTokenCache_valid (numBlocks : Nat) : (singleTokenCache numBlocks).Valid where
  blockSize_pos g _ := by
    rw [singleTokenCache_spec]
    exact one_pos
  hashBlockSize_pos := one_pos
  divisible _ g _ := Nat.mod_one _
  unitary _ _ := rfl
  hybrid _ several := absurd rfl several

theorem singleTokenCache_attention (numBlocks : Nat) :
    ∀ g < (singleTokenCache numBlocks).numGroups, ((singleTokenCache numBlocks).spec g).kind.Attention := by
  intro g _
  rw [singleTokenCache_spec]
  exact .fullAttention

def longPrompt : Request :=
  ({ promptWith [] with promptTokenIds := some [1, 2, 3, 4], numPromptTokens := 4, allTokenIds := [1, 2, 3, 4] }).construct
    spelledScheme 1

theorem longPrompt_hashes : longPrompt.blockHashes.length = longPrompt.numTokens / 1 := by decide

theorem accepted_oneLayer (numBlocks : Nat) (enough : numBlocks = 4 ∨ numBlocks = 5) :
    getKvCacheConfigs shortContext (oneLayer (4 * numBlocks)) = .ok (shortContext, [oneLayerConfig numBlocks]) := by
  obtain ⟨result, run, hs⟩ := okWith_iff.mp (show okWith (getKvCacheConfigs shortContext (oneLayer (4 * numBlocks)))
    (fun result => result = (shortContext, [oneLayerConfig numBlocks])) = true by
      rcases enough with rfl | rfl <;> decide)
  rw [run, hs]

theorem blockDemand_singleToken (numBlocks computed n : Nat) :
    blockDemand (singleTokenCache numBlocks) computed n = computed + n := by
  change ∑ g ∈ Finset.range 1, _ = _
  simp [singleTokenCache_spec, cdiv, numSkippedBlocks, getNumSkippedTokens]

theorem max_length_served_oneLayer : ∃ s, getKvCacheConfigs shortContext (oneLayer 20) = .ok (shortContext, [oneLayerConfig 5]) ∧
    schedulerCacheConfig singleTokenPool shortContext [oneLayerConfig 5] = some (singleTokenCache 5) ∧
    KVCacheManager.init (singleTokenCache 5) = .ok s ∧
    ∀ chunks, KVCacheManager.ChunkSchedule (singleTokenCache 5) chunks →
      ∃ t, KVCacheManager.serveChunks (singleTokenCache 5) longPrompt true chunks s = .ok true t := by
  have accepted := accepted_oneLayer 5 (.inr rfl)
  obtain ⟨groups, grouped, fits⟩ := okWith_iff.mp
    (show okWith (modelGroups shortContext (oneLayer 20)) (fun groups => ∀ worker ∈ oneLayer 20,
      HoldsBlocks shortContext (groups.map (projectGroup worker.specs)) worker.availableMemory 5) = true by decide)
  have configured : schedulerCacheConfig singleTokenPool shortContext [oneLayerConfig 5] = some (singleTokenCache 5) := rfl
  refine ⟨_, accepted, configured, rfl, (max_length_served_iff accepted grouped configured (singleTokenCache_valid 5)
    (singleTokenCache_attention 5) rfl rfl rfl fun _ => longPrompt_hashes).mpr ?_⟩
  intro computed n _ _ within worker member
  have small : computed + n ≤ 4 := within
  rw [blockDemand_singleToken]
  exact ⟨(fits worker member).mono (by omega), fun _ => fits worker member⟩

theorem refused_singleToken {n : Nat} {s : KVCacheManager} (start : init (singleTokenCache (n + 1)) = .ok s)
    (schedule : KVCacheManager.ChunkSchedule (singleTokenCache (n + 1)) [n, 1]) :
    ∃ t, serveChunks (singleTokenCache (n + 1)) longPrompt false [n, 1] s = .ok false t := by
  obtain ⟨served, t, run, served_iff⟩ : ∃ served t,
      serveChunks (singleTokenCache (n + 1)) longPrompt false [n, 1] s = .ok served t ∧ (served = true ↔ _) :=
    serveChunks_init (singleTokenCache_valid _) (singleTokenCache_attention _) start rfl rfl (fun _ => longPrompt_hashes)
      schedule.positive schedule.within
  cases served with
  | false => exact ⟨t, run⟩
  | true =>
    have fits := (served_iff.mp rfl).1.2.1
    rw [blockDemand_singleToken] at fits
    have blocks : 0 + n + 1 + 1 ≤ n + 1 := fits
    omega

theorem max_length_refused : ∃ s t, getKvCacheConfigs shortContext (oneLayer 16) = .ok (shortContext, [oneLayerConfig 4]) ∧
    schedulerCacheConfig singleTokenPool shortContext [oneLayerConfig 4] = some (singleTokenCache 4) ∧
    KVCacheManager.init (singleTokenCache 4) = .ok s ∧ KVCacheManager.ChunkSchedule (singleTokenCache 4) [3, 1] ∧
    KVCacheManager.serveChunks (singleTokenCache 4) longPrompt false [3, 1] s = .ok false t := by
  have schedule : KVCacheManager.ChunkSchedule (singleTokenCache 4) [3, 1] := ⟨by decide, by decide, by decide⟩
  obtain ⟨s, start⟩ : ∃ s, KVCacheManager.init (singleTokenCache 4) = .ok s := ⟨_, rfl⟩
  obtain ⟨t, run⟩ := refused_singleToken start schedule
  exact ⟨s, t, accepted_oneLayer 4 (.inl rfl), rfl, start, schedule, run⟩

def LayerSpec.isQuest : LayerSpec → Bool
  | .quest _ _ => true
  | _ => false

def LayerSpecs.AllQuest (specs : LayerSpecs) : Prop := ∀ layer ∈ specs, layer.2.isQuest = true

def GroupSpec.IsQuest : GroupSpec → Prop
  | .layer spec => spec.isQuest = true
  | .uniformType _ _ => False

section

variable {specs : LayerSpecs} {groups : List KVCacheGroupSpec}

theorem LayerSpec.isQuest_iff {spec : LayerSpec} : spec.isQuest = true ↔ ∃ base n, spec = .quest base n := by
  cases spec <;> simp [isQuest]

theorem isQuest_createKvCacheGroupSpecs {grouped : List LayerSpecs} (all : ∀ layers ∈ grouped, LayerSpecs.AllQuest layers)
    (run : createKvCacheGroupSpecs grouped = .ok groups) : ∀ group ∈ groups, group.kvCacheSpec.IsQuest := by
  have each := (forall₂_and_left grouped groups).mpr ⟨all, except_mapM_ok.mp run⟩
  have quest : List.Forall₂ (fun _ group => group.kvCacheSpec.IsQuest) grouped groups := by
    apply each.imp
    rintro layers group ⟨quests, one⟩
    cases layers with
    | nil => simp at one
    | cons first layers =>
      obtain ⟨base, n, spec⟩ := isQuest_iff.mp (quests first (.head _))
      obtain ⟨merged, merge, hs⟩ := except_bind_ok.mp one
      rw [spec] at merge
      obtain ⟨_, -, equal⟩ := except_bind_ok.mp merge
      rw [except_pure_ok] at hs equal
      rw [← hs, ← equal]
      rfl
  exact forall_mem_right quest

theorem allQuest_unifyKvCacheSpecPageSize {unified : LayerSpecs} (all : specs.AllQuest)
    (run : unifyKvCacheSpecPageSize specs = .ok unified) : unified.AllQuest := by
  unfold unifyKvCacheSpecPageSize at run
  split at run
  · rw [except_pure_ok] at run
    exact run ▸ all
  have each := (forall₂_and_left specs unified).mpr ⟨all, except_mapM_ok.mp run⟩
  have quest : List.Forall₂ (fun _ layer => layer.2.isQuest = true) specs unified := by
    apply each.imp
    rintro layer new ⟨quest, one⟩
    obtain ⟨base, n, spec⟩ := isQuest_iff.mp quest
    obtain ⟨changed, unify, hs⟩ := except_bind_ok.mp one
    rw [except_pure_ok] at hs
    rw [← hs]
    unfold unifyPageSize at unify
    split at unify
    · rw [except_pure_ok] at unify
      exact unify ▸ quest
    · obtain ⟨_, -, unify⟩ := except_bind_ok.mp unify
      obtain ⟨_, -, unify⟩ := except_bind_ok.mp unify
      obtain ⟨_, -, unify⟩ := except_bind_ok.mp unify
      rw [except_pure_ok, spec] at unify
      rw [← unify]
      rfl
  exact forall_mem_right quest

theorem isQuest_groupsUniformPageSize (all : specs.AllQuest) (run : groupsUniformPageSize specs = .ok groups) :
    ∀ group ∈ groups, group.kvCacheSpec.IsQuest := by
  obtain ⟨_, -, run⟩ := except_bind_ok.mp run
  refine isQuest_createKvCacheGroupSpecs ?_ run
  intro layers hm layer hi
  obtain ⟨hs, bucketed, sliced⟩ := mem_flatMap.mp hm
  obtain ⟨i, -, rfl⟩ := mem_map.mp sliced
  have kept : layer ∈ hs.2 := by
    obtain ⟨entry, chosen, rfl⟩ := mem_map.mp hi
    exact fst_mem_of_mem_zipIdx (mem_of_mem_filter chosen)
  exact all layer ((perm_buckets Prod.snd specs).subset (mem_flatMap.mpr ⟨hs, bucketed, kept⟩))

theorem isUniformType_quest (all : specs.AllQuest) : specs.isUniformType ≠ .ok true := by
  intro uniform
  unfold LayerSpecs.isUniformType at uniform
  cases values : specs.values with
  | nil => simp [values] at uniform
  | cons one rest =>
    have first : one ∈ specs.values := values ▸ (.head _)
    obtain ⟨layer, hm, rfl⟩ := mem_map.mp first
    obtain ⟨base, n, spec⟩ := isQuest_iff.mp (all layer hm)
    simp only [values, spec] at uniform
    split at uniform <;> simp at uniform

theorem any_quest {p : LayerSpec → Bool} (no : ∀ base n, p (.quest base n) = false) (all : specs.AllQuest) :
    specs.values.any p = false := by
  apply any_eq_false.mpr
  intro spec hm holds
  obtain ⟨layer, hi, rfl⟩ := mem_map.mp hm
  obtain ⟨base, n, hs⟩ := isQuest_iff.mp (all layer hi)
  rw [hs, no] at holds
  cases holds

theorem isQuest_groupsGeneral (all : specs.AllQuest) (run : groupsGeneral specs = .ok groups) :
    ∀ group ∈ groups, group.kvCacheSpec.IsQuest := by
  have visible : ∀ layer ∈ specs, layer.2.isHiddenState = false := by
    intro layer hm
    obtain ⟨base, n, hs⟩ := isQuest_iff.mp (all layer hm)
    rw [hs]
    rfl
  have hidden : specs.filter (fun layer => layer.2.isHiddenState) = [] := filter_eq_nil_iff.mpr fun layer hm => by
    simp [visible layer hm]
  obtain ⟨filtered, unify, run⟩ := except_bind_ok.mp run
  obtain ⟨made, grouping, run⟩ := except_bind_ok.mp run
  rw [if_pos hidden, except_pure_ok] at run
  rw [← run]
  exact isQuest_groupsUniformPageSize (allQuest_unifyKvCacheSpecPageSize
    (fun layer hm => all layer (mem_of_mem_filter hm)) unify) grouping

theorem isQuest_groupLayers (all : specs.AllQuest) (run : groupLayers specs = .ok groups) :
    ∀ group ∈ groups, group.kvCacheSpec.IsQuest := by
  unfold groupLayers at run
  split at run
  · rw [except_pure_ok] at run
    rw [← run]
    exact fun _ never => absurd never not_mem_nil
  obtain ⟨uniformSpec, -, run⟩ := except_bind_ok.mp run
  split at run
  · exact isQuest_createKvCacheGroupSpecs (by simpa using all) run
  obtain ⟨uniformType, kind, run⟩ := except_bind_ok.mp run
  split at run
  · rename_i uniform
    exact absurd (uniform ▸ kind) (isUniformType_quest all)
  obtain ⟨grouped, tried, run⟩ := except_bind_ok.mp run
  have noMLA : specs.values.any isSlidingWindowMLA = false := any_quest (fun _ _ => rfl) all
  unfold groupAndUnifyKvCacheSpecs at tried
  rw [if_pos (by simp [noMLA]), except_pure_ok] at tried
  subst tried
  exact isQuest_groupsGeneral all run

theorem isQuest_getKvCacheGroups (all : specs.AllQuest) (run : getKvCacheGroups vllm specs = .ok groups) :
    ∀ group ∈ groups, group.kvCacheSpec.IsQuest := by
  unfold getKvCacheGroups at run
  split at run
  · obtain ⟨unified, unify, run⟩ := except_bind_ok.mp run
    have noFull : specs.values.any isFullAttention = false := any_quest (fun _ _ => rfl) all
    have hs : unified = specs := by
      obtain ⟨oneType, -, unify⟩ := except_bind_ok.mp unify
      split at unify
      · exact (except_pure_ok.mp unify).symm
      obtain ⟨_, -, unify⟩ := except_bind_ok.mp unify
      obtain ⟨oneType', -, unify⟩ := except_bind_ok.mp unify
      obtain ⟨_, -, hs⟩ := except_bind_ok.mp unify
      rw [except_pure_ok, if_neg (by simp [noFull])] at hs
      exact hs.symm
    exact isQuest_groupLayers (hs ▸ all) run
  · exact isQuest_groupLayers all run

theorem mem_mergeWorkers {workers : List Worker} {merged : LayerSpecs} (run : mergeWorkers workers = .ok merged) :
    ∀ layer ∈ merged, ∃ worker ∈ workers, layer ∈ worker.specs := by
  have hi : ∀ layer ∈ merged, layer ∈ workers.flatMap Worker.specs := by
    apply foldlM_ok (I := fun done merged => ∀ layer ∈ merged, layer ∈ done) _ (fun _ never => never) run
    intro done entry before after sofar one layer hm
    unfold mergeLayer at one
    split at one
    · rw [except_pure_ok] at one
      rw [← one] at hm
      rcases mem_append.mp hm with old | new
      · exact mem_append_left _ (sofar layer old)
      · exact mem_append_right _ new
    · obtain ⟨_, -, hs⟩ := except_bind_ok.mp one
      rw [except_pure_ok] at hs
      exact mem_append_left _ (sofar layer (hs ▸ hm))
  exact fun layer hm => mem_flatMap.mp (hi layer hm)

theorem IsQuest.project {group : KVCacheGroupSpec} (quest : group.kvCacheSpec.IsQuest) (specs : LayerSpecs) :
    (projectGroup specs group).kvCacheSpec = group.kvCacheSpec := by
  unfold projectGroup
  split
  · rename_i uniform
    rw [uniform] at quest
    exact quest.elim
  · rename_i hs
    exact hs.symm

variable {vllm fitted : VllmConfig} {workers : List Worker} {configs : List KVCacheConfig} {pool : PoolConfig} {cfg : CacheConfig}
  {s : KVCacheManager} {r : Request} {reserve : Bool}

theorem fullAttention_of_quest (ha : getKvCacheConfigs vllm workers = .ok (fitted, configs))
    (grouped : modelGroups vllm workers = .ok groups) (made : schedulerCacheConfig pool fitted configs = some cfg)
    (quest : ∀ worker ∈ workers, worker.specs.AllQuest) : ∀ g < cfg.numGroups, (cfg.spec g).kind = .fullAttention := by
  intro g hi
  obtain ⟨config, hm, -, -, -, each⟩ := schedulerCacheConfig_cases made
  obtain ⟨group, occurs, spec, kind, chosen, managed, -, hs⟩ := each g hi
  obtain ⟨specs, projected⟩ := accepted_groups ha grouped config hm
  rw [projected] at occurs
  obtain ⟨original, known, rfl⟩ := mem_map.mp occurs
  obtain ⟨merged, union, grouping⟩ := except_bind_ok.mp grouped
  have all : merged.AllQuest := by
    intro layer hi
    obtain ⟨worker, works, here⟩ := mem_mergeWorkers union layer hi
    exact quest worker works layer here
  have isQuest := isQuest_getKvCacheGroups all grouping original known
  rw [IsQuest.project isQuest] at chosen
  rw [hs]
  cases form : original.kvCacheSpec with
  | uniformType =>
    rw [form] at isQuest
    exact isQuest.elim
  | layer one =>
    rw [form] at isQuest chosen
    cases chosen
    obtain ⟨base, n, rfl⟩ := isQuest_iff.mp isQuest
    cases managed
    rfl

def sequenceBlocks (cfg : CacheConfig) (numTokens : Nat) : Nat :=
  ∑ g ∈ Finset.range cfg.numGroups, cdiv numTokens (cfg.spec g).blockSize

variable (full : ∀ g < cfg.numGroups, (cfg.spec g).kind = .fullAttention)

include full in
theorem blockDemand_fullAttention (computed n : Nat) :
    blockDemand cfg computed n = sequenceBlocks cfg (computed + n) := by
  refine Finset.sum_congr rfl fun g hm => ?_
  simp [numSkippedBlocks, getNumSkippedTokens, full g (Finset.mem_range.mp hm)]

include full in
theorem admissionDemand_fullAttention (numTokens : Nat) :
    admissionDemand cfg numTokens = sequenceBlocks cfg numTokens := by
  refine Finset.sum_congr rfl fun g hm => ?_
  simp [admissionBlocks, maxAdmissionBlocks, full g (Finset.mem_range.mp hm)]

/-- A model of Quest layers serves its length if every worker has one block more than the whole sequence, whatever the working
set of a layer is. -/
theorem quest_max_length_served_iff (accepted : getKvCacheConfigs vllm workers = .ok (fitted, configs))
    (grouped : modelGroups vllm workers = .ok groups) (quest : ∀ worker ∈ workers, worker.specs.AllQuest)
    (made : schedulerCacheConfig pool fitted configs = some cfg) (valid : cfg.Valid)
    (start : KVCacheManager.init cfg = .ok s) (new : r.numComputedTokens = 0) (whole : r.numTokens = fitted.maxModelLen)
    (hashes : cfg.pool.enableCaching → r.blockHashes.length = r.numTokens / cfg.pool.hashBlockSize) :
    (∀ chunks, KVCacheManager.ChunkSchedule cfg chunks → ∃ t, KVCacheManager.serveChunks cfg r reserve chunks s = .ok true t) ↔
      (0 < fitted.maxNumBatchedTokens → 0 < fitted.maxModelLen → ∀ worker ∈ workers,
        HoldsBlocks vllm (groups.map (projectGroup worker.specs)) worker.availableMemory
          (sequenceBlocks cfg fitted.maxModelLen + 1)) := by
  have full := fullAttention_of_quest accepted grouped made quest
  have attention : ∀ g < cfg.numGroups, (cfg.spec g).kind.Attention := fun g inside => full g inside ▸ .fullAttention
  obtain ⟨config, member, blocks, length, batch, -⟩ := schedulerCacheConfig_cases made
  rw [KVCacheManager.serveChunks_all_iff valid attention start new (whole.trans length.symm) hashes, blocks, length, batch]
  simp only [blockDemand_fullAttention full, admissionDemand_fullAttention full, ← accepted_numBlocks accepted grouped member]
  constructor
  · intro each batched long
    have last := (each (fitted.maxModelLen - 1) 1 one_pos batched (by omega)).1
    rwa [Nat.sub_add_cancel long] at last
  · intro enough computed n positive batched within
    have all := enough (by omega) (by omega)
    have fewer : sequenceBlocks cfg _ ≤ sequenceBlocks cfg _ := Finset.sum_le_sum fun g _ => cdiv_mono (cfg.spec g).blockSize within
    exact ⟨by omega, fun _ => all⟩

end

def questLayer (availableMemory : Nat) : List Worker :=
  [⟨[("quest.0", .quest { blockSize := 1, numKvHeads := 1, headSize := 1, dtype := bfloat16 } 1)], availableMemory⟩]

def questConfig (numBlocks : Nat) : KVCacheConfig where
  numBlocks := numBlocks
  kvCacheTensors := [⟨4 * numBlocks, ["quest.0"]⟩]
  kvCacheGroups := (questLayer 0).map fun worker => ⟨worker.specs,
    .layer (.quest { blockSize := 1, numKvHeads := 1, headSize := 1, dtype := bfloat16 } 1)⟩

theorem questLayer_allQuest (availableMemory : Nat) : ∀ worker ∈ questLayer availableMemory, worker.specs.AllQuest := by
  intro worker hm layer hi
  rw [mem_singleton.mp hm] at hi
  rw [mem_singleton.mp hi]
  rfl

theorem accepted_questLayer (numBlocks : Nat) (enough : numBlocks = 2 ∨ numBlocks = 5) :
    getKvCacheConfigs shortContext (questLayer (4 * numBlocks)) = .ok (shortContext, [questConfig numBlocks]) := by
  obtain ⟨result, run, hs⟩ := okWith_iff.mp (show okWith (getKvCacheConfigs shortContext (questLayer (4 * numBlocks)))
    (fun result => result = (shortContext, [questConfig numBlocks])) = true by
      rcases enough with rfl | rfl <;> decide)
  rw [run, hs]

theorem quest_max_length_served_questLayer : ∃ s,
    getKvCacheConfigs shortContext (questLayer 20) = .ok (shortContext, [questConfig 5]) ∧
    schedulerCacheConfig singleTokenPool shortContext [questConfig 5] = some (singleTokenCache 5) ∧
    KVCacheManager.init (singleTokenCache 5) = .ok s ∧
    ∀ chunks, KVCacheManager.ChunkSchedule (singleTokenCache 5) chunks →
      ∃ t, KVCacheManager.serveChunks (singleTokenCache 5) longPrompt true chunks s = .ok true t := by
  have accepted := accepted_questLayer 5 (.inr rfl)
  obtain ⟨groups, grouped, fits⟩ := okWith_iff.mp
    (show okWith (modelGroups shortContext (questLayer 20)) (fun groups => ∀ worker ∈ questLayer 20,
      HoldsBlocks shortContext (groups.map (projectGroup worker.specs)) worker.availableMemory 5) = true by decide)
  have configured : schedulerCacheConfig singleTokenPool shortContext [questConfig 5] = some (singleTokenCache 5) := rfl
  exact ⟨_, accepted, configured, rfl, (quest_max_length_served_iff accepted grouped (questLayer_allQuest 20) configured
    (singleTokenCache_valid 5) rfl rfl rfl fun _ => longPrompt_hashes).mpr fun _ _ worker member => fits worker member⟩

theorem quest_max_length_refused : ∃ s t,
    getKvCacheConfigs shortContext (questLayer 8) = .ok (shortContext, [questConfig 2]) ∧
    schedulerCacheConfig singleTokenPool shortContext [questConfig 2] = some (singleTokenCache 2) ∧
    KVCacheManager.init (singleTokenCache 2) = .ok s ∧ KVCacheManager.ChunkSchedule (singleTokenCache 2) [1, 1] ∧
    KVCacheManager.serveChunks (singleTokenCache 2) longPrompt false [1, 1] s = .ok false t := by
  have schedule : KVCacheManager.ChunkSchedule (singleTokenCache 2) [1, 1] := ⟨by decide, by decide, by decide⟩
  obtain ⟨s, start⟩ : ∃ s, KVCacheManager.init (singleTokenCache 2) = .ok s := ⟨_, rfl⟩
  obtain ⟨t, run⟩ := refused_singleToken start schedule
  exact ⟨s, t, accepted_questLayer 2 (.inl rfl), rfl, start, schedule, run⟩

end KVOffload.Core
