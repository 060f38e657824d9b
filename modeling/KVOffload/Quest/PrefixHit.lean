import KVOffload.Core.StartupRun
import KVOffload.Quest.Chunked

/-!
# Prefix caching with Quest layers

A group of Quest layers gets the manager of full attention, whose lookup asserts the class of its spec. With prefix caching on,
a request that reads the cache ends in the assertion.
-/

namespace KVOffload.Quest

open KVOffload.Core List

inductive UnsupportedModelPolicy where
  | error
  | fallback
deriving DecidableEq, Repr

structure ModelFacts where
  architecture : Option String
  isMla : Bool := false
  hasSlidingWindow : Bool := false

structure QuestOptions where
  enabled : Bool := true
  topK : Int
  gpuCacheBlocksPerSeq : Int
  footprintKvshare : Bool := false
  unsupportedModelPolicy : UnsupportedModelPolicy := .error

def supportedModelFamilies : List String := ["llama", "mistral", "qwen2", "qwen2.5", "yi"]

/-- `str(architecture).lower().removesuffix("forcausallm")` -/
def normalizedArchitecture (architecture : String) : String :=
  let lower := architecture.toList.map Char.toLower
  let suffix := "forcausallm".toList
  String.ofList (if suffix.isSuffixOf lower then lower.take (lower.length - suffix.length) else lower)

def checkModelCompat (model : ModelFacts) : List String :=
  (match model.architecture with
    | none => ["Quest requires model_config.architecture to be set; got None"]
    | some architecture =>
      if normalizedArchitecture architecture ∈ supportedModelFamilies then []
      else [s!"Quest does not yet support architecture '{architecture}'. " ++
        "Supported: ['llama', 'mistral', 'qwen2', 'qwen2.5', 'yi']"]) ++
  (if model.isMla then ["Quest does not yet support MLA models"] else []) ++
  if model.hasSlidingWindow then ["Quest does not yet support sliding window attention"] else []

/-- `validate_quest_configuration`; `none` is a configuration without Quest. -/
def validateQuestConfiguration (model : ModelFacts) (blockSize : Nat) (enablePrefixCaching : Bool) :
    Option QuestOptions → List String
  | none => []
  | some quest =>
    if ¬ quest.enabled then []
    else
      (if blockSize % 256 ≠ 0 then
        [s!"cache_config.block_size={blockSize} is not a multiple of 256. flash_attn paged kernels (FA2/FA3) require " ++
          "block_size % 256 == 0. Set --block-size 256 or larger."] else []) ++
      (if quest.footprintKvshare ∧ enablePrefixCaching then
        ["footprint_kvshare requires prefix caching to be OFF (enable_prefix_caching=False). The shared Quest layers reuse " ++
          "one physical scratch tensor, so prefix-cache reuse of those blocks is silent corruption. This is a TEMPORARY " ++
          "constraint of the kv-share-eviction design, not a vLLM invariant. Pass --no-enable-prefix-caching."] else []) ++
      (if quest.gpuCacheBlocksPerSeq - 1 < quest.topK then
        [s!"top_k ({quest.topK}) must be <= gpu_cache_blocks_per_seq - 1 ({quest.gpuCacheBlocksPerSeq - 1}); one arena slot " ++
          "is reserved for the live decode block."] else []) ++
      -- With `fallback` the reasons are dropped.
      if quest.unsupportedModelPolicy = .error then checkModelCompat model else []

inductive ManagerClass where
  | fullAttention
  | slidingWindow
  | chunkedLocalAttention
  | mamba
  | crossAttention
  | sinkFullAttention
deriving DecidableEq, Repr

/-- `spec_manager_map`, with the entry of `_register_quest_kv_cache_spec`. -/
def managerClass : LayerSpec → Option ManagerClass
  | .fullAttention _ _ | .tqFullAttention _ _ _ | .mlaAttention _ _ _ | .hiddenState _ _ _ | .quest _ _ => some .fullAttention
  | .slidingWindow _ _ _ | .slidingWindowMLA _ _ _ _ => some .slidingWindow
  | .chunkedLocalAttention _ _ => some .chunkedLocalAttention
  | .mamba _ => some .mamba
  | .crossAttention _ => some .crossAttention
  | .sinkFullAttention _ _ _ => some .sinkFullAttention
  | .encoderOnlyAttention _ => none

def ManagerClass.accepts : ManagerClass → LayerSpec → Bool
  | .fullAttention, spec | .sinkFullAttention, spec => spec.isFullAttention || spec.isChunkedLocal
  | .slidingWindow, spec => spec.slidingWindow?.isSome
  | .chunkedLocalAttention, spec => spec.isChunkedLocal
  | .mamba, .mamba _ | .crossAttention, .crossAttention _ => true
  | .mamba, _ | .crossAttention, _ => false

inductive LookupError where
  /-- The spec is no key of `spec_manager_map`. -/
  | noManager
  /-- The `isinstance` assertion of the manager. -/
  | wrongSpec (cls : ManagerClass)
  | assertion
  /-- The manager of cross attention has no lookup. -/
  | notImplemented
deriving DecidableEq, Repr

/-- What the lookup of the manager works with: sinks are looked up like full attention. -/
def lookedUpAs? : LayerSpec → Option KVCacheSpec
  | .sinkFullAttention base _ _ => some { blockSize := base.blockSize, kind := .fullAttention }
  | spec => spec.managed?

def findHit (pool : BlockPool) (blockHashes : List Bytes) (maxLength : Nat) (groupIds : List Nat) (spec : LayerSpec)
    (useEagle : Bool) (alignmentTokens : Nat) : Except LookupError (List HitRow) :=
  match managerClass spec with
  | none => .error .noManager
  | some cls =>
    if cls.accepts spec then
      match lookedUpAs? spec with
      | none => .error .notImplemented
      | some managed =>
        match findLongestCacheHit pool blockHashes maxLength groupIds managed useEagle alignmentTokens with
        | none => .error .assertion
        | some rows => .ok rows
    else .error (.wrongSpec cls)

structure SpecGroup where
  spec : LayerSpec
  groupIds : List Nat
deriving DecidableEq, Repr

def insertSpec (groups : List SpecGroup) (spec : LayerSpec) (i : Nat) : List SpecGroup :=
  match groups with
  | [] => [⟨spec, [i]⟩]
  | group :: rest =>
    if group.spec = spec then ⟨group.spec, group.groupIds ++ [i]⟩ :: rest else group :: insertSpec rest spec i

structure LayeredConfig where
  cache : CacheConfig
  layers : Nat → LayerSpec
  managed : ∀ g < cache.numGroups, (layers g).managed? = some { cache.spec g with layout := 0 }

namespace LayeredConfig

variable (cfg : LayeredConfig)

/-- `verify_and_split_kv_cache_groups`: the subclasses of `FullAttentionSpec` come first. -/
def specGroups : List SpecGroup :=
  let groups := (List.range cfg.cache.numGroups).foldl (fun groups i => insertSpec groups (cfg.layers i) i) []
  groups.filter (·.spec.isFullAttention) ++ groups.filter (¬ ·.spec.isFullAttention)

def lcmBlockSize : Nat := cfg.specGroups.foldl (fun acc group => Nat.lcm acc group.spec.blockSize) 1

def searchSpec (pool : BlockPool) (blockHashes : List Bytes) (maxCacheHitLength : Nat) (search : HitSearch) (idx : Nat)
    (group : SpecGroup) : Except LookupError HitSearch :=
  let spec := group.spec
  let cached := group.groupIds.head?.bind search.hitBlocksByGroup
  if spec.isFullAttention ∧ cached.isSome then
    .ok { search with currHitLength := search.currHitLength / spec.blockSize * spec.blockSize }
  else do
    let useEagle := group.groupIds.any cfg.cache.eagleGroupIds && !search.eagleVerified.contains idx
    let maxLength := if useEagle then min (search.currHitLength + spec.blockSize) maxCacheHitLength else search.currHitLength
    let rows ← findHit pool (hashesAt cfg.cache.pool.hashBlockSize blockHashes spec.blockSize) maxLength group.groupIds spec
      useEagle cfg.lcmBlockSize
    let newHitLength := rows.length * spec.blockSize
    let eagleVerified := if useEagle then idx :: search.eagleVerified
      else if newHitLength < search.currHitLength then [] else search.eagleVerified
    return {
      currHitLength := newHitLength
      hitBlocksByGroup := fun g => match group.groupIds.idxOf? g with
        | some j => some (column rows j)
        | none => search.hitBlocksByGroup g
      eagleVerified }

def searchPasses (pool : BlockPool) (blockHashes : List Bytes) (maxCacheHitLength : Nat) (simple : Bool) :
    Nat → Nat → HitSearch → Except LookupError (Nat × HitSearch)
  | 0, hitLength, search => .ok (hitLength, search)
  | fuel + 1, hitLength, search => do
    let search ← cfg.specGroups.zipIdx.foldlM
      (fun search entry => cfg.searchSpec pool blockHashes maxCacheHitLength search entry.2 entry.1)
      { search with currHitLength := hitLength }
    if search.currHitLength ≥ hitLength then return (hitLength, search)
    else if simple then return (search.currHitLength, search)
    else searchPasses pool blockHashes maxCacheHitLength simple fuel search.currHitLength search

/-- `find_longest_cache_hit` of the coordinator for one group, and of the hybrid one. -/
def findLongestHit (pool : BlockPool) (blockHashes : List Bytes) (maxCacheHitLength : Nat) :
    Except LookupError (KVCacheBlocks × Nat) :=
  if cfg.cache.numGroups = 1 then do
    let spec := cfg.layers 0
    let rows ← findHit pool blockHashes maxCacheHitLength [0] spec (cfg.cache.eagleGroupIds 0) spec.blockSize
    return (fun g => if g = 0 then column rows 0 else [], rows.length * spec.blockSize)
  else do
    let groups := cfg.specGroups
    let isSimpleHybrid := groups.length = 2 ∧ groups.head?.any (·.spec.isFullAttention)
    let (hitLength, search) ← cfg.searchPasses pool blockHashes maxCacheHitLength isSimpleHybrid (maxCacheHitLength + 1)
      maxCacheHitLength ⟨maxCacheHitLength, fun _ => none, []⟩
    let blocks (g : Nat) : List BlockId :=
      let found := (search.hitBlocksByGroup g).getD []
      match groups.head? with
      | some group =>
        if group.spec.isFullAttention ∧ g ∈ group.groupIds then found.take (hitLength / group.spec.blockSize) else found
      | none => found
    return (blocks, hitLength)

def getComputedBlocks (pool : BlockPool) (request : Core.Request) : Except LookupError (KVCacheBlocks × Nat) :=
  if ¬ cfg.cache.pool.enableCaching ∨ request.skipReadingPrefixCache then .ok (fun _ => [], 0)
  else cfg.findLongestHit pool request.blockHashes (request.numTokens - 1)

end LayeredConfig

theorem foldlM_error {α β ε : Type} (step : β → α → Except ε β) {entries : List α} {a : α} (hm : a ∈ entries)
    (raises : ∀ b, ∃ e, step b a = .error e) (b : β) : ∃ e, entries.foldlM step b = .error e := by
  induction entries generalizing b with
  | nil => cases hm
  | cons first rest ih =>
    rw [foldlM_cons]
    cases result : step b first with
    | error e => exact ⟨e, rfl⟩
    | ok next =>
      rcases mem_cons.mp hm with rfl | later
      · obtain ⟨e, raised⟩ := raises b
        rw [raised] at result
        cases result
      · exact ih later next

theorem exists_mem_insertSpec {groups : List SpecGroup} {spec spec' : LayerSpec} {i : Nat}
    (there : spec' = spec ∨ ∃ group ∈ groups, group.spec = spec') : ∃ group ∈ insertSpec groups spec i, group.spec = spec' := by
  fun_induction insertSpec groups spec i with
  | case1 =>
    rcases there with rfl | ⟨_, never, _⟩
    · exact ⟨_, mem_singleton_self _, rfl⟩
    · cases never
  | case2 group rest hs =>
    rcases there with rfl | ⟨other, hm, rfl⟩
    · exact ⟨_, .head _, hs⟩
    · rcases mem_cons.mp hm with rfl | later
      · exact ⟨_, .head _, rfl⟩
      · exact ⟨other, .tail _ later, rfl⟩
  | case3 group rest differ ih =>
    rcases there with rfl | ⟨other, hm, rfl⟩
    · obtain ⟨hf, hm, hs⟩ := ih (.inl rfl)
      exact ⟨hf, .tail _ hm, hs⟩
    · rcases mem_cons.mp hm with rfl | later
      · exact ⟨_, .head _, rfl⟩
      · obtain ⟨hf, hm, hs⟩ := ih (.inr ⟨other, later, rfl⟩)
        exact ⟨hf, .tail _ hm, hs⟩

namespace LayeredConfig

variable {cfg : LayeredConfig} {g : Nat}

theorem exists_mem_specGroups (hi : g < cfg.cache.numGroups) : ∃ group ∈ cfg.specGroups, group.spec = cfg.layers g := by
  have all : ∀ (ids : List Nat) groups, (g ∈ ids ∨ ∃ group ∈ groups, group.spec = cfg.layers g) →
      ∃ group ∈ ids.foldl (fun groups i => insertSpec groups (cfg.layers i) i) groups, group.spec = cfg.layers g := by
    intro ids
    induction ids with
    | nil => exact fun groups there => there.resolve_left not_mem_nil
    | cons i ids ih =>
      intro groups there
      refine ih _ ?_
      rcases there with hm | old
      · rcases mem_cons.mp hm with rfl | later
        · exact .inr (exists_mem_insertSpec (.inl rfl))
        · exact .inl later
      · exact .inr (exists_mem_insertSpec (.inr old))
  obtain ⟨group, hm, hs⟩ := all (range cfg.cache.numGroups) [] (.inl (mem_range.mpr hi))
  refine ⟨group, mem_append.mpr ?_, hs⟩
  by_cases full : group.spec.isFullAttention
  · exact .inl (mem_filter.mpr ⟨hm, full⟩)
  · exact .inr (mem_filter.mpr ⟨hm, by simpa using full⟩)

theorem findLongestHit_quest (hi : g < cfg.cache.numGroups) (quest : (cfg.layers g).isQuest) (pool : BlockPool)
    (blockHashes : List Bytes) (maxCacheHitLength : Nat) : ∃ e, cfg.findLongestHit pool blockHashes maxCacheHitLength = .error e := by
  obtain ⟨base, blocks, spec⟩ := LayerSpec.isQuest_iff.mp quest
  unfold findLongestHit
  split
  · obtain rfl : g = 0 := by omega
    simp only [spec]
    exact ⟨_, rfl⟩
  obtain ⟨group, hm, hs⟩ := exists_mem_specGroups hi
  obtain ⟨idx, hi, rfl⟩ := mem_iff_getElem.mp hm
  have at_ : (cfg.specGroups[idx], idx) ∈ cfg.specGroups.zipIdx := mk_mem_zipIdx_iff_getElem?.mpr (by simp)
  have raises : ∀ search, ∃ e, cfg.searchSpec pool blockHashes maxCacheHitLength search idx cfg.specGroups[idx] = .error e := by
    intro search
    unfold searchSpec
    simp only [hs, spec, LayerSpec.isFullAttention, Bool.false_eq_true, false_and, ↓reduceIte]
    exact ⟨_, rfl⟩
  obtain ⟨e, raised⟩ := foldlM_error (fun search entry =>
    cfg.searchSpec pool blockHashes maxCacheHitLength search entry.2 entry.1) at_ raises ⟨maxCacheHitLength, fun _ => none, []⟩
  have first : ∀ simple, cfg.searchPasses pool blockHashes maxCacheHitLength simple (maxCacheHitLength + 1) maxCacheHitLength
      ⟨maxCacheHitLength, fun _ => none, []⟩ = .error e := by
    intro simple
    rw [searchPasses, raised]
    rfl
  simp only [first]
  exact ⟨e, rfl⟩

theorem getComputedBlocks_quest (hi : g < cfg.cache.numGroups) (quest : (cfg.layers g).isQuest)
    (caching : cfg.cache.pool.enableCaching) (pool : BlockPool) (request : Core.Request) :
    (∃ result, cfg.getComputedBlocks pool request = .ok result) ↔ request.skipReadingPrefixCache = true := by
  unfold getComputedBlocks
  by_cases skips : request.skipReadingPrefixCache = true
  · simp [skips]
  · rw [if_neg (by simpa [caching] using skips)]
    obtain ⟨e, raised⟩ := findLongestHit_quest hi quest pool request.blockHashes (request.numTokens - 1)
    simp [raised, skips]

end LayeredConfig

variable {S D R : Type} {bs : Nat}

section

variable [DecidableEq S] (tier : TierConfig bs R D) (topK : Nat) (select : Select S D) (engine : Nat → Nat → KVBlock bs R) (seq : S)
  (table : Nat → Nat) (key value : Nat → R)

def prefillPasses : Nat → List Nat → TierM S D (Memory bs R) Unit
  | _, [] => pure ()
  | o, c :: rest => do
    let _ ← forward tier topK false
      { batch := chunkBatch seq table o c, engine := engine o, select, key := fun i => key (o + i), value := fun i => value (o + i) }
    prefillPasses (o + c) rest

/-- `forward` takes every pass for a prefill: a chunk has two tokens, or the prompt is still inside its first block. -/
def DenseChunks (bs : Nat) : Nat → List Nat → Prop
  | _, [] => True
  | o, c :: rest => 0 < c ∧ (2 ≤ c ∨ o + c < bs) ∧ DenseChunks bs (o + c) rest

variable {tier topK select engine seq table key value} {chunks : List Nat} {o : Nat}

omit [DecidableEq S] in
theorem DenseChunks.positive (dense : DenseChunks bs o chunks) : ∀ c ∈ chunks, 0 < c := by
  induction chunks generalizing o with
  | nil => exact fun _ never => absurd never not_mem_nil
  | cons c rest ih =>
    intro c' hm
    rcases mem_cons.mp hm with rfl | later
    · exact dense.1
    · exact ih dense.2.2 c' later

theorem prefillPasses_dense (dense : DenseChunks bs o chunks) :
    prefillPasses tier topK select engine seq table key value o chunks =
      prefillChunks (prefillHook tier false) seq table key value o chunks := by
  induction chunks generalizing o with
  | nil => rfl
  | cons c rest ih =>
    obtain ⟨-, long, dense⟩ := dense
    have takes : TakesDense bs (chunkBatch seq table o c) := by
      rcases long with two | short
      · exact .inl (one_lt_maxQueryLen_iff.mpr ⟨_, mem_singleton_self _, two⟩)
      · exact .inr ⟨_, mem_singleton_self _, short⟩
    simp only [prefillPasses, prefillChunks, ih dense, forward, if_pos takes, prefillHook, Bool.false_eq_true, false_and, ↓reduceIte,
      bind_assoc, pure_bind]

end

/-- What a request meets on its way through the engine: how many tokens the scheduler looks ahead, whether its admission
gate is on, and how the tokens behind a hit of a given length are cut into chunks. -/
structure Admission where
  lookahead : Nat
  reserve : Bool
  chunks : Nat → List Nat

/-- Prefix caching is invisible for the request: its lookup and its first allocation raise nothing, and the prefill of what
was not hit leaves every full block of the prompt with the digest of its keys. -/
def PrefixInvisible [DecidableEq S] (cfg : LayeredConfig) (tier : TierConfig bs R D) (topK : Nat) (select : Select S D)
    (engine : Nat → Nat → KVBlock bs R) (seq : S) (table : Nat → Nat) (r : Core.Request) (admission : Admission)
    (s : KVCacheManager) : Prop :=
  ∃ hits h result t, cfg.getComputedBlocks s.blockPool r = .ok (hits, h) ∧
    KVCacheManager.allocateSlots cfg.cache r
      { numNewTokens := (admission.chunks h).headD 0, numNewComputedTokens := h, newComputedBlocks := hits,
        numLookaheadTokens := admission.lookahead, fullSequenceMustFit := admission.reserve } s = .ok result t ∧
    ∀ key value (m : TierManager S D (Memory bs R)), ∃ m',
      prefillPasses tier topK select engine seq table key value h (admission.chunks h) m = .ok () m' ∧
      ∀ b < r.numTokens / bs, m'.summary b = tier.digest fun i => key (b * bs + i)

/-- With prefix caching on and a group of Quest layers, prefix caching is invisible exactly for a request that does not read
the cache and whose first chunk has every full block of the prompt. -/
theorem prefix_invisible_iff [DecidableEq S] (cfg : LayeredConfig) (valid : cfg.cache.Valid)
    (attention : ∀ g < cfg.cache.numGroups, (cfg.cache.spec g).kind.Attention) (caching : cfg.cache.pool.enableCaching = true)
    (group : Nat) (inside : group < cfg.cache.numGroups) (quest : (cfg.layers group).isQuest)
    (size : (cfg.cache.spec group).blockSize = bs) (tier : TierConfig bs R D) (varies : ∃ x y, tier.digest x ≠ tier.digest y)
    (topK : Nat) (select : Select S D) (engine : Nat → Nat → KVBlock bs R) (seq : S) (table : Nat → Nat) (r : Core.Request)
    (new : r.numComputedTokens = 0) (prompt : 0 < r.numTokens) (within : r.numTokens ≤ cfg.cache.maxModelLen)
    (hashes : r.blockHashes.length = r.numTokens / cfg.cache.pool.hashBlockSize) (admission : Admission)
    (whole : ∀ h ≤ r.numTokens, h + (admission.chunks h).sum = r.numTokens) (dense : DenseChunks bs 0 (admission.chunks 0))
    (free : List BlockId) (s : KVCacheManager) (sound : KVCacheManager.Sound cfg.cache free s)
    (absent : ∀ g < cfg.cache.numGroups, s.blocks g r.requestId = []) (uncached : ∀ g, s.numCached g r.requestId = none) :
    PrefixInvisible cfg tier topK select engine seq table r admission s ↔
      r.skipReadingPrefixCache = true ∧ r.numTokens / bs = (admission.chunks 0).headD 0 / bs := by
  have positive : 0 < bs := size ▸ valid.blockSize_pos group inside
  have total : (admission.chunks 0).sum = r.numTokens := by
    have := whole 0 (Nat.zero_le _)
    omega
  have rows := chunkedSummary_iff (admission.chunks 0) dense.positive positive varies
  rw [total] at rows
  have run : ∀ key value m, ∃ m', prefillPasses tier topK select engine seq table key value 0
      (admission.chunks 0) m = .ok () m' ∧ m' = { m with summary := chunkedSummary tier key 0 (admission.chunks 0) m.summary } := by
    intro key value m
    rw [prefillPasses_dense dense]
    obtain ⟨_, m', run, final⟩ := wp_total (wp_prefillChunks (admission.chunks 0) 0 m) fun _ _ never => never
    exact ⟨m', run, final⟩
  constructor
  · rintro ⟨hits, h, result, t, found, -, filled⟩
    have skips := (LayeredConfig.getComputedBlocks_quest inside quest caching s.blockPool r).mp ⟨_, found⟩
    obtain rfl : h = 0 := by
      unfold LayeredConfig.getComputedBlocks at found
      rw [if_pos (.inr skips)] at found
      cases found
      rfl
    refine ⟨skips, rows.mp fun key summary b below => ?_⟩
    obtain ⟨m', ran, right⟩ := filled key key
      { TierManager.init tier ⟨fun _ => engine 0 0, fun _ => engine 0 0⟩ summary with summary := summary }
    obtain ⟨m'', again, final⟩ := run key key
      { TierManager.init tier ⟨fun _ => engine 0 0, fun _ => engine 0 0⟩ summary with summary := summary }
    rw [ran] at again
    cases again
    rw [← right b below, final]
  rintro ⟨skips, first⟩
  have some : 0 < (admission.chunks 0).headD 0 ∧ (admission.chunks 0).headD 0 ≤ r.numTokens := by
    rw [← total]
    cases chunks : admission.chunks 0 with
    | nil =>
      rw [chunks] at total
      exact absurd total prompt.ne
    | cons c rest =>
      have := dense.positive c (chunks ▸ (.head _))
      simp only [List.headD_cons, List.sum_cons]
      omega
  obtain ⟨result, t, allocated⟩ := KVCacheManager.allocateSlots_absent valid attention sound absent uncached new
    (fun _ => hashes) some.1 (some.2.trans within) admission.lookahead admission.reserve
  refine ⟨fun _ => [], 0, result, t, if_pos (.inr skips), allocated, fun key value m => ?_⟩
  obtain ⟨m', ran, final⟩ := run key value m
  exact ⟨m', ran, fun b below => by rw [final]; exact rows.mpr first key m.summary b below⟩

def questOnly : LayeredConfig where
  cache :=
    { pool := { numGpuBlocks := 8, hashBlockSize := 256, scheme := spelledScheme }
      maxModelLen := 1024
      maxNumBatchedTokens := 1024
      numGroups := 1
      spec := fun _ => { blockSize := 256, kind := .fullAttention } }
  layers _ := .quest { blockSize := 256, numKvHeads := 8, headSize := 128, dtype := ⟨"bfloat16", 2⟩ } 8
  managed _ _ := rfl

def llamaModel : ModelFacts := { architecture := some "LlamaForCausalLM" }

def defaultQuest : QuestOptions := { topK := 4, gpuCacheBlocksPerSeq := 8 }

def firstKeyTier : TierConfig 256 Nat Nat where
  layerIdx := 0
  gpuBudget := 8
  cpuBlocks := 16
  digest block := block 0

def twoBlockPrompt (skipReadingPrefixCache : Bool) : Core.Request where
  requestId := 0
  samplingParams := { maxTokens := 1 }
  maxTokens := 1
  promptTokenIds := some (List.replicate 512 0)
  numPromptTokens := 512
  allTokenIds := List.replicate 512 0
  blockHashes := [[0], [1]]
  skipReadingPrefixCache := skipReadingPrefixCache

def oneChunk : Admission := { lookahead := 0, reserve := true, chunks := fun h => [512 - h] }

theorem questOnly_valid : questOnly.cache.Valid where
  blockSize_pos _ _ := Nat.succ_pos 255
  hashBlockSize_pos := Nat.succ_pos 255
  divisible _ _ _ := Nat.mod_self 256
  unitary _ _ := rfl
  hybrid _ more := absurd rfl more

theorem prefix_invisible_iff_logprobs : validateQuestConfiguration llamaModel 256 true (some defaultQuest) = [] ∧
    ∃ s, KVCacheManager.init questOnly.cache = .ok s ∧
      PrefixInvisible questOnly firstKeyTier 4 (fun _ _ _ _ => []) (fun _ _ => ⟨fun _ => 0, fun _ => 0⟩) 0 id (twoBlockPrompt true)
        oneChunk s := by
  obtain ⟨s, made⟩ : ∃ s, KVCacheManager.init questOnly.cache = .ok s := ⟨_, rfl⟩
  obtain ⟨⟨free, alone⟩, uncached⟩ : (∃ free, KVCacheManager.Alone questOnly.cache 0 (fun _ => 0) (fun _ => []) free s) ∧
      ∀ g, s.numCached g 0 = none := KVCacheManager.alone_init made
  have tokens : (twoBlockPrompt true).numTokens = 512 := length_replicate
  refine ⟨by decide, s, made, (prefix_invisible_iff questOnly questOnly_valid (fun _ _ => .fullAttention) rfl 0 (by decide) rfl rfl
    firstKeyTier ⟨fun _ => 0, fun _ => 1, by decide⟩ 4 (fun _ _ _ _ => []) (fun _ _ => ⟨fun _ => 0, fun _ => 0⟩) 0 id
    (twoBlockPrompt true) rfl (by omega) (tokens ▸ by decide) (by rw [tokens]; rfl) oneChunk (fun h small => ?_)
    ⟨by decide, .inl (by decide), trivial⟩ free s alone.sound alone.lists uncached).mpr ⟨rfl, by rw [tokens]; rfl⟩⟩
  simp only [oneChunk, List.sum_singleton]
  omega

/-- Any other request, from any state of the manager: the lookup does not get past the assertion. -/
theorem quest_lookup_raises : validateQuestConfiguration llamaModel 256 true (some defaultQuest) = [] ∧ ∀ s : KVCacheManager,
    questOnly.getComputedBlocks s.blockPool (twoBlockPrompt false) = .error (.wrongSpec .fullAttention) ∧
    ¬ PrefixInvisible questOnly firstKeyTier 4 (fun _ _ _ _ => []) (fun _ _ => ⟨fun _ => 0, fun _ => 0⟩) 0 id (twoBlockPrompt false)
      oneChunk s := by
  refine ⟨by decide, fun s => ⟨rfl, ?_⟩⟩
  rintro ⟨hits, h, result, t, found, -⟩
  cases found

end KVOffload.Quest
