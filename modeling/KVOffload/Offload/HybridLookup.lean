import KVOffload.Core.Isolation
import KVOffload.Offload.LoadPlan

/-!
# Lookups of hybrid models

The search of a sliding-window group looks at as many whole blocks as the window has; if the hit ends inside a block, these may
be one too few.
-/

namespace KVOffload.Offload

open KVOffload.Core KVCacheManager SchedulerOffloadConfig

/-! ### Configurations -/

/-- Full-attention and sliding-window groups, whose blocks are made of hashed ones. -/
structure Hybrid (cfg : CacheConfig) (f : Nat) : Prop where
  some : 0 < cfg.numGroups
  factor : 0 < f
  hashes : 0 < cfg.pool.hashBlockSize
  positive : ∀ g < cfg.numGroups, 0 < (cfg.spec g).blockSize
  divides : ∀ g < cfg.numGroups, cfg.pool.hashBlockSize ∣ (cfg.spec g).blockSize
  attention : ∀ g < cfg.numGroups, (cfg.spec g).kind = .fullAttention ∨
    ∃ window, 0 < window ∧ (cfg.spec g).kind = .slidingWindow window

variable {cfg : CacheConfig} {f numWorkers g : Nat} {config : SchedulerOffloadConfig}

theorem fromSpec_ok (made : fromSpec cfg f numWorkers = .ok config) :
    config.kvGroupConfigs = (List.range cfg.numGroups).map (groupConfig cfg f) ∧ config.blockSizeFactor = f := by
  unfold fromSpec at made
  split at made
  · cases made
  · cases made
    exact ⟨rfl, rfl⟩

variable {group : GroupOffloadConfig} {window : Nat}

theorem mem_allLookupGroups (config : SchedulerOffloadConfig) :
    group ∈ config.allLookupGroups ↔ group ∈ config.kvGroupConfigs := by
  simp only [allLookupGroups, fullAttentionGroups, slidingWindowGroups, List.mem_append, List.mem_mergeSort, List.mem_filter]
  cases group.slidingWindowSizeInBlocks <;> simp

theorem windowBlocks_window (kind : (cfg.spec g).kind = .slidingWindow window) :
    (groupConfig cfg f g).slidingWindowSizeInBlocks = some (cdiv window (offloadedBlockSize cfg f g)) := by
  simp [groupConfig, windowBlocks, getSlidingWindowSizeInBlocks, kind]

theorem windowBlocks_full (kind : (cfg.spec g).kind = .fullAttention) :
    (groupConfig cfg f g).slidingWindowSizeInBlocks = none := by
  simp [groupConfig, windowBlocks, getSlidingWindowSizeInBlocks, kind]

namespace Hybrid

variable (hybrid : Hybrid cfg f)

include hybrid

theorem offloaded_pos (hi : g < cfg.numGroups) : 0 < offloadedBlockSize cfg f g :=
  Nat.mul_pos (hybrid.positive g hi) hybrid.factor

theorem proper (hi : g < cfg.numGroups) : (groupConfig cfg f g).Proper where
  positive := hybrid.offloaded_pos hi
  window window here := by
    rcases hybrid.attention g hi with kind | ⟨size, positive, kind⟩
    · rw [windowBlocks_full kind] at here
      cases here
    · rw [windowBlocks_window kind] at here
      cases here
      by_contra zero
      have := (cdiv_le_iff (hybrid.offloaded_pos hi)).mp (Nat.le_of_not_lt zero)
      omega

theorem hashFactor_pos (hi : g < cfg.numGroups) : 0 < (groupConfig cfg f g).hashBlockSizeFactor :=
  Nat.div_pos (Nat.le_of_dvd (hybrid.offloaded_pos hi) ((hybrid.divides g hi).mul_right f)) hybrid.hashes

end Hybrid

/-! ### Where a lookup ends -/

variable (hybrid : Hybrid cfg f) (made : fromSpec cfg f numWorkers = .ok config) {req : Request}
  {status : RequestOffloadState} (hashed : req.blockHashes.length = req.numTokens / cfg.pool.hashBlockSize)
  (current : status.Current config req.blockHashes) {answer : OffloadKey → Option Bool} {e : Nat}

include made in
theorem mem_kvGroupConfigs : group ∈ config.kvGroupConfigs ↔ ∃ g < cfg.numGroups, groupConfig cfg f g = group := by
  rw [(fromSpec_ok made).1]
  simp

include made current in
theorem keysOf_eq (hi : g < cfg.numGroups) : keysOf status g = requestKeys req.blockHashes (groupConfig cfg f g) := by
  apply current.keys
  rw [(fromSpec_ok made).1]
  simp [hi]

include hybrid made hashed current in
theorem length_keysOf (hi : g < cfg.numGroups) : (keysOf status g).length = req.numTokens / offloadedBlockSize cfg f g := by
  have whole : cfg.pool.hashBlockSize ∣ offloadedBlockSize cfg f g := (hybrid.divides g hi).mul_right f
  rw [keysOf_eq made current hi, length_requestKeys (hybrid.hashFactor_pos hi), hashed]
  change _ / (offloadedBlockSize cfg f g / cfg.pool.hashBlockSize) = _
  rw [Nat.div_div_eq_div_mul, Nat.mul_div_cancel' whole]

include hybrid made hashed current in
theorem searchSetup : SearchSetup config.fullAttentionGroups config.slidingWindowGroups req.numTokens (keysOf status) where
  proper group hm := by
    obtain ⟨g, hi, rfl⟩ := (mem_kvGroupConfigs made).mp ((mem_allLookupGroups config).mp hm)
    exact hybrid.proper hi
  hashed group hm := by
    obtain ⟨g, hi, rfl⟩ := (mem_kvGroupConfigs made).mp ((mem_allLookupGroups config).mp hm)
    exact le_of_eq (length_keysOf hybrid made hashed current hi).symm
  attention group hm := by
    simpa using (List.mem_filter.mp hm).2
  isWindow group hm := by
    simpa using (List.mem_filter.mp (List.mem_mergeSort.mp hm)).2

variable (config req) in
def searchBound : Nat :=
  if config.slidingWindowGroups = [] then req.numTokens else req.numTokens - 1

include made in
theorem searchBound_of_window (req : Request) (hi : g < cfg.numGroups) (kind : (cfg.spec g).kind = .slidingWindow window) :
    searchBound config req = req.numTokens - 1 := by
  refine if_neg (List.ne_nil_of_mem (a := groupConfig cfg f g) (List.mem_mergeSort.mpr (List.mem_filter.mpr ⟨?_, ?_⟩)))
  · exact (mem_kvGroupConfigs made).mpr ⟨g, hi, rfl⟩
  · simp [windowBlocks_window kind]

variable (cfg f config req status answer e) in
structure HitEnd : Prop where
  accepts : ∀ g < cfg.numGroups, Accepts answer (keysOf status) status.numLocallyComputedTokens (groupConfig cfg f g) e
  capped : ∀ g < cfg.numGroups, e ≤ (keysOf status g).length * offloadedBlockSize cfg f g
  aligned : e = searchBound config req ∨ ∃ g < cfg.numGroups, offloadedBlockSize cfg f g ∣ e

variable {σ : Type} {ask : OffloadKey → EStateM ConnectorError σ (Option Bool)} {I : σ → Prop} {st : LookupState} {s : σ}

include hybrid made in
theorem hitEnd_of_loopInv (inv : LoopInv answer (keysOf status) status.numLocallyComputedTokens config.fullAttentionGroups
      config.slidingWindowGroups (searchBound config req) st) (done : st.lookupGroups = []) (now : st.deferLookup = false) :
    HitEnd cfg f config req status answer st.maxHitSizeTokens ∧
      st.numHitTokens = st.maxHitSizeTokens - status.numLocallyComputedTokens := by
  have all : ∀ g < cfg.numGroups, groupConfig cfg f g ∈ config.fullAttentionGroups ++ config.slidingWindowGroups :=
    fun g hi => (mem_allLookupGroups config).mpr ((mem_kvGroupConfigs made).mpr ⟨g, hi, rfl⟩)
  have some := List.ne_nil_of_mem (all 0 hybrid.some)
  obtain ⟨top, pass⟩ := inv.passes.resolve_left fun everything => some (everything ▸ done)
  refine ⟨⟨fun g hi => ?_, fun g hi => pass.capped _ (all g hi), ?_⟩, pass.last some⟩
  · rcases List.mem_append.mp (all g hi) with full | window
    · exact (pass.full.resolve_left (by simp [now])).resolve_left (fun due => some (due ▸ done)) _ full
    · exact (pass.window.resolve_left (by simp [now])).resolve_left (fun due => due done) _ window
  · refine inv.aligned.imp id ?_
    rintro ⟨group, hm, divides⟩
    obtain ⟨g, hi, rfl⟩ := (mem_kvGroupConfigs made).mp ((mem_allLookupGroups config).mp hm)
    exact ⟨g, hi, divides⟩

variable (config req) in
def searchStart : LookupState where
  maxHitSizeTokens := searchBound config req
  lookupGroups := config.allLookupGroups

theorem loopInv_start : LoopInv answer (keysOf status) status.numLocallyComputedTokens config.fullAttentionGroups
    config.slidingWindowGroups (searchBound config req) (searchStart config req) :=
  ⟨Nat.le_refl _, Nat.zero_le _, .inl rfl, .inl rfl⟩

include hybrid made hashed current in
theorem wp_lookup (answers : Answers I ask answer) (loading : Option (List OffloadKey)) (start : I s) :
    wp (config.lookup ask req status loading) (fun result s' => I s' ∧ ∀ n, result = some n → 0 < n →
      HitEnd cfg f config req status answer (status.numLocallyComputedTokens + n)) (fun _ _ => False) s := by
  have loop := wp_lookupLoop (searchSetup hybrid made hashed current) answers loopInv_start
    (.inl (Nat.lt_succ_self (searchBound config req + 1))) start
  unfold lookup
  rw [wp_bind]
  refine wp_imp loop ?_
  rintro result s' ⟨kept, after, -⟩
  cases result with
  | none =>
    refine ⟨kept, ?_⟩
    rintro n ⟨⟩ hp
    cases hp
  | some st =>
    obtain ⟨inv, done⟩ := after st rfl
    change wp (if st.deferLookup = true then _ else _) _ _ s'
    split
    · exact ⟨kept, by simp⟩
    · rename_i now
      obtain ⟨hit, hits⟩ := hitEnd_of_loopInv hybrid made inv done (by simpa using now)
      split
      · exact ⟨kept, by simp⟩
      · refine ⟨kept, ?_⟩
        rintro n ⟨⟩ hp
        rwa [hits, Nat.add_sub_cancel' (by omega)]

include hybrid made hashed current in
theorem wp_lookup_complete (answers : Answers I ask answer) (total : ∀ key, answer key ≠ none)
    (ha : ∀ g < cfg.numGroups, status.numLocallyComputedTokens + offloadedBlockSize cfg f g ≤ e ∧
      Accepts answer (keysOf status) status.numLocallyComputedTokens (groupConfig cfg f g) e)
    (hb : e ≤ searchBound config req) (start : I s) :
    wp (config.lookup ask req status none) (fun result _ => ∃ e' n, e ≤ e' ∧ e' ≤ searchBound config req ∧
      result = some n ∧ n = e' - status.numLocallyComputedTokens ∧ HitEnd cfg f config req status answer e')
      (fun _ _ => False) s := by
  have ha' : ∀ group ∈ config.fullAttentionGroups ++ config.slidingWindowGroups,
      status.numLocallyComputedTokens + group.offloadedBlockSize ≤ e ∧
        Accepts answer (keysOf status) status.numLocallyComputedTokens group e := by
    intro group hm
    obtain ⟨g, hi, rfl⟩ := (mem_kvGroupConfigs made).mp ((mem_allLookupGroups config).mp hm)
    exact ha g hi
  have loop := wp_lookupLoop (searchSetup hybrid made hashed current) answers loopInv_start
    (.inl (Nat.lt_succ_self (searchBound config req + 1))) start
  unfold lookup
  rw [wp_bind]
  refine wp_imp loop ?_
  rintro result s' ⟨kept, after, keeps⟩
  obtain ⟨st, rfl, reached, now⟩ := keeps total rfl e hb ha'
  obtain ⟨inv, done⟩ := after st rfl
  obtain ⟨hit, hits⟩ := hitEnd_of_loopInv hybrid made inv done now
  have unloaded : ¬ (config.kvGroupConfigs.any fun group => (hitKeys status st.numHitTokens group).any fun key =>
      key ∈ none.getD []) = true := by simp
  change wp (if st.deferLookup = true then _ else _) _ _ s'
  rw [if_neg (by simp [now])]
  rw [if_neg unloaded]
  exact ⟨_, _, reached, inv.below, rfl, hits, hit⟩

/-! ### Windows that fit -/

/-- Wherever a hit ends, the blocks that a window's search looks at hold the window. A window of one token needs no block
before the next token, so the search may only end where none begins. -/
def WindowsFit (cfg : CacheConfig) (f : Nat) : Prop :=
  ∀ g < cfg.numGroups, ∀ window, (cfg.spec g).kind = .slidingWindow window → (window = 1 → (cfg.spec g).blockSize = 1) ∧
    ∀ h < cfg.numGroups, offloadedBlockSize cfg f g + window ≤
      cdiv window (offloadedBlockSize cfg f g) * offloadedBlockSize cfg f g + 1 +
        Nat.gcd (offloadedBlockSize cfg f g) (offloadedBlockSize cfg f h)

theorem mul_cdiv_add_le {b d : Nat} (hp : 0 < b) (block : d ∣ b) (divides : d ∣ e) : b * cdiv e b + d ≤ e + b := by
  have less := mul_cdiv_lt hp e
  have multiple : d ∣ e + b - b * cdiv e b :=
    Nat.dvd_sub (Nat.dvd_add divides block) (block.mul_right _)
  have := Nat.le_of_dvd (by omega) multiple
  omega

theorem pendingBlocks_le {b a w : Nat} (hp : 0 < b) (factor : 0 < f)
    (fits : b * f * cdiv e (b * f) + window ≤ w * (b * f) + 1 + e) (above : e + 1 - window ≤ a) :
    cdiv e b - a / b ≤ w * f := by
  have finer : cdiv e b ≤ f * cdiv e (b * f) := by
    rw [cdiv_le_iff hp, ← mul_assoc]
    exact le_mul_cdiv (Nat.mul_pos hp factor) e
  have tokens := Nat.mul_le_mul_left b finer
  rw [← mul_assoc] at tokens
  have most : cdiv e b - w * f ≤ a / b := by
    rw [Nat.le_div_iff_mul_le hp, Nat.sub_mul, Nat.mul_comm, Nat.mul_assoc, Nat.mul_comm f]
    omega
  omega

include hybrid made hashed current in
theorem WindowsFit.at_end (fit : WindowsFit cfg f) (hit : HitEnd cfg f config req status answer e)
    (hi : g < cfg.numGroups) (kind : (cfg.spec g).kind = .slidingWindow window) :
    offloadedBlockSize cfg f g * cdiv e (offloadedBlockSize cfg f g) + window ≤
      cdiv window (offloadedBlockSize cfg f g) * offloadedBlockSize cfg f g + 1 + e := by
  have hp := hybrid.offloaded_pos hi
  rcases hit.aligned with bound | ⟨h, inside', divides⟩
  · -- With a window the search begins one token before the end, and the keys of the group reach that far.
    rw [searchBound_of_window made req hi kind] at bound
    have capped := hit.capped g hi
    rw [length_keysOf hybrid made hashed current hi, mul_comm] at capped
    have blocks := Nat.mul_le_mul_left (offloadedBlockSize cfg f g) ((cdiv_le_iff hp).mpr capped)
    have tokens := Nat.mul_div_le req.numTokens (offloadedBlockSize cfg f g)
    have rounded := le_mul_cdiv hp window
    rw [mul_comm] at rounded
    omega
  · have rounded := mul_cdiv_add_le hp (Nat.gcd_dvd_left _ _) ((Nat.gcd_dvd_right _ (offloadedBlockSize cfg f h)).trans divides)
    have fits := (fit g hi window kind).2 h inside'
    omega

variable (cfg f config req status answer) in
/-- What a lookup that ends behind `n` more tokens promises: the keys of the tokens that are needed are ready, and for any
tables that fit `update_state_after_alloc` passes its assertions and loads just these blocks. -/
structure SoundHit (c n : Nat) : Prop where
  ready : ∀ g < cfg.numGroups, ∀ t, neededFrom (cfg.spec g) c (c + n) ≤ t → t < c + n →
    ∃ key, (keysOf status g)[t / offloadedBlockSize cfg f g]? = some key ∧ answer key = some true
  loads : ∀ pool tables, (∀ g < cfg.numGroups, LoadTable pool (cfg.spec g) c (c + n) (tables g)) →
    ∃ loads, planLoad pool config req.requestId status n tables () = .ok loads () ∧
      ∀ g < cfg.numGroups, ∃ load first, loads[g]? = some load ∧
        Covering (keysOf status g) load.keysToLoad first (offloadedBlockSize cfg f g) (neededFrom (cfg.spec g) c (c + n)) (c + n) ∧
        Covering (tables g) load.dstBlockIds load.blockIndex (cfg.spec g).blockSize (neededFrom (cfg.spec g) c (c + n)) (c + n)

section

variable {spec : KVCacheSpec} {c : Nat} (attention : spec.kind = .fullAttention ∨ ∃ window, 0 < window ∧ spec.kind = .slidingWindow window)

include attention

theorem neededFrom_eq : neededFrom spec c e = max (getNumSkippedTokens spec e) c := by
  rcases attention with kind | ⟨window, hp, kind⟩
  · simp [neededFrom, getNumSkippedTokens, kind]
  · simp only [neededFrom, getNumSkippedTokens, kind]
    rw [max_comm]

theorem neededFrom_le (hb : c ≤ e) : neededFrom spec c e ≤ e := by
  rcases attention with kind | ⟨window, hp, kind⟩
  · simpa [neededFrom, kind] using hb
  · simp only [neededFrom, kind]
    omega

theorem firstWaiting_eq : max (numSkippedBlocks spec e) (c / spec.blockSize) = neededFrom spec c e / spec.blockSize := by
  rw [neededFrom_eq attention]
  have mono : Monotone fun k => k / spec.blockSize := fun _ _ hb => Nat.div_le_div_right hb
  exact (mono.map_max).symm

end

variable {n : Nat}

include hybrid made hashed current in
theorem WindowsFit.ready (fit : WindowsFit cfg f)
    (hit : HitEnd cfg f config req status answer (status.numLocallyComputedTokens + n)) (hi : g < cfg.numGroups) {t : Nat}
    (above : neededFrom (cfg.spec g) status.numLocallyComputedTokens (status.numLocallyComputedTokens + n) ≤ t)
    (hb : t < status.numLocallyComputedTokens + n) :
    ∃ key, (keysOf status g)[t / offloadedBlockSize cfg f g]? = some key ∧ answer key = some true := by
  have hp := hybrid.offloaded_pos hi
  refine hit.accepts g hi _ ?_ ((holds_iff hp hb).mp ⟨t, Nat.le_refl t, hb, rfl⟩).2
  rcases hybrid.attention g hi with kind | ⟨window, _, kind⟩
  · simp only [neededFrom, kind] at above
    simp only [GroupOffloadConfig.firstBlock, windowBlocks_full kind]
    exact Nat.div_le_div_right above
  · have fits := fit.at_end hybrid made hashed current hit hi kind
    simp only [neededFrom, kind] at above
    simp only [GroupOffloadConfig.firstBlock, windowBlocks_window kind]
    refine Nat.max_le.mpr ⟨Nat.div_le_div_right (by omega), ?_⟩
    change cdiv _ (offloadedBlockSize cfg f g) - _ ≤ _
    rw [Nat.le_div_iff_mul_le hp, Nat.sub_mul, Nat.mul_comm]
    omega

include hybrid in
theorem covering_load (hi : g < cfg.numGroups) (fit : WindowsFit cfg f) (some : 0 < n) {c : Nat} {keys : List OffloadKey}
    {blocks : List BlockId} (enough : cdiv (c + n) (offloadedBlockSize cfg f g) ≤ keys.length)
    (big : cdiv (c + n) (cfg.spec g).blockSize ≤ blocks.length) :
    (∃ first, Covering keys (loadFrom f (neededFrom (cfg.spec g) c (c + n)) (c + n) (groupConfig cfg f g) keys blocks).keysToLoad
      first (offloadedBlockSize cfg f g) (neededFrom (cfg.spec g) c (c + n)) (c + n)) ∧
      Covering blocks (loadFrom f (neededFrom (cfg.spec g) c (c + n)) (c + n) (groupConfig cfg f g) keys blocks).dstBlockIds
      (neededFrom (cfg.spec g) c (c + n) / (cfg.spec g).blockSize) (cfg.spec g).blockSize
      (neededFrom (cfg.spec g) c (c + n)) (c + n) := by
  have hp := hybrid.positive g hi
  by_cases nonempty : neededFrom (cfg.spec g) c (c + n) < c + n
  · have waits := ((holds_iff hp nonempty).mp ⟨_, le_refl _, nonempty, rfl⟩).2
    refine ⟨⟨neededFrom (cfg.spec g) c (c + n) / offloadedBlockSize cfg f g, ?_⟩, covering_slice hp nonempty big⟩
    have waits' : ¬ cdiv (c + n) (groupConfig cfg f g).gpuBlockSize -
        neededFrom (cfg.spec g) c (c + n) / (groupConfig cfg f g).gpuBlockSize = 0 := Nat.sub_ne_zero_of_lt waits
    rw [loadFrom, if_neg waits', Nat.div_div_eq_div_mul]
    exact covering_slice (hybrid.offloaded_pos hi) nonempty enough
  -- Only a window of one token needs no block.
  have single : (cfg.spec g).blockSize = 1 := by
    rcases hybrid.attention g hi with kind | ⟨window, _, kind⟩
    · simp only [neededFrom, kind] at nonempty
      omega
    · refine (fit g hi window kind).1 ?_
      simp only [neededFrom, kind] at nonempty
      omega
  have whole := Nat.le_antisymm (neededFrom_le (hybrid.attention g hi) (Nat.le_add_right c n)) (Nat.le_of_not_lt nonempty)
  have all : cdiv (c + n) 1 = c + n := by simp [cdiv]
  have size : (groupConfig cfg f g).gpuBlockSize = 1 := single
  simp only [loadFrom, size, whole, all, Nat.div_one, Nat.sub_self, if_true, List.drop_take]
  exact ⟨⟨0, covering_nil (le_refl _)⟩, covering_nil (le_refl _)⟩

include hybrid made hashed current in
theorem WindowsFit.soundHit (fit : WindowsFit cfg f) (some : 0 < n)
    (hit : HitEnd cfg f config req status answer (status.numLocallyComputedTokens + n)) (idle : status.transferJobs = [])
    (filled : ∀ g < cfg.numGroups, (cfg.spec g).blockSize ∣ status.numLocallyComputedTokens) :
    SoundHit cfg f config req status answer status.numLocallyComputedTokens n where
  ready g hi t above hb := fit.ready hybrid made hashed current hit hi above hb
  loads pool tables good := by
    obtain ⟨groups, factor⟩ := fromSpec_ok made
    have enough : ∀ g < cfg.numGroups, cdiv (status.numLocallyComputedTokens + n) (offloadedBlockSize cfg f g) ≤
        (keysOf status g).length := fun g hi =>
      (cdiv_le_iff (hybrid.offloaded_pos hi)).mpr (Nat.mul_comm _ _ ▸ hit.capped g hi)
    have window : ∀ g < cfg.numGroups, ∀ window ∈ (groupConfig cfg f g).slidingWindowSizeInBlocks,
        cdiv (status.numLocallyComputedTokens + n) (cfg.spec g).blockSize -
          neededFrom (cfg.spec g) status.numLocallyComputedTokens (status.numLocallyComputedTokens + n) / (cfg.spec g).blockSize ≤
        window * f := by
      intro g hi size here
      rcases hybrid.attention g hi with kind | ⟨window, _, kind⟩
      · rw [windowBlocks_full kind] at here
        cases here
      · rw [windowBlocks_window kind] at here
        cases here
        refine pendingBlocks_le (hybrid.positive g hi) hybrid.factor (fit.at_end hybrid made hashed current hit hi kind) ?_
        simp only [neededFrom, kind]
        omega
    have plan : ∀ group ∈ config.kvGroupConfigs, planGroupLoad pool config.blockSizeFactor status.numLocallyComputedTokens
        (status.numLocallyComputedTokens + n) group (keysOf status group.groupIdx) (tables group.groupIdx) () =
        .ok (loadFrom f (neededFrom (cfg.spec group.groupIdx) status.numLocallyComputedTokens
          (status.numLocallyComputedTokens + n)) (status.numLocallyComputedTokens + n) group (keysOf status group.groupIdx)
          (tables group.groupIdx)) () := by
      intro group hm
      obtain ⟨g, hi, rfl⟩ := (mem_kvGroupConfigs made).mp hm
      rw [factor]
      have last := neededFrom_le (hybrid.attention g hi) (Nat.le_add_right status.numLocallyComputedTokens n)
      refine planGroupLoad_eq rfl (good g hi) (firstWaiting_eq (hybrid.attention g hi)) ?_ (filled g hi)
        (window g hi) (enough g hi)
      exact le_trans (Nat.div_le_div_right last) (Nat.div_le_div_right (by have := hybrid.positive g hi; omega))
    refine ⟨_, bind_ok_iff.mpr ⟨_, (), mapM_eq_map plan, bind_ok_iff.mpr ⟨(), (), ensure_ok idle, rfl⟩⟩, fun g hi => ?_⟩
    obtain ⟨⟨first, keys⟩, blocks⟩ := covering_load hybrid hi fit some (enough g hi) (length_of_table (good g hi))
    rw [groups]
    refine ⟨_, first, by simp [hi]; rfl, keys, blocks⟩

variable (answer) in
def answering (key : OffloadKey) : EStateM ConnectorError Unit (Option Bool) :=
  pure (answer key)

theorem answers_answering (answer : OffloadKey → Option Bool) : Answers (fun _ => True) (answering answer) answer :=
  fun _ _ _ => ⟨trivial, rfl⟩

/-- Every lookup of a request that finds tokens is sound. The local tokens fill blocks of all groups. -/
def LookupSound (cfg : CacheConfig) (f : Nat) : Prop :=
  ∀ numWorkers config (req : Request) status answer loading n, fromSpec cfg f numWorkers = .ok config →
    req.Hashed cfg.pool.scheme → req.blockHashes.length = req.numTokens / cfg.pool.hashBlockSize →
    status.Current config req.blockHashes → status.transferJobs = [] →
    (∀ g < cfg.numGroups, (cfg.spec g).blockSize ∣ status.numLocallyComputedTokens) →
    config.lookup (answering answer) req status loading () = .ok (some n) () → 0 < n →
    SoundHit cfg f config req status answer status.numLocallyComputedTokens n

theorem lookupSound_of_fit (hybrid : Hybrid cfg f) (fit : WindowsFit cfg f) : LookupSound cfg f := by
  intro numWorkers config req status answer loading n made _ hashed current idle filled hf some
  have hit := (wp_ok (wp_lookup hybrid made hashed current (answers_answering answer) loading trivial) hf).2 n rfl some
  exact fit.soundHit hybrid made hashed current some hit idle filled

/-! ### Windows that do not fit -/

theorem exists_request (scheme : HashScheme) {blockSize : Nat} (hp : 0 < blockSize) (n : Nat) : ∃ req : Request,
    req.numTokens = n ∧ req.Hashed scheme ∧ req.blockHashes.length = req.numTokens / blockSize := by
  let req : Request := {
    requestId := 0, samplingParams := { maxTokens := 1 }, maxTokens := 1, promptTokenIds := none, numPromptTokens := n
    allTokenIds := List.replicate n 0 }
  have viewed := viewed_construct scheme hp req
  refine ⟨req.construct scheme blockSize, List.length_replicate, viewed.hashed, ?_⟩
  rw [viewed.length, Request.extendView, List.nil_append, List.length_map, List.length_range', List.length_nil]
  rfl

include hybrid in
theorem fromSpec_total (numWorkers : Nat) : ∃ config, fromSpec cfg f numWorkers = .ok config := by
  unfold fromSpec
  split
  · rename_i g hf
    have hm := List.mem_range.mp (List.mem_of_find?_eq_some hf)
    have refused := List.find?_some hf
    rcases hybrid.attention g hm with kind | ⟨window, hp, kind⟩ <;> simp [offloadable, kind] at refused
    omega
  · exact ⟨_, rfl⟩

include hybrid in
theorem exists_status (made : fromSpec cfg f numWorkers = .ok config) (req : Request) :
    ∃ status : RequestOffloadState, status.Current config req.blockHashes ∧ status.transferJobs = [] ∧
      status.numLocallyComputedTokens = 0 := by
  refine ⟨RequestOffloadState.updateOffloadKeys config req (.new config false), ?_, rfl, rfl⟩
  refine current_updateOffloadKeys (fun group hm => ?_) (current_new config false) (List.nil_prefix)
  obtain ⟨g, hi, rfl⟩ := (mem_kvGroupConfigs made).mp hm
  exact hybrid.hashFactor_pos hi

variable (fresh : status.numLocallyComputedTokens = 0) {key : OffloadKey} {j : Nat}

include hybrid made hashed current fresh in
theorem lookup_eq (answer : OffloadKey → Option Bool) (total : ∀ key, answer key ≠ none)
    (ha : ∀ g < cfg.numGroups, offloadedBlockSize cfg f g ≤ e ∧ Accepts answer (keysOf status) 0 (groupConfig cfg f g) e)
    (hb : e ≤ searchBound config req)
    (last : ∀ e', e ≤ e' → e' ≤ searchBound config req → HitEnd cfg f config req status answer e' → e' = e) :
    config.lookup (answering answer) req status none () = .ok (some e) () := by
  have reached := wp_lookup_complete hybrid made hashed current (answers_answering answer) total
    (by simpa [fresh] using ha) hb (s := ()) trivial
  obtain ⟨result, s', run, e', n, further, bounded, rfl, count, hit⟩ := wp_total reached (fun _ _ never => never)
  have hs := last e' further bounded hit
  rw [fresh, Nat.sub_zero, hs] at count
  rw [run, count]

theorem offloaded_le_sum {i : Nat} (hi : i < cfg.numGroups) :
    offloadedBlockSize cfg f i ≤ ∑ i ∈ Finset.range cfg.numGroups, offloadedBlockSize cfg f i :=
  Finset.single_le_sum (fun _ _ => Nat.zero_le _) (Finset.mem_range.mpr hi)

include hybrid made hashed current in
theorem exists_key (hi : g < cfg.numGroups) (hb : j < req.numTokens / offloadedBlockSize cfg f g) :
    ∃ key, (keysOf status g)[j]? = some key := by
  rw [← length_keysOf hybrid made hashed current hi] at hb
  exact ⟨_, List.getElem?_eq_getElem hb⟩

include hybrid made current in
theorem groupIdx_of_key (hi : g < cfg.numGroups) (here : (keysOf status g)[j]? = some key) :
    key.groupIdx = g := by
  rw [keysOf_eq made current hi, getElem?_requestKeys (hybrid.hashFactor_pos hi), Option.map_eq_some_iff] at here
  obtain ⟨hash, _, rfl⟩ := here
  rfl

include hybrid in
theorem not_sound_of_single (hi : g < cfg.numGroups) (kind : (cfg.spec g).kind = .slidingWindow 1)
    (long : (cfg.spec g).blockSize ≠ 1) : ¬ LookupSound cfg f := by
  intro sound
  obtain ⟨period, hp, divides⟩ : ∃ period, 0 < period ∧ ∀ i < cfg.numGroups, offloadedBlockSize cfg f i ∣ period :=
    ⟨_, Nat.factorial_pos _, fun i hi => Nat.dvd_factorial (hybrid.offloaded_pos hi) (offloaded_le_sum hi)⟩
  obtain ⟨config, made⟩ := fromSpec_total hybrid 1
  obtain ⟨req, count, chained, hashed⟩ := exists_request cfg.pool.scheme hybrid.hashes (2 * period)
  obtain ⟨status, current, idle, fresh⟩ := exists_status hybrid made req
  have bound := searchBound_of_window made req hi kind
  -- With all keys ready the search finds all tokens but the last.
  have hf : config.lookup (answering fun _ => some true) req status none () = .ok (some (2 * period - 1)) () := by
    refine lookup_eq hybrid made hashed current fresh (fun _ => some true) (by simp) (fun i inside' => ?_) (by omega)
      (fun e' further bounded _ => by omega)
    have small := Nat.le_of_dvd hp (divides i inside')
    refine ⟨by omega, fun j _ hb => ?_⟩
    have enough : cdiv (2 * period - 1) (offloadedBlockSize cfg f i) ≤ req.numTokens / offloadedBlockSize cfg f i := by
      rw [count, cdiv_le_iff (hybrid.offloaded_pos inside'), Nat.mul_div_cancel' ((divides i inside').mul_left 2)]
      omega
    obtain ⟨key, here⟩ := exists_key hybrid made hashed current inside' (Nat.lt_of_lt_of_le hb enough)
    exact ⟨key, here, rfl⟩
  have hit := sound 1 config req status _ none _ made chained hashed current idle (by simp [fresh]) hf (by omega)
  rw [fresh] at hit
  obtain ⟨pool, tables, good⟩ := exists_loadTables cfg.spec 0 (0 + (2 * period - 1))
  obtain ⟨loads, run, each⟩ := hit.loads pool tables fun i _ => good i
  obtain ⟨load, first, here, -, none⟩ := each g hi
  -- Nothing is needed, but the last block of the group waits.
  have empty : load.dstBlockIds.length = 0 := by
    by_contra some
    obtain ⟨t, above, hb, -⟩ := (none.2 load.blockIndex).mpr ⟨Nat.le_refl _, by omega⟩
    simp only [neededFrom, kind] at above
    omega
  have whole := ((Nat.dvd_mul_right _ f).trans (divides g hi)).mul_left 2
  have skipped : max (numSkippedBlocks (cfg.spec g) (0 + (2 * period - 1))) (0 / (cfg.spec g).blockSize) =
      (2 * period - 1) / (cfg.spec g).blockSize := by
    rw [firstWaiting_eq (hybrid.attention g hi)]
    simp [neededFrom, kind]
  have group : config.kvGroupConfigs[g]? = some (groupConfig cfg f g) := by
    rw [(fromSpec_ok made).1]
    simp [hi]
  have dst := dstBlockIds_of_planLoad run group here
  have size : (groupConfig cfg f g).gpuBlockSize = (cfg.spec g).blockSize := rfl
  have more : (2 * period - 1) / (cfg.spec g).blockSize < cdiv (0 + (2 * period - 1)) (cfg.spec g).blockSize := by
    refine Nat.lt_of_not_le fun far => long ?_
    have reaches := (cdiv_le_iff (hybrid.positive g hi)).mp far
    have exact_ := Nat.mul_div_le (2 * period - 1) (cfg.spec g).blockSize
    have divides' : (cfg.spec g).blockSize ∣ 2 * period - 1 := ⟨_, Nat.le_antisymm (by omega) exact_⟩
    have one := Nat.dvd_sub whole divides'
    rw [Nat.sub_sub_self (by omega)] at one
    exact Nat.dvd_one.mp one
  have waiting := numLocallyComputedGpuBlocks_eq (good g) (by omega)
  have length := congrArg List.length dst
  rw [fresh, size, show (groupConfig cfg f g).groupIdx = g from rfl, waiting, empty, skipped, List.length_drop,
    List.length_take_of_le (length_of_table (good g))] at length
  omega

include hybrid made current in
theorem key_inj (nodup : req.blockHashes.Nodup) (hi : g < cfg.numGroups) {i j : Nat}
    (first : (keysOf status g)[i]? = some key) (second : (keysOf status g)[j]? = some key) : i = j := by
  rw [keysOf_eq made current hi] at first second
  exact requestKeys_inj (hybrid.hashFactor_pos hi) nodup first second

def allBut (status : RequestOffloadState) (h k g m : Nat) (key : OffloadKey) : Option Bool :=
  some (key ∉ (keysOf status h).drop k ∧ (keysOf status g)[m]? ≠ some key)

theorem allBut_eq_true {h k m : Nat} : allBut status h k g m key = some true ↔
    key ∉ (keysOf status h).drop k ∧ (keysOf status g)[m]? ≠ some key := by
  simp [allBut]

theorem firstBlock_le (proper : group.Proper) (some : 0 < cdiv e group.offloadedBlockSize) :
    group.firstBlock 0 e ≤ cdiv e group.offloadedBlockSize - 1 := by
  unfold GroupOffloadConfig.firstBlock
  split
  · simp
  · rename_i window here
    have := proper.window window here
    rw [Nat.zero_div]
    omega

section

variable {h k m : Nat} (nodup : req.blockHashes.Nodup) (hi : g < cfg.numGroups) (inside' : h < cfg.numGroups)
  (multiple : e = offloadedBlockSize cfg f h * k)

include hybrid inside' multiple in
theorem last_allBut {e' : Nat} (further : e ≤ e')
    (hit : Accepts (allBut status h k g m) (keysOf status) 0 (groupConfig cfg f h) e') : e' = e := by
  by_contra different
  have hp := hybrid.offloaded_pos inside'
  have more : k < cdiv e' (offloadedBlockSize cfg f h) := by
    refine Nat.lt_of_not_le fun few => ?_
    have := (cdiv_le_iff hp).mp few
    omega
  obtain ⟨key, here, ready⟩ := hit _ (firstBlock_le (hybrid.proper inside') (Nat.zero_lt_of_lt more))
    (Nat.sub_lt (Nat.zero_lt_of_lt more) Nat.one_pos)
  refine (allBut_eq_true.mp ready).1 (List.mem_iff_getElem?.mpr ⟨cdiv e' (offloadedBlockSize cfg f h) - 1 - k, ?_⟩)
  rw [List.getElem?_drop, Nat.add_sub_cancel' (by omega)]
  exact here

include hybrid made hashed current nodup hi inside' multiple in
theorem accepts_allBut (ho : m < (groupConfig cfg f g).firstBlock 0 e)
    (enough : ∀ i < cfg.numGroups, cdiv e (offloadedBlockSize cfg f i) ≤ req.numTokens / offloadedBlockSize cfg f i)
    (i : Nat) (inside'' : i < cfg.numGroups) :
    Accepts (allBut status h k g m) (keysOf status) 0 (groupConfig cfg f i) e := by
  intro j above hb
  obtain ⟨key, here⟩ := exists_key hybrid made hashed current inside'' (lt_of_lt_of_le hb (enough i inside''))
  refine ⟨key, here, allBut_eq_true.mpr ⟨fun there => ?_, fun there => ?_⟩⟩
  · obtain ⟨j', there⟩ := List.mem_iff_getElem?.mp there
    rw [List.getElem?_drop] at there
    obtain rfl := (groupIdx_of_key hybrid made current inside'' here).symm.trans
      (groupIdx_of_key hybrid made current inside' there)
    have hs := key_inj hybrid made current nodup inside'' here there
    have short : j < cdiv e (offloadedBlockSize cfg f i) := hb
    rw [multiple, cdiv_mul_right (hybrid.offloaded_pos inside'')] at short
    omega
  · obtain rfl := (groupIdx_of_key hybrid made current inside'' here).symm.trans
      (groupIdx_of_key hybrid made current hi there)
    have hs := key_inj hybrid made current nodup inside'' here there
    omega

end

theorem exists_multiple {b h : Nat} (hp : 0 < h) (small : Nat.gcd b h < b) (bound : Nat) :
    ∃ k q, h * k = b * q + Nat.gcd b h ∧ bound ≤ q := by
  rw [Nat.gcd_comm] at small ⊢
  obtain ⟨m, -, rest⟩ := Nat.exists_mul_mod_eq_gcd small
  refine ⟨m + b * bound, h * m / b + h * bound, ?_, ?_⟩
  · have split := Nat.div_add_mod (h * m) b
    rw [mul_add, mul_add, mul_left_comm]
    omega
  · exact Nat.le_trans (Nat.le_mul_of_pos_left bound hp) (Nat.le_add_left _ _)

include hybrid in
theorem not_sound_of_misfit (ideal : cfg.pool.scheme.Ideal) (hi : g < cfg.numGroups) {h : Nat}
    (kind : (cfg.spec g).kind = .slidingWindow window) (inside' : h < cfg.numGroups)
    (misfit : cdiv window (offloadedBlockSize cfg f g) * offloadedBlockSize cfg f g + 1 +
      Nat.gcd (offloadedBlockSize cfg f g) (offloadedBlockSize cfg f h) < offloadedBlockSize cfg f g + window) :
    ¬ LookupSound cfg f := by
  intro sound
  have hp := hybrid.offloaded_pos hi
  have hp' := hybrid.offloaded_pos inside'
  have rounded := le_mul_cdiv hp window
  rw [Nat.mul_comm] at rounded
  have searched := (hybrid.proper hi).window _ (windowBlocks_window kind)
  have summand := offloaded_le_sum (f := f) hi
  generalize hs : offloadedBlockSize cfg f g = b at *
  obtain ⟨k, q, multiple, large⟩ := exists_multiple hp' (by omega : Nat.gcd b (offloadedBlockSize cfg f h) < b)
    (∑ i ∈ Finset.range cfg.numGroups, offloadedBlockSize cfg f i + cdiv window b)
  have behind : 0 < Nat.gcd b (offloadedBlockSize cfg f h) := Nat.gcd_pos_of_pos_left _ hp
  generalize Nat.gcd b (offloadedBlockSize cfg f h) = d at *
  have tall := Nat.le_mul_of_pos_left q hp
  have blocks : cdiv (b * q + d) b = q + 1 := by
    apply Nat.le_antisymm
    · rw [cdiv_le_iff hp, Nat.mul_add]
      omega
    · refine Nat.lt_of_not_le fun few => ?_
      have := (cdiv_le_iff hp).mp few
      omega
  obtain ⟨config, made⟩ := fromSpec_total hybrid 1
  obtain ⟨req, count, chained, hashed⟩ := exists_request cfg.pool.scheme hybrid.hashes
    (b * q + d + ∑ i ∈ Finset.range cfg.numGroups, offloadedBlockSize cfg f i)
  obtain ⟨status, current, idle, fresh⟩ := exists_status hybrid made req
  have bound := searchBound_of_window made req hi kind
  have first : (groupConfig cfg f g).firstBlock 0 (b * q + d) = q + 1 - cdiv window b := by
    have size : (groupConfig cfg f g).offloadedBlockSize = b := hs
    simp only [GroupOffloadConfig.firstBlock, windowBlocks_window kind, size, hs, blocks, Nat.zero_div, Nat.zero_max]
  -- Group `h` ends the search within a block of group `g`, whose window lacks its first block.
  have hf : config.lookup (answering (allBut status h k g (q - cdiv window b))) req status none () =
      .ok (some (b * q + d)) () := by
    refine lookup_eq hybrid made hashed current fresh _ (by simp [allBut]) (fun i hm => ?_) (by omega)
      fun e' further _ hit => last_allBut hybrid inside' multiple.symm further (by simpa [fresh] using hit.accepts h inside')
    have small := offloaded_le_sum (f := f) hm
    refine ⟨by omega, accepts_allBut hybrid made hashed current (chained.nodup ideal) hi inside' multiple.symm (by omega)
      (fun j other => ?_) i hm⟩
    have small' := offloaded_le_sum (f := f) other
    exact Nat.div_le_div_right (by omega)
  have hit := sound 1 config req status _ none _ made chained hashed current idle (by simp [fresh]) hf (by omega)
  have span : b * (q - cdiv window b + 1) + cdiv window b * b = b * q + b := by
    rw [Nat.mul_comm (cdiv window b), ← Nat.mul_add, show q - cdiv window b + 1 + cdiv window b = q + 1 by omega, Nat.mul_add,
      Nat.mul_one]
  have wide := Nat.le_mul_of_pos_left b searched
  obtain ⟨key, here, ready⟩ := hit.ready g hi (b * (q - cdiv window b + 1) - 1) (by
    simp only [neededFrom, kind]
    omega) (by omega)
  have block : (b * (q - cdiv window b + 1) - 1) / b = q - cdiv window b := by
    rw [Nat.div_eq_iff hp, Nat.mul_comm]
    rw [Nat.mul_add]
    omega
  rw [hs, block] at here
  exact (allBut_eq_true.mp ready).2 here

/-! ### Soundness -/

/-- The lookups of a configuration are sound exactly if its windows fit; the tables are as `update_state_after_alloc` expects
them exactly if no group has taken a hit of another one for its external tokens. -/
theorem lookupSound_iff_windowsFit (hybrid : Hybrid cfg f) (ideal : cfg.pool.scheme.Ideal) :
    (LookupSound cfg f ↔ WindowsFit cfg f) ∧
      ∀ free s s' req args c new, Sound cfg free s → Awaits cfg s req args c →
        allocateSlots cfg req args s = .ok (some new) s' →
        ((∀ g < cfg.numGroups, LoadTable s'.blockPool (cfg.spec g) c (args.allComputedTokens req)
          (s'.blocks g req.requestId)) ↔
        Undisturbed cfg args.newComputedBlocks (args.allComputedTokens req) args.numExternalComputedTokens free) := by
  refine ⟨⟨fun sound g hi window kind => ⟨?_, fun h inside' => ?_⟩, lookupSound_of_fit hybrid⟩, ?_⟩
  · rintro rfl
    by_contra long
    exact not_sound_of_single hybrid hi kind long sound
  · by_contra misfit
    exact not_sound_of_misfit hybrid ideal hi kind inside' (Nat.lt_of_not_le misfit) sound
  · intro free s s' req args c new sound awaits run
    refine loadTables_iff_undisturbed hybrid.positive (fun g hi => ?_) (fun g hi => ?_) awaits sound run
    · rcases hybrid.attention g hi with kind | ⟨window, _, kind⟩ <;> simp [KVCacheSpec.Plain, kind]
    · rcases hybrid.attention g hi with kind | ⟨window, positive, kind⟩ <;> simp [kind]
      omega

theorem windowedConfig_hybrid (numGpuBlocks : Nat) : Hybrid (windowedConfig numGpuBlocks) 1 where
  some := Nat.succ_pos 1
  factor := one_pos
  hashes := Nat.succ_pos 3
  positive := (windowedConfig_valid numGpuBlocks).blockSize_pos
  divides g hi := Nat.dvd_of_mod_eq_zero ((windowedConfig_valid numGpuBlocks).divisible rfl g hi)
  attention g _ := by
    simp only [windowedConfig]
    split <;> simp

theorem lookupSound_windowedConfig : LookupSound (windowedConfig 9) 1 := by
  refine (lookupSound_iff_windowsFit (windowedConfig_hybrid 9) unaryScheme_ideal).1.mpr fun g hi window kind => ?_
  have size : ∀ g, ((windowedConfig 9).spec g).blockSize = 4 := by
    intro g
    simp only [windowedConfig]
    split <;> rfl
  have five : window = 5 := by
    simp only [windowedConfig] at kind
    split at kind <;> cases kind
    rfl
  rw [five]
  simp only [offloadedBlockSize, size]
  decide

noncomputable def unevenConfig : CacheConfig where
  pool := { numGpuBlocks := 9, hashBlockSize := 2, scheme := unaryScheme }
  maxModelLen := 64
  maxNumBatchedTokens := 64
  numGroups := 2
  spec g := if g = 0 then ⟨2, .fullAttention, 0⟩ else ⟨4, .slidingWindow 4, 0⟩

def unevenRequest : Request where
  requestId := 0
  samplingParams := { maxTokens := 1 }
  maxTokens := 1
  promptTokenIds := none
  numPromptTokens := 9
  allTokenIds := List.replicate 9 0
  blockHashes := [[0], [1], [2], [3]]

def unevenStatus : RequestOffloadState where
  groupStates := [{ offloadKeys := [⟨[0], 0⟩, ⟨[1], 0⟩, ⟨[2], 0⟩, ⟨[3], 0⟩] }, { offloadKeys := [⟨[1], 1⟩, ⟨[3], 1⟩] }]

def unevenAnswer (key : OffloadKey) : Option Bool := some (key ∈ [⟨[0], 0⟩, ⟨[1], 0⟩, ⟨[2], 0⟩, ⟨[3], 1⟩])

/-- The lookup ends in the middle of a block of the window, which needs token 3, whose block is not ready; and
`update_state_after_alloc` fails, since two blocks wait where the window has one. -/
theorem lookup_within_window_block : ∃ config, fromSpec unevenConfig 1 1 = .ok config ∧
    unevenStatus.Current config unevenRequest.blockHashes ∧
    config.lookup (answering unevenAnswer) unevenRequest unevenStatus none () = .ok (some 6) () ∧
    neededFrom (unevenConfig.spec 1) 0 6 = 3 ∧
    (keysOf unevenStatus 1)[3 / offloadedBlockSize unevenConfig 1 1]? = some ⟨[1], 1⟩ ∧
    unevenAnswer ⟨[1], 1⟩ = some false ∧
    ∃ pool tables, (∀ g < 2, LoadTable pool (unevenConfig.spec g) 0 6 (tables g)) ∧
      planLoad pool config 0 unevenStatus 6 tables () = .error (.tooManyPendingBlocks 1) () := by
  refine ⟨⟨[groupConfig unevenConfig 1 0, groupConfig unevenConfig 1 1], 1, 1⟩, rfl, ⟨rfl, ?_⟩, ?_, rfl, rfl, rfl,
    ⟨0, fun _ => 0, fun _ => none, .init [], .empty, []⟩, fun g => if g = 0 then [1, 2, 3] else [4, 5], ?_, rfl⟩
  · intro g group here
    match g with
    | 0 => cases here; rfl
    | 1 => cases here; rfl
  · have windows : slidingWindowGroups ⟨[groupConfig unevenConfig 1 0, groupConfig unevenConfig 1 1], 1, 1⟩ =
        [groupConfig unevenConfig 1 1] := List.mergeSort_singleton _
    rw [lookup, allLookupGroups, windows]
    rfl
  · intro g below
    match g with
    | 0 =>
      change LoadTable _ _ _ _ (List.replicate 0 0 ++ [] ++ [1, 2, 3])
      exact (loadTable_iff rfl (by decide) (by decide)).mpr (by simp)
    | 1 =>
      change LoadTable _ _ _ _ (List.replicate 0 0 ++ [] ++ [4, 5])
      exact (loadTable_iff rfl (by decide) (by decide)).mpr (by simp)

end KVOffload.Offload
