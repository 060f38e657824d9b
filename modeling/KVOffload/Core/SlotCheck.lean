import KVOffload.Core.Allocation

/-!
# The free-block check of `allocate_slots`

The blocks a group takes for external tokens may be hits of a later group: then that group finds its hits gone from the queue,
and the count was too high.
-/

namespace KVOffload.Core

open Finset

namespace KVCacheManager

variable {cfg : CacheConfig} {s s' : KVCacheManager} {g : Nat} {free : List BlockId} {hits : KVCacheBlocks} {args : SlotArgs}
  {req : Request}

def windowTokens (spec : KVCacheSpec) (totalComputedTokens : Nat) : Nat :=
  match spec.kind with
  | .mamba _ numSpeculativeBlocks => totalComputedTokens - numSpeculativeBlocks
  | _ => totalComputedTokens

structure OnlySkippedFreed (cfg : CacheConfig) (req : RequestId) (total : Nat) (s s' : KVCacheManager) : Prop where
  skipped : ∀ g < cfg.numGroups, s'.blocks g req = withoutRemoved s.blockPool.nullBlock (s.blocks g req)
    (numSkippedBlocks (cfg.spec g) (windowTokens (cfg.spec g) total))
  others : ∀ g r, r ≠ req → s'.blocks g r = s.blocks g r
  numCached : ∀ g r, s'.numCached g r = s.numCached g r
  hashes : BlockPool.SameHashes s.blockPool s'.blockPool
  queue : ∃ free released, s.blockPool.freeBlockQueue.Represents free ∧
    s'.blockPool.freeBlockQueue.Represents (free ++ released) ∧
    ∀ block ∈ released, ∃ g < cfg.numGroups, block ∈ s.blocks g req
  invariant : PoolInvariant cfg s'

theorem wp_managerRemoveSkippedBlocks (plain : (cfg.spec g).Plain) {req : RequestId} {total : Nat}
    {Q : Unit → KVCacheManager → Prop} {E : CacheError → KVCacheManager → Prop}
    (base : wp (baseRemoveSkippedBlocks cfg g req (windowTokens (cfg.spec g) total)) Q E s) :
    wp (managerRemoveSkippedBlocks cfg g req total) Q E s := by
  unfold managerRemoveSkippedBlocks
  unfold windowTokens at base
  cases kind : (cfg.spec g).kind with
  | mamba mode k =>
    simp only [kind] at base ⊢
    rw [wp_bind]
    refine wp_mono base (fun _ t done => ?_) (fun _ _ failed => failed)
    rw [wp_onlyIf]
    exact ⟨fun align => absurd (by rw [kind, align]) (plain k), fun _ => done⟩
  | fullAttention => simpa only [kind] using base
  | slidingWindow w => simpa only [kind] using base
  | chunkedLocalAttention c => simpa only [kind] using base

variable (plain : ∀ g < cfg.numGroups, (cfg.spec g).Plain)

include plain in
theorem wp_removeSkippedBlocks (sound : Sound cfg free s)
    (req : RequestId) (total : Nat) : wp (removeSkippedBlocks cfg req total) (fun _ t => ∃ released,
      Sound cfg (free ++ released) t ∧ (∀ block ∈ released, ∃ g < cfg.numGroups, block ∈ s.blocks g req) ∧
      OnlySkippedFreed cfg req total s t) (fun _ _ => False) s := by
  have stage := wp_forM_range (n := cfg.numGroups) (E := fun _ _ => False)
    (f := fun g => managerRemoveSkippedBlocks cfg g req total)
    (I := fun n t => ∃ released, Sound cfg (free ++ released) t ∧
      (∀ block ∈ released, ∃ g < cfg.numGroups, block ∈ s.blocks g req) ∧ Frame (· < n) req s t ∧
      (∀ g r, t.numCached g r = s.numCached g r) ∧ BlockPool.SameHashes s.blockPool t.blockPool ∧
      ∀ g < n, t.blocks g req = withoutRemoved s.blockPool.nullBlock (s.blocks g req)
        (numSkippedBlocks (cfg.spec g) (windowTokens (cfg.spec g) total)))
    ?_ ⟨[], by simpa using sound, by simp, Frame.refl, fun _ _ => rfl, ⟨rfl, rfl, rfl⟩, fun g never => absurd never (Nat.not_lt_zero g)⟩
  · refine wp_imp stage ?_
    rintro _ t ⟨released, sound', origin, frame, cached, hashes, done⟩
    exact ⟨released, sound', origin,
      { skipped := done
        others := fun g r other => frame.blocks g r fun both => other both.2
        numCached := cached
        hashes := hashes
        queue := ⟨free, released, sound.pool.queue, sound'.pool.queue, origin⟩
        invariant := sound'.poolInvariant }⟩
  rintro g hi t ⟨released, sound', origin, frame, cached, hashes, done⟩
  have hs := frame.blocks g req fun both => lt_irrefl g both.1
  apply wp_managerRemoveSkippedBlocks (plain g hi)
  apply wp_baseRemoveSkippedBlocks sound' hi
  intro u released' origin' releases cached'
  refine ⟨released ++ released', by simpa using releases.sound, ?_, (frame.mono fun i hb => Nat.lt_succ_of_lt hb).trans
    (releases.frame.mono fun i hs => by omega), ?_, hashes.trans releases.hashes, ?_⟩
  · intro block hm
    rcases List.mem_append.mp hm with before | now
    · exact origin block before
    · exact ⟨g, hi, hs ▸ origin' block now⟩
  · intro i r
    by_cases here : i = g ∧ r = req
    · rw [here.1, here.2, cached', cached]
    · rw [releases.frame.numCached i r here, cached]
  · intro i hb
    rcases Nat.lt_succ_iff_lt_or_eq.mp hb with earlier | rfl
    · rw [releases.frame.blocks i req fun both => by omega]
      exact done i earlier
    · rw [releases.blocks, hs, hashes.nullBlock]

section

theorem Sound.length_free_le (sound : Sound cfg free s) : free.length ≤ cfg.pool.numGpuBlocks := by
  have hi : free ⊆ List.range cfg.pool.numGpuBlocks :=
    fun block hm => List.mem_range.mpr ((sound.pool.free_iff block).mp hm).1
  simpa using (sound.pool.nodup.subperm hi).length_le

theorem predictedTotal_of_le {req : RequestId} {numTokens total : Nat} {bound : Nat}
    (small : bound ≤ cfg.pool.numGpuBlocks) (passed : predictedTotal cfg s req numTokens hits total ≤ bound) :
    predictedTotal cfg s req numTokens hits total =
      ((∑ g ∈ range cfg.numGroups, predicted cfg s g req numTokens (hits g) total : Nat)) := by
  have sum : predictedTotal cfg s req numTokens hits total = ∑ g ∈ range cfg.numGroups,
      if postponed cfg s g (hits g) then (cfg.pool.numGpuBlocks : Int) + 1
      else (predicted cfg s g req numTokens (hits g) total) := rfl
  have nonneg : ∀ g ∈ range cfg.numGroups, 0 ≤ if postponed cfg s g (hits g) then (cfg.pool.numGpuBlocks : Int) + 1
      else (predicted cfg s g req numTokens (hits g) total) := by
    intro g _
    split
    · omega
    · exact Int.natCast_nonneg _
  rw [sum] at passed ⊢
  rw [Nat.cast_sum]
  refine sum_congr rfl fun g hm => if_neg fun off => ?_
  have one := single_le_sum nonneg hm
  rw [if_pos off] at one
  omega

include plain in
theorem slotsNeeded_eq
    (noHits : ∀ g < cfg.numGroups, (s.numCached g req.requestId).isSome → args.newComputedBlocks g = []) :
    slotsNeeded cfg req args s = .ok (predictedTotal cfg s req.requestId (args.numTokensNeedSlot cfg req)
      args.newComputedBlocks (args.allComputedTokens req)) s := by
  refine bind_ok_iff.mpr ⟨_, s, mapM_eq_map fun g hm => ?_, rfl⟩
  have hi := mem_range.mp hm
  exact getNumBlocksToAllocate_eq (plain g hi) (noHits g hi)

theorem covers_of_numRequired {numTokens held : Nat} (hp : 0 < (cfg.spec g).blockSize)
    (enough : numRequired cfg g numTokens ≤ held) : numTokens ≤ held * (cfg.spec g).blockSize := by
  have rounded : groupTokens (cfg.spec g) numTokens ≤ numRequired cfg g numTokens * (cfg.spec g).blockSize := by
    unfold numRequired cdiv
    have split := Nat.div_add_mod (groupTokens (cfg.spec g) numTokens + (cfg.spec g).blockSize - 1) (cfg.spec g).blockSize
    have small := Nat.mod_lt (groupTokens (cfg.spec g) numTokens + (cfg.spec g).blockSize - 1) hp
    rw [mul_comm] at split
    omega
  exact Nat.le_trans (le_groupTokens _ _) (Nat.le_trans rounded (Nat.mul_le_mul_right _ enough))

variable (cfg req) in
structure TakesExactly (args : SlotArgs) (n : Int) (s s' : KVCacheManager) : Prop where
  freeList : ∃ free free', s.blockPool.freeBlockQueue.Represents free ∧ s'.blockPool.freeBlockQueue.Represents free' ∧
    free'.Sublist free ∧ (free'.length : Int) + n = free.length
  covered : ∀ g < cfg.numGroups, args.numTokensNeedSlot cfg req ≤ (s'.blocks g req.requestId).length * (cfg.spec g).blockSize

theorem TakesExactly.numFree {n : Int} (takes : TakesExactly cfg req args n s s') :
    s'.blockPool.getNumFreeBlocks + n = s.blockPool.getNumFreeBlocks := by
  obtain ⟨free, free', before, after, -, count⟩ := takes.freeList
  unfold BlockPool.getNumFreeBlocks
  rw [before.count, after.count]
  exact count

variable {total external numTokens : Nat}

theorem takeSlots_uncomputed (valid : cfg.Valid) (plain : ∀ g < cfg.numGroups, (cfg.spec g).Plain) (sound : Sound cfg free s)
    (asks : Asks cfg req args hits total 0 numTokens) (noHits : ∀ g < cfg.numGroups, hits g = [])
    (short : ∀ g < cfg.numGroups, numSkippedBlocks (cfg.spec g) total ≤ (s.blocks g req.requestId).length)
    (room : ∑ g ∈ range cfg.numGroups, predicted cfg s g req.requestId numTokens (hits g) total ≤ free.length) :
    ∃ new t, takeSlots cfg req args s = .ok new t ∧ TakesExactly cfg req args
      ((∑ g ∈ range cfg.numGroups, predicted cfg s g req.requestId numTokens (hits g) total : Nat)) s t := by
  have all : ∑ g ∈ range cfg.numGroups, predicted cfg s g req.requestId numTokens (hits g) total =
      ∑ g ∈ range cfg.numGroups, missing cfg s req.requestId numTokens g := by
    apply sum_congr rfl
    intro g hm
    have hi := mem_range.mp hm
    unfold predicted missing
    rw [noHits g hi, List.length_nil, zero_add, max_eq_right (short g hi)]
    simp [getNumEvictableBlocks]
  rw [all] at room ⊢
  obtain ⟨rfl, rfl, noExternal, rfl⟩ := asks
  have nothing : ¬ (hasBlocks cfg args.newComputedBlocks ∨ args.numExternalComputedTokens > 0) := by
    rintro (some | external)
    · obtain ⟨g, hm, hf⟩ := List.any_eq_true.mp some
      exact absurd (noHits g (List.mem_range.mp hm)) (by simpa using hf)
    · omega
  obtain ⟨new, t, run, adds⟩ := wp_total (wp_newStage plain sound) fun _ _ few => Nat.not_lt_of_le room few
  have run' : takeSlots cfg req args s = .ok new t := by
    unfold takeSlots
    rw [onlyIf_neg nothing]
    exact run
  refine ⟨new, t, run', ⟨free, _, sound.pool.queue, adds.sound.pool.queue, List.drop_sublist _ _, ?_⟩, fun g hi => ?_⟩
  · rw [List.length_drop]
    omega
  · exact covers_of_numRequired (valid.blockSize_pos g hi) (adds.covered hi)

variable (cfg req) in
/-- The hits reach no further than the computed tokens, and no group takes a hit of a later one for external tokens. -/
structure Compatible (args : SlotArgs) (free : List BlockId) : Prop where
  fit : ∀ g < cfg.numGroups,
    HitsFit cfg g (args.newComputedBlocks g) (args.allComputedTokens req) args.numExternalComputedTokens
  undisturbed : Undisturbed cfg args.newComputedBlocks (args.allComputedTokens req) args.numExternalComputedTokens free

theorem Asks.compatible_iff (asks : Asks cfg req args hits total external numTokens) : Compatible cfg req args free ↔
    (∀ g < cfg.numGroups, HitsFit cfg g (hits g) total external) ∧ Undisturbed cfg hits total external free := by
  obtain ⟨rfl, rfl, rfl, -⟩ := asks
  exact ⟨fun both => ⟨both.fit, both.undisturbed⟩, fun both => ⟨both.1, both.2⟩⟩

theorem compatible_of_local (asks : Asks cfg req args hits total 0 numTokens) : Compatible cfg req args free := by
  refine asks.compatible_iff.mpr ⟨fun g _ => hitsFit_zero _ _, fun g _ block hm => ?_⟩
  have none : ∑ i ∈ range g, externalShare cfg hits total 0 i = 0 := by
    apply sum_eq_zero
    simp [externalShare, numExternalBlocks, externalTokens]
  rw [none] at hm
  cases hm

theorem takeSlots_computed_iff (valid : cfg.Valid) (plain : ∀ g < cfg.numGroups, (cfg.spec g).Plain) (sound : Sound cfg free s)
    (asks : Asks cfg req args hits total external numTokens)
    (unknown : ∀ g < cfg.numGroups, s.numCached g req.requestId = none ∧ s.blocks g req.requestId = [])
    (known : ∀ g < cfg.numGroups, ∀ block ∈ hits g, block < cfg.pool.numGpuBlocks)
    (hd : ∀ g < cfg.numGroups, (realBlocks s.blockPool.nullBlock (hits g)).Nodup)
    (apart : ∀ i j, i < j → j < cfg.numGroups → ∀ block ∈ free,
      block ∈ keptHits cfg i (hits i) total → block ∉ keptHits cfg j (hits j) total)
    (off : ¬ cfg.pool.enableCaching → ∀ g, hits g = []) (some : hasBlocks cfg hits ∨ external > 0) (hw : total ≤ numTokens)
    (room : ∑ g ∈ range cfg.numGroups, predicted cfg s g req.requestId numTokens (hits g) total ≤ free.length) :
    (∃ new t, takeSlots cfg req args s = .ok new t ∧ TakesExactly cfg req args
      ((∑ g ∈ range cfg.numGroups, predicted cfg s g req.requestId numTokens (hits g) total : Nat)) s t) ↔
    (∀ g < cfg.numGroups, HitsFit cfg g (hits g) total external) ∧ Undisturbed cfg hits total external free := by
  have counted : ∑ g ∈ range cfg.numGroups, predicted cfg s g req.requestId numTokens (hits g) total =
      ∑ g ∈ range cfg.numGroups, (numRequired cfg g numTokens - numLocalBlocks cfg g (hits g) total +
        evictable cfg hits total free g) := by
    apply sum_congr rfl
    intro g hm
    have hi := mem_range.mp hm
    have nodup : (realBlocks s.blockPool.nullBlock (keptHits cfg g (hits g) total)).Nodup :=
      (hd g hi).sublist ((List.drop_sublist _ _).filter _)
    rw [predicted_new (unknown g hi).1 (unknown g hi).2,
      getNumEvictableBlocks_eq sound (fun block (kept : block ∈ keptHits ..) => known g hi block (List.mem_of_mem_drop kept)) nodup]
    rfl
  have asked : ∀ g ∈ range cfg.numGroups, numRequired cfg g numTokens - numLocalBlocks cfg g (hits g) total +
      touchedFree cfg hits total external free g ≤ numRequired cfg g numTokens - numLocalBlocks cfg g (hits g) total +
        evictable cfg hits total free g := fun g _ => Nat.add_le_add_left (touchedFree_le g) _
  rw [counted] at room
  have taken fit :=
    wp_takeSlots_fresh plain sound asks unknown ⟨known, hd, fit⟩ off some hw room
  have calm : (∀ g < cfg.numGroups, touchedFree cfg hits total external free g = evictable cfg hits total free g) ↔
      Undisturbed cfg hits total external free := undisturbed_iff sound.pool.nodup apart
  constructor
  · rintro ⟨new, t, run, takes⟩
    have nonneg : ∀ block, block ≠ s.blockPool.nullBlock → 0 ≤ s.blockPool.refCnt block := by
      intro block real
      rw [sound.pool.refs block real]
      exact Int.natCast_nonneg _
    have fit := fits_of_exact plain nonneg asks unknown some hw run (by
      rw [← takes.numFree, Nat.cast_sum]
      congr 1
      refine sum_congr rfl fun g hm => ?_
      rw [predicted_new (unknown g (mem_range.mp hm)).1 (unknown g (mem_range.mp hm)).2]
      rfl)
    obtain ⟨free', sound', -, count, -⟩ := wp_ok (taken fit) run
    have exactly := takes.numFree
    rw [sound'.pool.numFree, sound.pool.numFree] at exactly
    refine ⟨fit, calm.mp fun g hi => ?_⟩
    have hs := (sum_eq_sum_iff_of_le asked).mp (by omega) g (mem_range.mpr hi)
    exact Nat.add_left_cancel hs
  · rintro ⟨fit, undisturbed⟩
    obtain ⟨new, t, run, free', sound', smaller, count, covered⟩ := wp_total (taken fit) (fun _ _ never => never)
    refine ⟨new, t, run, ⟨free, free', sound.pool.queue, sound'.pool.queue, smaller, ?_⟩, fun g hi => ?_⟩
    · have hs := sum_congr rfl fun g hm => congrArg (numRequired cfg g numTokens - numLocalBlocks cfg g (hits g) total + ·)
        (calm.mpr undisturbed g (mem_range.mp hm))
      omega
    · exact covers_of_numRequired (valid.blockSize_pos g hi) (asks.numTokens ▸ covered g hi)

end

/-- A waiting request without computed tokens comes with what `get_computed_blocks` found and with external tokens; any
other request comes without either, and its blocks cover its computed tokens. -/
inductive Scheduled (cfg : CacheConfig) (s : KVCacheManager) (req : Request) (args : SlotArgs) : Prop where
  | waiting (uncomputed : req.numComputedTokens = 0) (hashed : req.Hashed cfg.pool.scheme)
    (unknown : ∀ g < cfg.numGroups, s.numCached g req.requestId = none ∧ s.blocks g req.requestId = [])
    (found : getComputedBlocks cfg s req = some (args.newComputedBlocks, args.numNewComputedTokens))
    (within : args.allComputedTokens req ≤ cfg.maxModelLen)
  | running (noHits : ∀ g < cfg.numGroups, args.newComputedBlocks g = []) (noneNew : args.numNewComputedTokens = 0)
    (noExternal : args.numExternalComputedTokens = 0)
    (covered : ∀ g < cfg.numGroups, req.numComputedTokens ≤ (s.blocks g req.requestId).length * (cfg.spec g).blockSize)

variable (cfg s) in
def Reachable : Prop :=
  ∃ start calls, KVCacheManager.init cfg = .ok start ∧ LawfulRun cfg calls start ∧ runPast (Call.exec cfg) calls start = s

theorem Reachable.sound (valid : cfg.Valid) (ideal : cfg.pool.scheme.Ideal) (reachable : Reachable cfg s) : ∃ free, Sound cfg free s := by
  obtain ⟨start, calls, made, lawful, rfl⟩ := reachable
  exact sound_run valid ideal (sound_init made) lawful

theorem numSkippedBlocks_le {spec : KVCacheSpec} (window : spec.kind ≠ .slidingWindow 0) {total held : Nat}
    (covered : total ≤ held * spec.blockSize) : numSkippedBlocks spec total ≤ held := by
  have fewer : getNumSkippedTokens spec total ≤ total := by
    unfold getNumSkippedTokens
    split
    · exact Nat.zero_le _
    · rename_i w kind
      have : w ≠ 0 := fun none => window (none ▸ kind)
      omega
    · exact Nat.div_mul_le_self _ _
    · exact Nat.sub_le _ _
  exact Nat.div_le_of_le_mul (Nat.le_trans fewer (Nat.mul_comm _ _ ▸ covered))

include plain in
theorem wp_fullSequenceFits_same :
    wp (fullSequenceFits cfg req args) (fun _ t => t = s) (fun _ _ => True) s := by
  unfold fullSequenceFits
  split
  · simp
  · simp only [wp_bind, wp_get]
    exact wp_mono (wp_totalBlocksToAllocate_same plain) (fun _ _ hs => hs) (fun _ _ _ => trivial)

include plain in
theorem allocateSlots_none (sound : Sound cfg free s)
    (run : allocateSlots cfg req args s = .ok none s') :
    s' = s ∨ OnlySkippedFreed cfg req.requestId (args.totalComputedTokens cfg req) s s' := by
  have done : wp (allocateSlots cfg req args) (fun new t => new = none →
      t = s ∨ OnlySkippedFreed cfg req.requestId (args.totalComputedTokens cfg req) s t) (fun _ _ => True) s := by
    unfold allocateSlots
    simp only [wp_bind, wp_ensure]
    refine ⟨fun _ => ?_, fun _ => trivial⟩
    refine wp_imp (wp_fullSequenceFits_same plain) ?_
    rintro fit t rfl
    split
    · simp
    simp only [wp_bind, wp_get]
    refine wp_mono (wp_removeSkippedBlocks plain sound _ _) ?_ (fun _ _ _ => trivial)
    rintro _ u ⟨released, -, -, removed⟩
    refine wp_mono (wp_totalBlocksToAllocate_same plain) ?_ (fun _ _ _ => trivial)
    rintro needed v rfl
    split
    · exact fun _ => .inr removed
    · simp only [wp_bind]
      refine wp_any (fun _ _ => ?_) (fun _ _ => trivial)
      exact wp_any (fun _ _ => fun never => absurd never (by simp)) (fun _ _ => trivial)
  exact wp_ok done run rfl

section

theorem hits_apart (valid : cfg.Valid) (few : cfg.numGroups ≤ 2 ^ 32) (sound : Sound cfg free s) {numTokens : Nat}
    (hf : getComputedBlocks cfg s req = some (hits, numTokens)) :
    (∀ i j, i < j → j < cfg.numGroups → ∀ block ∈ free, block ∈ hits i → block ∉ hits j) ∧
      (¬ cfg.pool.enableCaching → ∀ g, hits g = []) ∧ ((∀ g < cfg.numGroups, hits g = []) → numTokens = 0) := by
  unfold getComputedBlocks at hf
  split at hf
  · cases hf
    exact ⟨by simp, fun _ _ => rfl, fun _ => rfl⟩
  · rename_i reads
    have at_ := hitsAt_coordinatorHit valid hf
    refine ⟨fun i j before hi block unused => ?_, fun off => absurd (.inl off) reads, coordinatorHit_nil valid hf⟩
    have real := ((sound.pool.free_iff block).mp unused).2.1
    exact (at_ i).apart sound.pool.cache (at_ j) (by omega) (by omega) (ne_of_lt before) real

end

noncomputable def unreadPrompt : Request := { (promptWith []).construct unaryScheme 4 with skipReadingPrefixCache := true }

def crowdedConfig : CacheConfig where
  pool := { numGpuBlocks := 9, hashBlockSize := 4, scheme := spelledScheme }
  maxModelLen := 64
  maxNumBatchedTokens := 64
  numGroups := 2
  spec g := if g = 0 then ⟨4, .fullAttention, 0⟩ else ⟨4, .slidingWindow 5, 0⟩

def promptOf (requestId : RequestId) (tokens : List Token) : Request :=
  ({ promptWith [] with
      requestId, promptTokenIds := some tokens, numPromptTokens := tokens.length, allTokenIds := tokens }).construct spelledScheme 4

def crowdedCalls : List Call :=
  [.newRequest (promptOf 0 [1, 2, 3, 4, 5, 6, 7, 8]) { numNewTokens := 8 },
    .newRequest (promptOf 1 [21, 22, 23, 24]) { numNewTokens := 4 },
    .allocate { promptOf 0 [1, 2, 3, 4, 5, 6, 7, 8, 9] with numComputedTokens := 8 } { numNewTokens := 1 },
    .free 1]

def crowdedStart : KVCacheManager := (KVCacheManager.init crowdedConfig).toOption.get rfl

def crowded : KVCacheManager := runPast (Call.exec crowdedConfig) crowdedCalls crowdedStart

def sharer : Request := promptOf 2 [1, 2, 3, 4, 31, 32, 33]

def sharerArgs : SlotArgs :=
  let found := (getComputedBlocks crowdedConfig crowded sharer).getD (fun _ => [], 0)
  withHits { numNewTokens := 1, numExternalComputedTokens := 2 } found.1 found.2

theorem crowded_reachable : Reachable crowdedConfig crowded := by
  have hashed := fun id tokens => (viewed_construct spelledScheme (by decide : 0 < 4) { promptWith [] with
    requestId := id, promptTokenIds := some tokens, numPromptTokens := tokens.length, allTokenIds := tokens }).hashed
  refine ⟨crowdedStart, crowdedCalls, rfl, ?_, rfl⟩
  exact ⟨⟨hashed _ _, fun _ _ _ => .inl rfl⟩, ⟨hashed _ _, fun _ _ _ => .inl rfl⟩, .inl rfl, trivial, trivial⟩

theorem sharer_scheduled : Scheduled crowdedConfig crowded sharer sharerArgs := by
  have hashed : sharer.Hashed spelledScheme := (viewed_construct spelledScheme (by decide) _).hashed
  have looked : (getComputedBlocks crowdedConfig crowded sharer).isSome := by decide +kernel
  obtain ⟨hf, result⟩ := Option.isSome_iff_exists.mp looked
  refine .waiting rfl hashed ?_ ?_ ?_
  · have each : ∀ g ∈ List.range 2, crowded.numCached g 2 = none ∧ crowded.blocks g 2 = [] := by decide +kernel
    exact fun g hi => each g (List.mem_range.mpr hi)
  · unfold sharerArgs
    rw [result]
    rfl
  · decide +kernel

def sharerRun : CacheM (Int × Int × Int × List BlockId × List BlockId) := do
  removeSkippedBlocks crowdedConfig 2 (sharerArgs.totalComputedTokens crowdedConfig sharer)
  let needed ← slotsNeeded crowdedConfig sharer sharerArgs
  let before ← get
  let _ ← takeSlots crowdedConfig sharer sharerArgs
  let after ← get
  return (needed, before.blockPool.getNumFreeBlocks, after.blockPool.getNumFreeBlocks, after.blocks 0 2, after.blocks 1 2)

end KVCacheManager

end KVOffload.Core
