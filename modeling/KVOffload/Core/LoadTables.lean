import KVOffload.Core.SlotCheck

/-!
# Block tables of requests that wait for a load

Until the external tokens are loaded nothing of a new request is cached, so the first block that is neither null nor hashed is
where the load begins. If a group takes a hit of a later group, that hit loses its hash.
-/

namespace KVOffload.Core

open List

namespace KVCacheManager

variable {cfg : CacheConfig} {s s' : KVCacheManager} {g total external : Nat} {free : List BlockId} {hits : KVCacheBlocks} {block : BlockId}

theorem mem_drop_iff {α : Type} {l : List α} (nodup : l.Nodup) {k : Nat} {a : α} : a ∈ l.drop k ↔ a ∈ l ∧ a ∉ l.take k := by
  have split := take_append_drop k l
  constructor
  · intro back
    rw [← split, nodup_append'] at nodup
    exact ⟨mem_of_mem_drop back, fun front => nodup.2.2 front back⟩
  · rintro ⟨hm, notFront⟩
    rw [← split, mem_append] at hm
    exact hm.resolve_left notFront

theorem mem_untouched {queue : List BlockId} :
    block ∈ untouched cfg g (hits g) total queue ↔ block ∈ queue ∧ block ∉ keptHits cfg g (hits g) total := by
  simp [untouched]

theorem mem_queueAt_iff (nodup : free.Nodup) : block ∈ queueAt cfg hits total external free g ↔
    block ∈ free ∧ ∀ i < g, block ∉ keptHits cfg i (hits i) total ∧ block ∉ takenAt cfg hits total external free i := by
  induction g with
  | zero => simp [queueAt]
  | succ g ih =>
    have once : (untouched cfg g (hits g) total (queueAt cfg hits total external free g)).Nodup :=
      (nodup.sublist (sublist_queueAt g)).filter _
    rw [queueAt, mem_drop_iff once, mem_untouched, Nat.forall_lt_succ_right]
    tauto

theorem mem_of_takenAt (hm : block ∈ takenAt cfg hits total external free g) :
    block ∈ queueAt cfg hits total external free g ∧ block ∉ keptHits cfg g (hits g) total :=
  mem_untouched.mp (mem_of_mem_take hm)

theorem undisturbed_iff_taken (nodup : free.Nodup)
    (apart : ∀ i j, i < j → j < cfg.numGroups → ∀ block ∈ free, block ∈ keptHits cfg i (hits i) total →
      block ∉ keptHits cfg j (hits j) total) : Undisturbed cfg hits total external free ↔
    ∀ g < cfg.numGroups, ∀ i < cfg.numGroups, ∀ block ∈ takenAt cfg hits total external free i,
      block ∉ keptHits cfg g (hits g) total := by
  rw [← undisturbed_iff nodup apart]
  constructor
  · intro hs g hi i _ block taken kept
    obtain ⟨queued, notKept⟩ := mem_of_takenAt taken
    rcases lt_trichotomy i g with before | rfl | behind
    · have there := (touchedFree_eq_iff g nodup).mp (hs g hi) block ((sublist_queueAt i).subset queued) kept
      exact (((mem_queueAt_iff nodup).mp there).2 i before).2 taken
    · exact notKept kept
    · exact (((mem_queueAt_iff nodup).mp queued).2 g behind).1 kept
  · intro disjoint g hi
    refine (touchedFree_eq_iff g nodup).mpr fun block hm kept => (mem_queueAt_iff nodup).mpr ⟨hm, fun i before => ?_⟩
    exact ⟨fun other => apart i g before hi block hm other kept,
      fun taken => disjoint g hi i (lt_trans before hi) block taken kept⟩

section

variable {req : RequestId} {numTokens n : Nat}

theorem AddsNew.fresh (adds : AddsNew cfg free req numTokens n s s') (sound : Sound cfg free s)
    (off : ¬ cfg.pool.enableCaching → ∀ block, s.blockPool.blockHash block = none) (hi : g < n)
    (new : block ∈ segment free (missing cfg s req numTokens) g) :
    block ≠ s'.blockPool.nullBlock ∧ s'.blockPool.blockHash block = none := by
  have taken : block ∈ free.take (∑ g ∈ Finset.range n, missing cfg s req numTokens g) := by
    rw [← flatMap_segment]
    exact mem_flatMap.mpr ⟨g, mem_range.mpr hi, new⟩
  refine ⟨adds.frame.nullBlock ▸ ((sound.pool.free_iff block).mp (mem_of_mem_take taken)).2.1, ?_⟩
  rw [adds.hashes]
  split
  · rfl
  · rename_i notBoth
    exact off (fun caching => notBoth ⟨caching, taken⟩) block

end

/-- The blocks of a request with `c` local tokens that waits for the rest of its `e` computed tokens: blocks out of the
window are null, hits are cached and the others wait. -/
structure LoadTable (pool : BlockPool) (spec : KVCacheSpec) (c e : Nat) (blocks : List BlockId) : Prop where
  present : ∀ i < max (numSkippedBlocks spec e) (c / spec.blockSize), ∃ block, blocks[i]? = some block ∧
    (block = pool.nullBlock ∨ (pool.blockHash block).isSome = true)
  pending : ∀ i, max (numSkippedBlocks spec e) (c / spec.blockSize) ≤ i → i < cdiv e spec.blockSize →
    ∃ block, blocks[i]? = some block ∧ block ≠ pool.nullBlock ∧ pool.blockHash block = none

theorem loadTable_iff {pool : BlockPool} {spec : KVCacheSpec} {c e skipped : Nat} {kept fresh : List BlockId}
    (front : skipped + kept.length = max (numSkippedBlocks spec e) (c / spec.blockSize))
    (waiting : ∀ block ∈ fresh, block ≠ pool.nullBlock ∧ pool.blockHash block = none)
    (enough : cdiv e spec.blockSize ≤ skipped + kept.length + fresh.length) :
    LoadTable pool spec c e (replicate skipped pool.nullBlock ++ kept ++ fresh) ↔
      ∀ block ∈ kept, block = pool.nullBlock ∨ (pool.blockHash block).isSome = true := by
  constructor
  · intro table block hm
    obtain ⟨i, here⟩ := mem_iff_getElem?.mp hm
    have hb := (List.getElem?_eq_some_iff.mp here).1
    obtain ⟨block', there, cached⟩ := table.present (skipped + i) (by omega)
    rw [append_assoc, getElem?_append_right (by simp), getElem?_append_left (by simpa using hb),
      length_replicate, Nat.add_sub_cancel_left, here] at there
    cases there
    exact cached
  intro cached
  constructor
  · intro i hb
    by_cases early : i < skipped
    · refine ⟨pool.nullBlock, ?_, .inl rfl⟩
      rw [append_assoc, getElem?_append_left (by simpa using early)]
      simp [early]
    · have hi : i - skipped < kept.length := by omega
      refine ⟨kept[i - skipped], ?_, cached _ (getElem_mem hi)⟩
      rw [append_assoc, getElem?_append_right (by simpa using early),
        getElem?_append_left (by simpa using hi), length_replicate, getElem?_eq_getElem]
  · intro i above hb
    have hi : i - (skipped + kept.length) < fresh.length := by omega
    refine ⟨fresh[i - (skipped + kept.length)], ?_, waiting _ (getElem_mem hi)⟩
    rw [getElem?_append_right (by simp; omega), length_append, length_replicate, getElem?_eq_getElem]

theorem exists_loadTables (spec : Nat → KVCacheSpec) (c e : Nat) : ∃ (pool : BlockPool) (tables : Nat → List BlockId),
    ∀ g, LoadTable pool (spec g) c e (tables g) := by
  refine ⟨⟨0, fun _ => 0, fun _ => none, .init [], .empty, []⟩,
    fun g => replicate (max (numSkippedBlocks (spec g) e) (c / (spec g).blockSize)) 0 ++ [] ++
      replicate (cdiv e (spec g).blockSize) 1, fun g => ?_⟩
  refine (loadTable_iff (by simp) (fun block hm => ?_) (by simp)).mpr (by simp)
  rw [eq_of_mem_replicate hm]
  exact ⟨one_ne_zero, rfl⟩

variable (cfg s hits) in
/-- The hits of a request's first `c` tokens. A block is a hit of one group only, since its hash names the group. -/
structure LocalPrefix (c : Nat) : Prop where
  known : ∀ g < cfg.numGroups, ∀ block ∈ hits g, block < cfg.pool.numGpuBlocks
  distinct : ∀ g < cfg.numGroups, (realBlocks s.blockPool.nullBlock (hits g)).Nodup
  apart : ∀ i j, i < j → j < cfg.numGroups → ∀ block ∈ hits i, block ∈ hits j → block = s.blockPool.nullBlock
  cached : ∀ g < cfg.numGroups, ∀ block ∈ hits g, block = s.blockPool.nullBlock ∨ (s.blockPool.blockHash block).isSome = true
  covers : ∀ g < cfg.numGroups, (hits g).length * (cfg.spec g).blockSize = c
  off : ¬ cfg.pool.enableCaching → (∀ g, hits g = []) ∧ ∀ block, s.blockPool.blockHash block = none

namespace LocalPrefix

variable {c : Nat}

section

variable (local_ : LocalPrefix cfg s hits c) (positive : 0 < (cfg.spec g).blockSize) (hi : g < cfg.numGroups)

include local_ positive hi

theorem length_eq : (hits g).length = c / (cfg.spec g).blockSize := by
  rw [← local_.covers g hi, Nat.mul_div_cancel _ positive]

theorem hitsFit
    (window : (cfg.spec g).kind ≠ .slidingWindow 0) (further : c ≤ total) : HitsFit cfg g (hits g) total external := by
  intro _
  have covered : total ≤ cdiv total (cfg.spec g).blockSize * (cfg.spec g).blockSize := by
    unfold cdiv
    have split := Nat.div_add_mod (total + (cfg.spec g).blockSize - 1) (cfg.spec g).blockSize
    have small := Nat.mod_lt (total + (cfg.spec g).blockSize - 1) positive
    rw [mul_comm] at split
    omega
  rw [numLocalBlocks_eq]
  refine Nat.max_le.mpr ⟨numSkippedBlocks_le window covered, ?_⟩
  apply Nat.le_of_mul_le_mul_right _ positive
  rw [local_.covers g hi]
  omega

end

theorem keptHits_subset (block : BlockId) (kept : block ∈ keptHits cfg g (hits g) total) : block ∈ hits g :=
  mem_of_mem_drop kept

theorem apart_free (local_ : LocalPrefix cfg s hits c) (sound : Sound cfg free s) (i j : Nat) (before : i < j)
    (hi : j < cfg.numGroups) (block : BlockId) (hm : block ∈ free) (kept : block ∈ keptHits cfg i (hits i) total) :
    block ∉ keptHits cfg j (hits j) total := by
  intro kept'
  have null := local_.apart i j before hi block (keptHits_subset block kept) (keptHits_subset block kept')
  exact ((sound.pool.free_iff block).mp hm).2.1 null

end LocalPrefix

section

variable {req : Request} {args : SlotArgs} {c numTokens : Nat}

variable (cfg s req args c) in
/-- A new request of which some tokens are local and the others are loaded between steps. -/
structure Awaits : Prop where
  unknown : ∀ g < cfg.numGroups, s.numCached g req.requestId = none ∧ s.blocks g req.requestId = []
  hits : LocalPrefix cfg s args.newComputedBlocks c
  localTokens : args.numLocalComputedTokens req = c
  external : 0 < args.numExternalComputedTokens
  delayed : args.delayCacheBlocks = true
  within : args.allComputedTokens req ≤ cfg.maxModelLen

variable (positive : ∀ g < cfg.numGroups, 0 < (cfg.spec g).blockSize) (plain : ∀ g < cfg.numGroups, (cfg.spec g).Plain)
  (window : ∀ g < cfg.numGroups, (cfg.spec g).kind ≠ .slidingWindow 0)

include positive plain window

theorem Awaits.tables_iff (awaits : Awaits cfg s req args c) (sound : Sound cfg free s)
    (asks : Asks cfg req args hits total external numTokens) :
    wp (takeSlots cfg req args) (fun _ t =>
      (∀ g < cfg.numGroups, LoadTable t.blockPool (cfg.spec g) c total (t.blocks g req.requestId)) ↔
      Undisturbed cfg hits total external free) (fun _ _ => True) s := by
  obtain ⟨unknown, found, localTokens, some, -, within⟩ := awaits
  rw [asks.hits] at found
  rw [asks.external] at some
  have further : c ≤ total := by
    rw [asks.all, localTokens]
    exact Nat.le_add_right _ _
  have proper : ProperHits cfg s.blockPool.nullBlock hits total external :=
    ⟨found.known, found.distinct, fun g hi => found.hitsFit (positive g hi) hi (window g hi) further⟩
  have needed : total ≤ numTokens := by
    rw [← asks.numTokens, ← asks.total] at *
    unfold SlotArgs.numTokensNeedSlot SlotArgs.numTokensMainModel SlotArgs.totalComputedTokens
    omega
  rw [undisturbed_iff_taken sound.pool.nodup (found.apart_free sound), asks.takeSlots_eq (.inr some), wp_bind]
  refine wp_mono (wp_computedStage sound unknown asks.all proper) ?_ (fun _ _ _ => trivial)
  rintro _ t ⟨sound', frame, tables, _, hashes⟩
  have null := frame.nullBlock
  have off : ¬ cfg.pool.enableCaching → ∀ block, t.blockPool.blockHash block = none := by
    intro off block
    rw [hashes, (found.off off).2, ite_self]
  refine wp_mono (wp_newStage plain sound') ?_ (fun _ _ _ => trivial)
  intro _ u adds
  have null' := adds.frame.nullBlock
  have real : ∀ i, ∀ block ∈ takenAt cfg hits total external free i, block ≠ s.blockPool.nullBlock := by
    intro i block hm
    exact ((sound.pool.free_iff block).mp ((sublist_queueAt i).subset (mem_of_takenAt hm).1)).2.1
  -- The second stage does not touch the hashes of the blocks that the first one has put into the lists.
  have hashOf : ∀ g < cfg.numGroups, ∀ block ∈ t.blocks g req.requestId,
      u.blockPool.blockHash block = t.blockPool.blockHash block :=
    fun g hi block hm => by
      rw [adds.hashes, if_neg fun both => sound'.not_mem_free hi hm (mem_of_mem_take both.2)]
  have each : ∀ g < cfg.numGroups, LoadTable u.blockPool (cfg.spec g) c total (u.blocks g req.requestId) ↔
      ∀ i < cfg.numGroups, ∀ block ∈ takenAt cfg hits total external free i, block ∉ keptHits cfg g (hits g) total := by
    intro g hi
    have table := adds.blocks g hi
    have enough := adds.covered hi
    have inTable := hashOf g hi
    rw [tables g hi] at table inTable
    rw [table, length_append, length_append, length_append, length_replicate] at enough
    have front : numLocalBlocks cfg g (hits g) total = _ := numLocalBlocks_eq g _ _
    rw [found.length_eq (positive g hi) hi] at front
    have slots : cdiv total (cfg.spec g).blockSize ≤ numRequired cfg g numTokens :=
      Nat.div_le_div_right (by have := le_groupTokens (cfg.spec g) numTokens; omega)
    rw [table, ← null, ← null', append_assoc, loadTable_iff front]
    · constructor
      · intro cached i hb block taken hm
        have lost : u.blockPool.blockHash block = none := by
          rw [inTable block (mem_append_left _ (mem_append_right _ hm)), hashes]
          split
          · rfl
          · rename_i notBoth
            exact (found.off fun caching => notBoth ⟨caching, i, hb, taken⟩).2 block
        rcases cached block hm with isNull | isSome
        · exact real i block taken (isNull.trans (null'.trans null))
        · rw [lost] at isSome
          cases isSome
      · intro disjoint block hm
        rw [inTable block (mem_append_left _ (mem_append_right _ hm)), hashes,
          if_neg fun both => both.2.elim fun i hf => disjoint i hf.1 block hf.2 hm, null', null]
        exact found.cached g hi block (LocalPrefix.keptHits_subset block hm)
    · intro block hm
      rcases mem_append.mp hm with taken | later
      · refine ⟨by rw [null', null]; exact real g block taken, ?_⟩
        rw [inTable block (mem_append_right _ taken), hashes]
        split
        · rfl
        · rename_i notBoth
          exact (found.off fun caching => notBoth ⟨caching, g, hi, taken⟩).2 block
      · exact adds.fresh sound' off hi later
    · rw [length_append]
      omega
  exact ⟨fun all g hi => (each g hi).mp (all g hi), fun all g hi => (each g hi).mpr (all g hi)⟩

theorem loadTables_iff_undisturbed (awaits : Awaits cfg s req args c) (sound : Sound cfg free s)
    {new : List (List BlockId)} (run : allocateSlots cfg req args s = .ok (some new) s') :
    (∀ g < cfg.numGroups, LoadTable s'.blockPool (cfg.spec g) c (args.allComputedTokens req) (s'.blocks g req.requestId)) ↔
    Undisturbed cfg args.newComputedBlocks (args.allComputedTokens req) args.numExternalComputedTokens free := by
  have spec : wp (allocateSlots cfg req args) (fun result t => ∀ new, result = some new →
      ((∀ g < cfg.numGroups, LoadTable t.blockPool (cfg.spec g) c (args.allComputedTokens req)
        (t.blocks g req.requestId)) ↔
      Undisturbed cfg args.newComputedBlocks (args.allComputedTokens req) args.numExternalComputedTokens free))
      (fun _ _ => True) s := by
    unfold allocateSlots
    simp only [wp_bind, wp_ensure]
    refine ⟨fun _ => wp_mono (wp_fullSequenceFits_same plain) ?_ (fun _ _ done => done), fun _ => trivial⟩
    rintro fit t rfl
    split
    · simp
    simp only [wp_bind, wp_get]
    refine wp_mono (wp_removeSkippedBlocks plain sound req.requestId _) ?_ (fun _ _ never => never.elim)
    rintro _ u ⟨released, sound', origin, freed⟩
    -- The request has no blocks yet, so none was released.
    have none : released = [] := by
      refine eq_nil_iff_forall_not_mem.mpr fun block hm => ?_
      obtain ⟨g, hi, there⟩ := origin block hm
      rw [(awaits.unknown g hi).2] at there
      cases there
    rw [none, append_nil] at sound'
    have awaits' := { awaits with
        unknown := fun g hi => ⟨(freed.numCached g _).trans (awaits.unknown g hi).1, by
          rw [freed.skipped g hi, (awaits.unknown g hi).2]
          simp [withoutRemoved, removedBlocks]⟩
        hits := by
          obtain ⟨known, hd, apart, cached, covers, off⟩ := awaits.hits
          refine ⟨known, ?_, ?_, ?_, covers, ?_⟩
          · rwa [freed.hashes.nullBlock]
          · rwa [freed.hashes.nullBlock]
          · rwa [freed.hashes.nullBlock, freed.hashes.blockHash]
          · rwa [freed.hashes.blockHash] }
    refine wp_mono (wp_totalBlocksToAllocate_same plain) ?_ (fun _ _ _ => trivial)
    rintro needed v rfl
    split
    · simp
    · simp only [wp_bind]
      refine wp_imp (awaits'.tables_iff positive plain window sound' ⟨rfl, rfl, rfl, rfl⟩) ?_
      intro _ w tables
      unfold cacheSlots
      rw [onlyIf_neg (by simp [awaits.delayed])]
      exact fun _ _ => tables
  exact wp_ok spec run new rfl

end

end KVCacheManager

end KVOffload.Core
