import KVOffload.Core.CacheSpec

/-!
# Mamba groups in align mode

When the sequence grows, the speculative blocks of the last step move to the end of the list and at most one block is new. The
list never shrinks.
-/

namespace KVOffload.Core

open List

inductive CacheError.OfAlign : CacheError → Prop where
  | below (required held : Nat) : OfAlign (.requiredBelowHeld required held)
  | tooMany (numNewBlocks : Int) : OfAlign (.tooManyNewBlocks numNewBlocks)

theorem CacheError.OfPool.not_ofAlign {e : CacheError} (pool : e.OfPool) : ¬ e.OfAlign := by
  intro align
  cases pool <;> cases align

namespace KVCacheManager

variable {cfg : CacheConfig} {s t : KVCacheManager} {g k last : Nat} {req : RequestId}

variable (s g req) in
def allocated : Bool := (s.groups g).allocatedBlockReqs req

theorem allocated_onGroup (f : GroupState → GroupState)
    (hs : (f (s.groups g)).allocatedBlockReqs = (s.groups g).allocatedBlockReqs) (g' : Nat) (r : RequestId) :
    (onGroup g f s).allocated g' r = s.allocated g' r := by
  by_cases here : g' = g
  · subst here
    simp [allocated, onGroup, hs]
  · simp [allocated, onGroup, here]

@[simp] theorem allocated_setBlocks (new : List BlockId) (g' : Nat) (r : RequestId) :
    (setBlocks g req new s).allocated g' r = s.allocated g' r := allocated_onGroup _ rfl g' r

@[simp] theorem allocated_withPool (pool : BlockPool) (g' : Nat) (r : RequestId) :
    (s.withPool pool).allocated g' r = s.allocated g' r := rfl

def alignedList (nullBlock : BlockId) (k numSkipped : Nat) (again : Bool) (blocks : List BlockId) : List BlockId :=
  let padded := blocks ++ List.replicate (numSkipped - blocks.length) nullBlock
  if again then reuseSpeculative nullBlock numSkipped (List.range' (blocks.length - k) k) padded else padded

theorem length_alignedList {nullBlock : BlockId} {numSkipped : Nat} {blocks : List BlockId} {again : Bool}
    (old : again → ∃ last, blocks.length = last + k ∧ last ≤ numSkipped) (new : again = false → blocks.length ≤ numSkipped) :
    (alignedList nullBlock k numSkipped again blocks).length = numSkipped + if again then k else 0 := by
  unfold alignedList
  cases again with
  | false =>
    have := new rfl
    simp only [Bool.false_eq_true, if_false, length_append, length_replicate]
    omega
  | true =>
    obtain ⟨last, length, hb⟩ := old rfl
    simp only [if_true, length_reuseSpeculative, length_append, length_replicate]
    omega

theorem wp_alignAllocateNewBlocks_grow {total required : Nat} (needs : required = cdiv total (cfg.spec g).blockSize)
    (some : 0 < required) (old : s.allocated g req → ∃ last, (s.blocks g req).length = last + k ∧ last < required)
    (new : s.allocated g req = false → (s.blocks g req).length < required) :
    wp (alignAllocateNewBlocks cfg g req k total) (fun _ t =>
      s.blockPool.getNumFreeBlocks = t.blockPool.getNumFreeBlocks + (if s.allocated g req then 1 else 1 + k) ∧
      (t.blocks g req).length = required + k ∧ t.allocated g req = true) (fun e _ => ¬ e.OfAlign) s := by
  have more : (s.blocks g req).length < required + k := by
    cases again : s.allocated g req with
    | true =>
      obtain ⟨last, length, hb⟩ := old again
      omega
    | false =>
      have := new again
      omega
  have length : ∀ nullBlock, (alignedList nullBlock k (required + k - k - 1) (s.allocated g req) (s.blocks g req)).length =
      required - 1 + if s.allocated g req then k else 0 := by
    intro nullBlock
    rw [Nat.add_sub_cancel]
    apply length_alignedList
    · intro again
      obtain ⟨last, length, hb⟩ := old again
      exact ⟨last, length, by omega⟩
    · intro first
      have := new first
      omega
  subst needs
  have again : ((setBlocks g req (s.blocks g req) s).groups g).allocatedBlockReqs req = s.allocated g req :=
    allocated_setBlocks _ g req
  unfold alignAllocateNewBlocks
  simp only [wp_bind, wp_reqBlocks]
  rw [if_neg (by omega)]
  simp only [wp_bind, wp_ensure, wp_get, again]
  refine ⟨fun _ => ?_, fun few => absurd more few⟩
  -- Recording the index of the last state changes neither the lists nor the pool.
  have rest : ∀ u, u.blockPool = s.blockPool → ∀ list : List BlockId,
      list.length = cdiv total (cfg.spec g).blockSize - 1 + (if s.allocated g req then k else 0) →
      wp (do
        modify (setBlocks g req list)
        let numNewBlocks : Int := ((cdiv total (cfg.spec g).blockSize + k : Nat) : Int) - list.length
        ensure (numNewBlocks ≤ if s.allocated g req then (1 : Int) else (k : Int) + 1) (.tooManyNewBlocks numNewBlocks)
        let newBlocks ← onPool (BlockPool.getNewBlocks cfg.pool numNewBlocks)
        modify (setBlocks g req (list ++ newBlocks))
        modify (setAllocated g req true)
        return (list ++ newBlocks).drop (s.blocks g req).length) (fun _ t =>
          s.blockPool.getNumFreeBlocks = t.blockPool.getNumFreeBlocks + (if s.allocated g req then 1 else 1 + k : Nat) ∧
          (t.blocks g req).length = cdiv total (cfg.spec g).blockSize + k ∧ t.allocated g req = true)
        (fun e _ => ¬ e.OfAlign) u := by
    intro u hs list length
    have count : ((cdiv total (cfg.spec g).blockSize + k : Nat) : Int) - list.length =
        (if s.allocated g req then 1 else 1 + k : Nat) := by
      rw [length]
      split <;> omega
    simp only [wp_bind, wp_ensure, wp_onPool, count]
    refine ⟨fun _ => ?_, fun few => ?_⟩
    · refine wp_mono (BlockPool.wp_getNewBlocks_count _) ?_ (fun _ _ failed => failed.not_ofAlign)
      rintro taken pool ⟨number, free, -⟩
      change pool.getNumFreeBlocks = u.blockPool.getNumFreeBlocks - _ at free
      refine ⟨?_, ?_, by simp [allocated, setAllocated, onGroup]⟩
      · change _ = pool.getNumFreeBlocks + _
        rw [free, hs]
        omega
      · have kept : (setAllocated g req true (setBlocks g req (list ++ taken)
            ((setBlocks g req list u).withPool pool))).blocks g req = list ++ taken := by
          unfold setAllocated
          rw [blocks_onGroup _ rfl, blocks_setBlocks_self]
        rw [kept, length_append, number, length]
        split <;> omega
    · split at few <;> omega
  simp only [wp_bind, wp_ensure, wp_onPool] at rest
  simp only [wp_onPool, wp_onlyIf]
  refine ⟨fun _ => ?_, fun _ => ?_⟩
  · exact rest (setLastState g req _ (setBlocks g req (s.blocks g req) s)) rfl
      (alignedList s.blockPool.nullBlock k ..) (length _)
  · exact rest (setBlocks g req (s.blocks g req) s) rfl (alignedList s.blockPool.nullBlock k ..) (length _)

def SameShape (g : Nat) (req : RequestId) (s t : KVCacheManager) : Prop :=
  (t.blocks g req).length = (s.blocks g req).length ∧ t.allocated g req = s.allocated g req

theorem sameShape_setBlocks {new : List BlockId} (shape : SameShape g req s t) (length : new.length = (t.blocks g req).length) :
    SameShape g req s (setBlocks g req new t) := by
  unfold SameShape
  rw [blocks_setBlocks_self, allocated_setBlocks]
  exact ⟨length.trans shape.1, shape.2⟩

theorem wp_baseRemoveSkippedBlocks_shape (shape : SameShape g req s t) (total : Nat) :
    wp (baseRemoveSkippedBlocks cfg g req total) (fun _ u => SameShape g req s u) (fun _ _ => True) t := by
  unfold baseRemoveSkippedBlocks
  simp only []
  split
  · exact shape
  · simp only [wp_bind, wp_reqBlocks, wp_get, wp_modify, wp_onPool]
    refine wp_of_outcomes (fun _ pool _ => ?_) (fun _ _ _ => trivial)
    have entered := sameShape_setBlocks shape rfl
    exact sameShape_setBlocks entered (by rw [length_withoutRemoved, blocks_setBlocks_self])

theorem wp_freeLastState_shape (shape : SameShape g req s t) (total : Nat) :
    wp (freeLastState cfg g req total) (fun _ u => SameShape g req s u) (fun _ _ => True) t := by
  unfold freeLastState
  simp only [wp_bind, wp_get]
  split
  · exact shape
  · simp only [wp_onlyIf, wp_bind, wp_reqBlocks]
    refine ⟨fun _ => ?_, fun _ => shape⟩
    have entered := sameShape_setBlocks shape rfl
    split
    · trivial
    · simp only [wp_onlyIf, wp_bind, wp_onPool]
      refine ⟨fun _ => wp_of_outcomes (fun _ pool _ => ?_) (fun _ _ _ => trivial), fun _ => entered⟩
      exact sameShape_setBlocks entered (by rw [length_set, blocks_withPool, blocks_setBlocks_self])

section

variable (cfg g req) (hits : List BlockId) (computed numNew : Nat)

/-- What `allocate_slots` asks of the manager before the free-block check; lookahead tokens do not count in align mode. -/
def alignCount : CacheM Int := do
  managerRemoveSkippedBlocks cfg g req computed
  getNumBlocksToAllocate cfg g req (computed + numNew) hits computed (computed + numNew) false

def alignTake : CacheM (List BlockId) := do
  onlyIf (hits ≠ []) (allocateNewComputedBlocks cfg g req hits computed 0)
  allocateNewBlocks cfg g req (computed + numNew) (computed + numNew)

/-- The count is not negative and covers the blocks that leave the pool, and no assertion of the allocation fails. -/
def AlignSafe (needed : Int) (s : KVCacheManager) : Prop :=
  0 ≤ needed ∧ wp (alignTake cfg g req hits computed numNew)
    (fun _ t => s.blockPool.getNumFreeBlocks ≤ t.blockPool.getNumFreeBlocks + needed) (fun e _ => ¬ e.OfAlign) s

def alignNeeded (k : Nat) (s : KVCacheManager) : Int :=
  let numNewBlocks : Int := (cdiv (computed + numNew) (cfg.spec g).blockSize + k : Nat) - hits.length -
    (s.blocks g req).length
  (if numNewBlocks > 0 then if s.allocated g req then 1 else 1 + (k : Int) else numNewBlocks) +
    getNumEvictableBlocks s.blockPool hits

end

section

variable {hits : List BlockId} {computed numNew : Nat} (align : (cfg.spec g).kind = .mamba .align k)

include align

theorem wp_alignCount : wp (alignCount cfg g req hits computed numNew) (fun needed t => SameShape g req s t ∧
    (needed ≤ cfg.pool.numGpuBlocks → needed = alignNeeded cfg g req hits computed numNew k t)) (fun _ _ => True) s := by
  have removed : wp (managerRemoveSkippedBlocks cfg g req computed) (fun _ t => SameShape g req s t)
      (fun _ _ => True) s := by
    unfold managerRemoveSkippedBlocks
    simp only [align, wp_bind]
    refine wp_mono (wp_baseRemoveSkippedBlocks_shape ⟨rfl, rfl⟩ _) (fun _ t shape => ?_) (fun _ _ _ => trivial)
    rw [wp_onlyIf]
    exact ⟨fun _ => wp_freeLastState_shape shape _, fun _ => shape⟩
  unfold alignCount
  rw [wp_bind]
  refine wp_mono removed (fun _ t shape => ?_) (fun _ _ _ => trivial)
  unfold getNumBlocksToAllocate
  simp only [align, wp_bind, wp_get]
  split
  · exact ⟨shape, fun possible => by omega⟩
  · rw [if_neg (by simp)]
    unfold alignNumBlocksToAllocate
    simp only [wp_bind, wp_reqBlocks]
    refine ⟨sameShape_setBlocks shape rfl, fun _ => ?_⟩
    have mark : ((setBlocks g req (t.blocks g req) t).groups g).allocatedBlockReqs req =
        (setBlocks g req (t.blocks g req) t).allocated g req := rfl
    unfold alignNeeded
    rw [mark, blocks_setBlocks_self]

theorem wp_allocateNewComputedBlocks_align (hp : 0 < (cfg.spec g).blockSize) (some : hits ≠ []) :
    wp (allocateNewComputedBlocks cfg g req hits (hits.length * (cfg.spec g).blockSize) 0) (fun _ t =>
      s.blockPool.getNumFreeBlocks ≤ t.blockPool.getNumFreeBlocks + getNumEvictableBlocks s.blockPool hits ∧
      (t.blocks g req).length = hits.length ∧ t.allocated g req = s.allocated g req)
      (fun e _ => ¬ e.OfAlign) s := by
  have least := length_pos_iff.mpr some
  have skipped : numSkippedBlocks (cfg.spec g) (hits.length * (cfg.spec g).blockSize + 0) = hits.length - 1 := by
    unfold numSkippedBlocks getNumSkippedTokens
    obtain ⟨n, length⟩ := Nat.exists_eq_add_of_lt least
    simp only [align, length, Nat.add_zero, Nat.succ_mul]
    rw [Nat.add_sub_assoc hp, Nat.mul_comm, Nat.mul_add_div hp, Nat.div_eq_of_lt (by omega)]
    rfl
  obtain ⟨block, last⟩ : ∃ block, hits.drop (hits.length - 1) = [block] := by
    apply length_eq_one_iff.mp
    rw [length_drop]
    omega
  have fewer : getNumEvictableBlocks s.blockPool [block] ≤ getNumEvictableBlocks s.blockPool hits := by
    rw [← last]
    exact ((drop_sublist _ _).filter _).length_le
  unfold allocateNewComputedBlocks
  simp only [wp_bind, wp_get]
  split
  · rw [wp_ensure]
    exact ⟨fun none => absurd none (ne_of_gt least), fun _ => by rintro ⟨⟩⟩
  simp only [wp_bind, wp_ensure, skipped, last]
  refine ⟨fun _ => ?_, fun _ => by rintro ⟨⟩⟩
  have touched : wp (touchComputed cfg [block]) (fun _ t => ∃ pool, t = (setBlocks g req (s.blocks g req) s).withPool pool ∧
      s.blockPool.getNumFreeBlocks ≤ pool.getNumFreeBlocks + getNumEvictableBlocks s.blockPool [block])
      (fun e _ => ¬ e.OfAlign) (setBlocks g req (s.blocks g req) s) := by
    unfold touchComputed
    split
    · rw [wp_onPool]
      unfold BlockPool.touch
      rw [forM_cons, wp_bind]
      have start : BlockPool.Grows s.blockPool s.blockPool := ⟨rfl, fun _ => Int.le_refl _⟩
      have single := BlockPool.wp_touchBlock_count start (fun unused (_ : ¬ s.blockPool.isNull block) => unused)
      refine wp_mono single ?_ (fun _ _ failed => failed.not_ofAlign)
      rintro _ pool ⟨count, -⟩
      exact ⟨pool, rfl, count⟩
    · rw [wp_ensure]
      exact ⟨fun none => absurd none (by simp), fun _ => by rintro ⟨⟩⟩
  refine wp_imp touched ?_
  rintro _ t ⟨pool, rfl, count⟩
  rw [onlyIf_neg (by simp)]
  refine ⟨?_, ?_, ?_⟩
  · change s.blockPool.getNumFreeBlocks ≤ pool.getNumFreeBlocks + _
    omega
  · rw [blocks_setNumCached, blocks_setBlocks_self, length_append, length_replicate, length_singleton]
    omega
  · unfold setNumCached
    rw [allocated_onGroup _ rfl, allocated_setBlocks, allocated_withPool, allocated_setBlocks]

end

/-- What the manager holds for the request after a step that needed `last` blocks; `0` before the first step. -/
def AlignHeld (g k : Nat) (req : RequestId) (last : Nat) (s : KVCacheManager) : Prop :=
  if last = 0 then s.blocks g req = [] ∧ s.allocated g req = false
  else (s.blocks g req).length = last + k ∧ s.allocated g req = true

theorem alignHeld_of_pos (some : 0 < last) :
    AlignHeld g k req last s ↔ (s.blocks g req).length = last + k ∧ s.allocated g req = true := by
  rw [AlignHeld, if_neg (ne_of_gt some)]

variable {hits : List BlockId} {computed : Nat} {steps : List AlignStep} {numNew : Nat} {needed : Int}

variable (align : (cfg.spec g).kind = .mamba .align k)

include align in
theorem alignTake_eq :
    alignTake cfg g req hits computed numNew =
      (onlyIf (hits ≠ []) (allocateNewComputedBlocks cfg g req hits computed 0) >>= fun _ =>
      alignAllocateNewBlocks cfg g req k (computed + numNew)) := by
  unfold alignTake allocateNewBlocks
  simp only [align]
  rw [if_neg (by simp)]

section

variable {hits : List BlockId} {computed numNew : Nat} (align : (cfg.spec g).kind = .mamba .align k)

include align

theorem wp_alignTake_first (hp : 0 < (cfg.spec g).blockSize) (some : 0 < numNew) (empty : s.blocks g req = [])
    (unmarked : s.allocated g req = false) (aligned : computed = hits.length * (cfg.spec g).blockSize) :
    hits.length < cdiv (computed + numNew) (cfg.spec g).blockSize ∧
    wp (alignTake cfg g req hits computed numNew) (fun _ t =>
      s.blockPool.getNumFreeBlocks ≤ t.blockPool.getNumFreeBlocks + (1 + k + getNumEvictableBlocks s.blockPool hits) ∧
      AlignHeld g k req (cdiv (computed + numNew) (cfg.spec g).blockSize) t) (fun e _ => ¬ e.OfAlign) s := by
  have beyond : hits.length < cdiv (computed + numNew) (cfg.spec g).blockSize := by
    unfold cdiv
    rw [aligned, Nat.add_assoc, Nat.add_sub_assoc (by omega), Nat.mul_comm, Nat.mul_add_div hp]
    exact Nat.lt_add_of_pos_right (Nat.div_pos (by omega) hp)
  have grow : ∀ u, (u.blocks g req).length = hits.length → u.allocated g req = false →
      wp (alignAllocateNewBlocks cfg g req k (computed + numNew)) (fun _ t =>
        u.blockPool.getNumFreeBlocks = t.blockPool.getNumFreeBlocks + (1 + k : Nat) ∧
        AlignHeld g k req (cdiv (computed + numNew) (cfg.spec g).blockSize) t) (fun e _ => ¬ e.OfAlign) u := by
    intro u length unmarked
    refine wp_imp (wp_alignAllocateNewBlocks_grow rfl (by omega) ?_ ?_) ?_
    · intro again
      rw [unmarked] at again
      cases again
    · intro _
      omega
    · rintro _ t ⟨count, held⟩
      rw [unmarked] at count
      exact ⟨count, (alignHeld_of_pos (by omega)).mpr held⟩
  refine ⟨beyond, ?_⟩
  rw [alignTake_eq align, wp_bind, wp_onlyIf]
  constructor
  · intro hit
    subst aligned
    refine wp_imp (wp_allocateNewComputedBlocks_align align hp hit) ?_
    rintro _ u ⟨touched, length, mark⟩
    refine wp_imp (grow u length (mark.trans unmarked)) ?_
    rintro _ t ⟨count, held⟩
    exact ⟨by omega, held⟩
  · intro none
    have none : hits = [] := not_not.mp none
    refine wp_imp (grow s (by rw [empty, none]) unmarked) ?_
    rintro _ t ⟨count, held⟩
    exact ⟨by omega, held⟩

theorem wp_alignTake_later (before : 0 < last) (length : (s.blocks g req).length = last + k)
    (marked : s.allocated g req = true) (grows : last ≤ cdiv (computed + numNew) (cfg.spec g).blockSize) :
    wp (alignTake cfg g req [] computed numNew) (fun _ t =>
      s.blockPool.getNumFreeBlocks = t.blockPool.getNumFreeBlocks +
      (if last < cdiv (computed + numNew) (cfg.spec g).blockSize then 1 else 0 : Nat) ∧
      AlignHeld g k req (cdiv (computed + numNew) (cfg.spec g).blockSize) t) (fun e _ => ¬ e.OfAlign) s := by
  rw [alignTake_eq align, wp_bind, onlyIf_neg (by simp), wp_pure]
  rcases lt_or_eq_of_le grows with more | hs
  · refine wp_mono (wp_alignAllocateNewBlocks_grow rfl (by omega) (fun _ => ⟨last, length, more⟩) ?_) ?_
      (fun _ _ failed => failed)
    · intro unmarked
      rw [marked] at unmarked
      cases unmarked
    · rintro _ t ⟨count, held⟩
      rw [marked] at count
      rw [if_pos more]
      exact ⟨count, (alignHeld_of_pos (by omega)).mpr held⟩
  · unfold alignAllocateNewBlocks
    simp only [wp_bind, wp_reqBlocks]
    rw [if_pos (by rw [length, hs]), wp_pure, if_neg (by omega), alignHeld_of_pos (by omega), blocks_setBlocks_self, allocated_setBlocks]
    exact ⟨by simp, by rw [length, hs], marked⟩

end

include align in
theorem alignSafe_iff
    (hp : 0 < (cfg.spec g).blockSize) (some : 0 < numNew)
    (held : AlignHeld g k req last s) (first : last = 0 → computed = hits.length * (cfg.spec g).blockSize)
    (later : last ≠ 0 → hits = []) (run : alignCount cfg g req hits computed numNew s = .ok needed t)
    (possible : needed ≤ cfg.pool.numGpuBlocks) :
    (AlignSafe cfg g req hits computed numNew needed t ↔ last ≤ cdiv (computed + numNew) (cfg.spec g).blockSize) ∧
    ∀ new t', alignTake cfg g req hits computed numNew t = .ok new t' →
      AlignHeld g k req (cdiv (computed + numNew) (cfg.spec g).blockSize) t' := by
  obtain ⟨⟨length, mark⟩, count⟩ := wp_ok (wp_alignCount align) run
  have counted := count possible
  unfold alignNeeded at counted
  by_cases start : last = 0
  · subst start
    have empty := eq_nil_of_length_eq_zero (by rw [length, held.1]; rfl)
    obtain ⟨beyond, taken⟩ := wp_alignTake_first align hp some empty (mark.trans held.2) (first rfl)
    rw [empty, mark, held.2, length_nil] at counted
    dsimp only at counted
    rw [if_pos (by omega), if_neg (by simp)] at counted
    refine ⟨⟨fun _ => Nat.zero_le _, fun _ => ⟨by omega, ?_⟩⟩, fun new t' done => (wp_ok taken done).2⟩
    refine wp_imp taken ?_
    omega
  have before : 0 < last := Nat.pos_of_ne_zero start
  have none := later start
  subst none
  rw [alignHeld_of_pos before] at held
  rw [mark, held.2] at counted
  simp only [length_nil, getNumEvictableBlocks, filter_nil, if_true] at counted
  by_cases grows : last ≤ cdiv (computed + numNew) (cfg.spec g).blockSize
  · have taken := wp_alignTake_later align before (length.trans held.1) (mark.trans held.2) grows
    have value : needed = (if last < cdiv (computed + numNew) (cfg.spec g).blockSize then 1 else 0 : Nat) := by
      rw [counted]
      split <;> split <;> omega
    refine ⟨⟨fun _ => grows, fun _ => ⟨by omega, ?_⟩⟩, fun new t' done => (wp_ok taken done).2⟩
    refine wp_imp taken ?_
    omega
  have short : wp (alignTake cfg g req [] computed numNew) (fun _ _ => False) (fun _ _ => True) t := by
    rw [alignTake_eq align, wp_bind, onlyIf_neg (by simp), wp_pure]
    unfold alignAllocateNewBlocks
    simp only [wp_bind, wp_reqBlocks]
    rw [if_neg (by omega)]
    simp only [wp_bind, wp_ensure]
    exact ⟨fun more => by omega, fun _ => trivial⟩
  refine ⟨⟨fun safe => ?_, fun bad => absurd bad grows⟩, fun new t' done => (wp_ok short done).elim⟩
  have := safe.1
  omega

/-- One step of the request: what other requests do to the manager before it, the scheduled tokens, how many of them are
drafts, and how many drafts are rejected in the end. -/
structure AlignStep where
  between : KVCacheManager → KVCacheManager := id
  numNewTokens : Nat
  numDrafts : Nat := 0
  numRejected : Nat := 0

structure AlignStep.Lawful (g k : Nat) (req : RequestId) (step : AlignStep) : Prop where
  drafts : step.numDrafts < step.numNewTokens
  speculative : step.numDrafts ≤ k
  rejected : step.numRejected ≤ step.numDrafts
  blocks : ∀ s, (step.between s).blocks g req = s.blocks g req
  allocated : ∀ s, (step.between s).allocated g req = s.allocated g req

def AlignRunSafe (cfg : CacheConfig) (g : Nat) (req : RequestId) :
    Nat → List BlockId → List AlignStep → KVCacheManager → Prop
  | _, _, [], _ => True
  | computed, hits, step :: rest, s => ∀ needed t,
    alignCount cfg g req hits computed step.numNewTokens (step.between s) = .ok needed t → needed ≤ cfg.pool.numGpuBlocks →
    AlignSafe cfg g req hits computed step.numNewTokens needed t ∧
    ∀ new t', alignTake cfg g req hits computed step.numNewTokens t = .ok new t' →
      AlignRunSafe cfg g req (computed + step.numNewTokens - step.numRejected) [] rest t'

/-- Every step that the run reaches is safe if and only if it needs at least `last` blocks, the number of blocks that the
step before needed. -/
def AlignRunExact (cfg : CacheConfig) (g : Nat) (req : RequestId) :
    Nat → Nat → List BlockId → List AlignStep → KVCacheManager → Prop
  | _, _, _, [], _ => True
  | last, computed, hits, step :: rest, s => ∀ needed t,
    alignCount cfg g req hits computed step.numNewTokens (step.between s) = .ok needed t → needed ≤ cfg.pool.numGpuBlocks →
    (AlignSafe cfg g req hits computed step.numNewTokens needed t ↔
      last ≤ cdiv (computed + step.numNewTokens) (cfg.spec g).blockSize) ∧
    ∀ new t', alignTake cfg g req hits computed step.numNewTokens t = .ok new t' →
      AlignRunExact cfg g req (cdiv (computed + step.numNewTokens) (cfg.spec g).blockSize)
        (computed + step.numNewTokens - step.numRejected) [] rest t'

def NeverShrinks (blockSize : Nat) : Nat → Nat → List AlignStep → Prop
  | _, _, [] => True
  | last, computed, step :: rest => last ≤ cdiv (computed + step.numNewTokens) blockSize ∧
    NeverShrinks blockSize (cdiv (computed + step.numNewTokens) blockSize) (computed + step.numNewTokens - step.numRejected) rest

theorem AlignRunExact.safe (exact : AlignRunExact cfg g req last computed hits steps s)
    (growing : NeverShrinks (cfg.spec g).blockSize last computed steps) :
    AlignRunSafe cfg g req computed hits steps s := by
  induction steps generalizing s last computed hits with
  | nil => trivial
  | cons step rest ih =>
    obtain ⟨enough, later⟩ := growing
    intro needed t run possible
    obtain ⟨safe, next⟩ := exact needed t run possible
    exact ⟨safe.mpr enough, fun new t' taken => ih (next new t' taken) later⟩

include align in
theorem alignRunExact_of_held
    (hp : 0 < (cfg.spec g).blockSize)
    (lawful : ∀ step ∈ steps, step.Lawful g k req) (held : AlignHeld g k req last s)
    (first : last = 0 → computed = hits.length * (cfg.spec g).blockSize) (later : last ≠ 0 → hits = []) :
    AlignRunExact cfg g req last computed hits steps s := by
  induction steps generalizing s last computed hits with
  | nil => trivial
  | cons step rest ih =>
    have here := lawful step (.head _)
    have some := Nat.lt_of_le_of_lt (Nat.zero_le _) here.drafts
    have kept : AlignHeld g k req last (step.between s) := by
      unfold AlignHeld at held ⊢
      rw [here.blocks, here.allocated]
      exact held
    intro needed t run possible
    obtain ⟨safe, next⟩ := alignSafe_iff align hp some kept first later run possible
    refine ⟨safe, fun new t' taken => ?_⟩
    apply ih (fun step' hm => lawful step' (.tail _ hm)) (next new t' taken)
    · intro none
      have : 0 < cdiv (computed + step.numNewTokens) (cfg.spec g).blockSize := Nat.div_pos (by omega) hp
      omega
    · exact fun _ => rfl

theorem neverShrinks_of_single_draft {blockSize : Nat} (single : k ≤ 1)
    (lawful : ∀ step ∈ steps, step.Lawful g k req) (hb : last ≤ cdiv (computed + 1) blockSize) :
    NeverShrinks blockSize last computed steps := by
  induction steps generalizing last computed with
  | nil => trivial
  | cons step rest ih =>
    have here := lawful step (.head _)
    have drafts := here.drafts
    have speculative := here.speculative
    have rejected := here.rejected
    constructor
    · exact hb.trans (Nat.div_le_div_right (by omega))
    · apply ih (fun step' hm => lawful step' (.tail _ hm))
      exact Nat.div_le_div_right (by omega)

theorem wp_managerFree_forgets : wp (managerFree g req) (fun _ t => AlignHeld g k req 0 t) (fun _ _ => True) s := by
  unfold managerFree
  simp only [wp_bind, wp_modify, wp_get, wp_onPool]
  refine wp_of_outcomes (fun _ pool _ => ?_) (fun _ _ _ => trivial)
  constructor
  · simp [blocks, GroupState.blocks, setNumCached, onGroup, withPool, OrderedDict.get?_erase]
  · simp [allocated, setNumCached, setLastState, setAllocated, onGroup, withPool]

/-- From the first step on, the allocation in align mode is safe in every step that is reached, if and only if the step does
not need fewer blocks than the step before. -/
theorem align_run_safe_iff (align : (cfg.spec g).kind = .mamba .align k) (positive : 0 < (cfg.spec g).blockSize)
    (start : AlignHeld g k req 0 s) (hits : List BlockId) (steps : List AlignStep)
    (lawful : ∀ step ∈ steps, step.Lawful g k req) :
    AlignRunExact cfg g req 0 (hits.length * (cfg.spec g).blockSize) hits steps s ∧
    (NeverShrinks (cfg.spec g).blockSize 0 (hits.length * (cfg.spec g).blockSize) steps →
      AlignRunSafe cfg g req (hits.length * (cfg.spec g).blockSize) hits steps s) := by
  have exact : AlignRunExact cfg g req 0 (hits.length * (cfg.spec g).blockSize) hits steps s :=
    alignRunExact_of_held align positive lawful start (fun _ => rfl) (fun never => absurd rfl never)
  exact ⟨exact, exact.safe⟩

variable (cfg g req computed numNew) in
def alignStep : CacheM Int := do
  let needed ← alignCount cfg g req [] computed numNew
  let _ ← alignTake cfg g req [] computed numNew
  return needed

theorem AlignRunSafe.after {step : AlignStep} {rest : List AlignStep}
    (safe : AlignRunSafe cfg g req computed [] (step :: rest) s)
    (run : alignStep cfg g req computed step.numNewTokens (step.between s) = .ok needed t)
    (possible : needed ≤ cfg.pool.numGpuBlocks) :
    AlignRunSafe cfg g req (computed + step.numNewTokens - step.numRejected) [] rest t := by
  obtain ⟨_, _, counted, took⟩ := bind_ok_iff.mp run
  obtain ⟨new, _, taken, result⟩ := bind_ok_iff.mp took
  cases result
  exact (safe _ _ counted possible).2 new t taken

def draftConfig : CacheConfig where
  pool := { numGpuBlocks := 16, hashBlockSize := 4, scheme := spelledScheme }
  maxModelLen := 64
  maxNumBatchedTokens := 64
  numGroups := 1
  spec _ := ⟨4, .mamba .align 2, 0⟩

def draftStart : KVCacheManager := (KVCacheManager.init draftConfig).toOption.get rfl

def draftSteps : List AlignStep :=
  [{ numNewTokens := 4 }, { numNewTokens := 2 }, { numNewTokens := 3, numDrafts := 2, numRejected := 2 }]

theorem lawful_draftSteps : ∀ step ∈ draftSteps, step.Lawful 0 2 0 := by
  intro step hm
  simp only [draftSteps, mem_cons, not_mem_nil, or_false] at hm
  rcases hm with rfl | rfl | rfl <;> exact ⟨by decide, by decide, by decide, fun _ => rfl, fun _ => rfl⟩

theorem align_run_safe_drafts : (∀ step ∈ draftSteps, step.Lawful 0 2 0) ∧ AlignHeld 0 2 0 0 draftStart ∧
    AlignRunSafe draftConfig 0 0 0 [] draftSteps draftStart := by
  have start : AlignHeld 0 2 0 0 draftStart := ⟨rfl, rfl⟩
  have align : (draftConfig.spec 0).kind = .mamba .align 2 := rfl
  have safe := (align_run_safe_iff align (by decide) start [] draftSteps lawful_draftSteps).2
  exact ⟨lawful_draftSteps, start, safe (by simp [NeverShrinks, draftSteps, draftConfig, cdiv])⟩

def draftRun : CacheM (Int × Int × Int × Int) := do
  let first ← alignStep draftConfig 0 0 0 4
  let second ← alignStep draftConfig 0 0 4 2
  let third ← alignStep draftConfig 0 0 6 3
  let fourth ← alignCount draftConfig 0 0 [] 7 1
  return (first, second, third, fourth)

/-- One more token without drafts: the sequence now ends in the second block, where the list already reaches the third. -/
theorem align_run_shrinks : (∀ step ∈ draftSteps ++ [{ numNewTokens := 1 }], step.Lawful 0 2 0) ∧
    ¬ AlignRunSafe draftConfig 0 0 0 [] (draftSteps ++ [{ numNewTokens := 1 }]) draftStart := by
  constructor
  · intro step member
    rcases List.mem_append.mp member with early | late
    · exact lawful_draftSteps step early
    · rw [List.mem_singleton.mp late]
      exact ⟨by decide, by decide, by decide, fun _ => rfl, fun _ => rfl⟩
  intro safe
  have outcome : reads id draftRun draftStart = some (3, 1, 1, -1) := by decide +kernel
  obtain ⟨_, _, run, rfl⟩ := reads_iff.mp outcome
  obtain ⟨first, s₁, run₁, rest₁⟩ := bind_ok_iff.mp run
  obtain ⟨second, s₂, run₂, rest₂⟩ := bind_ok_iff.mp rest₁
  obtain ⟨third, s₃, run₃, rest₃⟩ := bind_ok_iff.mp rest₂
  obtain ⟨fourth, s₄, run₄, result⟩ := bind_ok_iff.mp rest₃
  injection result with values _
  obtain ⟨rfl, rfl, rfl, rfl⟩ := values
  have safe₁ := safe.after run₁ (by decide)
  have safe₂ := safe₁.after run₂ (by decide)
  have safe₃ := safe₂.after run₃ (by decide)
  have last := (safe₃ (-1) s₄ run₄ (by decide)).1.1
  exact absurd last (by decide)

end KVCacheManager

end KVOffload.Core
