import KVOffload.Core.CacheSpec

/-!
# Attention windows under asynchronous scheduling

The computed tokens of a request include drafts that may still be rejected, and `remove_skipped_blocks` takes that count for the
position of the next query.
-/

namespace KVOffload.Core

open List

def InWindow (kind : SpecKind) (p q : Nat) : Prop :=
  q ≤ p ∧ match kind with
  | .slidingWindow slidingWindow => p < q + slidingWindow
  | .chunkedLocalAttention attentionChunkSize => q / attentionChunkSize = p / attentionChunkSize
  | _ => True

inductive SpecKind.Windowed : SpecKind → Prop where
  | slidingWindow (slidingWindow : Nat) : Windowed (.slidingWindow slidingWindow)
  | chunkedLocalAttention (attentionChunkSize : Nat) : Windowed (.chunkedLocalAttention attentionChunkSize)

section

variable {spec : KVCacheSpec} {m n p q : Nat}

theorem getNumSkippedTokens_mono (le : m ≤ n) : getNumSkippedTokens spec m ≤ getNumSkippedTokens spec n := by
  unfold getNumSkippedTokens
  cases spec.kind with
  | fullAttention => exact le_refl 0
  | slidingWindow w =>
    change m + 1 - w ≤ n + 1 - w
    omega
  | chunkedLocalAttention c => exact Nat.mul_le_mul_right c (Nat.div_le_div_right le)
  | mamba mode k =>
    change m - 1 ≤ n - 1
    omega

theorem InWindow.not_skipped (windowed : spec.kind.Windowed) (hi : InWindow spec.kind p q) :
    getNumSkippedTokens spec p ≤ q := by
  obtain ⟨_, window⟩ := hi
  unfold getNumSkippedTokens
  cases kind : spec.kind with
  | fullAttention => exact Nat.zero_le q
  | slidingWindow w =>
    rw [kind] at window
    change p + 1 - w ≤ q
    omega
  | chunkedLocalAttention c =>
    rw [kind] at window
    change p / c * c ≤ q
    rw [← window]
    exact Nat.div_mul_le_self q c
  | mamba mode k =>
    rw [kind] at windowed
    cases windowed

end

namespace KVCacheManager

variable {cfg : CacheConfig} {s t : KVCacheManager} {g : Nat} {request : RequestId} {counts : AsyncCounts}

def Freed (g : Nat) (request : RequestId) (s t : KVCacheManager) (i : Nat) : Prop :=
  ∃ block, (s.blocks g request)[i]? = some block ∧ (t.blocks g request)[i]? ≠ some block

theorem getElem?_withoutRemoved (nullBlock : BlockId) (blocks : List BlockId) {n i : Nat} (behind : n ≤ i) :
    (withoutRemoved nullBlock blocks n)[i]? = blocks[i]? := by
  have split := congrArg length (removedBlocks_split nullBlock blocks n)
  rw [length_append, length_append, length_reverse, length_drop] at split
  have front : (blocks.take (min n blocks.length - (removedBlocks nullBlock blocks n).length) ++
      replicate (removedBlocks nullBlock blocks n).length nullBlock).length = min n blocks.length := by
    rw [length_append, length_replicate]
    omega
  unfold withoutRemoved
  rw [getElem?_append_right (by omega), getElem?_drop]
  by_cases short : blocks.length ≤ i
  · rw [getElem?_eq_none short, getElem?_eq_none (by omega)]
  · congr 1
    omega

def Keeps (g : Nat) (request : RequestId) (k : Nat) (s t : KVCacheManager) : Prop :=
  ∀ i block, k ≤ i → (s.blocks g request)[i]? = some block → (t.blocks g request)[i]? = some block

theorem Keeps.of_freed {k i : Nat} (keeps : Keeps g request k s t) (freed : Freed g request s t i) : i < k := by
  obtain ⟨block, before, gone⟩ := freed
  by_contra behind
  exact gone (keeps i block (Nat.le_of_not_lt behind) before)

variable (windowed : (cfg.spec g).kind.Windowed)

include windowed in
theorem wp_remove_keeps (total : Nat) :
    wp (managerRemoveSkippedBlocks cfg g request total)
      (fun _ t => Keeps g request (numSkippedBlocks (cfg.spec g) total) s t) (fun _ _ => True) s := by
  have base : managerRemoveSkippedBlocks cfg g request total = baseRemoveSkippedBlocks cfg g request total := by
    unfold managerRemoveSkippedBlocks
    generalize (cfg.spec g).kind = kind at windowed
    cases windowed with
    | slidingWindow w => rfl
    | chunkedLocalAttention c => rfl
  rw [base]
  unfold baseRemoveSkippedBlocks
  dsimp only
  split
  · exact fun i block _ before => before
  · simp only [wp_bind, wp_reqBlocks, wp_get, wp_modify, wp_onPool]
    refine wp_of_outcomes (fun _ pool _ => ?_) (fun _ _ _ => trivial)
    intro i block behind before
    rw [blocks_withPool, blocks_setBlocks_self, getElem?_withoutRemoved _ _ behind]
    exact before

include windowed in
theorem wp_allocateNewBlocks_keeps (numTokens numTokensMainModel : Nat) :
    wp (allocateNewBlocks cfg g request numTokens numTokensMainModel) (fun _ t => Keeps g request 0 s t) (fun _ _ => True) s := by
  have base : allocateNewBlocks cfg g request numTokens numTokensMainModel = baseAllocateNewBlocks cfg g request numTokens := by
    unfold allocateNewBlocks
    generalize (cfg.spec g).kind = kind at windowed
    cases windowed with
    | slidingWindow w => rfl
    | chunkedLocalAttention c => rfl
  rw [base]
  unfold baseAllocateNewBlocks
  simp only [wp_bind, wp_reqBlocks]
  split
  · intro i block _ before
    rw [blocks_setBlocks_self]
    exact before
  · simp only [wp_bind, wp_modify, wp_pure]
    refine wp_of_outcomes (fun new pool _ => ?_) (fun _ _ _ => trivial)
    intro i block _ before
    rw [blocks_setBlocks_self, List.getElem?_append_left (List.getElem?_eq_some_iff.mp before).1]
    exact before

/-- `num_computed_tokens`, and how many drafts of each step in flight will be rejected, oldest first. -/
structure AsyncCounts where
  numComputedTokens : Nat
  rejections : List Nat := []

def AsyncCounts.settled (counts : AsyncCounts) : Nat := counts.numComputedTokens - counts.rejections.sum

def AsyncCounts.scheduled (counts : AsyncCounts) (numNew numRejected : Nat) : AsyncCounts where
  numComputedTokens := counts.numComputedTokens + numNew
  rejections := counts.rejections ++ [numRejected]

def AsyncCounts.output (counts : AsyncCounts) : AsyncCounts where
  numComputedTokens := counts.numComputedTokens - counts.rejections.headD 0
  rejections := counts.rejections.tail

def AsyncCounts.Consistent (counts : AsyncCounts) : Prop := counts.rejections.sum ≤ counts.numComputedTokens

theorem AsyncCounts.Consistent.scheduled (hc : counts.Consistent) {numNew numRejected : Nat}
    (fewer : numRejected ≤ numNew) : (counts.scheduled numNew numRejected).Consistent ∧
      counts.settled ≤ (counts.scheduled numNew numRejected).settled := by
  unfold Consistent at hc ⊢
  unfold settled AsyncCounts.scheduled
  simp only [sum_append, sum_singleton]
  omega

theorem AsyncCounts.Consistent.output (hc : counts.Consistent) :
    counts.output.Consistent ∧ counts.output.settled = counts.settled := by
  obtain ⟨computed, rejections⟩ := counts
  unfold Consistent settled AsyncCounts.output at *
  cases rejections with
  | nil => exact ⟨hc, rfl⟩
  | cons first rest =>
    simp only [sum_cons, headD_cons, tail_cons] at hc ⊢
    omega

inductive WindowEvent where
  | others (call : KVCacheManager → KVCacheManager)
  | refused
  | schedule (numNew numDrafts numRejected numLookaheadTokens : Nat)
  | output

def WindowEvent.Lawful (g : Nat) (request : RequestId) : WindowEvent → Prop
  | .others call => ∀ s, (call s).blocks g request = s.blocks g request
  | .schedule numNew numDrafts numRejected _ => numDrafts < numNew ∧ numRejected ≤ numDrafts
  | .refused | .output => True

section

variable (cfg g request)

def windowStep (numComputedTokens numNew numLookaheadTokens : Nat) : CacheM (List BlockId) := do
  let total := min numComputedTokens cfg.maxModelLen
  managerRemoveSkippedBlocks cfg g request total
  allocateNewBlocks cfg g request (min (total + numNew + numLookaheadTokens) cfg.maxModelLen) (total + numNew)

/-- In every step that the run executes, no block with a position in the window of a query was freed; `freed` are the
indices of the blocks that were freed before. -/
def WindowSafe : (Nat → Prop) → AsyncCounts → List WindowEvent → KVCacheManager → Prop
  | _, _, [], _ => True
  | freed, counts, .others call :: rest, s => WindowSafe freed counts rest (call s)
  | freed, counts, .output :: rest, s => WindowSafe freed counts.output rest s
  | freed, counts, .refused :: rest, s => ∀ t,
    managerRemoveSkippedBlocks cfg g request (min counts.numComputedTokens cfg.maxModelLen) s = .ok () t →
      WindowSafe (fun i => freed i ∨ Freed g request s t i) counts rest t
  | freed, counts, .schedule numNew _ numRejected numLookaheadTokens :: rest, s => ∀ new t,
    windowStep cfg g request counts.numComputedTokens numNew numLookaheadTokens s = .ok new t →
      (∀ p, counts.settled ≤ p → p < counts.settled + numNew → ∀ q, InWindow (cfg.spec g).kind p q →
        ¬ (freed (q / (cfg.spec g).blockSize) ∨ Freed g request s t (q / (cfg.spec g).blockSize))) ∧
      WindowSafe (fun i => freed i ∨ Freed g request s t i) (counts.scheduled numNew numRejected) rest t

/-- Whenever blocks are freed, the first block in the window is the same for the computed tokens as for those that are
left once all rejections are known. -/
def Steady : AsyncCounts → List WindowEvent → Prop
  | _, [] => True
  | counts, .others _ :: rest => Steady counts rest
  | counts, .output :: rest => Steady counts.output rest
  | counts, .refused :: rest =>
    numSkippedBlocks (cfg.spec g) (min counts.numComputedTokens cfg.maxModelLen) ≤ numSkippedBlocks (cfg.spec g) counts.settled ∧
    Steady counts rest
  | counts, .schedule numNew _ numRejected _ :: rest =>
    numSkippedBlocks (cfg.spec g) (min counts.numComputedTokens cfg.maxModelLen) ≤ numSkippedBlocks (cfg.spec g) counts.settled ∧
    Steady (counts.scheduled numNew numRejected) rest

end

include windowed in
theorem wp_windowStep_keeps (numComputedTokens numNew numLookaheadTokens : Nat) :
    wp (windowStep cfg g request numComputedTokens numNew numLookaheadTokens) (fun _ t =>
      Keeps g request (numSkippedBlocks (cfg.spec g) (min numComputedTokens cfg.maxModelLen)) s t) (fun _ _ => True) s := by
  unfold windowStep
  rw [wp_bind]
  refine wp_mono (wp_remove_keeps windowed _) (fun _ u removed => ?_) (fun _ _ _ => trivial)
  refine wp_mono (wp_allocateNewBlocks_keeps windowed _ _) (fun _ t added => ?_) (fun _ _ _ => trivial)
  exact fun i block behind before => added i block (Nat.zero_le i) (removed i block behind before)

include windowed in
theorem windowSafe_of_steady {freed : Nat → Prop} {events : List WindowEvent}
    (lawful : ∀ event ∈ events, event.Lawful g request) (hc : counts.Consistent)
    (behind : ∀ i, freed i → i < numSkippedBlocks (cfg.spec g) counts.settled) (steady : Steady cfg g counts events) :
    WindowSafe cfg g request freed counts events s := by
  induction events generalizing s freed counts with
  | nil => trivial
  | cons event rest ih =>
    have here := lawful event (.head _)
    have later := fun event' hm => lawful event' (.tail _ hm)
    -- What a removal at the optimistic count frees is out of the window at the settled one.
    have freedNow : ∀ t, Keeps g request (numSkippedBlocks (cfg.spec g) (min counts.numComputedTokens cfg.maxModelLen)) s t →
        numSkippedBlocks (cfg.spec g) (min counts.numComputedTokens cfg.maxModelLen) ≤
          numSkippedBlocks (cfg.spec g) counts.settled →
        ∀ i, freed i ∨ Freed g request s t i → i < numSkippedBlocks (cfg.spec g) counts.settled := by
      intro t keeps hs i gone
      rcases gone with before | now
      · exact behind i before
      · exact lt_of_lt_of_le (keeps.of_freed now) hs
    cases event with
    | others call => exact ih later hc behind steady
    | output =>
      obtain ⟨hc', hs⟩ := hc.output
      exact ih later hc' (hs ▸ behind) steady
    | refused =>
      intro t removed
      have keeps := wp_ok (wp_remove_keeps windowed _) removed
      exact ih later hc (freedNow t keeps steady.1) steady.2
    | schedule numNew numDrafts numRejected numLookaheadTokens =>
      obtain ⟨drafts, rejected⟩ := here
      intro new t run
      have keeps := wp_ok (wp_windowStep_keeps windowed ..) run
      have gone := freedNow t keeps steady.1
      obtain ⟨hc', forward⟩ := hc.scheduled (show numRejected ≤ numNew by omega)
      constructor
      · intro p from_ _ q hi bad
        have first := (getNumSkippedTokens_mono from_).trans (hi.not_skipped windowed)
        exact absurd (gone _ bad) (Nat.not_lt_of_le (Nat.div_le_div_right first))
      · apply ih later hc' _ steady.2
        intro i bad
        exact lt_of_lt_of_le (gone i bad) (Nat.div_le_div_right (getNumSkippedTokens_mono forward))

/-- In a run that starts with nothing in flight and never frees windows ahead of a rejection, every step finds the blocks of
its windows. -/
theorem window_safe_of_steady (windowed : (cfg.spec g).kind.Windowed) (numComputedTokens : Nat) (events : List WindowEvent)
    (lawful : ∀ event ∈ events, event.Lawful g request) (steady : Steady cfg g ⟨numComputedTokens, []⟩ events) :
    WindowSafe cfg g request (fun _ => False) ⟨numComputedTokens, []⟩ events s :=
  windowSafe_of_steady windowed lawful (Nat.zero_le _) (fun _ never => never.elim) steady

def narrowConfig : CacheConfig where
  pool := { numGpuBlocks := 16, hashBlockSize := 2, scheme := spelledScheme }
  maxModelLen := 64
  maxNumBatchedTokens := 64
  numGroups := 1
  spec _ := ⟨2, .slidingWindow 4, 0⟩

def narrowStart : KVCacheManager := (KVCacheManager.init narrowConfig).toOption.get rfl

/-- A prompt of six tokens, a step with two drafts that are both rejected, and the next step, which is scheduled before
that is known. -/
def narrowEvents : List WindowEvent := [.schedule 6 0 0 0, .schedule 3 2 2 0, .output, .schedule 3 2 0 0]

theorem lawful_narrowEvents : ∀ event ∈ narrowEvents, event.Lawful 0 0 := by
  intro event hm
  simp only [narrowEvents, mem_cons, not_mem_nil, or_false] at hm
  rcases hm with rfl | rfl | rfl | rfl <;> simp [WindowEvent.Lawful]

theorem window_safe_settled : Steady narrowConfig 0 ⟨0, []⟩ [.schedule 6 0 0 0, .schedule 3 2 2 0, .output, .output, .schedule 3 2 0 0] ∧
    WindowSafe narrowConfig 0 0 (fun _ => False) ⟨0, []⟩
      [.schedule 6 0 0 0, .schedule 3 2 2 0, .output, .output, .schedule 3 2 0 0] narrowStart := by
  have steady : Steady narrowConfig 0 ⟨0, []⟩ [.schedule 6 0 0 0, .schedule 3 2 2 0, .output, .output, .schedule 3 2 0 0] := by
    simp only [Steady]
    decide
  have windowed : (narrowConfig.spec 0).kind.Windowed := .slidingWindow 4
  refine ⟨steady, window_safe_of_steady windowed 0 _ ?_ steady⟩
  intro event member
  simp only [List.mem_cons, List.not_mem_nil, or_false] at member
  rcases member with rfl | rfl | rfl | rfl | rfl <;> simp [WindowEvent.Lawful]

def narrowRun : CacheM (List BlockId × List BlockId) := do
  let _ ← windowStep narrowConfig 0 0 0 6 0
  let _ ← windowStep narrowConfig 0 0 6 3 0
  let before ← get
  let _ ← windowStep narrowConfig 0 0 9 3 0
  let after ← get
  return (before.blocks 0 0, after.blocks 0 0)

/-- The third step starts at position 7, whose window begins at position 4 in the third block. That block was freed, as if
the step started at position 9. -/
theorem window_freed_ahead : (∀ event ∈ narrowEvents, event.Lawful 0 0) ∧
    ¬ WindowSafe narrowConfig 0 0 (fun _ => False) ⟨0, []⟩ narrowEvents narrowStart := by
  refine ⟨lawful_narrowEvents, fun safe => ?_⟩
  have outcome : reads id narrowRun narrowStart = some ([0, 2, 3, 4, 5], [0, 0, 0, 4, 5, 6]) := by decide +kernel
  obtain ⟨_, _, run, rfl⟩ := reads_iff.mp outcome
  obtain ⟨_, s₁, run₁, rest₁⟩ := bind_ok_iff.mp run
  obtain ⟨_, s₂, run₂, rest₂⟩ := bind_ok_iff.mp rest₁
  obtain ⟨_, _, read, rest₃⟩ := bind_ok_iff.mp rest₂
  cases read
  obtain ⟨new, s₃, run₃, rest₄⟩ := bind_ok_iff.mp rest₃
  obtain ⟨_, _, read', result⟩ := bind_ok_iff.mp rest₄
  cases read'
  injection result with values _
  simp only [Prod.mk.injEq] at values
  have third := (((safe _ s₁ run₁).2 _ s₂ run₂).2 new s₃ run₃).1
  refine third 7 (by decide) (by decide) 4 ⟨by decide, show 7 < 4 + 4 by decide⟩ (.inr ⟨3, ?_, ?_⟩)
  · rw [values.1]
    rfl
  · rw [values.2]
    decide

end KVCacheManager

end KVOffload.Core
