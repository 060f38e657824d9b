import KVOffload.Core.HitSpec

/-!
# The longest hit of one kind of group

A hit needs, of each group, the blocks that the layers still read there. Each lookup finds the longest aligned hit.
-/

namespace KVOffload.Core

open List

def NeedsBlock (spec : KVCacheSpec) (m i : Nat) : Prop :=
  match spec.kind with
  | .slidingWindow window => m * spec.blockSize < (i + 1) * spec.blockSize + (window - 1)
  | .mamba _ _ => i + 1 = m
  | _ => True

instance (spec : KVCacheSpec) (m i : Nat) : Decidable (NeedsBlock spec m i) := by
  unfold NeedsBlock
  split <;> infer_instance

inductive SpecKind.Hybrid : SpecKind → Prop where
  | fullAttention : Hybrid .fullAttention
  | slidingWindow (window : Nat) (wide : 1 < window) : Hybrid (.slidingWindow window)
  | mamba (mambaCacheMode : MambaCacheMode) (numSpeculativeBlocks : Nat) : Hybrid (.mamba mambaCacheMode numSpeculativeBlocks)

structure LongestHit (spec : KVCacheSpec) (align : Nat) (nullRow : HitRow) (lookup : Nat → Option HitRow) (n : Nat)
    (rows : List HitRow) : Prop where
  le : rows.length ≤ n
  aligned : align ∣ rows.length * spec.blockSize
  row : ∀ i row, rows[i]? = some row → if NeedsBlock spec rows.length i then lookup i = some row else row = nullRow
  greatest : ∀ m ≤ n, align ∣ m * spec.blockSize → (∀ i < m, NeedsBlock spec m i → (lookup i).isSome) → m ≤ rows.length

section

variable {bs align layout : Nat} {nullRow : HitRow} {lookup : Nat → Option HitRow} {m : Nat}

theorem dvd_of_not_skipped (aligned : ¬ (bs ≠ align ∧ m * bs % align ≠ 0)) : align ∣ m * bs := by
  by_cases hs : bs = align
  · exact hs ▸ Dvd.intro_left m rfl
  · by_contra not
    exact aligned ⟨hs, fun zero => not (Nat.dvd_of_mod_eq_zero zero)⟩

theorem not_dvd_of_skipped (skipped : bs ≠ align ∧ m * bs % align ≠ 0) :
    ¬ align ∣ m * bs := fun dvd => skipped.2 (Nat.mod_eq_zero_of_dvd dvd)

theorem isGreatest_alignedLength (bs align n : Nat) : IsGreatest {m | m ≤ n ∧ align ∣ m * bs} (alignedLength bs align n) := by
  induction n with
  | zero => exact ⟨⟨le_refl 0, by simp [alignedLength]⟩, fun m ha => ha.1⟩
  | succ n ih =>
    unfold alignedLength
    split
    · rename_i skipped
      obtain ⟨⟨hb, aligned⟩, greatest⟩ := ih
      refine ⟨⟨Nat.le_succ_of_le hb, aligned⟩, fun m ha => greatest ⟨?_, ha.2⟩⟩
      have different : m ≠ n + 1 := fun hs => not_dvd_of_skipped skipped (hs ▸ ha.2)
      have := ha.1
      omega
    · rename_i aligned
      exact ⟨⟨le_refl _, dvd_of_not_skipped aligned⟩, fun m ha => ha.1⟩

theorem hitRun_stops (lookup : Nat → Option HitRow) (start n : Nat) : (hitRun lookup start n).length ≤ n ∧
    ((hitRun lookup start n).length < n → lookup (start + (hitRun lookup start n).length) = none) := by
  induction n generalizing start with
  | zero => exact ⟨le_refl 0, fun never => absurd never (lt_irrefl 0)⟩
  | succ n ih =>
    unfold hitRun
    cases here : lookup start with
    | none => exact ⟨Nat.zero_le _, fun _ => here⟩
    | some row =>
      obtain ⟨length, stops⟩ := ih (start + 1)
      simp only [length_cons]
      refine ⟨by omega, fun short => ?_⟩
      rw [← add_assoc, add_right_comm]
      exact stops (by omega)

theorem longestHit_fullAttention (n : Nat) :
    LongestHit ⟨bs, .fullAttention, layout⟩ align nullRow lookup n
      (fullAttentionHit bs align false lookup n) := by
  obtain ⟨length, stops⟩ := hitRun_stops lookup 0 n
  obtain ⟨⟨hb, aligned⟩, greatest⟩ := isGreatest_alignedLength bs align (hitRun lookup 0 n).length
  have taken : (fullAttentionHit bs align false lookup n).length =
      alignedLength bs align (hitRun lookup 0 n).length := length_take_of_le hb
  refine ⟨?_, ?_, ?_, ?_⟩
  · omega
  · rw [taken]
    exact aligned
  · intro i row at_
    have hf : (hitRun lookup 0 n)[i]? = some row := by
      have at_' : ((hitRun lookup 0 n).take (alignedLength bs align (hitRun lookup 0 n).length))[i]? = some row := at_
      rw [getElem?_take] at at_'
      split at at_'
      · exact at_'
      · cases at_'
    rw [if_pos (show NeedsBlock ⟨bs, .fullAttention, layout⟩ _ i from trivial)]
    simpa using runAt_hitRun 0 n i row hf
  intro m hw dvd hf
  rw [taken]
  apply greatest
  refine ⟨?_, dvd⟩
  by_contra short
  have missed := stops (by omega)
  rw [zero_add] at missed
  have hit := hf _ (Nat.lt_of_not_le short) trivial
  rw [missed] at hit
  cases hit

section

variable {window : Nat}

theorem needsBlock_window (hp : 0 < bs) {m i : Nat} (hi : i < m) :
    NeedsBlock ⟨bs, .slidingWindow window, layout⟩ m i ↔ m - i ≤ cdiv (window - 1) bs := by
  change m * bs < (i + 1) * bs + (window - 1) ↔ m - i ≤ (window - 1 + bs - 1) / bs
  obtain ⟨d, rfl⟩ := Nat.exists_eq_add_of_lt hi
  rw [Nat.le_div_iff_mul_le hp, show i + d + 1 - i = d + 1 by omega, show (i + d + 1) * bs =
    (i + 1) * bs + d * bs by ring, show (d + 1) * bs = d * bs + bs by ring]
  omega

/-- What the search knows at position `i`: where its run ends, and that no longer hit is left. -/
structure WindowSearch (bs align window layout : Nat) (lookup : Nat → Option HitRow) (n i : Nat)
    (run : List HitRow) : Prop where
  inside : i + run.length ≤ n
  found : RunAt lookup i run
  aligned : run ≠ [] → align ∣ (i + run.length) * bs
  short : run.length < cdiv (window - 1) bs
  greatest : ∀ m ≤ n, align ∣ m * bs →
    (∀ j < m, NeedsBlock ⟨bs, .slidingWindow window, layout⟩ m j → (lookup j).isSome) → m ≤ i + run.length

namespace WindowSearch

variable {n i : Nat} {run : List HitRow}

theorem start (hp : 0 < bs) (wide : 1 < window) (align layout : Nat) (lookup : Nat → Option HitRow)
    (n : Nat) : WindowSearch bs align window layout lookup n n [] where
  inside := le_refl n
  found := RunAt.nil n
  aligned := fun never => absurd rfl never
  short := Nat.div_pos (by omega) hp
  greatest m hw _ _ := hw

theorem missed (state : WindowSearch bs align window layout lookup n (i + 1) run) (hp : 0 < bs)
    (none : lookup i = none) : WindowSearch bs align window layout lookup n i [] where
  inside := by
    have := state.inside
    rw [length_nil]
    omega
  found := RunAt.nil i
  aligned := fun never => absurd rfl never
  short := Nat.lt_of_le_of_lt (Nat.zero_le _) state.short
  greatest m hw dvd covered := by
    have bound := state.greatest m hw dvd covered
    have short := state.short
    by_contra beyond
    have beyond : i < m := Nat.lt_of_not_le beyond
    -- The missing block is in the window of every hit that ends in the run.
    have needed := covered i beyond ((needsBlock_window hp beyond).mpr (by omega))
    rw [none] at needed
    cases needed

theorem skipped (state : WindowSearch bs align window layout lookup n (i + 1) [])
    (unaligned : ¬ align ∣ (i + 1) * bs) : WindowSearch bs align window layout lookup n i [] where
  inside := Nat.le_of_succ_le state.inside
  found := RunAt.nil i
  aligned := fun never => absurd rfl never
  short := state.short
  greatest m hw dvd covered := by
    have bound := state.greatest m hw dvd covered
    have different : m ≠ i + 1 := fun hs => unaligned (hs ▸ dvd)
    rw [length_nil] at bound ⊢
    omega

variable {row : HitRow}

section

variable (state : WindowSearch bs align window layout lookup n (i + 1) run)

include state

theorem end_aligned (aligned : ¬ (run = [] ∧ bs ≠ align ∧ (i + 1) * bs % align ≠ 0)) : align ∣ (i + 1 + run.length) * bs := by
  by_cases empty : run = []
  · subst empty
    exact dvd_of_not_skipped fun unaligned => aligned ⟨rfl, unaligned⟩
  · exact state.aligned empty

theorem longer (here : lookup i = some row) (aligned : ¬ (run = [] ∧ bs ≠ align ∧ (i + 1) * bs % align ≠ 0))
    (few : (row :: run).length < cdiv (window - 1) bs) :
    WindowSearch bs align window layout lookup n i (row :: run) := by
  have shift : i + (row :: run).length = i + 1 + run.length := by
    rw [length_cons]
    omega
  refine ⟨?_, RunAt.cons here state.found, fun _ => ?_, few, ?_⟩
  · rw [shift]
    exact state.inside
  · rw [shift]
    exact state.end_aligned aligned
  · rw [shift]
    exact state.greatest

theorem complete (hp : 0 < bs) (here : lookup i = some row) (aligned : ¬ (run = [] ∧ bs ≠ align ∧ (i + 1) * bs % align ≠ 0))
    (enough : cdiv (window - 1) bs ≤ (row :: run).length) :
    LongestHit ⟨bs, .slidingWindow window, layout⟩ align nullRow lookup n
      (replicate i nullRow ++ row :: run) := by
  have length : (replicate i nullRow ++ row :: run).length = i + 1 + run.length := by
    rw [length_append, length_replicate, length_cons]
    omega
  have exactly : run.length + 1 = cdiv (window - 1) bs := le_antisymm state.short enough
  refine ⟨?_, ?_, ?_, ?_⟩
  · rw [length]
    exact state.inside
  · rw [length]
    exact state.end_aligned aligned
  · intro p row' at_
    have hi := (List.getElem?_eq_some_iff.mp at_).1
    have window : NeedsBlock ⟨bs, .slidingWindow window, layout⟩ _ p ↔ _ := needsBlock_window hp hi
    rw [getElem?_append] at at_
    split at at_
    · rename_i before
      rw [length_replicate] at before
      rw [if_neg fun needed => absurd (window.mp needed) (by omega)]
      exact eq_of_mem_replicate (mem_of_getElem? at_)
    · rename_i behind
      rw [length_replicate] at behind at_
      rw [if_pos (window.mpr (by omega))]
      have hf := RunAt.cons here state.found (p - i) row' at_
      rwa [Nat.add_sub_cancel' (Nat.le_of_not_lt behind)] at hf
  · rw [length]
    exact state.greatest

end

theorem whole (state : WindowSearch bs align window layout lookup n 0 run) (hp : 0 < bs) :
    LongestHit ⟨bs, .slidingWindow window, layout⟩ align nullRow lookup n (alignRows bs align run) := by
  have all : alignRows bs align run = run := by
    by_cases empty : run = []
    · rw [empty]
      rfl
    · have dvd := state.aligned empty
      rw [zero_add] at dvd
      apply take_of_length_le
      exact (isGreatest_alignedLength bs align run.length).2 ⟨le_refl _, dvd⟩
  have hi := state.inside
  rw [zero_add] at hi
  rw [all]
  refine ⟨hi, ?_, ?_, ?_⟩
  · by_cases empty : run = []
    · rw [empty]
      simp
    · simpa using state.aligned empty
  · intro p row' at_
    have hw := (List.getElem?_eq_some_iff.mp at_).1
    have short := state.short
    rw [if_pos ((needsBlock_window hp hw).mpr (by omega))]
    simpa using state.found p row' at_
  · simpa using state.greatest

end WindowSearch

theorem longestHit_search (nullRow : HitRow) (hp : 0 < bs) {n i : Nat} {run : List HitRow}
    (state : WindowSearch bs align window layout lookup n i run) :
    LongestHit ⟨bs, .slidingWindow window, layout⟩ align nullRow lookup n
      (match slidingWindowSearch bs align false lookup (cdiv (window - 1) bs) i run with
        | (i, run, true) => replicate i nullRow ++ run
        | (_, run, false) => alignRows bs align run) := by
  fun_induction slidingWindowSearch bs align false lookup (cdiv (window - 1) bs) i run with
  | case1 run => exact state.whole hp
  | case2 i run none ih => exact ih (state.missed hp none)
  | case3 i run row here _ skipped ih =>
    obtain ⟨rfl, unaligned⟩ := skipped
    exact ih (state.skipped (not_dvd_of_skipped unaligned))
  | case4 i run row here _ aligned enough => exact state.complete hp here aligned enough
  | case5 i run row here _ aligned few ih => exact ih (state.longer here aligned (Nat.lt_of_not_le few))

theorem longestHit_slidingWindow (hp : 0 < bs) (wide : 1 < window) (n : Nat) :
    LongestHit ⟨bs, .slidingWindow window, layout⟩ align nullRow lookup n
      (slidingWindowHit bs align false nullRow lookup window n) := by
  have searched := longestHit_search nullRow hp (WindowSearch.start hp wide align layout lookup n)
  unfold slidingWindowHit
  simp only [Bool.false_eq_true, if_false, add_zero]
  rcases result : slidingWindowSearch bs align false lookup (cdiv (window - 1) bs) n [] with
    ⟨i, run, matched⟩
  rw [result] at searched
  cases matched with
  | true => exact searched
  | false => exact searched

end

theorem longestHit_mamba {mode : MambaCacheMode} {k : Nat} (n : Nat) :
    LongestHit ⟨bs, .mamba mode k, layout⟩ align nullRow lookup n (mambaHit bs align nullRow lookup n) := by
  induction n with
  | zero => exact ⟨le_refl 0, by simp [mambaHit], by simp [mambaHit], fun m hw _ _ => hw⟩
  | succ i ih =>
    -- No hit ends at a block that is missing or not aligned.
    have without : (¬ (align ∣ (i + 1) * bs ∧ (lookup i).isSome)) →
        LongestHit ⟨bs, .mamba mode k, layout⟩ align nullRow lookup (i + 1)
          (mambaHit bs align nullRow lookup i) := by
      intro no
      refine ⟨Nat.le_succ_of_le ih.le, ih.aligned, ih.row, fun m hw dvd covered => ?_⟩
      apply ih.greatest m _ dvd covered
      by_contra beyond
      have last : m = i + 1 := by omega
      subst last
      exact no ⟨dvd, covered i (Nat.lt_succ_self i) rfl⟩
    unfold mambaHit
    cases here : lookup i with
    | none => exact without (by simp [here])
    | some row =>
      simp only []
      split
      · rename_i skipped
        exact without fun both => not_dvd_of_skipped skipped both.1
      rename_i aligned
      have length : (replicate i nullRow ++ [row]).length = i + 1 := by simp
      refine ⟨length.le, ?_, ?_, fun m hw _ _ => length ▸ hw⟩
      · rw [length]
        exact dvd_of_not_skipped aligned
      intro p row' at_
      rw [length]
      change if p + 1 = i + 1 then _ else _
      rw [getElem?_append] at at_
      split at at_
      · rename_i before
        rw [length_replicate] at before
        rw [if_neg (by omega)]
        exact eq_of_mem_replicate (mem_of_getElem? at_)
      rename_i behind
      rw [length_replicate] at behind at_
      have last : p = i := by
        have := (List.getElem?_eq_some_iff.mp at_).1
        simp only [length_singleton] at this
        omega
      subst last
      rw [Nat.sub_self] at at_
      rw [if_pos rfl, here]
      exact at_

end

end KVOffload.Core
