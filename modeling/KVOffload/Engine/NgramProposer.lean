import KVOffload.Lib.Borders

/-!
# The n-gram proposer

`findLongestMatchedNgramAndProposeTokens` scans the reversed tokens with a failure table of `maxNgram` entries.
-/

namespace KVOffload.Engine

open List

variable {α : Type} [DecidableEq α]

/-- The variables of the scan. -/
structure NgramScan where
  lps : Nat → Nat := fun _ => 0
  longestNgram : Nat := 0
  position : Nat := 0
  prevLps : Nat := 0
  i : Nat := 1

namespace NgramScan

def step (tokens : List α) (maxNgram : Nat) (s : NgramScan) : NgramScan :=
  if tokens[s.prevLps]? = tokens[s.i]? then
    let prevLps := s.prevLps + 1
    let lps := if s.i < maxNgram then Function.update s.lps s.i prevLps else s.lps
    { lps
      longestNgram := if s.longestNgram ≤ prevLps then prevLps else s.longestNgram
      position := if s.longestNgram ≤ prevLps then s.i else s.position
      prevLps := if prevLps = maxNgram then lps (maxNgram - 1) else prevLps
      i := s.i + 1 }
  else if s.prevLps ≠ 0 then { s with prevLps := s.lps (s.prevLps - 1) }
  else { s with i := s.i + 1 }

/-- The loop, for at most `fuel` iterations. -/
def loop (tokens : List α) (maxNgram : Nat) : Nat → NgramScan → NgramScan
  | 0, s => s
  | fuel + 1, s => if s.i < tokens.length then loop tokens maxNgram fuel (s.step tokens maxNgram) else s

end NgramScan

def findLongestMatchedNgramAndProposeTokens (originTokens : List α) (minNgram maxNgram : Nat) (maxModelLen k : Int) : List α :=
  let totalToken := originTokens.length
  if totalToken < minNgram then [] else
  let k := min k (maxModelLen - totalToken)
  if k ≤ 0 then [] else
  -- Each iteration advances `i` or lowers `prev_lps`.
  let s := NgramScan.loop originTokens.reverse maxNgram (2 * totalToken) {}
  if s.longestNgram < minNgram then [] else
  let startPosition := totalToken - 1 - s.position + s.longestNgram
  (originTokens.drop startPosition).take (min k (totalToken - startPosition)).toNat

/-- The last `v` tokens also occur at `start`, and end before the last token. -/
def Occurs (tokens : List α) (v start : Nat) : Prop :=
  start + v < tokens.length ∧ tokens.drop (tokens.length - v) <+: tokens.drop start

instance (tokens : List α) (v start : Nat) : Decidable (Occurs tokens v start) :=
  inferInstanceAs (Decidable (_ ∧ _))

/-- The largest length up to `maxNgram` of an end of `tokens` that occurs earlier. -/
def longestRepeat (tokens : List α) (maxNgram : Nat) : Nat :=
  Nat.findGreatest (fun v => ∃ start < tokens.length, Occurs tokens v start) maxNgram

/-- What follows the earliest occurrence of the longest repeated end. -/
def bruteForce (tokens : List α) (minNgram maxNgram : Nat) (maxModelLen k : Int) : List α :=
  let v := longestRepeat tokens maxNgram
  if v < minNgram then [] else
  match (range tokens.length).find? (Occurs tokens v ·) with
  | none => []
  | some start => (tokens.drop (start + v)).take (min k (maxModelLen - tokens.length)).toNat

namespace NgramScan

variable {t : List α} {m : Nat} {s : NgramScan}

/-- `prevLps` can be extended by every border the next position can have, and the best match so far is at its last position. -/
structure Scanned (t : List α) (m : Nat) (s : NgramScan) : Prop where
  inside : s.i ≤ t.length
  table : ∀ j < s.i, j < m → LongestBorder t (j + 1) (s.lps j)
  unset : ∀ j, s.i ≤ j → s.lps j = 0
  border : Border t s.i s.prevLps
  capped : s.prevLps < m
  ahead : s.i < t.length → ∀ v < m, Border t (s.i + 1) (v + 1) → v ≤ s.prevLps
  best : s.longestNgram ≤ m ∧ (0 < s.longestNgram → s.position < s.i ∧ Border t (s.position + 1) s.longestNgram)
  found : ∀ i ≤ s.i, ∀ v ≤ m, 0 < v → Border t i v → v < s.longestNgram ∨ v = s.longestNgram ∧ i ≤ s.position + 1

omit [DecidableEq α] in
/-- The scan moves on with the longest border `n` of the tokens up to `i`. -/
theorem Scanned.advance (h : Scanned t m s) (hi : s.i < t.length) {n : Nat} (longest : Border t (s.i + 1) n) (cap : n ≤ m)
    (top : ∀ v ≤ m, Border t (s.i + 1) v → v ≤ n) {lps : Nat → Nat}
    (entries : lps = if s.i < m then Function.update s.lps s.i n else s.lps) :
    Scanned t m
      { lps
        longestNgram := if 0 < n ∧ s.longestNgram ≤ n then n else s.longestNgram
        position := if 0 < n ∧ s.longestNgram ≤ n then s.i else s.position
        prevLps := if n = m then lps (m - 1) else n
        i := s.i + 1 } := by
  obtain ⟨inside, table, unset, border, capped, ahead, best, found⟩ := h
  have old : ∀ j ≠ s.i, lps j = s.lps j := by
    intro j other
    rw [entries]
    split
    · exact Function.update_of_ne other ..
    · rfl
  have table' : ∀ j < s.i + 1, j < m → LongestBorder t (j + 1) (lps j) := by
    intro j hj hb
    by_cases here : j = s.i
    · rw [entries, here, if_pos (here ▸ hb), Function.update_self]
      exact ⟨longest, fun v hv => top v (by have := hv.1; omega) hv⟩
    · rw [old j here]
      exact table j (by omega) hb
  have prev : Border t (s.i + 1) (if n = m then lps (m - 1) else n) ∧ (if n = m then lps (m - 1) else n) < m ∧
      ∀ v < m, Border t (s.i + 1) v → v ≤ if n = m then lps (m - 1) else n := by
    split
    · rename_i full
      subst full
      have entry := table' (n - 1) (by have := longest.1; omega) (by omega)
      rw [Nat.sub_add_cancel (by omega)] at entry
      exact ⟨longest.trans entry.border, entry.border.1, fun v hv hb => entry.greatest v (longest.inner hb hv)⟩
    · exact ⟨longest, by omega, fun v hv hb => top v hv.le hb⟩
  refine ⟨hi, table', ?_, prev.1, prev.2.1, ?_, ?_, ?_⟩
  · intro j (hj : s.i < j)
    exact (old j hj.ne').trans (unset j hj.le)
  · intro inside v hv hb
    exact prev.2.2 v hv ((border_succ inside).mp hb).1
  · grind
  · grind

theorem scanned_step (hm : 0 < m) (h : Scanned t m s) (hi : s.i < t.length) : Scanned t m (s.step t m) := by
  have next := h.ahead hi
  unfold step
  split
  · rename_i same
    have longer := (border_succ hi).mpr ⟨h.border, same⟩
    have top : ∀ v ≤ m, Border t (s.i + 1) v → v ≤ s.prevLps + 1 := by
      intro v hv hb
      cases v with
      | zero => omega
      | succ v => exact Nat.succ_le_succ (next v hv hb)
    simpa using h.advance hi longer h.capped top rfl
  · rename_i other
    have less : ∀ v < m, Border t (s.i + 1) (v + 1) → v < s.prevLps := by
      intro v hv hb
      refine lt_of_le_of_ne (next v hv hb) ?_
      rintro rfl
      exact other ((border_succ hi).mp hb).2
    split
    · rename_i some
      have entry := h.table (s.prevLps - 1) (by have := h.border.1; omega) (by have := h.capped; omega)
      rw [Nat.sub_add_cancel (Nat.pos_of_ne_zero some)] at entry
      refine ⟨h.inside, h.table, h.unset, h.border.trans entry.border, entry.border.1.trans h.capped, ?_, h.best, h.found⟩
      intro _ v hv hb
      exact entry.greatest v (h.border.inner ((border_succ hi).mp hb).1 (less v hv hb))
    · rename_i zero
      have top : ∀ v ≤ m, Border t (s.i + 1) v → v ≤ 0 := by
        intro v hv hb
        cases v with
        | zero => omega
        | succ v =>
          have := less v hv hb
          omega
      have entries : s.lps = if s.i < m then Function.update s.lps s.i 0 else s.lps := by simp [← h.unset s.i]
      have moved := h.advance hi (border_zero (by omega)) hm.le top entries
      rw [not_not] at zero
      simpa [hm.ne, zero] using moved

/-- Each iteration advances `i` or lowers `prevLps`. -/
theorem step_lt (hm : 0 < m) (h : Scanned t m s) (hi : s.i < t.length) :
    2 * t.length - 2 * (s.step t m).i + (s.step t m).prevLps < 2 * t.length - 2 * s.i + s.prevLps := by
  have capped := (scanned_step hm h hi).capped
  unfold step at capped ⊢
  split
  · rename_i same
    rw [if_pos same] at capped
    dsimp only at capped ⊢
    split at capped <;> split <;> omega
  · split
    · have entry := (h.table (s.prevLps - 1) (by have := h.border.1; omega) (by have := h.capped; omega)).border.1
      dsimp only
      omega
    · dsimp only
      omega

theorem scanned_loop (hm : 0 < m) (fuel : Nat) (h : Scanned t m s) (enough : 2 * t.length - 2 * s.i + s.prevLps ≤ fuel) :
    Scanned t m (loop t m fuel s) ∧ (loop t m fuel s).i = t.length := by
  induction fuel generalizing s with
  | zero =>
    have := h.inside
    exact ⟨h, by simp only [loop]; omega⟩
  | succ fuel ih =>
    unfold loop
    split
    · rename_i hi
      exact ih (scanned_step hm h hi) (by have := step_lt hm h hi; omega)
    · exact ⟨h, le_antisymm h.inside (by omega)⟩

omit [DecidableEq α] in
theorem scanned_init (hm : 0 < m) (some : 0 < t.length) : Scanned t m {} where
  inside := some
  table j hj _ := ⟨border_zero (Nat.succ_pos j), fun v hb => by have := hb.1; simp only at hj; omega⟩
  unset _ _ := rfl
  border := border_zero Nat.one_pos
  capped := hm
  ahead _ v _ hb := by have := hb.1; simp only at this; omega
  best := ⟨Nat.zero_le m, fun h => absurd h (lt_irrefl 0)⟩
  found i hi v _ hv hb := by have := hb.1; simp only at hi; omega

end NgramScan

omit [DecidableEq α] in
theorem occurs_iff_border (tokens : List α) (v start : Nat) :
    Occurs tokens v start ↔ Border tokens.reverse (tokens.length - start) v := by
  unfold Occurs Border
  rw [Nat.lt_sub_iff_add_lt']
  refine and_congr_right fun inside => ?_
  rw [take_reverse, take_reverse, reverse_suffix, Nat.sub_sub_self (by omega)]

theorem loop_spec (tokens : List α) {m : Nat} (hm : 0 < m) (some : 0 < tokens.length) :
    let s := NgramScan.loop tokens.reverse m (2 * tokens.length) {}
    s.longestNgram = longestRepeat tokens m ∧ (0 < s.longestNgram →
      (range tokens.length).find? (Occurs tokens s.longestNgram ·) = Option.some (tokens.length - 1 - s.position)) := by
  intro s
  obtain ⟨h, done⟩ : NgramScan.Scanned _ m s ∧ s.i = tokens.reverse.length :=
    NgramScan.scanned_loop hm _ (NgramScan.scanned_init hm (by simpa using some)) (by simp only [length_reverse]; omega)
  rw [length_reverse] at done
  have occurs : 0 < s.longestNgram → Occurs tokens s.longestNgram (tokens.length - 1 - s.position) := by
    intro hp
    obtain ⟨inside, border⟩ := h.best.2 hp
    rwa [occurs_iff_border, show tokens.length - (tokens.length - 1 - s.position) = s.position + 1 by omega]
  have top : ∀ v ≤ m, 0 < v → ∀ start, Occurs tokens v start →
      v < s.longestNgram ∨ v = s.longestNgram ∧ tokens.length - 1 - s.position ≤ start := by
    intro v hv hp start hs
    have := h.found (tokens.length - start) (by omega) v hv hp ((occurs_iff_border ..).mp hs)
    omega
  constructor
  · symm
    refine Nat.findGreatest_eq_iff.mpr ⟨h.best.1, fun hp => ⟨_, by omega, occurs (Nat.pos_of_ne_zero hp)⟩, ?_⟩
    rintro v more hv ⟨start, _, hs⟩
    have := top v hv (by omega) start hs
    omega
  · intro hp
    simp only [find?_range_eq_some, decide_eq_true_eq, mem_range]
    refine ⟨occurs hp, by omega, fun start hb => ?_⟩
    simp only [Bool.not_eq_true', decide_eq_false_iff_not]
    intro hs
    have := top _ h.best.1 hp start hs
    omega

theorem proposal_eq_bruteForce {minNgram maxNgram : Nat} (hp : 1 ≤ minNgram) (hb : minNgram ≤ maxNgram) (tokens : List α)
    (maxModelLen k : Int) :
    findLongestMatchedNgramAndProposeTokens tokens minNgram maxNgram maxModelLen k =
        bruteForce tokens minNgram maxNgram maxModelLen k ∧
      (minNgram ≤ longestRepeat tokens maxNgram → 0 < k → tokens.length < maxModelLen →
        findLongestMatchedNgramAndProposeTokens tokens minNgram maxNgram maxModelLen k ≠ []) := by
  have bounded : longestRepeat tokens maxNgram < tokens.length ∨ longestRepeat tokens maxNgram = 0 := by
    refine or_iff_not_imp_right.mpr fun some => ?_
    obtain ⟨start, _, inside, _⟩ := Nat.findGreatest_of_ne_zero rfl some
    exact (Nat.le_add_left ..).trans_lt inside
  unfold findLongestMatchedNgramAndProposeTokens bruteForce
  dsimp only
  by_cases short : tokens.length < minNgram
  · rw [if_pos short, if_pos (by omega)]
    exact ⟨rfl, fun _ => by omega⟩
  obtain ⟨longest, at_⟩ := loop_spec tokens (m := maxNgram) (by omega) (by omega)
  rw [if_neg short, longest]
  by_cases few : longestRepeat tokens maxNgram < minNgram
  · rw [if_pos few, if_pos few, ite_self]
    exact ⟨rfl, fun _ => by omega⟩
  have first := at_ (by omega)
  rw [longest] at first
  have inside := (of_decide_eq_true (find?_some first :)).1
  simp only [if_neg few, first]
  generalize tokens.length - 1 - _ + longestRepeat tokens maxNgram = start at inside
  by_cases full : min k (maxModelLen - tokens.length) ≤ 0
  · rw [if_pos full, Int.toNat_of_nonpos full, take_zero]
    exact ⟨rfl, fun _ _ _ => by omega⟩
  · rw [if_neg full, take_eq_take_iff, ne_eq, take_eq_nil_iff, drop_eq_nil_iff, length_drop]
    exact ⟨by omega, fun _ _ _ => by omega⟩

theorem proposal_eq_bruteForce_capped :
    findLongestMatchedNgramAndProposeTokens [1, 2, 3, 1, 2, 1, 2] 1 2 9 5 = [3, 1] ∧
      bruteForce [1, 2, 3, 1, 2, 1, 2] 1 2 9 5 = [3, 1] := by
  have equal := proposal_eq_bruteForce le_rfl (by decide : 1 ≤ 2) [1, 2, 3, 1, 2, 1, 2] 9 5
  have value : bruteForce [1, 2, 3, 1, 2, 1, 2] 1 2 9 5 = [3, 1] := by decide
  exact ⟨equal.1.trans value, value⟩

end KVOffload.Engine
