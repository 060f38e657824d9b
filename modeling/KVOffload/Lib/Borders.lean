import Mathlib

/-!
# Borders of a list

A border of a list is a proper prefix of it that is also a suffix, the notion behind failure tables.
-/

namespace KVOffload

open List

variable {α : Type} {t : List α} {i v w : Nat}

/-- The first `v` entries of `t` are the last `v` of its first `i`. -/
def Border (t : List α) (i v : Nat) : Prop := v < i ∧ t.take v <:+ t.take i

theorem border_zero (hp : 0 < i) : Border t i 0 := ⟨hp, nil_suffix⟩

theorem border_succ (hi : i < t.length) : Border t (i + 1) (v + 1) ↔ Border t i v ∧ t[v]? = t[i]? := by
  by_cases hv : v < i
  · have short := hv.trans hi
    rw [Border, Border, take_succ_eq_append_getElem hi, take_succ_eq_append_getElem, ← reverse_prefix, reverse_concat,
      reverse_concat, cons_prefix_cons, reverse_prefix, getElem?_eq_getElem hi, getElem?_eq_getElem short, Option.some_inj]
    simp only [Nat.add_lt_add_iff_right, hv, true_and]
    exact and_comm
  · simp [Border, hv]

theorem Border.trans (outer : Border t i v) (inner : Border t v w) : Border t i w :=
  ⟨inner.1.trans outer.1, inner.2.trans outer.2⟩

theorem Border.inner (outer : Border t i v) (other : Border t i w) (hb : w < v) : Border t v w :=
  ⟨hb, suffix_of_suffix_length_le other.2 outer.2 (by simp only [length_take]; omega)⟩

/-- `v` is the greatest border. -/
structure LongestBorder (t : List α) (i v : Nat) : Prop where
  border : Border t i v
  greatest : ∀ w, Border t i w → w ≤ v

end KVOffload
