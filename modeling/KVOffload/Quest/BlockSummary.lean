import Mathlib

/-!
# The digests of a block

`BlockSummaryStore.on_block_filled` of `cache/block_summary.py`: two endpoints per channel from the K rows of
a block. The model computes over an ordered field, so rounding is left out.
-/

namespace KVOffload.Quest

inductive DigestMode where
  | questMinmax | arkvaleCuboidMean
  deriving DecidableEq, Repr

variable {F C : Type} {bs : Nat} [NeZero bs]

section

variable [LinearOrder F] {k : Fin bs → F}

def amax (k : Fin bs → F) : F := Finset.univ.sup' ⟨0, Finset.mem_univ 0⟩ k

def amin (k : Fin bs → F) : F := Finset.univ.inf' ⟨0, Finset.mem_univ 0⟩ k

@[simp] theorem amax_const (x : F) : amax (fun _ : Fin bs => x) = x := Finset.sup'_const _ _

@[simp] theorem amin_const (x : F) : amin (fun _ : Fin bs => x) = x := Finset.inf'_const _ _

theorem le_amax (i : Fin bs) : k i ≤ amax k := Finset.le_sup' k (Finset.mem_univ i)

theorem amin_le (i : Fin bs) : amin k ≤ k i := Finset.inf'_le k (Finset.mem_univ i)

end

variable [Field F] [LinearOrder F]

def digestOf (mode : DigestMode) (k : Fin bs → C → F) : (C → F) × (C → F) :=
  match mode with
  | .arkvaleCuboidMean =>
    let center (c : C) : F := (amax (k · c) + amin (k · c)) / 2
    let radius (c : C) : F := (∑ i, |k i c - center c|) / bs
    (fun c => center c + radius c, fun c => center c - radius c)
  | .questMinmax => (fun c => amax (k · c), fun c => amin (k · c))

variable [IsStrictOrderedRing F]

theorem digestOf_const (mode : DigestMode) (row : C → F) : digestOf mode (fun _ : Fin bs => row) = (row, row) := by
  have center : ∀ x : F, (x + x) / 2 = x := fun x => by rw [← two_mul, mul_div_cancel_left₀ x two_ne_zero]
  cases mode <;> simp [digestOf]

theorem digestOf_varies [Nonempty C] (mode : DigestMode) : ∃ x y : Fin bs → C → F, digestOf mode x ≠ digestOf mode y := by
  refine ⟨fun _ _ => 0, fun _ _ => 1, fun equal => ?_⟩
  rw [digestOf_const, digestOf_const] at equal
  obtain ⟨c⟩ := ‹Nonempty C›
  exact zero_ne_one (congrFun (congrArg Prod.fst equal) c)

end KVOffload.Quest
