import Mathlib

/-!
# Tables of rows

`replay` brings a table up to date with a summary of the rows that were filled, given up and moved.
-/

namespace KVOffload

open Function

inductive MoveDirectionality where
  | unidirectional
  | swap
deriving DecidableEq

abbrev RowMove := Nat × Nat × MoveDirectionality

structure RowUpdate (R : Type) where
  removed : List Nat := []
  added : List (Nat × R) := []
  moved : List RowMove := []

variable {R β γ : Type} {d : β} {t : Nat → β} {n : Int}

/-- `a → b` or `a ↔ b` -/
def moveRow (d : β) (t : Nat → β) : RowMove → Nat → β
  | (a, b, .unidirectional) => Function.update (Function.update t a d) b (t a)
  | (a, b, .swap) => Function.update (Function.update t a (t b)) b (t a)

def addRows (enter : R → β) (added : List (Nat × R)) (t : Nat → β) : Nat → β :=
  added.foldl (fun t x => Function.update t x.1 (enter x.2)) t

def clearRows (d : β) (removed : List Nat) (t : Nat → β) : Nat → β := fun i => if i ∈ removed then d else t i

def replay (d : β) (enter : R → β) (u : RowUpdate R) (t : Nat → β) : Nat → β :=
  u.moved.foldl (moveRow d) (clearRows d u.removed (addRows enter u.added t))

@[simp]
theorem clearRows_nil : clearRows d [] t = t := by
  funext i
  simp [clearRows]

@[simp]
theorem clearRows_default (removed : List Nat) : clearRows d removed (fun _ => d) = fun _ => d := by
  funext i
  simp [clearRows]

section

variable (h : β → γ)

theorem comp_moveRow (t : Nat → β) (m : RowMove) : h ∘ moveRow d t m = moveRow (h d) (h ∘ t) m := by
  obtain ⟨a, b, _ | _⟩ := m <;> simp [moveRow, comp_update]

theorem comp_moves (moves : List RowMove) (t : Nat → β) :
    h ∘ moves.foldl (moveRow d) t = moves.foldl (moveRow (h d)) (h ∘ t) := by
  induction moves generalizing t with
  | nil => rfl
  | cons m moves ih => rw [List.foldl_cons, List.foldl_cons, ih, comp_moveRow]

theorem comp_addRows (enter : R → β) (added : List (Nat × R)) (t : Nat → β) :
    h ∘ addRows enter added t = addRows (h ∘ enter) added (h ∘ t) := by
  induction added generalizing t with
  | nil => rfl
  | cons x added ih =>
    refine (ih _).trans ?_
    rw [comp_update]
    rfl

theorem comp_replay (enter : R → β) (u : RowUpdate R) (t : Nat → β) :
    h ∘ replay d enter u t = replay (h d) (h ∘ enter) u (h ∘ t) := by
  have cleared : h ∘ clearRows d u.removed (addRows enter u.added t) =
      clearRows (h d) u.removed (addRows (h ∘ enter) u.added (h ∘ t)) := by
    rw [← comp_addRows]
    funext i
    simp [clearRows, apply_ite h]
  rw [replay, comp_moves, cleared, replay]

end

theorem addRows_clearRows {enter : R → β} {removed : List Nat} {added : List (Nat × R)} (apart : ∀ x ∈ added, x.1 ∉ removed) :
    addRows enter added (clearRows d removed t) = clearRows d removed (addRows enter added t) := by
  induction added generalizing t with
  | nil => rfl
  | cons x added ih =>
    have step : update (clearRows d removed t) x.1 (enter x.2) =
        clearRows d removed (update t x.1 (enter x.2)) := by
      funext i
      simp only [update_apply, clearRows]
      grind
    refine Eq.trans ?_ (ih fun y later => apart y (.tail _ later))
    rw [← step]
    rfl

theorem moves_default (moves : List RowMove) : moves.foldl (moveRow d) (fun _ => d) = fun _ => d := by
  induction moves with
  | nil => rfl
  | cons m moves ih =>
    have same : moveRow d (fun _ => d) m = fun _ => d := by
      obtain ⟨a, b, _ | _⟩ := m <;> simp [moveRow]
    rw [List.foldl_cons, same, ih]

variable (d t n) in
/-- `n` rows have an entry that is not the default. -/
def Counts : Prop := ∃ rows : Finset Nat, (∀ i, i ∈ rows ↔ t i ≠ d) ∧ rows.card = n

theorem Counts.update (counts : Counts d t n) (i : Nat) (x : β) [Decidable (x = d)] [Decidable (t i = d)] :
    Counts d (update t i x) (n + (if x = d then 0 else 1) - if t i = d then 0 else 1) := by
  obtain ⟨rows, mem, rfl⟩ := counts
  by_cases gone : x = d
  · refine ⟨rows.erase i, fun j => ?_, ?_⟩
    · grind
    · by_cases free : t i = d
      · simp [gone, free, Finset.erase_eq_of_notMem ((mem i).not.mpr (not_not.mpr free))]
      · have := Finset.card_erase_add_one ((mem i).mpr free)
        simp only [gone, free, if_true, if_false]
        omega
  · refine ⟨insert i rows, fun j => ?_, ?_⟩
    · grind
    · by_cases free : t i = d
      · simp [gone, free, Finset.card_insert_of_notMem ((mem i).not.mpr (not_not.mpr free))]
      · simp [gone, free, Finset.insert_eq_of_mem ((mem i).mpr free)]

theorem Counts.cast {k : Int} (counts : Counts d t n) (hs : k = n) : Counts d t k := hs ▸ counts

theorem Counts.default (counts : Counts d t 0) : t = fun _ => d := by
  obtain ⟨rows, mem, card⟩ := counts
  have empty : rows = ∅ := by simpa using card
  funext i
  by_contra used
  simpa [empty] using (mem i).mpr used

end KVOffload
