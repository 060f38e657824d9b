import Mathlib

/-!
# Chains of hashes

A hash also takes in the hash of the item before it. `LevelBinding` says that it determines what went into it among the hashes
of one position, `Binding` that it also tells the positions apart.
-/

namespace KVOffload

open List

variable {β ξ : Type}

def chain (step : Option β → ξ → β) : Option β → List ξ → List β
  | _, [] => []
  | prev, x :: rest => step prev x :: chain step (some (step prev x)) rest

section

variable {step : Option β → ξ → β} {p q : Option β}

@[simp] theorem chain_nil (prev : Option β) : chain step prev [] = [] := rfl

@[simp] theorem length_chain (prev : Option β) (xs : List ξ) : (chain step prev xs).length = xs.length := by
  induction xs generalizing prev with
  | nil => rfl
  | cons x rest ih => simp [chain, ih]

theorem chain_append (prev : Option β) (xs ys : List ξ) :
    chain step prev (xs ++ ys) = chain step prev xs ++ chain step ((chain step prev xs).getLast?.or prev) ys := by
  induction xs generalizing prev with
  | nil => simp
  | cons x rest ih =>
    have last : (step prev x :: chain step (some (step prev x)) rest).getLast?.or prev =
        (chain step (some (step prev x)) rest).getLast?.or (some (step prev x)) := by
      cases hf : (chain step (some (step prev x)) rest).getLast? <;> simp [getLast?_cons, hf]
    simp [chain, ih, last]

theorem take_chain (prev : Option β) (xs : List ξ) (n : Nat) : (chain step prev xs).take n = chain step prev (xs.take n) := by
  induction xs generalizing prev n with
  | nil => simp
  | cons x rest ih =>
    cases n with
    | zero => simp
    | succ n => simp [chain, ih]

variable (step) in
def Rooted (prev : Option β) : Prop :=
  ∀ b, prev = some b → ∃ q x, b = step q x

theorem rooted_none : Rooted step none := by
  intro b hf
  cases hf

theorem rooted_step (prev : Option β) (x : ξ) : Rooted step (some (step prev x)) := by
  intro b hf
  exact ⟨prev, x, (Option.some.inj hf).symm⟩

variable (step) in
/-- Among the hashes of one position, a hash determines its parent and its item. -/
structure LevelBinding : Prop where
  first : ∀ x y, step none x = step none y → x = y
  later : ∀ b c x y, Rooted step (some b) → Rooted step (some c) → step (some b) x = step (some c) y → b = c ∧ x = y

variable (step) in
/-- A hash determines its parent, or that it has none, and its item. -/
def Binding : Prop :=
  ∀ p q x y, Rooted step p → Rooted step q → step p x = step q y → p = q ∧ x = y

variable (level : LevelBinding step) (even : p.isSome = q.isSome) (hp : Rooted step p) (hq : Rooted step q)

include level even hp hq in
theorem LevelBinding.inj {x y : ξ} (hs : step p x = step q y) : p = q ∧ x = y := by
  cases p with
  | none =>
    cases q with
    | none => exact ⟨rfl, level.first x y hs⟩
    | some c => cases even
  | some b =>
    cases q with
    | none => cases even
    | some c =>
      obtain ⟨rfl, items⟩ := level.later b c x y hp hq hs
      exact ⟨rfl, items⟩

variable {xs ys : List ξ} {i : Nat} {b : β}

include level even hp hq in
theorem items_eq_of_get?
    (left : (chain step p xs)[i]? = some b) (right : (chain step q ys)[i]? = some b) :
    p = q ∧ xs.take (i + 1) = ys.take (i + 1) := by
  induction i generalizing p q xs ys with
  | zero =>
    cases xs with
    | nil => simp at left
    | cons x xs =>
      cases ys with
      | nil => simp at right
      | cons y ys =>
        simp only [chain, getElem?_cons_zero, Option.some.injEq] at left right
        obtain ⟨parents, items⟩ := level.inj even hp hq (left.trans right.symm)
        exact ⟨parents, by simp [items]⟩
  | succ i ih =>
    cases xs with
    | nil => simp at left
    | cons x xs =>
      cases ys with
      | nil => simp at right
      | cons y ys =>
        have both : (some (step p x)).isSome = (some (step q y)).isSome := rfl
        obtain ⟨hashes, items⟩ := ih both (rooted_step p x) (rooted_step q y) left right
        obtain ⟨parents, heads⟩ := level.inj even hp hq (Option.some.inj hashes)
        exact ⟨parents, by simp [heads, items]⟩

theorem take_eq_of_chain_get? (level : LevelBinding step)
    (left : (chain step none xs)[i]? = some b) (right : (chain step none ys)[i]? = some b) :
    xs.take (i + 1) = ys.take (i + 1) :=
  (items_eq_of_get? level rfl rooted_none rooted_none left right).2

theorem chain_inj (level : LevelBinding step) (hs : chain step none xs = chain step none ys) : xs = ys := by
  have lengths : xs.length = ys.length := by
    have := congrArg length hs
    simpa using this
  cases n : xs.length with
  | zero =>
    rw [n] at lengths
    rw [length_eq_zero_iff.mp n, length_eq_zero_iff.mp lengths.symm]
  | succ k =>
    obtain ⟨b, hf⟩ : ∃ b, (chain step none xs)[k]? = some b := by
      have hi : k < (chain step none xs).length := by simp [n]
      exact ⟨_, getElem?_eq_getElem hi⟩
    have prefixes := take_eq_of_chain_get? level hf (hs ▸ hf)
    rwa [← n, take_length, lengths, take_length] at prefixes

theorem chain_get?_eq_step {prev : Option β} (hf : (chain step prev xs)[i]? = some b) :
    ∃ x, b = step (match i with | 0 => prev | k + 1 => (chain step prev xs)[k]?) x := by
  induction xs generalizing prev i with
  | nil => simp at hf
  | cons x rest ih =>
    cases i with
    | zero =>
      simp only [chain, getElem?_cons_zero, Option.some.injEq] at hf
      exact ⟨x, hf.symm⟩
    | succ k =>
      obtain ⟨y, rfl⟩ := ih hf
      cases k with
      | zero => exact ⟨y, by simp [chain]⟩
      | succ m => exact ⟨y, by simp [chain]⟩

theorem rooted_chain_get? : Rooted step (chain step none xs)[i]? := by
  intro b hf
  obtain ⟨x, rfl⟩ := chain_get?_eq_step hf
  exact ⟨_, x, rfl⟩

theorem chain_get?_inj (binding : Binding step) {j : Nat}
    (left : (chain step none xs)[i]? = some b) (right : (chain step none xs)[j]? = some b) : i = j := by
  induction i generalizing j b with
  | zero =>
    cases j with
    | zero => rfl
    | succ k =>
      obtain ⟨x, hx⟩ := chain_get?_eq_step left
      obtain ⟨y, hy⟩ := chain_get?_eq_step right
      obtain ⟨parents, -⟩ := binding _ _ x y rooted_none rooted_chain_get? (hx.symm.trans hy)
      have hi : k < (chain step none xs).length := by
        have := (List.getElem?_eq_some_iff.mp right).1
        omega
      rw [getElem?_eq_getElem hi] at parents
      cases parents
  | succ m ih =>
    cases j with
    | zero =>
      obtain ⟨x, hx⟩ := chain_get?_eq_step left
      obtain ⟨y, hy⟩ := chain_get?_eq_step right
      obtain ⟨parents, -⟩ := binding _ _ x y rooted_chain_get? rooted_none (hx.symm.trans hy)
      have hi : m < (chain step none xs).length := by
        have := (List.getElem?_eq_some_iff.mp left).1
        omega
      rw [getElem?_eq_getElem hi] at parents
      cases parents
    | succ k =>
      obtain ⟨x, hx⟩ := chain_get?_eq_step left
      obtain ⟨y, hy⟩ := chain_get?_eq_step right
      obtain ⟨parents, -⟩ := binding _ _ x y rooted_chain_get? rooted_chain_get? (hx.symm.trans hy)
      have hi : m < (chain step none xs).length := by
        have := (List.getElem?_eq_some_iff.mp left).1
        omega
      have earlier := getElem?_eq_getElem hi
      rw [ih earlier (parents ▸ earlier)]

theorem nodup_chain (binding : Binding step) (xs : List ξ) : (chain step none xs).Nodup := by
  rw [nodup_iff_getElem?_ne_getElem?]
  intro i j before hi hs
  have hf := getElem?_eq_getElem hi
  have := chain_get?_inj binding (hs.trans hf) hf
  omega

end

section

variable {α : Type}

def SelfDelimiting (S : List α → Prop) : Prop := ∀ x y s t, S x → S y → x ++ s = y ++ t → x = y

theorem flatten_inj {S : List α → Prop} (delimited : SelfDelimiting S) {xs ys : List (List α)} (left : ∀ x ∈ xs, S x)
    (right : ∀ y ∈ ys, S y) (lengths : xs.length = ys.length) (hs : xs.flatten = ys.flatten) : xs = ys := by
  induction xs generalizing ys with
  | nil => exact (length_eq_zero_iff.mp lengths.symm).symm
  | cons x xs ih =>
    cases ys with
    | nil => simp at lengths
    | cons y ys =>
      have heads := delimited x y _ _ (left x (.head _)) (right y (.head _)) hs
      subst heads
      have tails := ih (fun z hm => left z (.tail _ hm))
        (fun z hm => right z (.tail _ hm)) (by simpa using lengths) (append_cancel_left hs)
      rw [tails]

end

end KVOffload
