import Mathlib

/-!
# Computations that may fail

Inversion of computations in `Except`: what is known when a sequence of checks, maps and folds returned.
-/

namespace KVOffload

variable {ε α β σ : Type} {f : α → Except ε β} {items as : List α} {bs results : List β} {r : α → β → Prop} {x : Except ε α} {p : α → Prop}
  {γ : Type} {e : ε}

@[simp] theorem except_bind_ok {b : β} :
    (x >>= f) = .ok b ↔ ∃ a, x = .ok a ∧ f a = .ok b := by
  cases x with
  | error e => simp [Bind.bind, Except.bind]
  | ok a => simp [Bind.bind, Except.bind]

@[simp] theorem except_pure_ok {a b : α} : (pure a : Except ε α) = .ok b ↔ a = b := by simp [pure, Except.pure]

@[simp] theorem except_throw_ok {b : α} : (throw e : Except ε α) = .ok b ↔ False := by
  simp [throw, throwThe]

variable (x p) in
def okWith [DecidablePred p] : Bool :=
  match x with
  | .ok a => p a
  | .error _ => false

theorem okWith_iff [DecidablePred p] : okWith x p = true ↔ ∃ a, x = .ok a ∧ p a := by
  cases x with
  | error e => simp [okWith]
  | ok a => simp [okWith]

def require (c : Prop) [Decidable c] (e : ε) : Except ε Unit := if c then pure () else throw e

@[simp] theorem require_ok {c : Prop} [Decidable c] {u : Unit} : require c e = .ok u ↔ c := by
  unfold require
  split <;> simp_all

theorem except_mapM_ok :
    items.mapM f = .ok results ↔ List.Forall₂ (fun a b => f a = .ok b) items results := by
  induction items generalizing results with
  | nil =>
    rw [List.mapM_nil, except_pure_ok, List.forall₂_nil_left_iff]
    exact eq_comm
  | cons a items ih =>
    rw [List.mapM_cons, except_bind_ok]
    constructor
    · rintro ⟨b, first, rest⟩
      obtain ⟨bs, later, hs⟩ := except_bind_ok.mp rest
      rw [except_pure_ok] at hs
      exact hs ▸ List.Forall₂.cons first (ih.mp later)
    · intro all
      cases all with
      | cons first later => exact ⟨_, first, except_bind_ok.mpr ⟨_, ih.mpr later, rfl⟩⟩

theorem forall₂_comp {q : β → γ → Prop} {cs : List γ}
    (first : List.Forall₂ r as bs) (second : List.Forall₂ q bs cs) : List.Forall₂ (fun a c => ∃ b, r a b ∧ q b c) as cs := by
  induction first generalizing cs with
  | nil =>
    cases second
    exact .nil
  | cons one later ih =>
    cases second with
    | cons two rest => exact .cons ⟨_, one, two⟩ (ih rest)

theorem forall₂_iff_left
    (each : List.Forall₂ (fun a b => r a b ↔ p a) as bs) : List.Forall₂ r as bs ↔ ∀ a ∈ as, p a := by
  induction each with
  | nil => simp
  | cons one later ih => rw [List.forall₂_cons, List.forall_mem_cons, ih, one]

theorem forall_mem_right {p : β → Prop} (each : List.Forall₂ (fun _ b => p b) as bs) :
    ∀ b ∈ bs, p b := by
  induction each with
  | nil => simp
  | cons one later ih => exact List.forall_mem_cons.mpr ⟨one, ih⟩

theorem map_eq_of_mapM {seen : β → γ} {shown : α → γ}
    (each : ∀ a b, f a = .ok b → seen b = shown a) (run : items.mapM f = .ok results) :
    results.map seen = items.map shown := by
  have all := except_mapM_ok.mp run
  clear run
  induction all with
  | nil => rfl
  | cons one later ih => rw [List.map_cons, List.map_cons, ih, each _ _ one]

theorem foldlM_ok {f : σ → α → Except ε σ} {I : List α → σ → Prop} {s t : σ}
    (step : ∀ done a s t, I done s → f s a = .ok t → I (done ++ [a]) t) (start : I [] s)
    (run : items.foldlM f s = .ok t) : I items t := by
  suffices general : ∀ done s, I done s → items.foldlM f s = .ok t → I (done ++ items) t by
    simpa using general [] s start run
  clear start run
  induction items with
  | nil =>
    intro done s now hs
    rw [List.foldlM_nil, except_pure_ok] at hs
    simpa [← hs] using now
  | cons a items ih =>
    intro done s now run
    rw [List.foldlM_cons, except_bind_ok] at run
    obtain ⟨mid, first, later⟩ := run
    simpa using ih (done ++ [a]) mid (step done a s mid now first) later

end KVOffload
