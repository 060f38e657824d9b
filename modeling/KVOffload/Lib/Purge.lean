import KVOffload.Lib.Exec

/-!
# Runs that go on after an exception

A caller that catches exceptions makes its next call in the state the failed call left. The rule at the end compares a run with
the run of its observed actions alone.
-/

namespace KVOffload

variable {ε σ α ι : Type}

/-- The state the computation leaves, whether it returns or raises. -/
def finalState (x : EStateM ε σ α) (s : σ) : σ :=
  match x s with
  | .ok _ t => t
  | .error _ t => t

variable {s : σ} {x : EStateM ε σ α}

theorem wp_outcome {P : Option ε → σ → Prop} :
    wp x (fun _ t => P none t) (fun e t => P (some e) t) s ↔ P (raised x s) (finalState x s) := by
  unfold wp raised finalState
  cases x s <;> rfl

theorem finalState_of_wp {P : σ → Prop} (h : wp x (fun _ t => P t) (fun _ t => P t) s) :
    P (finalState x s) := (wp_outcome (P := fun _ t => P t)).mp h

theorem Commutes.finalState {τ : Type} {h : σ → τ} {y : EStateM ε τ α} (hs : Commutes h x y) (s : σ) :
    finalState y (h s) = h (finalState x s) := by
  have run := hs s
  unfold KVOffload.finalState
  cases result : x s <;> simp only [result] at run <;> rw [run]

variable (exec : ι → EStateM ε σ α)

def runPast : List ι → σ → σ
  | [], s => s
  | i :: rest, s => runPast rest (finalState (exec i) s)

def outcomes (observed : ι → Bool) : List ι → σ → List (Option ε)
  | [], _ => []
  | i :: rest, s =>
    let later := outcomes observed rest (finalState (exec i) s)
    if observed i then raised (exec i) s :: later else later

/-- Every action of the run meets `P` in the state it is made in. -/
def EveryStep (P : σ → ι → Prop) : List ι → σ → Prop
  | [], _ => True
  | i :: rest, s => P s i ∧ EveryStep P rest (finalState (exec i) s)

instance EveryStep.decidable (P : σ → ι → Prop) [∀ s i, Decidable (P s i)] :
    ∀ actions s, Decidable (EveryStep exec P actions s)
  | [], _ => isTrue trivial
  | i :: rest, s =>
    let _ := EveryStep.decidable P rest (finalState (exec i) s)
    inferInstanceAs (Decidable (P s i ∧ EveryStep exec P rest (finalState (exec i) s)))

variable {exec}

variable {P : σ → ι → Prop} {first second : List ι}

theorem EveryStep.before (every : EveryStep exec P (first ++ second) s) : EveryStep exec P first s := by
  induction first generalizing s with
  | nil => trivial
  | cons i rest ih => exact ⟨every.1, ih every.2⟩

theorem runPast_append (first second : List ι) (s : σ) :
    runPast exec (first ++ second) s = runPast exec second (runPast exec first s) := by
  induction first generalizing s with
  | nil => rfl
  | cons i rest ih => exact ih _

theorem EveryStep.after (every : EveryStep exec P (first ++ second) s) :
    EveryStep exec P second (KVOffload.runPast exec first s) := by
  induction first generalizing s with
  | nil => exact every
  | cons i rest ih => exact ih every.2

variable {actions : List ι}

theorem EveryStep.and {Q : σ → ι → Prop} (left : EveryStep exec P actions s)
    (right : EveryStep exec Q actions s) : EveryStep exec (fun s i => P s i ∧ Q s i) actions s := by
  induction actions generalizing s with
  | nil => trivial
  | cons i rest ih => exact ⟨⟨left.1, right.1⟩, ih left.2 right.2⟩

theorem EveryStep.of_forall {P : ι → Prop} (all : ∀ i ∈ actions, P i) : EveryStep exec (fun _ i => P i) actions s := by
  induction actions generalizing s with
  | nil => trivial
  | cons i rest ih => exact ⟨all i (.head _), ih fun j hm => all j (.tail _ hm)⟩

section

variable {τ : Type} {h : σ → τ} {exec' : ι → EStateM ε τ α}

variable (hs : ∀ i, Commutes h (exec i) (exec' i))

include hs

theorem runPast_image (actions : List ι) (s : σ) : runPast exec' actions (h s) = h (runPast exec actions s) := by
  induction actions generalizing s with
  | nil => rfl
  | cons i rest ih => rw [runPast, runPast, (hs i).finalState, ih]

theorem outcomes_image (observed : ι → Bool) (actions : List ι) (s : σ) :
    outcomes exec' observed actions (h s) = outcomes exec observed actions s := by
  induction actions generalizing s with
  | nil => rfl
  | cons i rest ih => simp only [outcomes, (hs i).finalState, (hs i).raised, ih]

theorem EveryStep.of_image {P' : τ → ι → Prop} (meets : ∀ s i, P' (h s) i → P s i) (every : EveryStep exec' P' actions (h s)) :
    EveryStep exec P actions s := by
  induction actions generalizing s with
  | nil => trivial
  | cons i rest ih =>
    obtain ⟨first, later⟩ := every
    rw [(hs i).finalState] at later
    exact ⟨meets s i first, ih later⟩

end

theorem EveryStep.runPast {I : σ → Prop} (step : ∀ i s, P s i → I s → I (finalState (exec i) s))
    (every : EveryStep exec P actions s) (start : I s) : I (runPast exec actions s) := by
  induction actions generalizing s with
  | nil => exact start
  | cons i rest ih => exact ih every.2 (step i s every.1 start)

theorem outcomes_purge {observed : ι → Bool} {Related : σ → σ → Prop}
    (own : ∀ i s t, observed i = true → P s i → Related s t →
      raised (exec i) s = raised (exec i) t ∧ Related (finalState (exec i) s) (finalState (exec i) t))
    (other : ∀ i s t, observed i = false → P s i → Related s t → Related (finalState (exec i) s) t)
    {t : σ} (every : EveryStep exec P actions s) (start : Related s t) :
    outcomes exec observed actions s = outcomes exec observed (actions.filter observed) t ∧
      Related (runPast exec actions s) (runPast exec (actions.filter observed) t) := by
  induction actions generalizing s t with
  | nil => exact ⟨rfl, start⟩
  | cons i rest ih =>
    cases mine : observed i with
    | true =>
      obtain ⟨hs, next⟩ := own i s t mine every.1 start
      obtain ⟨later, final⟩ := ih every.2 next
      rw [List.filter_cons_of_pos mine]
      refine ⟨?_, final⟩
      simp [outcomes, hs, later]
    | false =>
      obtain ⟨later, final⟩ := ih every.2 (other i s t mine every.1 start)
      rw [List.filter_cons_of_neg (by simp [mine])]
      refine ⟨?_, final⟩
      simpa [outcomes, mine] using later

end KVOffload
