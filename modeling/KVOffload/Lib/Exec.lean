import Mathlib

/-!
# Computations that fail and keep their state

`wp x Q E s` says that `x`, started in `s`, either returns and meets `Q` or raises and meets `E`.
-/

namespace KVOffload

open List

variable {ε σ α β ι : Type}

/-- Started in `s`, `x` returns with `Q` or raises with `E`. -/
def wp (x : EStateM ε σ α) (Q : α → σ → Prop) (E : ε → σ → Prop) (s : σ) : Prop :=
  match x s with
  | .ok a s' => Q a s'
  | .error e s' => E e s'

variable {x : EStateM ε σ α} {Q Q' : α → σ → Prop} {E E' : ε → σ → Prop} {s s' : σ} {e : ε} {c : Prop} {a : α} {b : β}

theorem wp_of_ok (run : x s = .ok a s') : wp x Q E s ↔ Q a s' := by
  simp [wp, run]

theorem wp_of_error (run : x s = .error e s') : wp x Q E s ↔ E e s' := by
  simp [wp, run]

theorem wp_ok (h : wp x Q E s) (run : x s = .ok a s') : Q a s' := (wp_of_ok run).mp h

theorem wp_error (h : wp x Q E s) (run : x s = .error e s') : E e s' := (wp_of_error run).mp h

theorem wp_of_outcomes (ok : ∀ a s', x s = .ok a s' → Q a s') (error : ∀ e s', x s = .error e s' → E e s') : wp x Q E s := by
  unfold wp
  split
  · exact ok _ _ ‹_›
  · exact error _ _ ‹_›

theorem wp_mono (h : wp x Q E s) (ok : ∀ a s', Q a s' → Q' a s') (error : ∀ e s', E e s' → E' e s') : wp x Q' E' s :=
  wp_of_outcomes (fun a s' run => ok a s' (wp_ok h run)) (fun e s' run => error e s' (wp_error h run))

theorem wp_imp (h : wp x Q E s) (ok : ∀ a s', Q a s' → Q' a s') : wp x Q' E s := wp_mono h ok fun _ _ error => error

theorem wp_and (h : wp x Q E s) (h' : wp x Q' E' s) :
    wp x (fun a t => Q a t ∧ Q' a t) (fun e t => E e t ∧ E' e t) s :=
  wp_of_outcomes (fun _ _ run => ⟨wp_ok h run, wp_ok h' run⟩) (fun _ _ run => ⟨wp_error h run, wp_error h' run⟩)

theorem wp_with (h : wp x Q E' s) (h' : wp x Q' E s) :
    wp x (fun a t => Q a t ∧ Q' a t) E s := wp_mono (wp_and h h') (fun _ _ both => both) (fun _ _ both => both.2)

theorem wp_any (ok : ∀ a t, Q a t)
    (error : ∀ e t, E e t) : wp x Q E s := wp_of_outcomes (fun a t _ => ok a t) (fun e t _ => error e t)

theorem wp_total (h : wp x Q E s) (never : ∀ e t, ¬ E e t) : ∃ a t, x s = .ok a t ∧ Q a t := by
  cases run : x s with
  | ok a t => exact ⟨a, t, rfl, wp_ok h run⟩
  | error e t => exact absurd (wp_error h run) (never e t)

variable (x s) in
def returns : Bool :=
  match x s with
  | .ok _ _ => true
  | .error _ _ => false

theorem returns_iff : returns x s = true ↔ ∃ a t, x s = .ok a t := by
  unfold returns
  cases x s <;> simp

variable (x s) in
def raised : Option ε :=
  match x s with
  | .ok _ _ => none
  | .error e _ => some e

theorem raised_iff : raised x s = some e ↔ ∃ t, x s = .error e t := by
  unfold raised
  split <;> rename_i run <;> simp [run]

def reads (f : α → β) (x : EStateM ε σ α) (s : σ) : Option β :=
  match x s with
  | .ok a _ => some (f a)
  | .error _ _ => none

theorem reads_iff {f : α → β} : reads f x s = some b ↔ ∃ a t, x s = .ok a t ∧ f a = b := by
  unfold reads
  split <;> rename_i run <;> simp [run]

theorem bind_ok_iff {f : α → EStateM ε σ β} {t : σ} :
    (x >>= f) s = .ok b t ↔ ∃ a u, x s = .ok a u ∧ f a u = .ok b t := by
  simp only [bind, EStateM.bind]
  cases run : x s <;> simp

section

variable {t : σ} {a b : α}

@[simp] theorem pure_ok_iff : (pure a : EStateM ε σ α) s = .ok b t ↔ a = b ∧ s = t := by
  constructor
  · rintro ⟨⟩
    exact ⟨rfl, rfl⟩
  · rintro ⟨rfl, rfl⟩
    rfl

@[simp] theorem get_ok_iff {r : σ} : (get : EStateM ε σ σ) s = .ok r t ↔ s = r ∧ s = t := by
  constructor
  · rintro ⟨⟩
    exact ⟨rfl, rfl⟩
  · rintro ⟨rfl, rfl⟩
    rfl

end

@[simp] theorem wp_pure (a : α) (Q : α → σ → Prop) (E : ε → σ → Prop) (s : σ) :
    wp (pure a) Q E s ↔ Q a s := Iff.rfl

@[simp] theorem wp_bind (x : EStateM ε σ α) (f : α → EStateM ε σ β) (Q : β → σ → Prop) (E : ε → σ → Prop) (s : σ) :
    wp (x >>= f) Q E s ↔ wp x (fun a s' => wp (f a) Q E s') E s := by
  unfold wp
  simp only [bind, EStateM.bind]
  cases x s <;> rfl

@[simp] theorem wp_map (x : EStateM ε σ α) (f : α → β) (Q : β → σ → Prop) (E : ε → σ → Prop) (s : σ) :
    wp (f <$> x) Q E s ↔ wp x (fun a s' => Q (f a) s') E s := by
  unfold wp
  simp only [Functor.map, EStateM.map]
  cases x s <;> rfl

@[simp] theorem wp_discard (x : EStateM ε σ α) (Q : PUnit → σ → Prop) (E : ε → σ → Prop) (s : σ) :
    wp (discard x) Q E s ↔ wp x (fun _ t => Q ⟨⟩ t) E s := by
  change wp (Function.const α PUnit.unit <$> x) Q E s ↔ _
  rw [wp_map]

@[simp] theorem wp_throw (e : ε) (Q : α → σ → Prop) (E : ε → σ → Prop) (s : σ) :
    wp (throw e) Q E s ↔ E e s := Iff.rfl

@[simp] theorem wp_get (Q : σ → σ → Prop) (E : ε → σ → Prop) (s : σ) : wp get Q E s ↔ Q s s := Iff.rfl

@[simp] theorem wp_set (t : σ) (Q : PUnit → σ → Prop) (E : ε → σ → Prop) (s : σ) :
    wp (set t) Q E s ↔ Q () t := Iff.rfl

@[simp] theorem wp_modify (f : σ → σ) (Q : PUnit → σ → Prop) (E : ε → σ → Prop) (s : σ) :
    wp (modify f) Q E s ↔ Q () (f s) := Iff.rfl

def ensure (c : Prop) [Decidable c] (e : ε) : EStateM ε σ Unit := if c then pure () else throw e

@[simp] theorem wp_ensure [Decidable c] {Q : Unit → σ → Prop} :
    wp (ensure c e) Q E s ↔ (c → Q () s) ∧ (¬ c → E e s) := by
  unfold ensure
  by_cases holds : c <;> simp [holds]

theorem ensure_ok [Decidable c] (holds : c) : (ensure c e) s = .ok () s := by
  simp only [holds]
  rfl

def onlyIf (c : Prop) [Decidable c] (x : EStateM ε σ Unit) : EStateM ε σ Unit := if c then x else pure ()

@[simp] theorem wp_onlyIf [Decidable c] {x : EStateM ε σ Unit} {Q : Unit → σ → Prop} :
    wp (onlyIf c x) Q E s ↔ (c → wp x Q E s) ∧ (¬ c → Q () s) := by
  unfold onlyIf
  by_cases holds : c <;> simp [holds]

theorem onlyIf_pos [Decidable c] {x : EStateM ε σ Unit} (holds : c) : onlyIf c x = x := if_pos holds

theorem onlyIf_neg [Decidable c] {x : EStateM ε σ Unit} (fails : ¬ c) : onlyIf c x = pure () := if_neg fails

theorem wp_when [Decidable c] {x : EStateM ε σ PUnit} {y : EStateM ε σ α} : wp (if c then x >>= fun _ => y else y) Q E s ↔
      wp (if c then x else pure ()) (fun _ t => wp y Q E t) E s := by
  split <;> simp

section

variable {ε' : Type} [DecidableEq ι]

/-- A computation on one component of an indexed state, with its exceptions named after the component. -/
def onComponent (i : ι) (rename : ε → ε') (x : EStateM ε σ α) : EStateM ε' (ι → σ) α := fun state =>
  match x (state i) with
  | .ok a s => .ok a (Function.update state i s)
  | .error e s => .error (rename e) (Function.update state i s)

@[simp] theorem wp_onComponent (i : ι) (rename : ε → ε') (x : EStateM ε σ α) (Q : α → (ι → σ) → Prop)
    (E : ε' → (ι → σ) → Prop) (state : ι → σ) : wp (onComponent i rename x) Q E state ↔
      wp x (fun a s => Q a (Function.update state i s)) (fun e s => E (rename e) (Function.update state i s)) (state i) := by
  unfold wp onComponent
  cases x (state i) <;> rfl

end

section

variable {ε' τ : Type} (get' : τ → σ) (put : σ → τ → τ) (rename : ε → ε')

def onPart (x : EStateM ε σ α) : EStateM ε' τ α := fun t =>
  match x (get' t) with
  | .ok a s => .ok a (put s t)
  | .error e s => .error (rename e) (put s t)

variable {get' put rename}

@[simp] theorem wp_onPart {Q : α → τ → Prop} {E : ε' → τ → Prop} {t : τ} :
    wp (onPart get' put rename x) Q E t ↔ wp x (fun a s => Q a (put s t)) (fun e s => E (rename e) (put s t)) (get' t) := by
  unfold wp onPart
  cases x (get' t) <;> rfl

end

variable {f : ι → EStateM ε σ PUnit} {items : List ι} {I : Nat → σ → Prop} {n : Nat}

section

variable {τ : Type} {h : σ → τ} {y : EStateM ε τ α}

/-- `y` does on the image of a state what `x` does on the state. -/
def Commutes (h : σ → τ) (x : EStateM ε σ α) (y : EStateM ε τ α) : Prop :=
  ∀ s, y (h s) = match x s with
    | .ok a t => .ok a (h t)
    | .error e t => .error e (h t)

theorem Commutes.pure (a : α) : Commutes h (pure a : EStateM ε σ α) (pure a) := fun _ => rfl

theorem Commutes.throw (e : ε) : Commutes h (throw e : EStateM ε σ α) (throw e) := fun _ => rfl

theorem Commutes.modify {f : σ → σ} {g : τ → τ} (hs : ∀ s, g (h s) = h (f s)) :
    Commutes h (modify f : EStateM ε σ PUnit) (modify g) := fun s => by
  change EStateM.Result.ok () (g (h s)) = EStateM.Result.ok () (h (f s))
  rw [hs]

theorem Commutes.bind {f : α → EStateM ε σ β} {g : α → EStateM ε τ β}
    (first : Commutes h x y) (second : ∀ a, Commutes h (f a) (g a)) : Commutes h (x >>= f) (y >>= g) := by
  intro s
  have run := first s
  simp only [Bind.bind, EStateM.bind]
  cases result : x s with
  | ok a t =>
    simp only [result] at run ⊢
    rw [run]
    exact second a t
  | error e t =>
    simp only [result] at run ⊢
    rw [run]

theorem Commutes.get {f : σ → EStateM ε σ α} {g : τ → EStateM ε τ α} (second : ∀ s, Commutes h (f s) (g (h s))) :
    Commutes h (get >>= f) (get >>= g) := fun s => second s s

theorem Commutes.ite [Decidable c] {x' : EStateM ε σ α} {y' : EStateM ε τ α} (yes : Commutes h x y)
    (no : Commutes h x' y') : Commutes h (if c then x else x') (if c then y else y') := by
  split
  · exact yes
  · exact no

theorem Commutes.raised (hs : Commutes h x y) (s : σ) : raised y (h s) = raised x s := by
  have run := hs s
  unfold KVOffload.raised
  cases result : x s <;> simp only [result] at run <;> rw [run]

theorem Commutes.forM {g : ι → EStateM ε τ PUnit}
    (pass : ∀ i, Commutes h (f i) (g i)) : Commutes h (forM items f) (forM items g) := by
  induction items with
  | nil => exact Commutes.pure _
  | cons i rest ih =>
    exact (pass i).bind fun _ => ih

end

theorem wp_forM_modify (f : ι → σ → σ) (items : List ι) (Q : PUnit → σ → Prop) (E : ε → σ → Prop) (s : σ) :
    wp (forM items fun i => (modify (f i))) Q E s ↔ Q () (items.foldl (fun t i => f i t) s) := by
  induction items generalizing s with
  | nil => simp
  | cons i rest ih => simp [ih]

theorem forM_congr {g : ι → EStateM ε σ PUnit} (hs : ∀ i ∈ items, f i = g i) : forM items f = forM items g := by
  induction items with
  | nil => rfl
  | cons i rest ih =>
    rw [forM_cons, forM_cons, hs i (.head _), ih fun j hm => hs j (.tail _ hm)]

theorem mapM_congr {f g : ι → EStateM ε σ β} (hs : ∀ i ∈ items, f i = g i) : items.mapM f = items.mapM g := by
  induction items with
  | nil => rfl
  | cons i rest ih =>
    rw [mapM_cons, mapM_cons, hs i (.head _), ih fun j hm => hs j (.tail _ hm)]

theorem wp_forM {I : σ → Prop} (pass : ∀ i ∈ items, ∀ t, I t → wp (f i) (fun _ t' => I t') E t) (start : I s) :
    wp (forM items f) (fun _ t => I t) E s := by
  induction items generalizing s with
  | nil => simpa using start
  | cons i rest ih =>
    rw [forM_cons, wp_bind]
    refine wp_imp (pass i (.head _) s start) ?_
    intro _ t kept
    exact ih (fun j hm => pass j (.tail _ hm)) kept

theorem wp_forM_range {f : Nat → EStateM ε σ PUnit}
    (pass : ∀ i < n, ∀ t, I i t → wp (f i) (fun _ t' => I (i + 1) t') E t) (start : I 0 s) :
    wp (forM (range n) f) (fun _ t => I n t) E s := by
  induction n generalizing s with
  | zero => simpa using start
  | succ n ih =>
    rw [range_succ, forM_append, wp_bind]
    refine wp_imp (ih (fun i hb => pass i (by omega)) start) ?_
    intro _ t kept
    rw [forM_cons, wp_bind]
    refine wp_imp (pass n (by omega) t kept) ?_
    simp

theorem wp_forM_handled {I : List ι → σ → Prop}
    (pass : ∀ done i rest, items = done ++ i :: rest → ∀ t, I done t → wp (f i) (fun _ t' => I (done ++ [i]) t') E t)
    (start : I [] s) : wp (forM items f) (fun _ t => I items t) E s := by
  suffices general : ∀ rest done t, items = done ++ rest → I done t →
      wp (forM rest f) (fun _ t' => I items t') E t from general items [] s rfl start
  intro rest
  induction rest with
  | nil =>
    intro done t split kept
    simpa [split] using kept
  | cons i rest ih =>
    intro done t split kept
    rw [forM_cons, wp_bind]
    refine wp_imp (pass done i rest split t kept) ?_
    intro _ t' next
    exact ih (done ++ [i]) t' (by simp [split]) next

variable {f : ι → EStateM ε σ β}

theorem wp_mapM {I : σ → Prop} {P : ι → β → Prop}
    (pass : ∀ i ∈ items, ∀ t, I t → wp (f i) (fun b t' => I t' ∧ P i b) E t) (start : I s) :
    wp (items.mapM f) (fun out t => I t ∧ List.Forall₂ P items out) E s := by
  induction items generalizing s with
  | nil =>
    exact ⟨start, .nil⟩
  | cons i rest ih =>
    rw [mapM_cons, wp_bind]
    refine wp_imp (pass i (.head _) s start) ?_
    rintro b t ⟨kept, related⟩
    rw [wp_bind]
    refine wp_imp (ih (fun j hm => pass j (.tail _ hm)) kept) ?_
    rintro out u ⟨done, all⟩
    exact ⟨done, .cons related all⟩

theorem mapM_eq_map {v : ι → β} (pass : ∀ i ∈ items, f i s = .ok (v i) s) :
    items.mapM f s = .ok (items.map v) s := by
  induction items with
  | nil => rfl
  | cons i rest ih =>
    rw [mapM_cons]
    refine bind_ok_iff.mpr ⟨v i, s, pass i (.head _), bind_ok_iff.mpr ⟨rest.map v, s, ?_, rfl⟩⟩
    exact ih fun j hm => pass j (mem_cons_of_mem i hm)

theorem wp_mapM_range {f : Nat → EStateM ε σ β} {P : β → Prop}
    (pass : ∀ i < n, ∀ t, I i t → wp (f i) (fun b t' => I (i + 1) t' ∧ P b) E t) (start : I 0 s) :
    wp ((range n).mapM f) (fun out t => I n t ∧ ∀ b ∈ out, P b) E s := by
  induction n generalizing s with
  | zero => simpa using start
  | succ n ih =>
    rw [range_succ, mapM_append, wp_bind]
    refine wp_imp (ih (fun i hb => pass i (by omega)) start) ?_
    rintro out t ⟨kept, all⟩
    simp only [mapM_cons, wp_bind]
    refine wp_imp (pass n (by omega) t kept) ?_
    rintro b u ⟨done, last⟩
    refine ⟨done, fun b' hm => ?_⟩
    rcases mem_append.mp hm with earlier | new
    · exact all b' earlier
    · exact mem_singleton.mp new ▸ last

end KVOffload
