import Mathlib

/-!
# Narrowing a bound until every party accepts it

Asking the parties in turn until a round changes nothing finds the greatest number that all of them accept.
-/

namespace KVOffload

open List

def Narrows (accepts : Nat → Prop) (f : Nat → Nat) : Prop := ∀ n, IsGreatest {m | m ≤ n ∧ accepts m} (f n)

section

variable {ι : Type} {accepts : ι → Nat → Prop} {f : ι → Nat → Nat} {parties : List ι} {m n : Nat}

variable (f parties n) in
def narrowAll : Nat := parties.foldl (fun n i => f i n) n

def narrowLoop (f : ι → Nat → Nat) (parties : List ι) : Nat → Nat → Nat
  | 0, n => n
  | fuel + 1, n => if n ≤ narrowAll f parties n then n else narrowLoop f parties fuel (narrowAll f parties n)

@[simp] theorem narrowAll_cons (i : ι) : narrowAll f (i :: parties) n = narrowAll f parties (f i n) := rfl

theorem narrowAll_append (others : List ι) : narrowAll f (parties ++ others) n = narrowAll f others (narrowAll f parties n) :=
  foldl_append

variable (narrows : ∀ i ∈ parties, Narrows (accepts i) (f i))

include narrows

theorem narrowAll_le : narrowAll f parties n ≤ n := by
  induction parties generalizing n with
  | nil => exact le_refl n
  | cons i parties ih =>
    obtain ⟨⟨hb, _⟩, _⟩ := narrows i (.head _) n
    exact (ih fun j hm => narrows j (mem_cons_of_mem i hm)).trans hb

theorem le_narrowAll (hb : m ≤ n) (common : ∀ i ∈ parties, accepts i m) : m ≤ narrowAll f parties n := by
  induction parties generalizing n with
  | nil => exact hb
  | cons i parties ih =>
    have next := (narrows i (.head _) n).2 ⟨hb, common i (.head _)⟩
    exact ih (fun j hm => narrows j (mem_cons_of_mem i hm)) next
      fun j hm => common j (mem_cons_of_mem i hm)

theorem narrowAll_take_eq (steady : n ≤ narrowAll f parties n) (k : Nat) : narrowAll f (parties.take k) n = n := by
  apply le_antisymm (narrowAll_le fun i hm => narrows i (mem_of_mem_take hm))
  have rest : narrowAll f parties n ≤ narrowAll f (parties.take k) n := by
    rw [← take_append_drop k parties, narrowAll_append, take_append_drop]
    exact narrowAll_le fun i hm => narrows i (mem_of_mem_drop hm)
  exact steady.trans rest

theorem accepts_of_narrowAll (steady : n ≤ narrowAll f parties n) {i : ι} (hm : i ∈ parties) : accepts i n := by
  obtain ⟨before, after, split⟩ := append_of_mem hm
  have hs := narrowAll_take_eq narrows steady before.length
  have next := narrowAll_take_eq narrows steady (before.length + 1)
  rw [split, take_left'] at hs
  · rw [split, take_append, take_of_length_le (Nat.le_succ _), Nat.add_sub_cancel_left, narrowAll_append, hs] at next
    obtain ⟨⟨_, ha⟩, _⟩ := narrows i hm n
    exact next ▸ ha
  · rfl

theorem isGreatest_narrowLoop {fuel : Nat} (enough : n < fuel) :
    IsGreatest {m | m ≤ n ∧ ∀ i ∈ parties, accepts i m} (narrowLoop f parties fuel n) := by
  induction fuel generalizing n with
  | zero => exact absurd enough (Nat.not_lt_zero n)
  | succ fuel ih =>
    unfold narrowLoop
    by_cases steady : n ≤ narrowAll f parties n
    · rw [if_pos steady]
      exact ⟨⟨le_refl n, fun i hm => accepts_of_narrowAll narrows steady hm⟩, fun m ha => ha.1⟩
    · rw [if_neg steady]
      obtain ⟨⟨hb, common⟩, greatest⟩ := ih (n := narrowAll f parties n) (by omega)
      refine ⟨⟨by omega, common⟩, fun m ha => greatest ⟨?_, ha.2⟩⟩
      exact le_narrowAll narrows ha.1 ha.2

theorem isGreatest_narrowAll (closed : parties.Pairwise fun i j => ∀ m n, m ≤ n → accepts i n → accepts j m → accepts i m) :
    IsGreatest {m | m ≤ n ∧ ∀ i ∈ parties, accepts i m} (narrowAll f parties n) := by
  refine ⟨⟨narrowAll_le narrows, ?_⟩, fun m ha => le_narrowAll narrows ha.1 ha.2⟩
  induction parties generalizing n with
  | nil => exact fun i hm => absurd hm not_mem_nil
  | cons i parties ih =>
    obtain ⟨first, rest⟩ := pairwise_cons.mp closed
    have later := ih (fun j hm => narrows j (mem_cons_of_mem i hm)) rest (n := f i n)
    intro j hm
    rcases mem_cons.mp hm with rfl | other
    · obtain ⟨⟨_, ha⟩, _⟩ := narrows j (.head _) n
      cases parties with
      | nil => exact ha
      | cons k parties =>
        have hb : narrowAll f (k :: parties) (f j n) ≤ f j n :=
          narrowAll_le fun i hm => narrows i (mem_cons_of_mem j hm)
        exact first k (.head _) _ _ hb ha (later k (.head _))
    · exact later j other

end

end KVOffload
