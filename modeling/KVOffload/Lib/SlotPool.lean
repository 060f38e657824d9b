import Mathlib

/-!
# Slots that are held by keys or free

The slots below `next` were handed out at some time. A slot is held by one key at most and not while it is free (`Apart`); if
none is lost, each is held or free (`Covers`).
-/

namespace KVOffload

open List Function

variable {κ : Type}

structure Apart (held : κ → Option Nat) (free : List Nat) (next : Nat) : Prop where
  nodup : free.Nodup
  holder : ∀ k k' id, held k = some id → held k' = some id → k = k'
  disjoint : ∀ k id, held k = some id → id ∉ free
  free_lt : ∀ id ∈ free, id < next
  held_lt : ∀ k id, held k = some id → id < next

def Covers (held : κ → Option Nat) (free : List Nat) (next : Nat) : Prop :=
  ∀ id < next, id ∈ free ∨ ∃ k, held k = some id

structure Reserved (held : κ → Option Nat) (free : List Nat) (next : Nat) (k : κ) (id : Nat) : Prop where
  not_free : id ∉ free
  holder : ∀ k', held k' = some id → k' = k
  lt : id < next

variable {held : κ → Option Nat} {free free' : List Nat} {next id : Nat} {k : κ}

theorem Apart.empty : Apart (fun _ : κ => none) [] 0 where
  nodup := nodup_nil
  holder _ _ _ h := nomatch h
  disjoint _ _ h := nomatch h
  free_lt := by simp
  held_lt _ _ h := nomatch h

theorem Covers.empty : Covers (fun _ : κ => none) [] 0 := fun _ hb => absurd hb (Nat.not_lt_zero _)

variable (apart : Apart held free next)

include apart in
theorem Apart.reserved (taken : held k = some id) :
    Reserved held free next k id where
  not_free := apart.disjoint k id taken
  holder k' taken' := apart.holder k' k id taken' taken
  lt := apart.held_lt k id taken

include apart in
theorem Apart.length_le {keys : List κ} (hd : keys.Nodup)
    (holds : ∀ k ∈ keys, ∃ id, held k = some id) : keys.length ≤ next := by
  have different : (keys.map fun k => (held k).getD 0).Nodup := by
    refine hd.map_on fun k hm k' hm' hs => ?_
    obtain ⟨id, taken⟩ := holds k hm
    obtain ⟨id', taken'⟩ := holds k' hm'
    simp only [taken, taken', Option.getD_some] at hs
    exact apart.holder k k' id taken (hs ▸ taken')
  have small : (keys.map fun k => (held k).getD 0) ⊆ range next := by
    intro id taken
    obtain ⟨k, hm, rfl⟩ := mem_map.mp taken
    obtain ⟨id, taken⟩ := holds k hm
    simpa [taken] using apart.held_lt k id taken
  simpa using (different.subperm small).length_le

include apart in
theorem Apart.perm (hs : free.Perm free') : Apart held free' next where
  nodup := hs.nodup_iff.mp apart.nodup
  holder := apart.holder
  disjoint k id taken hm := apart.disjoint k id taken (hs.mem_iff.mpr hm)
  free_lt id hm := apart.free_lt id (hs.mem_iff.mpr hm)
  held_lt := apart.held_lt

theorem Covers.perm (covers : Covers held free next) (hs : free.Perm free') : Covers held free' next :=
  fun id hb => (covers id hb).imp_left hs.mem_iff.mp

include apart in
theorem Apart.grow (n : Nat) : Apart held (free ++ (range n).map (next + ·)) (next + n) where
  nodup := by
    rw [nodup_append]
    refine ⟨apart.nodup, nodup_range.map fun _ _ => Nat.add_left_cancel, ?_⟩
    rintro id old _ new rfl
    obtain ⟨i, _, rfl⟩ := mem_map.mp new
    have hb := apart.free_lt _ old
    omega
  holder := apart.holder
  disjoint k id taken hm := by
    have hb := apart.held_lt k id taken
    rcases mem_append.mp hm with old | new
    · exact apart.disjoint k id taken old
    · obtain ⟨i, _, rfl⟩ := mem_map.mp new
      omega
  free_lt id hm := by
    rcases mem_append.mp hm with old | new
    · have := apart.free_lt id old
      omega
    · obtain ⟨i, small, rfl⟩ := mem_map.mp new
      have := mem_range.mp small
      omega
  held_lt k id taken := Nat.lt_add_right n (apart.held_lt k id taken)

theorem Covers.grow (covers : Covers held free next) (n : Nat) : Covers held (free ++ (range n).map (next + ·)) (next + n) := by
  intro id hb
  by_cases old : id < next
  · exact (covers id old).imp_left (mem_append_left _)
  · refine .inl (mem_append_right _ (mem_map.mpr ⟨id - next, ?_, by omega⟩))
    exact mem_range.mpr (by omega)

variable [DecidableEq κ] {id' : Nat} {k' : κ}

theorem Apart.take (apart : Apart held (id :: free) next) (k : κ) : Apart (update held k (some id)) free next := by
  obtain ⟨fresh, nodup⟩ := nodup_cons.mp apart.nodup
  have owner : ∀ {k' id'}, update held k (some id) k' = some id' → (k' = k ∧ id' = id) ∨ held k' = some id' := by
    intro k' id' taken
    by_cases hs : k' = k
    · subst hs
      rw [update_self] at taken
      exact .inl ⟨rfl, (Option.some.inj taken).symm⟩
    · rw [update_of_ne hs] at taken
      exact .inr taken
  have unheld : ∀ k', held k' ≠ some id := fun k' taken => apart.disjoint k' id taken (.head _)
  refine ⟨nodup, ?_, ?_, fun id' hm => apart.free_lt id' (.tail _ hm), ?_⟩
  · intro k₁ k₂ id' first second
    rcases owner first with ⟨here, hs⟩ | first <;> rcases owner second with ⟨here', hs'⟩ | second
    · exact here.trans here'.symm
    · exact absurd (hs ▸ second) (unheld k₂)
    · exact absurd (hs' ▸ first) (unheld k₁)
    · exact apart.holder k₁ k₂ id' first second
  · intro k' id' taken hm
    rcases owner taken with ⟨rfl, rfl⟩ | taken
    · exact fresh hm
    · exact apart.disjoint k' id' taken (.tail _ hm)
  · intro k' id' taken
    rcases owner taken with ⟨rfl, rfl⟩ | taken
    · exact apart.free_lt id' (.head _)
    · exact apart.held_lt k' id' taken

theorem Covers.take (covers : Covers held (id :: free) next) (without : held k = none) :
    Covers (update held k (some id)) free next := by
  intro id' hb
  rcases covers id' hb with hm | ⟨k', taken⟩
  · rcases mem_cons.mp hm with rfl | hm
    · exact .inr ⟨k, update_self ..⟩
    · exact .inl hm
  · refine .inr ⟨k', ?_⟩
    rwa [update_of_ne]
    rintro rfl
    rw [without] at taken
    cases taken

theorem Reserved.take (reserved : Reserved held (id :: free) next k' id') :
    Reserved (update held k (some id)) free next k' id' where
  not_free hm := reserved.not_free (.tail _ hm)
  holder k'' taken := by
    by_cases hs : k'' = k
    · subst hs
      rw [update_self] at taken
      obtain rfl := Option.some.inj taken
      exact absurd (.head _) reserved.not_free
    · rw [update_of_ne hs] at taken
      exact reserved.holder k'' taken
  lt := reserved.lt

omit [DecidableEq κ] in
theorem Reserved.perm (reserved : Reserved held free next k id) (hs : free.Perm free') :
    Reserved held free' next k id :=
  ⟨fun hm => reserved.not_free (hs.mem_iff.mpr hm), reserved.holder, reserved.lt⟩

omit [DecidableEq κ] in
theorem Reserved.grow (reserved : Reserved held free next k id) (n : Nat) :
    Reserved held (free ++ (range n).map (next + ·)) (next + n) k id := by
  refine ⟨fun hm => ?_, reserved.holder, Nat.lt_add_right n reserved.lt⟩
  have hb := reserved.lt
  rcases mem_append.mp hm with old | new
  · exact reserved.not_free old
  · obtain ⟨i, _, rfl⟩ := mem_map.mp new
    omega

include apart in
theorem Apart.release (taken : held k = some id) :
    Apart (update held k none) (free ++ [id]) next := by
  have other : ∀ {k' id'}, update held k none k' = some id' → k' ≠ k ∧ held k' = some id' := by
    intro k' id' still
    by_cases hs : k' = k
    · subst hs
      rw [update_self] at still
      cases still
    · rw [update_of_ne hs] at still
      exact ⟨hs, still⟩
  refine ⟨?_, ?_, ?_, ?_, fun k' id' still => apart.held_lt k' id' (other still).2⟩
  · rw [nodup_append]
    refine ⟨apart.nodup, nodup_singleton id, ?_⟩
    rintro id' hm _ new rfl
    rw [mem_singleton] at new
    subst new
    exact apart.disjoint k _ taken hm
  · intro k₁ k₂ id' first second
    exact apart.holder k₁ k₂ id' (other first).2 (other second).2
  · intro k' id' still hm
    obtain ⟨different, still⟩ := other still
    rcases mem_append.mp hm with old | new
    · exact apart.disjoint k' id' still old
    · obtain rfl := mem_singleton.mp new
      exact different (apart.holder k' k id' still taken)
  · intro id' hm
    rcases mem_append.mp hm with old | new
    · exact apart.free_lt id' old
    · obtain rfl := mem_singleton.mp new
      exact apart.held_lt k id' taken

theorem Covers.release (covers : Covers held free next) (taken : held k = some id) :
    Covers (update held k none) (free ++ [id]) next := by
  intro id' hb
  rcases covers id' hb with hm | ⟨k', still⟩
  · exact .inl (mem_append_left _ hm)
  · by_cases hs : k' = k
    · subst hs
      rw [taken] at still
      exact .inl (mem_append_right _ (mem_singleton.mpr (Option.some.inj still).symm))
    · exact .inr ⟨k', by rwa [update_of_ne hs]⟩

theorem Reserved.release (reserved : Reserved held free next k' id') (taken : held k = some id)
    (other : k ≠ k') : Reserved (update held k none) (free ++ [id]) next k' id' where
  not_free hm := by
    rcases mem_append.mp hm with old | new
    · exact reserved.not_free old
    · obtain rfl := mem_singleton.mp new
      exact other (reserved.holder k taken)
  holder k'' still := by
    by_cases hs : k'' = k
    · subst hs
      rw [update_self] at still
      cases still
    · rw [update_of_ne hs] at still
      exact reserved.holder k'' still
  lt := reserved.lt

def assign (held : κ → Option Nat) (taken : List (κ × Nat)) : κ → Option Nat :=
  taken.foldl (fun held e => Function.update held e.1 (some e.2)) held

theorem Apart.takeAll {taken : List (κ × Nat)} (apart : Apart held (taken.map Prod.snd ++ free) next) :
    Apart (assign held taken) free next := by
  induction taken generalizing held with
  | nil => exact apart
  | cons e rest ih => exact ih (apart.take e.1)

theorem Covers.takeAll {taken : List (κ × Nat)} (covers : Covers held (taken.map Prod.snd ++ free) next)
    (distinct : (taken.map Prod.fst).Nodup) (without : ∀ k ∈ taken.map Prod.fst, held k = none) :
    Covers (assign held taken) free next := by
  induction taken generalizing held with
  | nil => exact covers
  | cons e rest ih =>
    simp only [map_cons, nodup_cons] at distinct
    apply ih (covers.take (without e.1 (.head _))) distinct.2
    intro k hm
    rw [update_of_ne]
    · exact without k (.tail _ hm)
    · rintro rfl
      exact distinct.1 hm

theorem Reserved.takeAll {taken : List (κ × Nat)}
    (reserved : Reserved held (taken.map Prod.snd ++ free) next k id) : Reserved (assign held taken) free next k id := by
  induction taken generalizing held with
  | nil => exact reserved
  | cons e rest ih => exact ih reserved.take

theorem Apart.reserved_takeAll {taken : List (κ × Nat)} (apart : Apart held (taken.map Prod.snd ++ free) next) :
    ∀ e ∈ taken, Reserved (assign held taken) free next e.1 e.2 := by
  induction taken generalizing held with
  | nil => simp
  | cons e rest ih =>
    intro e' hm
    rcases mem_cons.mp hm with rfl | later
    · exact ((apart.take e'.1).reserved (update_self ..)).takeAll
    · exact ih (apart.take e.1) e' later

def revoke (held : κ → Option Nat) (given : List (κ × Nat)) : κ → Option Nat :=
  given.foldl (fun held e => Function.update held e.1 none) held

theorem revoke_apply (held : κ → Option Nat) (given : List (κ × Nat)) (k : κ) :
    revoke held given k = if k ∈ given.map Prod.fst then none else held k := by
  induction given generalizing held with
  | nil => simp [revoke]
  | cons e rest ih =>
    refine (ih _).trans ?_
    by_cases hs : k = e.1 <;> by_cases later : k ∈ rest.map Prod.fst <;> simp_all

section

variable {given : List (κ × Nat)} (distinct : (given.map Prod.fst).Nodup) (taken : ∀ e ∈ given, held e.1 = some e.2)
include distinct taken

theorem releaseAll_rule {I : (κ → Option Nat) → List Nat → Prop} (start : I held free)
    (step : ∀ held free, ∀ e ∈ given, held e.1 = some e.2 → I held free → I (update held e.1 none) (free ++ [e.2])) :
    I (revoke held given) (free ++ given.map Prod.snd) := by
  induction given generalizing held free with
  | nil => simpa [revoke] using start
  | cons e rest ih =>
    simp only [map_cons, nodup_cons] at distinct
    rw [map_cons, append_cons]
    refine ih distinct.2 ?_ (step held free e mem_cons_self (taken e (.head _)) start)
      (fun held free e' hm => step held free e' (.tail _ hm))
    intro e' hm
    have different : e'.1 ≠ e.1 := fun hs => distinct.1 (hs ▸ mem_map.mpr ⟨e', hm, rfl⟩)
    exact (update_of_ne different _ _).trans (taken e' (.tail _ hm))

include apart in
theorem Apart.releaseAll : Apart (revoke held given) (free ++ given.map Prod.snd) next :=
  releaseAll_rule distinct taken (I := fun held free => Apart held free next) apart
    fun _ _ _ _ taken apart => apart.release taken

theorem Covers.releaseAll (covers : Covers held free next) : Covers (revoke held given) (free ++ given.map Prod.snd) next :=
  releaseAll_rule distinct taken (I := fun held free => Covers held free next) covers
    fun _ _ _ _ taken covers => covers.release taken

theorem Reserved.releaseAll (reserved : Reserved held free next k id) (other : k ∉ given.map Prod.fst) :
    Reserved (revoke held given) (free ++ given.map Prod.snd) next k id := by
  refine releaseAll_rule distinct taken (I := fun held free => Reserved held free next k id) reserved ?_
  intro _ _ e hm taken reserved
  refine reserved.release taken ?_
  rintro rfl
  exact other (mem_map.mpr ⟨e, hm, rfl⟩)

end

end KVOffload
