import KVOffload.Lib.OrderedDict

/-!
# The LRU map from blocks to arena slots

`_LRUSlotMap` of `cache/tier_manager.py`. A map that does not hold every slot of the arena exactly once cannot be built.
-/

namespace KVOffload.Quest

open List OrderedDict

structure LRUSlotMap (K : Type) where
  capacity : Nat
  keyToSlot : OrderedDict K Nat
  /-- The free slots; the head is the end of the Python list, where `pop` takes and `append` puts. -/
  freeSlots : List Nat
  partition : (freeSlots ++ keyToSlot.values).Perm (List.range capacity)

namespace LRUSlotMap

variable {K : Type}

def init (capacity : Nat) : LRUSlotMap K :=
  ⟨capacity, .empty, List.range capacity, by simp [values, empty]⟩

abbrev keys (m : LRUSlotMap K) : List K := m.keyToSlot.keys

variable [DecidableEq K]

def slot? (m : LRUSlotMap K) (key : K) : Option Nat := m.keyToSlot.get? key

def touch (m : LRUSlotMap K) (key : K) : LRUSlotMap K :=
  { m with
    keyToSlot := m.keyToSlot.moveToEnd key
    partition := (List.Perm.append_left _ (values_moveToEnd_perm _ _)).trans m.partition }

def demote (m : LRUSlotMap K) (key : K) : LRUSlotMap K :=
  { m with
    keyToSlot := m.keyToSlot.moveToFront key
    partition := (List.Perm.append_left _ (values_moveToFront_perm _ _)).trans m.partition }

def get (m : LRUSlotMap K) (key : K) : Option (Nat × LRUSlotMap K) :=
  (m.slot? key).map fun slot => (slot, m.touch key)

/-- The key `add` evicts: the oldest key outside `protected`, or the oldest key when all of them are
protected. -/
def victim (m : LRUSlotMap K) (protect : List K) : Option K :=
  (m.keys.find? (fun k => k ∉ protect)).or m.keys.head?

def place (m : LRUSlotMap K) (key : K) (slot : Nat) (rest : List Nat) (fresh : key ∉ m.keys)
    (free : m.freeSlots = slot :: rest) : LRUSlotMap K where
  capacity := m.capacity
  keyToSlot := m.keyToSlot.append key slot fresh
  freeSlots := rest
  partition := by
    refine List.Perm.trans ?_ m.partition
    rw [values_append, free, List.cons_append, ← List.append_assoc]
    exact List.perm_append_singleton slot _

variable {m m' : LRUSlotMap K} {key : K} {slot : Nat} {protect : List K} {k : K}

theorem not_mem_erase (evicted : K) (fresh : key ∉ m.keys) : key ∉ (m.keyToSlot.erase evicted).keys := by
  rw [keys_erase]
  exact fun hm => fresh (mem_filter.mp hm).1

def replace (m : LRUSlotMap K) (key evicted : K) (slot : Nat) (fresh : key ∉ m.keys)
    (held : m.slot? evicted = some slot) : LRUSlotMap K where
  capacity := m.capacity
  keyToSlot := (m.keyToSlot.erase evicted).append key slot (not_mem_erase evicted fresh)
  freeSlots := m.freeSlots
  partition := by
    refine List.Perm.trans ?_ m.partition
    refine List.Perm.append_left _ ?_
    rw [values_append]
    exact (List.perm_append_singleton slot _).trans (values_perm_erase held).symm

variable (m key protect) in
/-- `add`: the slot the key has now, the key that was evicted for it, and the new map. `none` is the
exception of an eviction from an empty map, which needs an arena of capacity zero. -/
def add : Option (Nat × Option K × LRUSlotMap K) :=
  if present : key ∈ m.keys then (m.slot? key).map fun slot => (slot, none, m.touch key)
  else
    match free : m.freeSlots with
    | slot :: rest => some (slot, none, m.place key slot rest present free)
    | [] =>
      match m.victim protect with
      | none => none
      | some v =>
        match held : m.slot? v with
        | none => none
        | some slot => some (slot, some v, m.replace key v slot present held)

def free (m : LRUSlotMap K) (key : K) : LRUSlotMap K :=
  match held : m.slot? key with
  | none => m
  | some slot =>
    { capacity := m.capacity
      keyToSlot := m.keyToSlot.erase key
      freeSlots := slot :: m.freeSlots
      partition := by
        refine List.Perm.trans ?_ m.partition
        rw [List.cons_append]
        exact List.perm_middle.symm.trans
          (List.Perm.append_left _ (values_perm_erase held).symm) }

theorem mem_keys_iff : key ∈ m.keys ↔ ∃ slot, m.slot? key = some slot :=
  mem_iff_get?

theorem slot?_eq_none_iff : m.slot? key = none ↔ key ∉ m.keys :=
  get?_eq_none_iff

theorem mem_keys_of_slot? (held : m.slot? key = some slot) : key ∈ m.keys := mem_keys_iff.mpr ⟨slot, held⟩

omit [DecidableEq K] in
@[simp] theorem keys_init (capacity : Nat) : (init capacity : LRUSlotMap K).keys = [] := rfl

@[simp] theorem slot?_init (capacity : Nat) (key : K) : (init capacity).slot? key = none := rfl

section

variable (m)

@[simp] theorem slot?_touch (key k : K) : (m.touch key).slot? k = m.slot? k :=
  get?_moveToEnd _ _ _

@[simp] theorem slot?_demote (key k : K) : (m.demote key).slot? k = m.slot? k :=
  get?_moveToFront _ _ _

end

@[simp] theorem mem_keys_touch : k ∈ (m.touch key).keys ↔ k ∈ m.keys := by
  simp [mem_keys_iff]

@[simp] theorem mem_keys_demote : k ∈ (m.demote key).keys ↔ k ∈ m.keys := by
  simp [mem_keys_iff]

theorem keys_touch (present : key ∈ m.keys) : (m.touch key).keys = m.keys.filter (· ≠ key) ++ [key] :=
  keys_moveToEnd present

omit [DecidableEq K] in
theorem nodup_keys (m : LRUSlotMap K) : m.keys.Nodup := m.keyToSlot.nodup

theorem slot?_free (m : LRUSlotMap K) (key k : K) : (m.free key).slot? k = if k = key then none else m.slot? k := by
  unfold free
  split
  · rename_i held
    by_cases hs : k = key <;> simp [hs, held]
  · exact get?_erase _ _ _

@[simp] theorem capacity_free (m : LRUSlotMap K) (key : K) : (m.free key).capacity = m.capacity := by
  unfold free
  split <;> rfl

def freeAll (m : LRUSlotMap K) (ks : List K) : LRUSlotMap K := ks.foldl free m

theorem slot?_freeAll (m : LRUSlotMap K) (ks : List K) (k : K) :
    (m.freeAll ks).slot? k = if k ∈ ks then none else m.slot? k := by
  induction ks generalizing m with
  | nil => simp [freeAll]
  | cons k' ks ih =>
    have step : m.freeAll (k' :: ks) = (m.free k').freeAll ks := rfl
    rw [step, ih, slot?_free]
    by_cases hs : k = k' <;> by_cases later : k ∈ ks <;> simp [hs]

@[simp] theorem capacity_freeAll (m : LRUSlotMap K) (ks : List K) : (m.freeAll ks).capacity = m.capacity := by
  induction ks generalizing m with
  | nil => rfl
  | cons k ks ih => exact (ih (m.free k)).trans (capacity_free m k)

theorem slot?_inj {k k' : K} (held : m.slot? k = some slot) (held' : m.slot? k' = some slot) : k = k' :=
  key_unique (nodup_append'.mp (m.partition.nodup_iff.mpr nodup_range)).2.1 held held'

omit [DecidableEq K] in
theorem length_free_add_keys (m : LRUSlotMap K) : m.freeSlots.length + m.keys.length = m.capacity := by
  have total := m.partition.length_eq
  rw [length_append, length_values, length_range] at total
  exact total

omit [DecidableEq K] in
theorem empty_of_capacity (zero : m.capacity = 0) : m.keys = [] ∧ m.freeSlots = [] := by
  have total := length_free_add_keys m
  exact ⟨eq_nil_of_length_eq_zero (by omega), eq_nil_of_length_eq_zero (by omega)⟩

theorem freeSlots_ne_nil {set : List K} (fresh : m.slot? key = none) (hm : key ∈ set)
    (hi : ∀ k ∈ m.keys, k ∈ set) (fits : set.length ≤ m.capacity) : m.freeSlots ≠ [] := by
  intro full
  have total := m.length_free_add_keys
  rw [full, length_nil] at total
  have hd := nodup_cons.mpr ⟨slot?_eq_none_iff.mp fresh, m.nodup_keys⟩
  have sub := cons_subset.mpr ⟨hm, hi⟩
  have bound := (hd.subperm sub).length_le
  rw [length_cons] at bound
  omega

variable (m key slot) in
structure Claimed (m' : LRUSlotMap K) : Prop where
  origin : m.slot? key = some slot ∨ m.slot? key = none ∧ m.freeSlots = slot :: m'.freeSlots
  lookup : ∀ k, m'.slot? k = if k = key then some slot else m.slot? k
  keys : m'.keys = m.keys.filter (· ≠ key) ++ [key]
  capacity : m'.capacity = m.capacity

structure Replaced (m : LRUSlotMap K) (key victim : K) (slot : Nat) (m' : LRUSlotMap K) : Prop where
  absent : m.slot? key = none
  full : m.freeSlots = []
  held : m.slot? victim = some slot
  lookup : ∀ k, m'.slot? k = if k = key then some slot else if k = victim then none else m.slot? k
  keys : m'.keys = m.keys.filter (· ≠ victim) ++ [key]
  capacity : m'.capacity = m.capacity

theorem Replaced.ne {victim : K} (h : m.Replaced key victim slot m') : victim ≠ key := by
  rintro rfl
  exact absurd h.held (by simp [h.absent])

theorem Replaced.mem_keys {victim k : K} (h : m.Replaced key victim slot m') :
    k ∈ m'.keys ↔ k = key ∨ k ∈ m.keys ∧ k ≠ victim := by
  simp [h.keys, or_comm]

theorem Claimed.mem_keys (h : m.Claimed key slot m') :
    k ∈ m'.keys ↔ k = key ∨ k ∈ m.keys := by
  by_cases hs : k = key <;> simp [h.keys, hs]

theorem add_cases {evicted : Option K}
    (h : m.add key protect = some (slot, evicted, m')) :
    (evicted = none ∧ m.Claimed key slot m') ∨
    (∃ v, evicted = some v ∧ m.victim protect = some v ∧ m.Replaced key v slot m') := by
  unfold add at h
  split at h
  · rename_i present
    cases hf : m.slot? key with
    | none => simp [hf] at h
    | some held =>
      simp only [hf, Option.map_some, Option.some.injEq] at h
      obtain ⟨rfl, rfl, rfl⟩ := h
      refine .inl ⟨rfl, .inl hf, fun k => ?_, keys_touch present, rfl⟩
      by_cases hs : k = key <;> simp [hs, hf]
  rename_i absent
  have missing := slot?_eq_none_iff.mpr absent
  split at h
  · rename_i top rest free
    obtain ⟨rfl, rfl, rfl⟩ := h
    have others : m.keys.filter (· ≠ key) = m.keys := by
      apply filter_eq_self.mpr
      intro k hm
      simpa using ne_of_mem_of_not_mem hm absent
    refine .inl ⟨rfl, .inr ⟨missing, free⟩, fun k => get?_append _ _ _ _ absent, ?_, rfl⟩
    rw [others]
    exact keys_append _ _ _ absent
  rename_i full
  split at h
  · cases h
  rename_i v chosen
  split at h
  · cases h
  · rename_i held hf
    simp only [Option.some.injEq, Prod.mk.injEq] at h
    obtain ⟨rfl, rfl, rfl⟩ := h
    refine .inr ⟨v, rfl, chosen, missing, full, hf, fun k => ?_, ?_, rfl⟩
    · have lookup := get?_append _ _ k held (not_mem_erase v absent)
      rw [get?_erase] at lookup
      exact lookup
    · exact (keys_append _ _ _ (not_mem_erase v absent)).trans (by rw [keys_erase])

theorem victim_mem {v : K} (chosen : m.victim protect = some v) : v ∈ m.keys := by
  unfold victim at chosen
  cases hf : m.keys.find? (fun k => k ∉ protect) with
  | none =>
    rw [hf] at chosen
    exact mem_of_head? chosen
  | some w =>
    rw [hf, Option.some_or, Option.some.injEq] at chosen
    exact chosen ▸ mem_of_find?_eq_some hf

theorem victim_isSome (protect : List K) (inhabited : m.keys ≠ []) : ∃ v, m.victim protect = some v := by
  unfold victim
  cases m.keys.find? (fun k => k ∉ protect) with
  | some v => exact ⟨v, rfl⟩
  | none =>
    obtain ⟨v, rest, shape⟩ := exists_cons_of_ne_nil inhabited
    exact ⟨v, by simp [shape]⟩

theorem add_isSome (key : K) (protect : List K) (hp : 0 < m.capacity) : ∃ result, m.add key protect = some result := by
  unfold add
  split
  · rename_i present
    obtain ⟨slot, held⟩ := mem_keys_iff.mp present
    exact ⟨_, by rw [held]; rfl⟩
  split
  · exact ⟨_, rfl⟩
  rename_i full
  have total := m.length_free_add_keys
  rw [full, length_nil] at total
  obtain ⟨v, chosen⟩ := victim_isSome protect (by
    intro nokeys
    rw [nokeys, length_nil] at total
    omega)
  obtain ⟨slot, held⟩ := mem_keys_iff.mp (victim_mem chosen)
  split
  · rename_i none
    rw [none] at chosen
    cases chosen
  · rename_i w chosen'
    rw [chosen, Option.some.injEq] at chosen'
    subst chosen'
    split
    · rename_i none
      rw [none] at held
      cases held
    · exact ⟨_, rfl⟩

end LRUSlotMap

end KVOffload.Quest
