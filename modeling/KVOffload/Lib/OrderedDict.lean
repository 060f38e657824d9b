import Mathlib

/-!
# Insertion-ordered dictionaries

The operations of Python's `dict` and `collections.OrderedDict`, each described by the lookups it changes and by the entries it
leaves.
-/

namespace KVOffload

open List

structure OrderedDict (α β : Type) where
  entries : List (α × β)
  nodup : (entries.map Prod.fst).Nodup

namespace OrderedDict

variable {α β : Type}

def empty : OrderedDict α β := ⟨[], by simp⟩

def keys (d : OrderedDict α β) : List α := d.entries.map Prod.fst

def values (d : OrderedDict α β) : List β := d.entries.map Prod.snd

instance : Membership α (OrderedDict α β) := ⟨fun d k => k ∈ d.keys⟩

variable {d : OrderedDict α β} {k : α}

theorem mem_def : k ∈ d ↔ k ∈ d.keys := Iff.rfl

theorem nodup_keys (d : OrderedDict α β) : d.keys.Nodup := d.nodup

theorem length_values (d : OrderedDict α β) : d.values.length = d.keys.length := by
  simp [values, keys]

@[simp] theorem not_mem_empty (k : α) : k ∉ (empty : OrderedDict α β) := by simp [mem_def, keys, empty]

def append (d : OrderedDict α β) (k : α) (v : β) (fresh : k ∉ d.keys) : OrderedDict α β :=
  ⟨d.entries ++ [(k, v)], by
    rw [List.map_append, List.nodup_append']
    exact ⟨d.nodup, by simp, by simpa [List.disjoint_singleton, keys] using fresh⟩⟩

def prepend (d : OrderedDict α β) (k : α) (v : β) (fresh : k ∉ d.keys) : OrderedDict α β :=
  ⟨(k, v) :: d.entries, List.nodup_cons.mpr ⟨fresh, d.nodup⟩⟩

def dropOldest (d : OrderedDict α β) (n : Nat) : OrderedDict α β :=
  ⟨d.entries.drop n, d.nodup.sublist ((List.drop_sublist n d.entries).map _)⟩

theorem values_append (d : OrderedDict α β) (k : α) (v : β) (fresh : k ∉ d.keys) :
    (d.append k v fresh).values = d.values ++ [v] := by
  simp [values, append]

theorem keys_append (d : OrderedDict α β) (k : α) (v : β) (fresh : k ∉ d.keys) : (d.append k v fresh).keys = d.keys ++ [k] := by
  simp [keys, append]

variable [DecidableEq α]

instance (k : α) (d : OrderedDict α β) : Decidable (k ∈ d) := inferInstanceAs (Decidable (k ∈ d.keys))

def get? (d : OrderedDict α β) (k : α) : Option β := d.entries.lookup k

/-- `del d[k]`; nothing happens when the key is absent. -/
def erase (d : OrderedDict α β) (k : α) : OrderedDict α β :=
  ⟨d.entries.filter (fun e => e.1 ≠ k), d.nodup.sublist (List.filter_sublist.map _)⟩

theorem mem_entries_erase {e : α × β} : e ∈ (d.erase k).entries ↔ e ∈ d.entries ∧ e.1 ≠ k := by
  simp [erase]

theorem not_mem_keys_erase (d : OrderedDict α β) (k : α) : k ∉ (d.erase k).keys := by
  simp [keys, erase]

theorem keys_erase (d : OrderedDict α β) (k : α) : (d.erase k).keys = d.keys.filter (· ≠ k) := by
  simp [keys, erase, filter_map, Function.comp_def]

/-- `d[k] = v`: an existing key keeps its position, a new one goes to the end. -/
def insert (d : OrderedDict α β) (k : α) (v : β) : OrderedDict α β :=
  if fresh : k ∈ d.keys then
    ⟨d.entries.map (fun e => if e.1 = k then (k, v) else e), by
      have same : (fun e : α × β => (if e.1 = k then (k, v) else e).1) = Prod.fst := by
        funext e
        by_cases h : e.1 = k <;> simp [h]
      rw [List.map_map, show (Prod.fst ∘ fun e : α × β => if e.1 = k then (k, v) else e) = Prod.fst from same]
      exact d.nodup⟩
  else d.append k v fresh

/-- `d.move_to_end(k)`; nothing happens when the key is absent. -/
def moveToEnd (d : OrderedDict α β) (k : α) : OrderedDict α β :=
  match d.get? k with
  | some v => (d.erase k).append k v (not_mem_keys_erase d k)
  | none => d

/-- `d.move_to_end(k, last=False)`; nothing happens when the key is absent. -/
def moveToFront (d : OrderedDict α β) (k : α) : OrderedDict α β :=
  match d.get? k with
  | some v => (d.erase k).prepend k v (not_mem_keys_erase d k)
  | none => d

variable {v : β} {k' : α}

theorem mem_of_get? (h : d.get? k = some v) : (k, v) ∈ d.entries := by
  obtain ⟨before, after, split, _⟩ := lookup_eq_some_iff.mp h
  rw [split]
  exact mem_append_right _ (.head _)

theorem get?_of_mem (h : (k, v) ∈ d.entries) : d.get? k = some v := by
  cases hf : d.get? k with
  | none =>
    have absent := lookup_eq_none_iff.mp hf _ h
    simp at absent
  | some w =>
    have hs := inj_on_of_nodup_map d.nodup (mem_of_get? hf) h rfl
    rw [(Prod.mk.inj hs).2]

theorem get?_eq_some_iff : d.get? k = some v ↔ (k, v) ∈ d.entries :=
  ⟨mem_of_get?, get?_of_mem⟩

theorem mem_iff_get? : k ∈ d ↔ ∃ v, d.get? k = some v := by
  simp [mem_def, keys, get?_eq_some_iff]

theorem mem_of_get?_eq (h : d.get? k = some v) : k ∈ d :=
  mem_iff_get?.mpr ⟨v, h⟩

theorem get?_eq_none_iff : d.get? k = none ↔ k ∉ d := by
  rw [mem_iff_get?, Option.eq_none_iff_forall_ne_some]
  simp

@[simp] theorem get?_empty (k : α) : (empty : OrderedDict α β).get? k = none := rfl

theorem get?_ext {o : Option β} (h : ∀ v, (k, v) ∈ d.entries ↔ o = some v) : d.get? k = o := by
  cases o with
  | none => exact get?_eq_none_iff.mpr (by simpa [mem_def, keys] using h)
  | some v => exact get?_of_mem ((h v).mpr rfl)

theorem get?_erase (d : OrderedDict α β) (k k' : α) : (d.erase k).get? k' = if k' = k then none else d.get? k' := by
  apply get?_ext
  intro v
  rw [mem_entries_erase, ← get?_eq_some_iff]
  by_cases hs : k' = k <;> simp [hs]

private theorem get?_of_added {d d' : OrderedDict α β} {k : α} {v : β} (fresh : k ∉ d.keys)
    (added : ∀ e, e ∈ d'.entries ↔ e = (k, v) ∨ e ∈ d.entries) (k' : α) :
    d'.get? k' = if k' = k then some v else d.get? k' := by
  apply get?_ext
  intro w
  simp only [added, ← get?_eq_some_iff]
  by_cases hs : k' = k
  · subst hs
    have absent := get?_eq_none_iff.mpr fresh
    simp [absent, eq_comm]
  · simp [hs]

section

variable (d k k')

theorem get?_append (v : β) (fresh : k ∉ d.keys) : (d.append k v fresh).get? k' = if k' = k then some v else d.get? k' :=
  get?_of_added fresh (fun e => by simp [append, or_comm]) k'

theorem get?_prepend (v : β) (fresh : k ∉ d.keys) : (d.prepend k v fresh).get? k' = if k' = k then some v else d.get? k' :=
  get?_of_added fresh (fun e => by simp [prepend]) k'

theorem get?_insert (v : β) : (d.insert k v).get? k' = if k' = k then some v else d.get? k' := by
  unfold insert
  split
  · rename_i present
    apply get?_ext
    intro w
    simp only [mem_map]
    by_cases hs : k' = k
    · subst hs
      simp only [↓reduceIte, Option.some.injEq]
      constructor
      · rintro ⟨e, _, h⟩
        by_cases hit : e.1 = k'
        · simp only [hit, ↓reduceIte, Prod.mk.injEq, true_and] at h
          exact h
        · simp only [hit] at h
          exact absurd (congrArg Prod.fst h) hit
      · rintro rfl
        obtain ⟨e, hm, hit⟩ := mem_map.mp present
        exact ⟨e, hm, by simp [hit]⟩
    · simp only [hs, ↓reduceIte, get?_eq_some_iff]
      constructor
      · rintro ⟨e, hm, h⟩
        by_cases hit : e.1 = k
        · simp only [hit, ↓reduceIte, Prod.mk.injEq] at h
          exact absurd h.1.symm hs
        · simp only [hit] at h
          exact h ▸ hm
      · intro hm
        exact ⟨_, hm, by simp [hs]⟩
  · exact get?_append d k k' v _

@[simp] theorem get?_moveToEnd : (d.moveToEnd k).get? k' = d.get? k' := by
  unfold moveToEnd
  split
  · rename_i v h
    rw [get?_append, get?_erase]
    by_cases hs : k' = k <;> simp [hs, h]
  · rfl

@[simp] theorem get?_moveToFront : (d.moveToFront k).get? k' = d.get? k' := by
  unfold moveToFront
  split
  · rename_i v h
    rw [get?_prepend, get?_erase]
    by_cases hs : k' = k <;> simp [hs, h]
  · rfl

end

@[simp] theorem mem_moveToEnd : k' ∈ d.moveToEnd k ↔ k' ∈ d := by
  simp [mem_iff_get?]

theorem erase_of_get?_eq_none (absent : d.get? k = none) : d.erase k = d := by
  have untouched : d.entries.filter (fun e => e.1 ≠ k) = d.entries := by
    apply filter_eq_self.mpr
    intro e hm
    have other : e.1 ≠ k := by
      rintro rfl
      exact get?_eq_none_iff.mp absent (mem_map.mpr ⟨e, hm, rfl⟩)
    simp [other]
  unfold erase
  cases d
  simpa using untouched

theorem mem_insert : k' ∈ d.insert k v ↔ k' = k ∨ k' ∈ d := by
  by_cases hs : k' = k <;> simp [mem_iff_get?, get?_insert, hs]

theorem mem_erase : k' ∈ d.erase k ↔ k' ≠ k ∧ k' ∈ d := by
  by_cases hs : k' = k <;> simp [mem_iff_get?, get?_erase, hs]

theorem entries_perm_erase (h : d.get? k = some v) : d.entries.Perm ((k, v) :: (d.erase k).entries) := by
  obtain ⟨entries, nodup⟩ := d
  have hm := mem_of_get? h
  simp only [erase] at hm ⊢
  clear h
  induction entries with
  | nil => simp at hm
  | cons e rest ih =>
    simp only [map_cons, nodup_cons] at nodup
    by_cases hs : e.1 = k
    · have untouched : rest.filter (fun e => e.1 ≠ k) = rest := by
        apply filter_eq_self.mpr
        intro e' hm'
        simp only [decide_not, Bool.not_eq_eq_eq_not, Bool.not_true, decide_eq_false_iff_not]
        rintro rfl
        exact nodup.1 (hs ▸ mem_map.mpr ⟨e', hm', rfl⟩)
      have first : e = (k, v) := by
        rcases mem_cons.mp hm with h | h
        · exact h.symm
        · exact absurd (mem_map.mpr ⟨_, h, rfl⟩) (hs ▸ nodup.1)
      rw [filter_cons_of_neg (by simp [hs]), untouched, first]
    · have later : (k, v) ∈ rest := by
        rcases mem_cons.mp hm with h | h
        · exact absurd (congrArg Prod.fst h.symm) hs
        · exact h
      rw [filter_cons_of_pos (by simp [hs])]
      exact ((ih nodup.2 later).cons e).trans (List.Perm.swap ..)

theorem values_perm_erase (h : d.get? k = some v) : d.values.Perm (v :: (d.erase k).values) :=
  (entries_perm_erase h).map Prod.snd

theorem values_perm_get? (d : OrderedDict α β) (k : α) : d.values.Perm ((d.get? k).toList ++ (d.erase k).values) := by
  cases hf : d.get? k with
  | none => rw [erase_of_get?_eq_none hf, Option.toList_none, nil_append]
  | some v => exact values_perm_erase hf

theorem values_insert_of_not_mem (fresh : k ∉ d) (v : β) : (d.insert k v).values = d.values ++ [v] := by
  unfold insert
  rw [dif_neg (mem_def.not.mp fresh), values_append]

theorem erase_insert (d : OrderedDict α β) (k : α) (v : β) : (d.insert k v).erase k = d.erase k := by
  have entries : ((d.insert k v).erase k).entries = (d.erase k).entries := by
    unfold insert
    split
    · simp only [erase]
      induction d.entries with
      | nil => rfl
      | cons e rest ih => by_cases hs : e.1 = k <;> simp_all
    · simp [erase, append]
  cases left : (d.insert k v).erase k
  simp_all

theorem values_perm_insert (d : OrderedDict α β) (k : α) (v : β) : (d.insert k v).values.Perm (v :: (d.erase k).values) := by
  have hf : (d.insert k v).get? k = some v := by rw [get?_insert, if_pos rfl]
  rw [← erase_insert]
  exact values_perm_erase hf

theorem sum_values_erase (f : β → Nat) (d : OrderedDict α β) (k : α) :
    ((d.erase k).values.map f).sum + ((d.get? k).map f).getD 0 = (d.values.map f).sum := by
  cases hf : d.get? k with
  | none => simp [erase_of_get?_eq_none hf]
  | some v =>
    have moved := ((values_perm_erase hf).map f).sum_nat
    rw [moved]
    simp [Nat.add_comm]

theorem sum_values_insert (f : β → Nat) (d : OrderedDict α β) (k : α) (v : β) :
    ((d.insert k v).values.map f).sum + ((d.get? k).map f).getD 0 = (d.values.map f).sum + f v := by
  have before := sum_values_erase f d k
  have after := sum_values_erase f (d.insert k v) k
  rw [erase_insert, get?_insert, if_pos rfl, Option.map_some, Option.getD_some] at after
  omega

theorem length_values_insert (d : OrderedDict α β) (k : α) (v : β) :
    (d.insert k v).values.length = d.values.length + if k ∈ d then 0 else 1 := by
  by_cases present : k ∈ d
  · rw [if_pos present]
    unfold insert
    rw [dif_pos (mem_def.mp present)]
    simp [values]
  · rw [if_neg present, values_insert_of_not_mem present]
    simp

theorem values_moveToEnd_perm (d : OrderedDict α β) (k : α) : (d.moveToEnd k).values.Perm d.values := by
  unfold moveToEnd
  split
  · rename_i v h
    rw [values_append]
    exact (perm_append_singleton _ _).trans (values_perm_erase h).symm
  · exact List.Perm.refl _

theorem values_moveToFront_perm (d : OrderedDict α β) (k : α) : (d.moveToFront k).values.Perm d.values := by
  unfold moveToFront
  split
  · rename_i v h
    exact (values_perm_erase h).symm
  · exact List.Perm.refl _

theorem keys_moveToEnd (present : k ∈ d) : (d.moveToEnd k).keys = d.keys.filter (· ≠ k) ++ [k] := by
  obtain ⟨v, h⟩ := mem_iff_get?.mp present
  simp only [moveToEnd, h, keys_append, keys_erase]

theorem mem_values_iff : v ∈ d.values ↔ ∃ k, d.get? k = some v := by
  simp [values, get?_eq_some_iff]

theorem key_unique (hd : d.values.Nodup) (h : d.get? k = some v) (h' : d.get? k' = some v) : k = k' := by
  have inj := inj_on_of_nodup_map hd
  exact congrArg Prod.fst (inj (mem_of_get? h) (mem_of_get? h') rfl)

def eraseAll (d : OrderedDict α β) (ks : List α) : OrderedDict α β := ks.foldl erase d

theorem get?_eraseAll (d : OrderedDict α β) (ks : List α) (k : α) :
    (d.eraseAll ks).get? k = if k ∈ ks then none else d.get? k := by
  induction ks generalizing d with
  | nil => simp [eraseAll]
  | cons k' ks ih =>
    have step : d.eraseAll (k' :: ks) = (d.erase k').eraseAll ks := rfl
    rw [step, ih, get?_erase]
    by_cases hs : k = k' <;> by_cases later : k ∈ ks <;> simp [hs]

theorem values_perm_eraseAll {es : List (α × β)} (stored : ∀ e ∈ es, e ∈ d.entries) (hd : (es.map Prod.fst).Nodup) :
    (es.map Prod.snd ++ (d.eraseAll (es.map Prod.fst)).values).Perm d.values := by
  induction es generalizing d with
  | nil => simp [eraseAll]
  | cons e es ih =>
    simp only [map_cons, nodup_cons] at hd
    have kept : ∀ e' ∈ es, e' ∈ (d.erase e.1).entries := by
      intro e' hm
      refine mem_entries_erase.mpr ⟨stored e' (.tail _ hm), ?_⟩
      intro hs
      exact hd.1 (mem_map.mpr ⟨e', hm, hs⟩)
    have first := get?_of_mem (stored e (.head _))
    exact ((ih kept hd.2).cons e.2).trans (values_perm_erase first).symm

end OrderedDict

end KVOffload
