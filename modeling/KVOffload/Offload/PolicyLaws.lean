import KVOffload.Offload.EvictSpec

/-!
# What the cache manager relies on

The manager sees a policy through the blocks its `get` returns. `LawfulCachePolicy` says how each method changes them;
both policies are lawful.
-/

namespace KVOffload.Offload

open OrderedDict CachePolicy

class LawfulCachePolicy (P : Type) (Key : outParam Type) [DecidableEq Key] [CachePolicy P Key] where
  Inv : P → Prop
  inv_init : ∀ n, Inv (init n)
  get_init : ∀ n key, get (init n : P) key = none
  /-- A key that may be inserted: one that is absent, or was when the inserts began. -/
  Insertable : P → Key → Prop
  insertable_of_absent : ∀ {p : P} {key}, get p key = none → Insertable p key
  insertable_insert : ∀ {p : P} {key}, Insertable p key → ∀ key' block, Insertable (insert key' block p) key
  inv_insert : ∀ {p : P} {key}, Inv p → Insertable p key → ∀ block, Inv (insert key block p)
  get_insert : ∀ {p : P}, Inv p → ∀ key block key',
    get (insert key block p) key' = if key' = key then some block else get p key'
  remove_held : ∀ {p : P} {key block}, Inv p → get p key = some block →
    ∃ p', remove key p = some p' ∧ Inv p' ∧
      ∀ key', get p' key' = if key' = key then none else get p key'
  inv_touch : ∀ {p : P}, Inv p → ∀ keys, Inv (touch keys p)
  get_touch : ∀ {p : P}, Inv p → ∀ keys key, get (touch keys p) key = get p key
  inv_evict : ∀ {p : P}, Inv p → ∀ n protect, Inv (evict n protect p).2
  evict_none : ∀ {p : P} {n protect}, Inv p → (evict n protect p).1 = none → (evict n protect p).2 = p
  evict_some : ∀ {p : P} {n protect evicted}, Inv p → (evict n protect p).1 = some evicted →
    evicted.length = n ∧ (evicted.map Prod.fst).Nodup ∧
      (∀ e ∈ evicted, get p e.1 = some e.2 ∧ evictable protect e = true) ∧
      ∀ key, get (evict n protect p).2 key =
        if key ∈ evicted.map Prod.fst then none else get p key
  inv_clear : ∀ p : P, Inv (clear p)
  get_clear : ∀ (p : P) key, get (clear p) key = none
  inv_setRefCnt : ∀ {p : P}, Inv p → ∀ key refCnt, Inv (setRefCnt key refCnt p)
  get_setRefCnt : ∀ {p : P}, Inv p → ∀ key refCnt key', get (setRefCnt key refCnt p) key' =
    if key' = key then (get p key).map ({ · with refCnt }) else get p key'

variable {Key : Type} [DecidableEq Key]

def PolicyCall.Fits {P : Type} [CachePolicy P Key] [LawfulCachePolicy P Key] (p : P) : PolicyCall Key → Prop
  | .insert key _ => LawfulCachePolicy.Insertable p key
  | _ => True

namespace LRUCachePolicy

theorem get?_touch (keys : List Key) (p : LRUCachePolicy Key) (key : Key) :
    (touch keys p).blocks.get? key = p.blocks.get? key := by
  unfold touch
  generalize keys.reverse = order
  induction order generalizing p with
  | nil => rfl
  | cons k rest ih => exact (ih _).trans (get?_moveToEnd p.blocks k key)

instance : LawfulCachePolicy (LRUCachePolicy Key) Key where
  Inv _ := True
  inv_init _ := trivial
  get_init _ key := get?_empty key
  Insertable _ _ := True
  insertable_of_absent _ := trivial
  insertable_insert _ _ _ := trivial
  inv_insert _ _ _ := trivial
  get_insert {p} _ key block key' := get?_insert p.blocks key key' block
  remove_held {p key block} _ found :=
    ⟨_, if_pos (mem_of_get?_eq found), trivial, get?_erase p.blocks key⟩
  inv_touch _ _ := trivial
  get_touch {p} _ keys key := get?_touch keys p key
  inv_evict _ _ _ := trivial
  evict_none {p n protect} _ refused := (evictContract n protect p).unchanged refused
  evict_some {p n protect evicted} _ found := by
    have contract := evictContract n protect p
    refine ⟨contract.length_eq evicted found, contract.distinct evicted found, ?_, contract.removed evicted found⟩
    intro e member
    obtain ⟨held, free⟩ := contract.chosen evicted found e member
    exact ⟨get?_of_mem held, free⟩
  inv_clear _ := trivial
  get_clear _ key := get?_empty key
  inv_setRefCnt _ _ _ := trivial
  get_setRefCnt {p} _ key refCnt key' := by
    change (setRefCnt key refCnt p).blocks.get? key' = if key' = key then (p.blocks.get? key).map _ else p.blocks.get? key'
    unfold setRefCnt
    split
    · rename_i hf
      rw [get?_insert, hf, Option.map_some]
    · rename_i absent
      by_cases hs : key' = key <;> simp [hs, absent]

end LRUCachePolicy

namespace ARCCachePolicy

theorem get_insert_eq (key : Key) (block : BlockStatus) (p : ARCCachePolicy Key) (key' : Key) :
    (insert key block p).get key' = if key' = key then some block else p.get key' := by
  simp only [insert, get, get?_insert]
  by_cases hs : key' = key <;> simp [hs]

theorem get_remove {p : ARCCachePolicy Key} (separate : p.Separate) (key key' : Key) :
    (remove key p).get key' = if key' = key then none else p.get key' := by
  unfold remove
  split
  · rename_i inT1
    have absent := get?_eq_none_iff.mpr (separate key inT1)
    simp only [get, get?_erase]
    by_cases hs : key' = key <;> simp [hs, absent]
  · rename_i notInT1
    have absent := get?_eq_none_iff.mpr notInT1
    simp only [get, get?_erase]
    by_cases hs : key' = key <;> simp [hs, absent]

theorem get_touchKey (p : ARCCachePolicy Key) (key key' : Key) : (touchKey p key).get key' = p.get key' := by
  unfold touchKey
  split
  · rename_i block hf
    split
    · simp only [get, get?_erase, get?_insert]
      by_cases hs : key' = key <;> simp [hs, hf]
    · simp [get]
  · split
    · simp [get]
    · split
      · rfl
      · split <;> rfl

theorem get_touch_eq (keys : List Key) (p : ARCCachePolicy Key) (key : Key) : (touch keys p).get key = p.get key := by
  unfold touch
  generalize keys.reverse = order
  induction order generalizing p with
  | nil => rfl
  | cons k rest ih => exact (ih _).trans (get_touchKey p k key)

instance : LawfulCachePolicy (ARCCachePolicy Key) Key where
  Inv := Separate
  inv_init _ key inT1 := absurd inT1 (not_mem_empty key)
  get_init _ _ := rfl
  Insertable p key := key ∉ p.t2
  insertable_of_absent absent := get?_eq_none_iff.mp (Option.or_eq_none_iff.mp absent).2
  insertable_insert fresh _ _ := fresh
  inv_insert separate fresh block := separate_insert separate fresh block
  get_insert {p} _ key block key' := get_insert_eq key block p key'
  remove_held {p key block} separate _ := ⟨_, rfl, separate_remove separate key, get_remove separate key⟩
  inv_touch separate keys := separate_touch separate keys
  get_touch {p} _ keys key := get_touch_eq keys p key
  inv_evict separate n protect := separate_evict separate n protect
  evict_none separate refused := evict_unchanged separate refused
  evict_some {p n protect evicted} separate found := by
    obtain ⟨enough, rfl, gone⟩ := evict_some separate found
    refine ⟨length_victims enough, victims_nodup separate, ?_, gone⟩
    intro e member
    obtain ⟨held, free⟩ := victims_chosen member
    refine ⟨?_, free⟩
    change (p.t1.get? e.1).or (p.t2.get? e.1) = some e.2
    rcases List.mem_append.mp held with inT1 | inT2
    · rw [get?_of_mem inT1, Option.some_or]
    · have absent : p.t1.get? e.1 = none := get?_eq_none_iff.mpr fun inT1 =>
        separate e.1 inT1 (List.mem_map.mpr ⟨e, inT2, rfl⟩)
      rw [absent, Option.none_or, get?_of_mem inT2]
  inv_clear _ key inT1 := absurd inT1 (not_mem_empty key)
  get_clear _ _ := rfl
  inv_setRefCnt separate key refCnt := separate_setRefCnt separate key refCnt
  get_setRefCnt {p} _ key refCnt key' := by
    change (setRefCnt key refCnt p).get key' = if key' = key then (p.get key).map _ else p.get key'
    unfold setRefCnt
    split
    · rename_i block hf
      simp only [get, get?_insert]
      by_cases hs : key' = key <;> simp [hs, hf]
    · rename_i absent
      split
      · rename_i block hf
        simp only [get, get?_insert]
        by_cases hs : key' = key <;> simp [hs, hf, absent]
      · rename_i absent'
        by_cases hs : key' = key <;> simp [hs, get, absent, absent']

end ARCCachePolicy

inductive CachePolicyName where
  | lru
  | arc
deriving DecidableEq, Repr

def CachePolicyName.Policy (Key : Type) : CachePolicyName → Type
  | .lru => LRUCachePolicy Key
  | .arc => ARCCachePolicy Key

instance (name : CachePolicyName) : CachePolicy (name.Policy Key) Key :=
  match name with
  | .lru => inferInstanceAs (CachePolicy (LRUCachePolicy Key) Key)
  | .arc => inferInstanceAs (CachePolicy (ARCCachePolicy Key) Key)

instance (name : CachePolicyName) : LawfulCachePolicy (name.Policy Key) Key :=
  match name with
  | .lru => inferInstanceAs (LawfulCachePolicy (LRUCachePolicy Key) Key)
  | .arc => inferInstanceAs (LawfulCachePolicy (ARCCachePolicy Key) Key)

end KVOffload.Offload
