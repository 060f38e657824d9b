import KVOffload.Offload.Policies

/-!
# What the eviction policies evict

The least recently used policy keeps the contract of `evict` in every state, the adaptive one exactly where its picks suffice
(`select_eq`).
-/

namespace KVOffload.Offload

open List OrderedDict Option CachePolicy

variable {Key : Type} [DecidableEq Key] {evicted : List (Key × BlockStatus)}

namespace LRUCachePolicy

theorem candidates_eq {n : Nat} (protect : List Key) (entries hf : List (Key × BlockStatus)) (short : hf.length < n) :
    candidates n protect hf entries = hf ++ (entries.filter (evictable protect)).take (n - hf.length) := by
  induction entries generalizing hf with
  | nil => simp [candidates]
  | cons e rest ih =>
    cases free : evictable protect e with
    | false => simp only [candidates, free, Bool.false_eq_true, ↓reduceIte, ih hf short, filter_cons]
    | true =>
      have more : n - hf.length = (n - (hf ++ [e]).length) + 1 := by
        simp only [length_append, length_singleton]
        omega
      simp only [candidates, free, ↓reduceIte, filter_cons, more]
      split
      · rename_i full
        simp [full]
      · rename_i notFull
        rw [ih (hf ++ [e]) (by simp only [length_append, length_singleton] at notFull ⊢; omega)]
        simp

def victims (n : Nat) (protect : List Key) (p : LRUCachePolicy Key) : List (Key × BlockStatus) :=
  (p.blocks.entries.filter (evictable protect)).take n

section

variable (n : Nat) (protect : List Key) (p : LRUCachePolicy Key)

include n protect p

theorem evict_eq :
    evict n protect p = if (victims n protect p).length < n then (none, p)
      else (some (victims n protect p), ⟨p.blocks.eraseAll ((victims n protect p).map Prod.fst)⟩) := by
  unfold evict
  split
  · rename_i zero
    simp [zero, victims, eraseAll]
  · rename_i hp
    have scan := candidates_eq protect p.blocks.entries [] (Nat.pos_of_ne_zero hp)
    rw [scan]
    rfl

theorem length_victims_lt : (victims n protect p).length < n ↔ numEvictable p protect < n := by
  simp only [victims, length_take, numEvictable, items, countP_eq_length_filter]
  omega

end

theorem evict_some {n : Nat} {protect : List Key} {p : LRUCachePolicy Key}
    (hf : (evict n protect p).1 = some evicted) : evicted = victims n protect p ∧ evicted.length = n ∧
      (evict n protect p).2 = ⟨p.blocks.eraseAll (evicted.map Prod.fst)⟩ := by
  rw [evict_eq] at hf ⊢
  split at hf
  · simp at hf
  · rename_i enough
    obtain rfl := some.inj hf
    refine ⟨rfl, ?_, by rw [if_neg enough]⟩
    have atMost : (victims n protect p).length ≤ n := length_take_le _ _
    omega

theorem evictContract (n : Nat) (protect : List Key) (p : LRUCachePolicy Key) : EvictContract p n protect where
  refused_iff := by
    rw [← length_victims_lt]
    change (evict n protect p).1 = none ↔ _
    rw [evict_eq]
    split <;> simp_all
  unchanged := by
    change (evict n protect p).1 = none → (evict n protect p).2 = p
    rw [evict_eq]
    split <;> simp
  length_eq _ hf := (evict_some hf).2.1
  distinct _ hf := by
    obtain ⟨rfl, _, _⟩ := evict_some hf
    exact p.blocks.nodup.sublist (((take_sublist _ _).trans filter_sublist).map Prod.fst)
  chosen _ hf e hm := by
    obtain ⟨rfl, _, _⟩ := evict_some hf
    exact mem_filter.mp (mem_of_mem_take hm)
  removed _ hf key := by
    obtain ⟨_, _, after⟩ := evict_some hf
    change ((evict n protect p).2).blocks.get? key = _
    rw [after]
    exact get?_eraseAll _ _ _

end LRUCachePolicy

variable {p : ARCCachePolicy Key}

namespace ARCCachePolicy

def Separate (p : ARCCachePolicy Key) : Prop := ∀ key, key ∈ p.t1 → key ∉ p.t2

section

variable (p) (protect : List Key)

def free1 : List (Key × BlockStatus) := p.t1.entries.filter (evictable protect)

def free2 : List (Key × BlockStatus) := p.t2.entries.filter (evictable protect)

/-- The number of blocks that `evict` can take from T1: each pick makes it one shorter, and below the target it stops. -/
def reach1 : Nat := min (p.free1 protect).length ((p.t1.entries.length : Int) + 1 - p.targetT1Size.floor).toNat

def chosen (n : Nat) : Selection Key where
  candidates := ((p.free1 protect).take (min n (p.reach1 protect))).map (fun e => (e.1, e.2, true)) ++
    ((p.free2 protect).take (n - p.reach1 protect)).map (fun e => (e.1, e.2, false))
  alreadySelected := ((p.free1 protect).take (min n (p.reach1 protect))).map Prod.fst ++
    ((p.free2 protect).take (n - p.reach1 protect)).map Prod.fst
  virtualT1Size := p.t1.entries.length - min n (p.reach1 protect)

variable {p protect}

theorem numEvictable_eq : numEvictable p protect = (p.free1 protect).length + (p.free2 protect).length := by
  simp [numEvictable, items, free1, free2, countP_eq_length_filter]

theorem free1_nodup : ((p.free1 protect).map Prod.fst).Nodup := p.t1.nodup.sublist (filter_sublist.map _)

theorem free2_nodup : ((p.free2 protect).map Prod.fst).Nodup := p.t2.nodup.sublist (filter_sublist.map _)

theorem free1_subset : (p.free1 protect).map Prod.fst ⊆ p.t1.keys := (filter_sublist.map _).subset

theorem free2_subset : (p.free2 protect).map Prod.fst ⊆ p.t2.keys := (filter_sublist.map _).subset

theorem find?_next (entries : List (Key × BlockStatus)) (nodup : (entries.map Prod.fst).Nodup) (others : List Key)
    (apart : ∀ key ∈ entries.map Prod.fst, key ∉ others) (selected : List Key) (k : Nat)
    (hs : ∀ key, key ∈ selected ↔ key ∈ (entries.take k).map Prod.fst ∨ key ∈ others) :
    entries.find? (fun e => e.1 ∉ selected) = entries[k]? := by
  have early : (entries.take k).find? (fun e => e.1 ∉ selected) = none := by
    apply find?_eq_none.mpr
    intro e hm
    simpa using (hs e.1).mpr (.inl (mem_map.mpr ⟨e, hm, rfl⟩))
  conv_lhs => rw [← take_append_drop k entries]
  rw [find?_append, early, none_or]
  cases rest : entries.drop k with
  | nil =>
    have short := drop_eq_nil_iff.mp rest
    simp [getElem?_eq_none short]
  | cons e later =>
    have here : entries[k]? = some e := by
      have first : (entries.drop k)[0]? = some e := by rw [rest]; rfl
      simpa using first
    have hm := mem_of_getElem? here
    have fresh : e.1 ∉ selected := by
      intro chosen
      rcases (hs e.1).mp chosen with early | other
      · rw [← take_append_drop k entries, rest, map_append] at nodup
        exact (nodup_append.mp nodup).2.2 _ early _ (.head _) rfl
      · exact apart e.1 (mem_map.mpr ⟨e, hm, rfl⟩) other
    rw [find?_cons_of_pos (by simpa using fresh), here]

theorem pick_eq (entries : List (Key × BlockStatus)) (selected : List Key) :
    pick protect selected entries = (entries.filter (evictable protect)).find? (fun e => e.1 ∉ selected) := by
  rw [find?_filter]
  simp [pick]

variable (separate : p.Separate)
include separate

theorem pick_t1 (n : Nat) : pick protect (p.chosen protect n).alreadySelected p.t1.entries =
    (p.free1 protect)[min n (p.reach1 protect)]? := by
  rw [pick_eq]
  apply find?_next (p.free1 protect) free1_nodup
    (((p.free2 protect).take (n - p.reach1 protect)).map Prod.fst)
  · intro key inFree inOther
    exact separate key (free1_subset inFree) (free2_subset (((take_sublist _ _).map Prod.fst).subset inOther))
  · intro key
    exact mem_append

theorem pick_t2 (n : Nat) : pick protect (p.chosen protect n).alreadySelected p.t2.entries =
    (p.free2 protect)[n - p.reach1 protect]? := by
  rw [pick_eq]
  apply find?_next (p.free2 protect) free2_nodup
    (((p.free1 protect).take (min n (p.reach1 protect))).map Prod.fst)
  · intro key inFree inOther
    exact separate key (free1_subset (((take_sublist _ _).map Prod.fst).subset inOther)) (free2_subset inFree)
  · intro key
    exact mem_append.trans or_comm

theorem pickT1_eq (n : Nat) : pickT1 p protect (p.chosen protect n) =
    if n < p.reach1 protect then (p.free1 protect)[n]? else none := by
  unfold pickT1
  rw [pick_t1 separate]
  by_cases hb : n < p.reach1 protect
  · have target : (p.chosen protect n).virtualT1Size ≥ p.targetT1Size.floor := by
      have atMost : p.reach1 protect ≤ (p.t1.entries.length + 1 - p.targetT1Size.floor).toNat := Nat.min_le_right _ _
      simp only [chosen]
      omega
    rw [if_pos target, if_pos hb, Nat.min_eq_left (Nat.le_of_lt hb)]
  have full := Nat.min_eq_right (Nat.not_lt.mp hb)
  split
  · rename_i target
    apply getElem?_eq_none
    simp only [chosen] at target
    have bound : p.reach1 protect =
      min (p.free1 protect).length (p.t1.entries.length + 1 - p.targetT1Size.floor).toNat := rfl
    omega
  · rfl

theorem selectOne_chosen (n : Nat) : selectOne p protect (p.chosen protect n) =
    if n < p.reach1 protect + (p.free2 protect).length then some (p.chosen protect (n + 1)) else none := by
  unfold selectOne
  rw [pickT1_eq separate]
  by_cases hb : n < p.reach1 protect
  · have hi := Nat.lt_of_lt_of_le hb (Nat.min_le_left _ _)
    rw [if_pos hb, if_pos (by omega), getElem?_eq_getElem hi]
    have none2 : n - p.reach1 protect = 0 := by omega
    have none2' : n + 1 - p.reach1 protect = 0 := by omega
    simp only [chosen, Selection.take, Nat.min_eq_left (Nat.le_of_lt hb), Nat.min_eq_left (Nat.succ_le_of_lt hb), none2, none2',
      take_zero, map_nil, append_nil, take_succ_eq_append_getElem hi, map_append, map_cons,
      ↓reduceIte, some.injEq, Selection.mk.injEq, true_and]
    omega
  have full := Nat.min_eq_right (Nat.not_lt.mp hb)
  have full' : min (n + 1) (p.reach1 protect) = p.reach1 protect := Nat.min_eq_right (by omega)
  rw [if_neg hb]
  simp only [pick_t2 separate]
  by_cases more : n < p.reach1 protect + (p.free2 protect).length
  · have hi : n - p.reach1 protect < (p.free2 protect).length := by omega
    have next : n + 1 - p.reach1 protect = n - p.reach1 protect + 1 := by omega
    rw [if_pos more, getElem?_eq_getElem hi, map_some]
    simp only [chosen, Selection.take, full, full', next, take_succ_eq_append_getElem hi, map_append,
      map_cons, map_nil, append_assoc, Bool.false_eq_true, ↓reduceIte]
  · rw [if_neg more, getElem?_eq_none (by omega), map_none]

theorem select_eq (n : Nat) : select p protect n =
    if n ≤ p.reach1 protect + (p.free2 protect).length then some (p.chosen protect n) else none := by
  induction n with
  | zero =>
    simp [select, chosen]
  | succ n ih =>
    rw [select, ih]
    by_cases enough : n ≤ p.reach1 protect + (p.free2 protect).length
    · rw [if_pos enough, bind_some, selectOne_chosen separate]
      rfl
    · rw [if_neg enough, if_neg (by omega), bind_none]

end

section

variable {n : Nat} {protect : List Key}

theorem foldl_evictOne_t1 (es : List (Key × BlockStatus)) (p : ARCCachePolicy Key) :
    ((es.map fun e => (e.1, e.2, true)).foldl evictOne p).t1 = p.t1.eraseAll (es.map Prod.fst) ∧
      ((es.map fun e => (e.1, e.2, true)).foldl evictOne p).t2 = p.t2 := by
  induction es generalizing p with
  | nil => exact ⟨rfl, rfl⟩
  | cons e rest ih => exact ih (evictOne p (e.1, e.2, true))

theorem foldl_evictOne_t2 (es : List (Key × BlockStatus)) (p : ARCCachePolicy Key) :
    ((es.map fun e => (e.1, e.2, false)).foldl evictOne p).t1 = p.t1 ∧
      ((es.map fun e => (e.1, e.2, false)).foldl evictOne p).t2 = p.t2.eraseAll (es.map Prod.fst) := by
  induction es generalizing p with
  | nil => exact ⟨rfl, rfl⟩
  | cons e rest ih => exact ih (evictOne p (e.1, e.2, false))

variable (p n protect) in
def victims : List (Key × BlockStatus) :=
  (p.free1 protect).take (min n (p.reach1 protect)) ++ (p.free2 protect).take (n - p.reach1 protect)

theorem chosen_candidates : (p.chosen protect n).candidates.map (fun e => (e.1, e.2.1)) = p.victims n protect := by
  simp [chosen, victims, Function.comp_def]

theorem victims_chosen {e : Key × BlockStatus} (hm : e ∈ p.victims n protect) :
    e ∈ items p ∧ evictable protect e = true := by
  rcases mem_append.mp hm with first | second
  · obtain ⟨inT1, free⟩ := mem_filter.mp (mem_of_mem_take first)
    exact ⟨mem_append_left _ inT1, free⟩
  · obtain ⟨inT2, free⟩ := mem_filter.mp (mem_of_mem_take second)
    exact ⟨mem_append_right _ inT2, free⟩

theorem length_victims (enough : n ≤ p.reach1 protect + (p.free2 protect).length) : (p.victims n protect).length = n := by
  have atMost : p.reach1 protect ≤ (p.free1 protect).length := Nat.min_le_left _ _
  simp only [victims, length_append, length_take]
  omega

variable (p n protect) in
def Suffices : Prop :=
  n ≤ p.reach1 protect + (p.free2 protect).length ∨ (p.free1 protect).length + (p.free2 protect).length < n

variable (separate : p.Separate)
include separate

theorem victims_nodup : ((p.victims n protect).map Prod.fst).Nodup := by
  rw [victims, map_append, nodup_append]
  refine ⟨free1_nodup.sublist ((take_sublist _ _).map _), free2_nodup.sublist ((take_sublist _ _).map _), ?_⟩
  rintro key first _ second rfl
  exact separate key (free1_subset (((take_sublist _ _).map Prod.fst).subset first))
    (free2_subset (((take_sublist _ _).map Prod.fst).subset second))

theorem get_foldl_evictOne (key : Key) :
    ((p.chosen protect n).candidates.foldl evictOne p).get key =
      if key ∈ (p.victims n protect).map Prod.fst then none else p.get key := by
  simp only [chosen, foldl_append, get, foldl_evictOne_t1, foldl_evictOne_t2, get?_eraseAll, victims, map_append, mem_append]
  by_cases first : key ∈ ((p.free1 protect).take (min n (p.reach1 protect))).map Prod.fst
  · have absent := get?_eq_none_iff.mpr (separate key (free1_subset (((take_sublist _ _).map Prod.fst).subset first)))
    simp only [absent, ite_self, Option.or_self, true_or, if_true, first]
  · by_cases second : key ∈ ((p.free2 protect).take (n - p.reach1 protect)).map Prod.fst
    · have absent := get?_eq_none_iff.mpr fun inT1 =>
        separate key inT1 (free2_subset (((take_sublist _ _).map Prod.fst).subset second))
      rw [if_neg first, if_pos second, if_pos (.inr second), absent, none_or]
    · rw [if_neg first, if_neg second, if_neg (not_or.mpr ⟨first, second⟩)]

theorem evict_none_iff : (evict n protect p).1 = none ↔ ¬ n ≤ p.reach1 protect + (p.free2 protect).length := by
  unfold evict
  rw [select_eq separate]
  by_cases zero : n = 0
  · simp [zero]
  · by_cases enough : n ≤ p.reach1 protect + (p.free2 protect).length <;> simp [zero, enough]

theorem evict_some (hf : (evict n protect p).1 = some evicted) :
    n ≤ p.reach1 protect + (p.free2 protect).length ∧ evicted = p.victims n protect ∧
      ∀ key, (evict n protect p).2.get key = if key ∈ evicted.map Prod.fst then none else p.get key := by
  have enough : n ≤ p.reach1 protect + (p.free2 protect).length := by
    by_contra short
    rw [(evict_none_iff separate).mpr short] at hf
    cases hf
  refine ⟨enough, ?_⟩
  unfold evict at hf ⊢
  by_cases zero : n = 0
  · subst zero
    simp only [↓reduceIte, some.injEq] at hf
    subst hf
    simp [victims]
  · simp only [zero, ↓reduceIte, select_eq separate, enough, chosen_candidates, some.injEq] at hf ⊢
    subst hf
    exact ⟨rfl, get_foldl_evictOne separate⟩

theorem evict_unchanged (refused : (evict n protect p).1 = none) : (evict n protect p).2 = p := by
  have short := (evict_none_iff separate).mp refused
  unfold evict
  rw [select_eq separate]
  by_cases zero : n = 0 <;> simp [zero, short]

theorem evictContract_iff_suffices : EvictContract p n protect ↔ Suffices p n protect := by
  constructor
  · intro contract
    have refused := contract.refused_iff
    rw [numEvictable_eq] at refused
    have few := (evict_none_iff separate).symm.trans refused
    unfold Suffices
    omega
  intro suffices'
  have atMost : p.reach1 protect ≤ (p.free1 protect).length := Nat.min_le_left _ _
  unfold Suffices at suffices'
  refine ⟨?_, evict_unchanged separate, ?_, ?_, ?_, ?_⟩
  · rw [numEvictable_eq]
    refine (evict_none_iff separate).trans ?_
    omega
  · intro evicted hf
    obtain ⟨enough, rfl, _⟩ := evict_some separate hf
    exact length_victims enough
  · intro evicted hf
    obtain ⟨_, rfl, _⟩ := evict_some separate hf
    exact victims_nodup separate
  · intro evicted hf e hm
    obtain ⟨_, rfl, _⟩ := evict_some separate hf
    exact victims_chosen hm
  · intro evicted hf key
    obtain ⟨_, _, gone⟩ := evict_some separate hf
    exact gone key

end

def FreshInsert (p : ARCCachePolicy Key) : PolicyCall Key → Prop
  | .insert key _ => key ∉ p.t2
  | _ => True

theorem separate_insert (separate : p.Separate) {key : Key} (fresh : key ∉ p.t2)
    (block : BlockStatus) : (insert key block p).Separate := by
  intro key' inT1
  rcases mem_insert.mp inT1 with rfl | before
  · exact fresh
  · exact separate key' before

theorem separate_remove (separate : p.Separate) (key : Key) : (remove key p).Separate := by
  unfold remove
  split
  · intro key' inT1
    exact separate key' (mem_erase.mp inT1).2
  · intro key' inT1 inT2
    exact separate key' inT1 (mem_erase.mp inT2).2

theorem separate_touchKey (separate : p.Separate) (key : Key) : (touchKey p key).Separate := by
  unfold touchKey
  split
  · split
    · intro key' inT1 inT2
      obtain ⟨other, inT1⟩ := mem_erase.mp inT1
      rcases mem_insert.mp inT2 with hs | inT2
      · exact other hs
      · exact separate key' inT1 inT2
    · intro key' inT1
      exact separate key' (mem_moveToEnd.mp inT1)
  · split
    · intro key' inT1 inT2
      exact separate key' inT1 (mem_moveToEnd.mp inT2)
    · split
      · exact separate
      · split <;> exact separate

omit [DecidableEq Key] in
theorem separate_foldl {γ : Type} {f : ARCCachePolicy Key → γ → ARCCachePolicy Key}
    (step : ∀ p x, p.Separate → (f p x).Separate) (items : List γ) (separate : p.Separate) :
    (items.foldl f p).Separate := by
  induction items generalizing p with
  | nil => exact separate
  | cons x rest ih => exact ih (step p x separate)

theorem separate_touch (separate : p.Separate) (keys : List Key) : (touch keys p).Separate :=
  separate_foldl (fun _ key kept => separate_touchKey kept key) _ separate

theorem separate_evictOne (p : ARCCachePolicy Key) (e : Key × BlockStatus × Bool) (separate : p.Separate) :
    (evictOne p e).Separate := by
  unfold evictOne
  split
  · intro key inT1
    exact separate key (mem_erase.mp inT1).2
  · intro key inT1 inT2
    exact separate key inT1 (mem_erase.mp inT2).2

theorem separate_evict (separate : p.Separate) (n : Nat) (protect : List Key) : (evict n protect p).2.Separate := by
  unfold evict
  split
  · exact separate
  · split
    · exact separate
    · exact separate_foldl separate_evictOne _ separate

theorem separate_setRefCnt (separate : p.Separate) (key : Key) (refCnt : Int) : (setRefCnt key refCnt p).Separate := by
  unfold setRefCnt
  split
  · rename_i hf
    intro key' inT1
    rcases mem_insert.mp inT1 with rfl | before
    · exact separate key' (mem_of_get?_eq hf)
    · exact separate key' before
  · split
    · rename_i hf
      intro key' inT1 inT2
      rcases mem_insert.mp inT2 with rfl | before
      · exact separate key' inT1 (mem_of_get?_eq hf)
      · exact separate key' inT1 before
    · exact separate

theorem separate_exec (separate : p.Separate) {call : PolicyCall Key} (fresh : FreshInsert p call) :
    (call.exec p).Separate := by
  cases call with
  | insert key block => exact separate_insert separate fresh block
  | touch keys => exact separate_touch separate keys
  | remove key => exact separate_remove separate key
  | evict n protect => exact separate_evict separate n protect
  | clear =>
    intro key inT1
    exact absurd inT1 (not_mem_empty key)
  | setRefCnt key refCnt => exact separate_setRefCnt separate key refCnt

end ARCCachePolicy

/-- The policies reached from the empty one by calls that meet a condition. -/
inductive Reached {P : Type} [CachePolicy P Key] (allowed : P → PolicyCall Key → Prop) (cacheCapacity : Nat) : P → Prop
  | init : Reached allowed cacheCapacity (init cacheCapacity)
  | call {p : P} (before : Reached allowed cacheCapacity p) (c : PolicyCall Key) (meets : allowed p c) :
      Reached allowed cacheCapacity (c.exec p)

theorem ARCCachePolicy.separate_of_reached {cacheCapacity : Nat}
    (reached : Reached FreshInsert cacheCapacity p) : p.Separate := by
  induction reached with
  | init =>
    intro key inT1
    exact absurd inT1 (not_mem_empty key)
  | call _ c meets ih => exact separate_exec ih meets

def starvingCalls : List (PolicyCall Nat) :=
  [.insert 0 { refCnt := 0, blockId := 0 }, .insert 1 { refCnt := 0, blockId := 1 }, .evict 1 [], .touch [0], .touch [0]]

end KVOffload.Offload
