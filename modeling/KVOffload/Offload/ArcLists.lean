import KVOffload.Offload.SlotRun

/-!
# The lists of the ARC policy

A key is in one of T1, T2 and the ghost lists B1 and B2 at most, and every call of the manager keeps it so.
-/

namespace KVOffload.Offload

open List OrderedDict ARCCachePolicy

namespace ARCCachePolicy

variable {Key β : Type} {p : ARCCachePolicy Key} {key : Key} {c : Nat}

/-- No key is in two of the four lists, and the target size is within the capacity `c`. -/
structure Arranged (c : Nat) (p : ARCCachePolicy Key) : Prop where
  capacity : p.cacheCapacity = c
  separate : p.Separate
  cached : ∀ key, key ∈ p.t1 ∨ key ∈ p.t2 → key ∉ p.b1 ∧ key ∉ p.b2
  ghosts : ∀ key ∈ p.b1, key ∉ p.b2
  target : 0 ≤ p.targetT1Size ∧ p.targetT1Size ≤ c

def Trimmed (c : Nat) (p : ARCCachePolicy Key) : Prop := p.b1.keys.length ≤ c ∧ p.b2.keys.length ≤ c

theorem mem_dropOldest {d : OrderedDict Key β} {n : Nat} (hm : key ∈ d.dropOldest n) : key ∈ d :=
  ((drop_sublist n d.entries).map Prod.fst).subset hm

variable [DecidableEq Key]

theorem length_keys_moveToEnd (d : OrderedDict Key β) (key : Key) : (d.moveToEnd key).keys.length = d.keys.length := by
  rw [← length_values, ← length_values]
  exact (values_moveToEnd_perm d key).length_eq

theorem length_keys_erase_le (d : OrderedDict Key β) (key : Key) : (d.erase key).keys.length ≤ d.keys.length := by
  rw [keys_erase]
  exact length_filter_le _ _

section

variable (arranged : p.Arranged c)

include arranged

theorem Arranged.touchKey (key : Key) : (touchKey p key).Arranged c := by
  obtain ⟨capacity, separate, cached, ghosts, low, high⟩ := arranged
  have step : ∀ a b, 0 < delta a b := fun a b => lt_of_lt_of_le zero_lt_one (le_max_left _ _)
  refine ⟨?_, separate_touchKey separate key, ?_, ?_, ?_⟩ <;> unfold ARCCachePolicy.touchKey <;>
    grind [mem_insert, mem_erase, mem_moveToEnd, mem_of_get?_eq]

theorem Arranged.evictOne {e : Key × BlockStatus × Bool} (held : if e.2.2 then e.1 ∈ p.t1 else e.1 ∈ p.t2) :
    (evictOne p e).Arranged c := by
  obtain ⟨capacity, separate, cached, ghosts, target⟩ := arranged
  refine ⟨?_, separate_evictOne p e separate, ?_, ?_, ?_⟩ <;> unfold ARCCachePolicy.evictOne <;> unfold Separate at separate <;>
    grind [mem_insert, mem_erase]

theorem Arranged.foldl_evictOne {es : List (Key × BlockStatus × Bool)} (hd : (es.map Prod.fst).Nodup)
    (held : ∀ e ∈ es, if e.2.2 then e.1 ∈ p.t1 else e.1 ∈ p.t2) : (es.foldl ARCCachePolicy.evictOne p).Arranged c := by
  induction es generalizing p with
  | nil => exact arranged
  | cons e rest ih =>
    obtain ⟨fresh, hd⟩ := nodup_cons.mp hd
    refine ih (arranged.evictOne (held e (.head _))) hd fun e' hm => ?_
    unfold ARCCachePolicy.evictOne
    grind [mem_erase]

theorem arranged_evict (trimmed : p.Trimmed c) (n : Nat) (protect : List Key) :
    (evict n protect p).2.Arranged c ∧ (evict n protect p).2.Trimmed c := by
  unfold evict
  split
  · exact ⟨arranged, trimmed⟩
  rw [select_eq arranged.separate]
  split
  · exact ⟨arranged, trimmed⟩
  rename_i s chosen
  obtain ⟨_, rfl⟩ : _ ∧ p.chosen protect n = s := by simpa using chosen
  have names : (p.chosen protect n).candidates.map Prod.fst = (p.victims n protect).map Prod.fst := by
    rw [← chosen_candidates, map_map]
    rfl
  have held : ∀ e ∈ (p.chosen protect n).candidates, if e.2.2 then e.1 ∈ p.t1 else e.1 ∈ p.t2 := by
    intro e hm
    rcases mem_append.mp hm with first | second
    · obtain ⟨e, taken, rfl⟩ := mem_map.mp first
      exact free1_subset (mem_map_of_mem (mem_of_mem_take taken))
    · obtain ⟨e, taken, rfl⟩ := mem_map.mp second
      exact free2_subset (mem_map_of_mem (mem_of_mem_take taken))
  obtain ⟨capacity, separate, cached, ghosts, target⟩ :=
    arranged.foldl_evictOne (names ▸ victims_nodup arranged.separate) held
  refine ⟨⟨capacity, separate, ?_, ?_, target⟩, ?_⟩
  · intro key hm
    exact ⟨fun old => (cached key hm).1 (mem_dropOldest old), fun old => (cached key hm).2 (mem_dropOldest old)⟩
  · intro key hm old
    exact ghosts key (mem_dropOldest hm) (mem_dropOldest old)
  · simp only [Trimmed, trimGhosts, OrderedDict.keys, dropOldest, length_map, length_drop]
    omega

end

omit [DecidableEq Key] in
theorem arranged_clear (p : ARCCachePolicy Key) : p.clear.Arranged p.cacheCapacity ∧ p.clear.Trimmed p.cacheCapacity := by
  refine ⟨⟨rfl, nofun, ?_, nofun, le_refl _, Nat.cast_nonneg _⟩, Nat.zero_le _, Nat.zero_le _⟩
  simp [clear]

theorem arranged_exec (arranged : p.Arranged c) (trimmed : p.Trimmed c) {call : PolicyCall Key} (fresh : FreshInsert p call) :
    (call.exec p).Arranged c ∧ (call.exec p).Trimmed c := by
  cases call with
  | insert key block =>
    obtain ⟨capacity, separate, cached, ghosts, target⟩ := arranged
    refine ⟨⟨capacity, separate_insert separate fresh block, ?_, ?_, target⟩,
      (length_keys_erase_le _ _).trans trimmed.1, (length_keys_erase_le _ _).trans trimmed.2⟩
    all_goals
      simp only [PolicyCall.exec, CachePolicy.insert, insert]
      grind [mem_insert, mem_erase]
  | touch keys =>
    change (keys.reverse.foldl touchKey p).Arranged c ∧ (keys.reverse.foldl touchKey p).Trimmed c
    generalize keys.reverse = order
    induction order generalizing p with
    | nil => exact ⟨arranged, trimmed⟩
    | cons key rest ih =>
      refine ih (arranged.touchKey key) ?_ trivial
      unfold touchKey Trimmed
      grind [Trimmed, length_keys_moveToEnd]
  | remove key =>
    obtain ⟨capacity, separate, cached, ghosts, target⟩ := arranged
    simp only [PolicyCall.exec, CachePolicy.remove, remove]
    refine ⟨⟨?_, separate_remove separate key, ?_, ?_, ?_⟩, ?_⟩ <;> grind [mem_erase, Trimmed]
  | evict n protect => exact arranged_evict arranged trimmed n protect
  | clear => exact arranged.capacity ▸ p.arranged_clear
  | setRefCnt key refCnt =>
    obtain ⟨capacity, separate, cached, ghosts, target⟩ := arranged
    simp only [PolicyCall.exec, CachePolicy.setRefCnt, setRefCnt]
    refine ⟨⟨?_, separate_setRefCnt separate key refCnt, ?_, ?_, ?_⟩, ?_⟩ <;> grind [mem_insert, mem_of_get?_eq, Trimmed]

end ARCCachePolicy

namespace CPUOffloadingManager

section

variable {P Key : Type} [DecidableEq Key] [CachePolicy P Key] [LawfulCachePolicy P Key] {m : CPUOffloadingManager P Key}

theorem written_exec (slots : m.Slots) (c : ManagerCall Key) :
    ∃ counts events, Written { m with counts, events } (finalState c.exec m) := by
  apply finalState_of_wp (P := fun m' => ∃ counts events, Written { m with counts, events } m')
  have untold : ∀ {m'}, Written m m' → ∃ counts events, Written { m with counts, events } m' := fun written => ⟨_, _, written⟩
  cases c with
  | lookup key =>
    simp only [ManagerCall.exec, wp_discard, lookup, wp_bind, wp_get, wp_ensure, wp_modify]
    refine ⟨fun _ => ?_, fun _ => untold .refl⟩
    split <;> exact ⟨_, _, .refl⟩
  | prepareLoad keys =>
    rw [ManagerCall.exec, wp_discard]
    exact wp_mono (written_prepareLoad keys) (fun _ _ => untold) fun _ _ => untold
  | completeLoad keys => exact wp_mono (written_completeLoad keys) (fun _ _ => untold) fun _ _ => untold
  | prepareStore keys =>
    rw [ManagerCall.exec, wp_discard]
    have outcome := wp_and (written_prepareStore slots keys) (wp_prepareStore slots keys)
    exact wp_mono outcome (fun _ _ done => ⟨_, _, done.1⟩) fun _ _ h => h.2.elim
  | completeStore keys success =>
    refine wp_mono (written_completeStore keys success) ?_ fun _ _ => untold
    intro _ m' done
    obtain ⟨stored, written⟩ := done
    exact ⟨_, _, written⟩
  | touch keys => exact untold (Written.refl.policy (.touch keys) trivial)
  | takeEvents => exact ⟨_, _, .refl⟩

end

theorem length_cached_le {Key : Type} [DecidableEq Key] {m : CPUOffloadingManager (ARCCachePolicy Key) Key} (slots : m.Slots) :
    m.policy.t1.keys.length + m.policy.t2.keys.length ≤ m.numBlocks := by
  rw [← length_append]
  refine (slots.apart.length_le ?_ ?_).trans slots.bounded
  · rw [nodup_append']
    exact ⟨nodup_keys _, nodup_keys _, slots.inv⟩
  intro key hm
  have cached : (get m.policy key).isSome := by
    rcases mem_append.mp hm with first | second
    · obtain ⟨b, hf⟩ := mem_iff_get?.mp first
      simp [ARCCachePolicy.get, hf]
    · obtain ⟨b, hf⟩ := mem_iff_get?.mp second
      simp [ARCCachePolicy.get, hf]
  obtain ⟨b, hf⟩ := Option.isSome_iff_exists.mp cached
  exact ⟨b.blockId, congrArg (Option.map _) hf⟩

end CPUOffloadingManager

open CPUOffloadingManager in
/-- In every run over ARC, resets included, no key is in two of the four lists, the blocks of T1 and T2 fit into the cache,
and the ghost lists and the target size are within its capacity. -/
theorem arc_lists_of_run {Key : Type} [DecidableEq Key] (c : Nat) (enableEvents : Bool) (storeThreshold maxTrackerSize : Nat)
    (calls : List (ResetCall Key)) :
    let m : CPUOffloadingManager (ARCCachePolicy Key) Key :=
      runPast ResetCall.exec calls (init c enableEvents storeThreshold maxTrackerSize)
    m.policy.Arranged c ∧ m.policy.Trimmed c ∧ m.policy.t1.keys.length + m.policy.t2.keys.length ≤ c := by
  intro m
  let Kept (m : CPUOffloadingManager (ARCCachePolicy Key) Key) : Prop :=
    m.Slots ∧ m.numBlocks = c ∧ m.policy.Arranged c ∧ m.policy.Trimmed c
  have step : ∀ (call : ResetCall Key) m, True → Kept m → Kept (finalState call.exec m) := by
    intro call m _ kept
    obtain ⟨slots, size, arranged, trimmed⟩ := kept
    cases call with
    | call call =>
      obtain ⟨counts, events, written⟩ := written_exec slots call
      refine ⟨(exec_keeps slots call).slots, (congrArg (·.numBlocks) written.unchanged).trans size, ?_⟩
      refine written.invariant (I := fun p => p.Arranged c ∧ p.Trimmed c) ?_ ⟨arranged, trimmed⟩
      intro p call fits kept
      exact arranged_exec kept.1 kept.2 (by cases call <;> exact fits)
    | resetCache =>
      refine ⟨slots_resetCache m, size, ?_⟩
      rw [← arranged.capacity]
      exact m.policy.arranged_clear
  have start : Kept (init c enableEvents storeThreshold maxTrackerSize) :=
    ⟨slots_init .., rfl, arranged_clear { cacheCapacity := c }⟩
  obtain ⟨slots, size, arranged, trimmed⟩ : Kept m := EveryStep.runPast step (EveryStep.of_forall fun _ _ => trivial) start
  exact ⟨arranged, trimmed, size ▸ length_cached_le slots⟩

end KVOffload.Offload
