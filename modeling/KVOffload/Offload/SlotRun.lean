import KVOffload.Offload.CPUManagerSpec

/-!
# Runs of the CPU offloading manager

Slots are never lost or shared, and a block keeps its key and its slot while it is written or read.
-/

namespace KVOffload.Offload

variable (Key : Type) in
inductive ManagerCall where
  | lookup (key : Key)
  | prepareLoad (keys : List Key)
  | completeLoad (keys : List Key)
  | prepareStore (keys : List Key)
  | completeStore (keys : List Key) (success : Bool)
  | touch (keys : List Key)
  | takeEvents

namespace ManagerCall

variable {Key : Type}

def EndsStore (key : Key) : ManagerCall Key → Prop
  | completeStore keys _ => key ∈ keys
  | _ => False

def EndsLoad (key : Key) : ManagerCall Key → Prop
  | completeLoad keys => key ∈ keys
  | _ => False

def StoresOnce : ManagerCall Key → Prop
  | prepareStore keys => keys.Nodup
  | _ => True

variable {P : Type} [DecidableEq Key] [CachePolicy P Key]

def exec : ManagerCall Key → ManagerM P Key Unit
  | lookup key => discard (CPUOffloadingManager.lookup key)
  | prepareLoad keys => discard (CPUOffloadingManager.prepareLoad keys)
  | completeLoad keys => CPUOffloadingManager.completeLoad keys
  | prepareStore keys => discard (CPUOffloadingManager.prepareStore keys)
  | completeStore keys success => CPUOffloadingManager.completeStore keys success
  | touch keys => modify (CPUOffloadingManager.touch keys)
  | takeEvents => discard CPUOffloadingManager.takeEvents

end ManagerCall

/-- A call, or the reset of the cache. -/
inductive ResetCall (Key : Type) where
  | call (c : ManagerCall Key)
  | resetCache

def ResetCall.exec {P Key : Type} [DecidableEq Key] [CachePolicy P Key] : ResetCall Key → ManagerM P Key Unit
  | call c => c.exec
  | resetCache => modify CPUOffloadingManager.resetCache

namespace CPUOffloadingManager

variable {P Key : Type} [DecidableEq Key] [CachePolicy P Key]

def Storing (m : CPUOffloadingManager P Key) (key : Key) (slot : Nat) : Prop :=
  m.block key = some { refCnt := -1, blockId := slot }

def Loading (m : CPUOffloadingManager P Key) (key : Key) (slot : Nat) : Prop :=
  ∃ refCnt > 0, m.block key = some { refCnt, blockId := slot }

variable {m : CPUOffloadingManager P Key} {keys : List Key}

theorem Storing.count_eq_zero {key : Key} {slot : Nat} (written : m.Storing key slot)
    (ready : m.Ready keys) : keys.count key = 0 := by
  apply List.count_eq_zero_of_not_mem
  intro hm
  obtain ⟨b, hf, nonneg⟩ := ready key hm
  rw [written] at hf
  obtain rfl := Option.some.inj hf
  exact absurd nonneg (by simp)

theorem Pinned.ready (pinned : m.Pinned keys) : m.Ready keys := by
  intro key hm
  obtain ⟨b, hf, enough⟩ := pinned key hm
  exact ⟨b, hf, by omega⟩

variable [LawfulCachePolicy P Key]

structure Keeps (c : ManagerCall Key) (m m' : CPUOffloadingManager P Key) : Prop where
  slots : m'.Slots
  covered : c.StoresOnce → m.Covered → m'.Covered
  storing : ∀ key slot, ¬ c.EndsStore key → m.Storing key slot → m'.Storing key slot
  loading : ∀ key slot, ¬ c.EndsLoad key → m.Loading key slot → m'.Loading key slot

variable {m' : CPUOffloadingManager P Key} {c : ManagerCall Key} {done : List Key}

theorem Recounted.keeps {f : Key → Int → Int} (recounted : Recounted f m m') (slots : m.Slots)
    (storing : ∀ key slot, ¬ c.EndsStore key → m.Storing key slot → f key (-1) = -1)
    (loading : ∀ key b, ¬ c.EndsLoad key → m.block key = some b → b.refCnt > 0 → f key b.refCnt > 0) : Keeps c m m' where
  slots := recounted.slots slots
  covered _ := recounted.covered.mpr
  storing key slot running written := by
    have after := recounted.after written
    rwa [storing key slot running written] at after
  loading key slot running := by
    rintro ⟨refCnt, hp, hf⟩
    exact ⟨_, loading key _ running hf hp, recounted.after hf⟩

theorem keeps_refl (slots : m.Slots) : Keeps c m m :=
  ⟨slots, fun _ h => h, fun _ _ _ h => h, fun _ _ _ h => h⟩

theorem keeps_prepareLoad (slots : m.Slots)
    (recounted : Recounted (fun key r => r + done.count key) m m') (ready : m.Ready done) :
    Keeps (.prepareLoad keys) m m' := by
  refine recounted.keeps slots ?_ ?_
  · intro key slot _ written
    simp [written.count_eq_zero ready]
  · intro key b _ _ hp
    omega

theorem keeps_completeLoad (slots : m.Slots)
    (recounted : Recounted (fun key r => r - done.count key) m m') (pinned : m.Pinned done) (part : done ⊆ keys) :
    Keeps (.completeLoad keys) m m' := by
  refine recounted.keeps slots ?_ ?_
  · intro key slot _ written
    simp [written.count_eq_zero pinned.ready]
  · intro key b running _ hp
    have other := List.count_eq_zero_of_not_mem fun hm => running (part hm)
    omega

theorem Stored.keeps {out : PrepareStoreOutput Key} (stored : Stored keys out m m') : Keeps (.prepareStore keys) m m' := by
  have busy : ∀ key b, m.block key = some b → b.refCnt ≠ 0 → m'.block key = some b := by
    intro key b hf used
    have notStored : key ∉ out.keysToStore := by
      intro hm
      rw [stored.keysToStore] at hm
      rw [keysToStore_absent hm] at hf
      cases hf
    have notEvicted : key ∉ out.evictedKeys := by
      intro hm
      obtain ⟨_, b', hf', idle⟩ := stored.evicted key hm
      rw [hf] at hf'
      obtain rfl := Option.some.inj hf'
      exact used idle
    rw [stored.others key notStored, if_neg notEvicted, hf]
  refine ⟨stored.slots, stored.covered, fun key slot _ written => busy key _ written (by simp), ?_⟩
  rintro key slot _ ⟨refCnt, hp, hf⟩
  exact ⟨refCnt, hp, busy key _ hf (Int.ne_of_gt hp)⟩

theorem Dropped.keeps {success : Bool} (dropped : Dropped keys m m') : Keeps (.completeStore keys success) m m' := by
  refine ⟨dropped.slots, fun _ => dropped.covered, ?_, ?_⟩
  · intro key slot running written
    have other : key ∉ keys := running
    rw [Storing, dropped.block, written]
    simp [other]
  · rintro key slot _ ⟨refCnt, hp, hf⟩
    refine ⟨refCnt, hp, ?_⟩
    have ready : (BlockStatus.mk refCnt slot).isReady = true := BlockStatus.isReady_iff.mpr (Int.le_of_lt hp)
    rw [dropped.block, hf]
    simp [ready]

theorem exec_keeps (slots : m.Slots) (c : ManagerCall Key) : Keeps c m (finalState c.exec m) := by
  suffices outcome : wp c.exec (fun _ m' => Keeps c m m') (fun _ m' => Keeps c m m') m from
    (wp_outcome (P := fun _ m' => Keeps c m m')).mp outcome
  cases c with
  | lookup key =>
    simp only [ManagerCall.exec, wp_discard, lookup, wp_bind, wp_get, wp_ensure, wp_modify]
    refine ⟨fun _ => ?_, fun _ => keeps_refl slots⟩
    have kept : Keeps (.lookup key) m (m.setCounts (m.counts.map (trackLookup key m.maxTrackerSize))) :=
      ⟨⟨slots.inv, slots.apart, slots.bounded⟩, fun _ h => h, fun _ _ _ h => h, fun _ _ _ h => h⟩
    split <;> exact kept
  | prepareLoad keys =>
    rw [ManagerCall.exec, wp_discard]
    refine wp_mono (wp_prepareLoad slots.inv keys) ?_ ?_
    · rintro ids m' ⟨recounted, ready, _⟩
      exact keeps_prepareLoad slots recounted ready
    · rintro e m' ⟨_, done, recounted, ready⟩
      exact keeps_prepareLoad slots recounted ready
  | completeLoad keys =>
    refine wp_mono (wp_completeLoad slots.inv keys) ?_ ?_
    · rintro _ m' ⟨recounted, pinned⟩
      exact keeps_completeLoad slots recounted pinned (List.Subset.refl _)
    · rintro e m' ⟨_, done, part, recounted, pinned⟩
      exact keeps_completeLoad slots recounted pinned part
  | prepareStore keys =>
    rw [ManagerCall.exec, wp_discard]
    refine wp_mono (wp_prepareStore slots keys) ?_ (fun _ _ h => h.elim)
    rintro out m' (⟨_, rfl⟩ | ⟨o, _, stored⟩)
    · exact keeps_refl slots
    · exact stored.keeps
  | completeStore keys success =>
    cases success with
    | true =>
      refine wp_mono (wp_completeStore_success slots.inv keys) ?_ (fun _ _ h => h.elim)
      intro _ m' recounted
      refine recounted.keeps slots ?_ ?_
      · intro key slot running _
        have other : key ∉ keys := running
        simp [storedCount, other]
      · intro key b _ _ hp
        rw [storedCount, if_neg (by omega)]
        exact hp
    | false =>
      refine wp_mono (wp_completeStore_failure slots keys) ?_ (fun _ _ h => h.elim)
      intro _ m' dropped
      exact dropped.keeps
  | touch keys =>
    have unchanged : ∀ key, (m.touch keys).block key = m.block key := LawfulCachePolicy.get_touch slots.inv keys
    have holders : (m.touch keys).held = m.held := by
      funext key
      rw [held, unchanged]
      rfl
    refine ⟨⟨LawfulCachePolicy.inv_touch slots.inv keys, ?_, slots.bounded⟩, ?_, ?_, ?_⟩
    · rw [holders]
      exact slots.apart
    · intro _ covered
      rw [Covered, holders]
      exact covered
    · intro key slot _ written
      exact (unchanged key).trans written
    · rintro key slot _ ⟨refCnt, hp, hf⟩
      exact ⟨refCnt, hp, (unchanged key).trans hf⟩
  | takeEvents =>
    exact ⟨⟨slots.inv, slots.apart, slots.bounded⟩, fun _ h => h, fun _ _ _ h => h, fun _ _ _ h => h⟩

theorem run_keeps {I : CPUOffloadingManager P Key → Prop} (allowed : ManagerCall Key → Prop)
    (step : ∀ {m c}, allowed c → I m → Keeps c m (finalState c.exec m) → I (finalState c.exec m))
    (slots : m.Slots) {calls : List (ManagerCall Key)} (all : ∀ c ∈ calls, allowed c) (start : I m) :
    (runPast ManagerCall.exec calls m).Slots ∧ I (runPast ManagerCall.exec calls m) := by
  induction calls generalizing m with
  | nil => exact ⟨slots, start⟩
  | cons c rest ih =>
    have kept := exec_keeps slots c
    exact ih kept.slots (fun c' hm => all c' (.tail _ hm)) (step (all c (.head _)) start kept)

theorem prepareStore_refused (slots : m.Slots) (refused : prepareStore keys m = .ok none m') : m' = m := by
  simp only [prepareStore, bind_ok_iff] at refused
  obtain ⟨_, _, ⟨rfl, rfl⟩, refused⟩ := refused
  split at refused
  · simp at refused
  · obtain ⟨out, m₁, room, refused⟩ := bind_ok_iff.mp refused
    rcases wp_ok (wp_makeRoom slots _ _) room with ⟨rfl, rfl⟩ | ⟨toEvict, rfl, _⟩
    · exact (pure_ok_iff.mp refused).2.symm
    · simp only [bind_ok_iff, pure_ok_iff, reduceCtorEq, false_and] at refused
      obtain ⟨_, _, _, _, _, _, _, _, _, _, _, impossible⟩ := refused
      exact impossible.2.elim

end CPUOffloadingManager

open CPUOffloadingManager in
/-- In every run the slots of the blocks and the free ones are apart, and none is lost if no `prepare_store` named a key twice;
a block that is written or read keeps its key and slot; `prepare_load` returns the slots of its keys; a refused
`prepare_store` changes nothing. -/
theorem slots_of_run {Key : Type} [DecidableEq Key] (name : CachePolicyName) (numBlocks : Nat) (enableEvents : Bool)
    (storeThreshold maxTrackerSize : Nat) (calls : List (ManagerCall Key)) :
    let m : CPUOffloadingManager (name.Policy Key) Key :=
      runPast ManagerCall.exec calls (init numBlocks enableEvents storeThreshold maxTrackerSize)
    Apart m.held m.freeList m.numAllocatedBlocks ∧ m.numAllocatedBlocks ≤ m.numBlocks ∧
      ((∀ c ∈ calls, c.StoresOnce) → Covers m.held m.freeList m.numAllocatedBlocks) ∧
      (∀ (later : List (ManagerCall Key)) key slot,
        ((∀ c ∈ later, ¬ c.EndsStore key) → m.Storing key slot → (runPast ManagerCall.exec later m).Storing key slot) ∧
        ((∀ c ∈ later, ¬ c.EndsLoad key) → m.Loading key slot → (runPast ManagerCall.exec later m).Loading key slot)) ∧
      (∀ keys ids m', prepareLoad keys m = .ok ids m' → List.Forall₂ (fun key id => m.held key = some id) keys ids) ∧
      ∀ keys m', prepareStore keys m = .ok none m' → m' = m := by
  intro m
  have start := slots_init (P := name.Policy Key) numBlocks enableEvents storeThreshold maxTrackerSize
  have slots : m.Slots :=
    (run_keeps (I := fun _ => True) (fun _ => True) (fun _ _ _ => trivial) start (fun _ _ => trivial) trivial).1
  refine ⟨slots.apart, slots.bounded, ?_, ?_, ?_, ?_⟩
  · intro once
    exact (run_keeps (I := Covered) ManagerCall.StoresOnce (fun once covered kept => kept.covered once covered) start once
      (by rw [Covered, held_init]; exact Covers.empty)).2
  · intro later key slot
    constructor
    · intro running written
      exact (run_keeps (I := fun m => m.Storing key slot) (¬ ·.EndsStore key)
        (fun running written kept => kept.storing key slot running written) slots running written).2
    · intro running read
      exact (run_keeps (I := fun m => m.Loading key slot) (¬ ·.EndsLoad key)
        (fun running read kept => kept.loading key slot running read) slots running read).2
  · intro keys ids m' run
    exact (wp_ok (wp_prepareLoad slots.inv keys) run).2.2
  · intro keys m' refused
    exact prepareStore_refused slots refused

def twoStores : List (ManagerCall Nat) := [.prepareStore [7, 8], .completeStore [7] true, .prepareLoad [7]]

open CPUOffloadingManager in
theorem slots_of_run_two_stores :
    (∀ c ∈ twoStores, c.StoresOnce) ∧
      let m : CPUOffloadingManager (CachePolicyName.arc.Policy Nat) Nat := runPast ManagerCall.exec twoStores (init 2 false 1 0)
      m.Storing 8 1 ∧ Covers m.held m.freeList m.numAllocatedBlocks := by
  have once : ∀ c ∈ twoStores, c.StoresOnce := by simp [twoStores, ManagerCall.StoresOnce]
  exact ⟨once, rfl, (slots_of_run .arc 2 false 1 0 twoStores).2.2.1 once⟩

open CPUOffloadingManager in
theorem slot_lost_by_repeated_key :
    let m : CPUOffloadingManager (CachePolicyName.lru.Policy Nat) Nat :=
      runPast ManagerCall.exec [.prepareStore [7, 7]] (init 2 false 1 0)
    m.numAllocatedBlocks = 2 ∧ m.freeList = [] ∧ (∀ key, m.held key ≠ some 0) ∧
      ¬ Covers m.held m.freeList m.numAllocatedBlocks := by
  intro m
  have unheld : ∀ key, m.held key ≠ some 0 := by
    intro key taken
    obtain ⟨b, found, slot⟩ := Option.map_eq_some_iff.mp taken
    have member : (key, b) ∈ [(7, { blockId := 1 })] := OrderedDict.mem_of_get? found
    obtain rfl : b = { blockId := 1 } := by simpa using congrArg Prod.snd (List.mem_singleton.mp member)
    simp at slot
  refine ⟨rfl, rfl, unheld, fun covers => ?_⟩
  rcases covers 0 (by decide) with free | ⟨key, taken⟩
  · simp [show m.freeList = [] from rfl] at free
  · exact unheld key taken

end KVOffload.Offload
