import KVOffload.Lib.SlotPool
import KVOffload.Lib.Purge
import KVOffload.Offload.CPUManager
import KVOffload.Offload.PolicyLaws

/-!
# Slots of the CPU cache

Some calls only change reference counts (`Recounted`), a failed store gives slots back (`Dropped`), a new one takes slots
(`Stored`).
-/

namespace KVOffload.Offload

open List CachePolicy LawfulCachePolicy

namespace CPUOffloadingManager

variable {P Key : Type}

variable {m : CPUOffloadingManager P Key}

theorem length_slotsFor {n : Nat}
    (enough : n - min n (m.numBlocks - m.numAllocatedBlocks) ≤ m.freeList.length) : (m.slotsFor n).length = n := by
  simp only [slotsFor, length_append, length_map, length_range, length_take, length_reverse]
  omega

theorem slotsFor_perm (m : CPUOffloadingManager P Key) (n : Nat) :
    (m.freeList ++ (range (min n (m.numBlocks - m.numAllocatedBlocks))).map (m.numAllocatedBlocks + ·)).Perm
      (m.slotsFor n ++ (m.takeSlots n).freeList) := by
  generalize numFresh : min n (m.numBlocks - m.numAllocatedBlocks) = k
  simp only [slotsFor, takeSlots_freeList, numFresh]
  have last : (m.freeList.reverse.take (n - k)).Perm (m.freeList.drop (m.freeList.length - (n - k))) := by
    rw [take_reverse]
    exact reverse_perm _
  have whole : (m.freeList.take (m.freeList.length - (n - k)) ++ m.freeList.reverse.take (n - k)).Perm m.freeList :=
    (last.append_left _).trans (take_append_drop _ _ ▸ List.Perm.refl _)
  refine (whole.symm.append_right _).trans ?_
  refine perm_append_comm.trans ?_
  rw [append_assoc]
  exact (perm_append_comm.append_left _)

theorem foldl_freeBlock (evicted : List (Key × BlockStatus)) (m : CPUOffloadingManager P Key) :
    evicted.foldl (fun m e => m.freeBlock e.2) m = m.setFreeList (m.freeList ++ evicted.map (·.2.blockId)) := by
  induction evicted generalizing m with
  | nil => simp [setFreeList]
  | cons e rest ih =>
    rw [foldl_cons, ih]
    simp [freeBlock, setFreeList]

variable [DecidableEq Key] [CachePolicy P Key]

variable (m) in
def held (key : Key) : Option Nat := (m.block key).map (·.blockId)

variable (m) in
def Ready (keys : List Key) : Prop :=
  ∀ key ∈ keys, ∃ b, m.block key = some b ∧ 0 ≤ b.refCnt

variable (m) in
/-- Blocks that are pinned at least as often as they are listed. -/
def Pinned (keys : List Key) : Prop :=
  ∀ key ∈ keys, ∃ b, m.block key = some b ∧ (keys.count key : Int) ≤ b.refCnt

/-- No slot is lost: each one that was ever used is held or free. -/
def Covered (m : CPUOffloadingManager P Key) : Prop := Covers m.held m.freeList m.numAllocatedBlocks

variable (m) in
def Claimed (key : Key) (slot : Nat) : Prop :=
  Reserved m.held m.freeList m.numAllocatedBlocks key slot

variable [LawfulCachePolicy P Key] {key : Key} {b : BlockStatus} {m' : CPUOffloadingManager P Key}

variable (m) in
structure Slots : Prop where
  inv : LawfulCachePolicy.Inv m.policy
  apart : Apart m.held m.freeList m.numAllocatedBlocks
  bounded : m.numAllocatedBlocks ≤ m.numBlocks

/-- Only reference counts have changed, each by its own rule. -/
structure Recounted (f : Key → Int → Int) (m m' : CPUOffloadingManager P Key) : Prop where
  inv : LawfulCachePolicy.Inv m'.policy
  block : ∀ key, m'.block key = (m.block key).map fun b => { b with refCnt := f key b.refCnt }
  numBlocks : m'.numBlocks = m.numBlocks
  numAllocatedBlocks : m'.numAllocatedBlocks = m.numAllocatedBlocks
  freeList : m'.freeList = m.freeList

namespace Recounted

variable {f g : Key → Int → Int} {m'' : CPUOffloadingManager P Key}

section

variable (recounted : Recounted f m m')

include recounted

theorem held : m'.held = m.held := by
  funext key
  simp [CPUOffloadingManager.held, recounted.block, Function.comp_def]

theorem slots (slots : m.Slots) : m'.Slots where
  inv := recounted.inv
  apart := by
    rw [recounted.held, recounted.freeList, recounted.numAllocatedBlocks]
    exact slots.apart
  bounded := by
    rw [recounted.numAllocatedBlocks, recounted.numBlocks]
    exact slots.bounded

theorem covered : m'.Covered ↔ m.Covered := by
  rw [Covered, Covered, recounted.held, recounted.freeList, recounted.numAllocatedBlocks]

theorem claimed (key : Key) (slot : Nat) : m'.Claimed key slot ↔ m.Claimed key slot := by
  rw [Claimed, Claimed, recounted.held, recounted.freeList, recounted.numAllocatedBlocks]

end

theorem trans (first : Recounted f m m') (second : Recounted g m' m'') :
    Recounted (fun key refCnt => g key (f key refCnt)) m m'' where
  inv := second.inv
  block key := by
    rw [second.block, first.block, Option.map_map]
    rfl
  numBlocks := second.numBlocks.trans first.numBlocks
  numAllocatedBlocks := second.numAllocatedBlocks.trans first.numAllocatedBlocks
  freeList := second.freeList.trans first.freeList

theorem congr (recounted : Recounted f m m')
    (hs : ∀ key b, m.block key = some b → f key b.refCnt = g key b.refCnt) : Recounted g m m' :=
  { recounted with
    block := fun key => by
      rw [recounted.block]
      cases hf : m.block key with
      | none => rfl
      | some b => rw [Option.map_some, Option.map_some, hs key b hf] }

theorem refl (inv : LawfulCachePolicy.Inv m.policy) : Recounted (fun _ refCnt => refCnt) m m where
  inv := inv
  block key := by simp
  numBlocks := rfl
  numAllocatedBlocks := rfl
  freeList := rfl

theorem before (recounted : Recounted f m m') {b' : BlockStatus} (hf : m'.block key = some b') :
    ∃ b, m.block key = some b ∧ b'.blockId = b.blockId ∧ b'.refCnt = f key b.refCnt := by
  rw [recounted.block] at hf
  obtain ⟨b, held, rfl⟩ := Option.map_eq_some_iff.mp hf
  exact ⟨b, held, rfl, rfl⟩

theorem after (recounted : Recounted f m m') (hf : m.block key = some b) :
    m'.block key = some { b with refCnt := f key b.refCnt } := by
  rw [recounted.block, hf, Option.map_some]

end Recounted

theorem recounted_setRefCnt (inv : LawfulCachePolicy.Inv m.policy) (key : Key)
    (refCnt : Int) : Recounted (fun key' r => if key' = key then refCnt else r) m (m.setRefCnt key refCnt) where
  inv := inv_setRefCnt inv key _
  block key' := by
    change CachePolicy.get (CachePolicy.setRefCnt key refCnt m.policy) key' = _
    rw [get_setRefCnt inv]
    by_cases hs : key' = key
    · subst hs
      simp [block]
    · simp [hs, block]
  numBlocks := rfl
  numAllocatedBlocks := rfl
  freeList := rfl

theorem recounted_add (inv : LawfulCachePolicy.Inv m.policy)
    (hf : m.block key = some b) (by' : Int) :
    Recounted (fun key' r => r + if key' = key then by' else 0) m (m.setRefCnt key (b.refCnt + by')) := by
  apply (recounted_setRefCnt inv key _).congr
  intro key' b' hf'
  by_cases hs : key' = key
  · subst hs
    rw [hf] at hf'
    obtain rfl := Option.some.inj hf'
    simp
  · simp [hs]

theorem count_cons_eq (key : Key) (keys : List Key) (key' : Key) :
    (((key :: keys).count key') : Int) = (if key' = key then 1 else 0) + (keys.count key') := by
  by_cases hs : key' = key
  · simp [hs, Int.add_comm]
  · simp [hs, Ne.symm]

theorem ready_iff_of_pin (hf : m.block key = some b)
    (ready : 0 ≤ b.refCnt) (pinned : Recounted (fun key' r => r + if key' = key then 1 else 0) m m') (keys : List Key) :
    m'.Ready keys ↔ m.Ready (key :: keys) := by
  constructor
  · intro all key' hm
    rcases mem_cons.mp hm with rfl | later
    · exact ⟨b, hf, ready⟩
    obtain ⟨b', hf', ready'⟩ := all key' later
    obtain ⟨b₀, held, _, count⟩ := pinned.before hf'
    refine ⟨b₀, held, ?_⟩
    by_cases hs : key' = key
    · subst hs
      rw [hf] at held
      obtain rfl := Option.some.inj held
      exact ready
    · simp only [hs, ↓reduceIte] at count
      omega
  · intro all key' hm
    obtain ⟨b', hf', ready'⟩ := all key' (.tail _ hm)
    refine ⟨_, pinned.after hf', ?_⟩
    dsimp only
    split <;> omega

/-- `prepare_load` pins the block of each key and returns their slots in order. It raises if one of the blocks cannot
be read, and has then pinned the blocks before that one. -/
theorem wp_prepareLoad (inv : LawfulCachePolicy.Inv m.policy) (keys : List Key) :
    wp (prepareLoad keys)
      (fun ids m' => Recounted (fun key r => r + keys.count key) m m' ∧ m.Ready keys ∧
      List.Forall₂ (fun key id => m.held key = some id) keys ids)
      (fun _ m' => ¬ m.Ready keys ∧ ∃ done, Recounted (fun key r => r + done.count key) m m' ∧ m.Ready done) m := by
  unfold prepareLoad
  induction keys generalizing m with
  | nil =>
    exact ⟨(Recounted.refl inv).congr (by simp), by simp [Ready], .nil⟩
  | cons key rest ih =>
    have still : ∃ done, Recounted (fun key' r => r + done.count key') m m ∧ m.Ready done :=
      ⟨[], (Recounted.refl inv).congr (by simp), by simp [Ready]⟩
    rw [mapM_cons, wp_bind, prepareLoadBlock, wp_bind, wp_get]
    cases hf : m.block key with
    | none =>
      refine ⟨fun all => ?_, still⟩
      obtain ⟨b, held, _⟩ := all key (.head _)
      rw [hf] at held
      cases held
    | some b =>
      simp only [wp_bind, wp_ensure, wp_modify, wp_pure, BlockStatus.isReady_iff]
      constructor
      · intro ready
        have first := recounted_add inv hf 1
        have sum : ∀ {done : List Key} {m'}, Recounted (fun key' r => r + done.count key') (m.setRefCnt key (b.refCnt + 1)) m' →
            Recounted (fun key' r => r + (key :: done).count key') m m' := by
          intro done m' recounted
          apply (first.trans recounted).congr
          intro key' b' _
          rw [count_cons_eq, Int.add_assoc]
        refine wp_mono (ih first.inv) ?_ ?_
        · rintro ids m' ⟨recounted, all, slots⟩
          refine ⟨sum recounted, (ready_iff_of_pin hf ready first rest).mp all, .cons (by simp [held, hf]) ?_⟩
          simpa only [first.held] using slots
        · rintro e m' ⟨notAll, done, recounted, all⟩
          refine ⟨fun all => notAll ((ready_iff_of_pin hf ready first rest).mpr all), key :: done, sum recounted, ?_⟩
          exact (ready_iff_of_pin hf ready first done).mp all
      · intro notReady
        refine ⟨fun all => ?_, still⟩
        obtain ⟨b', held, ready⟩ := all key (.head _)
        rw [hf] at held
        obtain rfl := Option.some.inj held
        exact notReady ready

theorem pinned_iff_of_unpin (hf : m.block key = some b)
    (hp : 0 < b.refCnt) (unpinned : Recounted (fun key' r => r + if key' = key then -1 else 0) m m')
    (keys : List Key) : m'.Pinned keys ↔ m.Pinned (key :: keys) := by
  constructor
  · intro all key' hm
    by_cases later : key' ∈ keys
    · obtain ⟨b', hf', enough⟩ := all key' later
      obtain ⟨b₀, held, _, count⟩ := unpinned.before hf'
      refine ⟨b₀, held, ?_⟩
      rw [count_cons_eq]
      by_cases hs : key' = key <;> simp only [hs, ↓reduceIte] at count enough ⊢ <;> omega
    · rcases mem_cons.mp hm with rfl | inRest
      · refine ⟨b, hf, ?_⟩
        rw [count_cons_eq, count_eq_zero_of_not_mem later, if_pos rfl]
        exact hp
      · exact absurd inRest later
  · intro all key' hm
    obtain ⟨b', hf', enough⟩ := all key' (.tail _ hm)
    refine ⟨_, unpinned.after hf', ?_⟩
    rw [count_cons_eq] at enough
    by_cases hs : key' = key <;> simp only [hs, ↓reduceIte] at enough ⊢ <;> omega

theorem wp_completeLoad (inv : LawfulCachePolicy.Inv m.policy) (keys : List Key) :
    wp (completeLoad keys) (fun _ m' => Recounted (fun key r => r - keys.count key) m m' ∧ m.Pinned keys)
      (fun _ m' => ¬ m.Pinned keys ∧ ∃ done, done ⊆ keys ∧ Recounted (fun key r => r - done.count key) m m' ∧
      m.Pinned done) m := by
  unfold completeLoad
  induction keys generalizing m with
  | nil =>
    exact ⟨(Recounted.refl inv).congr (by simp), by simp [Pinned]⟩
  | cons key rest ih =>
    have still : ∃ done, done ⊆ key :: rest ∧ Recounted (fun key' r => r - done.count key') m m ∧ m.Pinned done :=
      ⟨[], nil_subset _, (Recounted.refl inv).congr (by simp), by simp [Pinned]⟩
    rw [forM_cons, wp_bind, completeLoadBlock, wp_bind, wp_get]
    cases hf : m.block key with
    | none =>
      refine ⟨fun all => ?_, still⟩
      obtain ⟨b, held, _⟩ := all key (.head _)
      rw [hf] at held
      cases held
    | some b =>
      simp only [wp_bind, wp_ensure, wp_modify]
      constructor
      · intro hp
        have first := recounted_add inv hf (-1)
        have sum : ∀ {done : List Key} {m'}, Recounted (fun key' r => r - done.count key') (m.setRefCnt key (b.refCnt - 1)) m' →
            Recounted (fun key' r => r - (key :: done).count key') m m' := by
          intro done m' recounted
          apply (first.trans recounted).congr
          intro key' b' _
          rw [count_cons_eq]
          split <;> omega
        refine wp_mono (ih first.inv) ?_ ?_
        · rintro _ m' ⟨recounted, all⟩
          exact ⟨sum recounted, (pinned_iff_of_unpin hf hp first rest).mp all⟩
        · rintro e m' ⟨notAll, done, part, recounted, all⟩
          exact ⟨fun all => notAll ((pinned_iff_of_unpin hf hp first rest).mpr all), key :: done,
            cons_subset_cons key part, sum recounted, (pinned_iff_of_unpin hf hp first done).mp all⟩
      · intro notPositive
        refine ⟨fun all => ?_, still⟩
        obtain ⟨b', held, enough⟩ := all key (.head _)
        rw [hf] at held
        obtain rfl := Option.some.inj held
        rw [count_cons_eq, if_pos rfl] at enough
        omega

def storedCount (keys : List Key) (key : Key) (refCnt : Int) : Int := if key ∈ keys ∧ refCnt < 0 then 0 else refCnt

theorem wp_markAll (inv : LawfulCachePolicy.Inv m.policy) (keys : List Key) :
    wp (keys.mapM markStored) (fun _ m' => Recounted (storedCount keys) m m') (fun _ _ => False) m := by
  induction keys generalizing m with
  | nil =>
    exact (Recounted.refl inv).congr (by simp [storedCount])
  | cons key rest ih =>
    have step : ∀ {m₁ : CPUOffloadingManager P Key}, Recounted (storedCount [key]) m m₁ →
        wp (rest.mapM markStored) (fun _ m' => Recounted (storedCount (key :: rest)) m m') (fun _ _ => False) m₁ := by
      intro m₁ first
      refine wp_imp (ih first.inv) ?_
      intro _ m' recounted
      apply (first.trans recounted).congr
      intro key' b' _
      simp only [storedCount]
      by_cases hs : key' = key <;> by_cases later : key' ∈ rest <;> by_cases negative : b'.refCnt < 0 <;>
        simp [hs, negative]
    have kept : (∀ b, m.block key = some b → 0 ≤ b.refCnt) → Recounted (storedCount [key]) m m := by
      intro ready
      apply (Recounted.refl inv).congr
      intro key' b' hf'
      simp only [storedCount, mem_singleton]
      split
      · rename_i here
        have := ready b' (here.1 ▸ hf')
        omega
      · rfl
    rw [mapM_cons, wp_bind, markStored, wp_bind, wp_get]
    cases hf : m.block key with
    | none =>
      simp only [wp_bind]
      exact step (kept (by simp [hf]))
    | some b =>
      by_cases ready : b.isReady = true
      · simp only [ready, wp_bind]
        refine step (kept ?_)
        intro b' held
        rw [hf] at held
        obtain rfl := Option.some.inj held
        exact BlockStatus.isReady_iff.mp ready
      simp only [ready, wp_bind]
      refine step ((recounted_setRefCnt inv key 0).congr ?_)
      intro key' b' hf'
      simp only [storedCount]
      by_cases hs : key' = key
      · subst hs
        rw [hf] at hf'
        obtain rfl := Option.some.inj hf'
        have negative : b.refCnt < 0 := by
          rw [BlockStatus.isReady_iff] at ready
          omega
        simp [negative]
      · simp [hs]

theorem wp_completeStore_success (inv : LawfulCachePolicy.Inv m.policy) (keys : List Key) :
    wp (completeStore keys true) (fun _ m' => Recounted (storedCount keys) m m') (fun _ _ => False) m := by
  unfold completeStore
  rw [if_pos rfl, wp_bind]
  refine wp_imp (wp_markAll inv keys) ?_
  intro stored m' recounted
  exact { recounted with }

/-- The blocks of `keys` that were still written are gone. -/
structure Dropped (keys : List Key) (m m' : CPUOffloadingManager P Key) : Prop where
  slots : m'.Slots
  block : ∀ key, m'.block key = (m.block key).filter fun b => b.isReady ∨ key ∉ keys
  covered : m.Covered → m'.Covered
  claimed : ∀ key slot, key ∉ keys → m.Claimed key slot → m'.Claimed key slot

theorem wp_dropUnstored (slots : m.Slots) (key : Key) :
    wp (dropUnstored key) (fun _ m' => Dropped [key] m m') (fun _ _ => False) m := by
  have kept : (∀ b, m.block key = some b → b.isReady = true) → Dropped [key] m m := by
    intro ready
    refine ⟨slots, fun key' => ?_, id, fun _ _ _ => id⟩
    cases hf : m.block key' with
    | none => rfl
    | some b =>
      by_cases hs : key' = key
      · simp [Option.filter_some, ready b (hs ▸ hf)]
      · simp [Option.filter_some, hs]
  unfold dropUnstored
  rw [wp_bind, wp_get]
  cases hf : m.block key with
  | none => exact kept (by simp [hf])
  | some b =>
    by_cases ready : b.isReady = true
    · simp only [ready]
      refine kept fun b' held => ?_
      rw [hf] at held
      obtain rfl := Option.some.inj held
      exact ready
    simp only [ready]
    obtain ⟨policy, removed, inv, gone⟩ := remove_held slots.inv hf
    rw [removed]
    have taken : m.held key = some b.blockId := by simp [held, hf]
    have holders : ((m.setPolicy policy).freeBlock b).held = Function.update m.held key none := by
      funext key'
      change (get policy key').map _ = _
      rw [gone]
      by_cases hs : key' = key
      · subst hs
        simp
      · simp [hs, held, block]
    refine ⟨⟨inv, ?_, slots.bounded⟩, fun key' => ?_, ?_, ?_⟩
    · rw [holders]
      exact slots.apart.release taken
    · change get policy key' = _
      rw [gone]
      by_cases hs : key' = key
      · subst hs
        simp [hf, ready, Option.filter_some]
      · change (if key' = key then none else m.block key') = _
        cases hf' : m.block key' <;> simp [hs, Option.filter_some]
    · intro covered
      rw [Covered, holders]
      exact Covers.release covered taken
    · intro key' slot other claimed
      rw [Claimed, holders]
      exact Reserved.release claimed taken fun hs => other (mem_singleton.mpr hs.symm)

theorem wp_completeStore_failure (slots : m.Slots) (keys : List Key) :
    wp (completeStore keys false) (fun _ m' => Dropped keys m m') (fun _ _ => False) m := by
  unfold completeStore
  rw [if_neg Bool.false_ne_true]
  induction keys generalizing m with
  | nil =>
    refine ⟨slots, fun key => ?_, id, fun _ _ _ => id⟩
    cases m.block key <;> simp [Option.filter_some]
  | cons key rest ih =>
    rw [forM_cons, wp_bind]
    refine wp_imp (wp_dropUnstored slots key) ?_
    intro _ m₁ first
    refine wp_imp (ih first.slots) ?_
    intro _ m' second
    refine ⟨second.slots, fun key' => ?_, fun covered => second.covered (first.covered covered), ?_⟩
    · rw [second.block, first.block, Option.filter_filter]
      congr 1
      funext b
      by_cases hs : key' = key <;> by_cases later : key' ∈ rest <;> cases ready : b.isReady <;> simp
    · intro key' slot other claimed
      simp only [mem_cons, not_or] at other
      exact second.claimed key' slot other.2 (first.claimed key' slot (by simpa using other.1) claimed)

theorem insertBlocks_spec (taken : List (Key × Nat))
    (inv : LawfulCachePolicy.Inv m.policy) (insertable : ∀ key ∈ taken.map Prod.fst, LawfulCachePolicy.Insertable m.policy key) :
    LawfulCachePolicy.Inv (m.insertBlocks (taken.map fun e => (e.1, { blockId := e.2 }))).policy ∧
      (m.insertBlocks (taken.map fun e => (e.1, { blockId := e.2 }))).held = assign m.held taken ∧
      (∀ key ∈ taken.map Prod.fst, ∃ slot, (key, slot) ∈ taken ∧
        (m.insertBlocks (taken.map fun e => (e.1, { blockId := e.2 }))).block key = some { blockId := slot }) ∧
      ∀ key ∉ taken.map Prod.fst, (m.insertBlocks (taken.map fun e => (e.1, { blockId := e.2 }))).block key = m.block key := by
  induction taken generalizing m with
  | nil => exact ⟨inv, rfl, by simp, fun _ _ => rfl⟩
  | cons e rest ih =>
    have first : ∀ key, (m.insertBlocks [(e.1, { blockId := e.2 })]).block key =
        if key = e.1 then some { blockId := e.2 } else m.block key := get_insert inv e.1 _
    obtain ⟨inv', slots, stored, others⟩ := ih (m := m.insertBlocks [(e.1, { blockId := e.2 })])
      (inv_insert inv (insertable e.1 (.head _)) _)
      (fun key hm => insertable_insert (insertable key (.tail _ hm)) _ _)
    refine ⟨inv', ?_, ?_, ?_⟩
    · refine slots.trans ?_
      have one : (m.insertBlocks [(e.1, { blockId := e.2 })]).held = Function.update m.held e.1 (some e.2) := by
        funext key
        by_cases hs : key = e.1
        · subst hs
          simp [held, first]
        · simp [held, first, hs]
      rw [one]
      rfl
    · intro key hm
      by_cases later : key ∈ rest.map Prod.fst
      · obtain ⟨slot, inRest, hf⟩ := stored key later
        exact ⟨slot, .tail _ inRest, hf⟩
      · obtain rfl : key = e.1 := by simpa [later] using hm
        refine ⟨e.2, .head _, (others e.1 later).trans ?_⟩
        rw [first, if_pos rfl]
    · intro key other
      simp only [map_cons, mem_cons, not_or] at other
      refine (others key other.2).trans ?_
      rw [first, if_neg other.1]

structure Roomy (toEvict : List Key) (numEvicted : Nat) (m m' : CPUOffloadingManager P Key) : Prop where
  slots : m'.Slots
  evicted : ∀ key ∈ toEvict, ∃ b, m.block key = some b ∧ b.refCnt = 0
  block : ∀ key, m'.block key = if key ∈ toEvict then none else m.block key
  numBlocks : m'.numBlocks = m.numBlocks
  numAllocatedBlocks : m'.numAllocatedBlocks = m.numAllocatedBlocks
  freed : m'.freeList.length = m.freeList.length + numEvicted
  covered : m.Covered → m'.Covered
  claimed : ∀ key slot, key ∉ toEvict → m.Claimed key slot → m'.Claimed key slot

theorem wp_makeRoom (slots : m.Slots) (n : Nat) (protectedKeys : List Key) :
    wp (makeRoom n protectedKeys)
      (fun out m' => (out = none ∧ m' = m) ∨ ∃ toEvict, out = some toEvict ∧ Roomy toEvict n m m')
      (fun _ _ => False) m := by
  unfold makeRoom
  by_cases zero : n = 0
  · rw [if_pos zero]
    exact .inr ⟨[], rfl, slots, by simp, by simp, rfl, rfl, by simp [zero], id, fun _ _ _ => id⟩
  rw [if_neg zero]
  simp only [wp_bind, wp_get]
  cases hf : (evict n protectedKeys m.policy).1 with
  | none =>
    refine .inl ⟨rfl, ?_⟩
    rw [evict_none slots.inv hf]
    rfl
  | some evicted =>
    simp only [foldl_freeBlock]
    obtain ⟨length, hd, chosen, gone⟩ := evict_some slots.inv hf
    -- The evicted blocks as keys with slots.
    have names : (evicted.map fun e => (e.1, e.2.blockId)).map Prod.fst = evicted.map Prod.fst := by
      rw [map_map]
      rfl
    have ids : (evicted.map fun e => (e.1, e.2.blockId)).map Prod.snd = evicted.map (·.2.blockId) := by
      rw [map_map]
      rfl
    have taken : ∀ e ∈ evicted.map fun e => (e.1, e.2.blockId), m.held e.1 = some e.2 := by
      intro e hm
      obtain ⟨e', hi, rfl⟩ := mem_map.mp hm
      have hf := (chosen e' hi).1
      simp [held, block, hf]
    have holders : ((m.setPolicy (evict n protectedKeys m.policy).2).setFreeList
        (m.freeList ++ evicted.map (·.2.blockId))).held = revoke m.held (evicted.map fun e => (e.1, e.2.blockId)) := by
      funext key
      rw [revoke_apply, names]
      change (get (evict n protectedKeys m.policy).2 key).map _ = _
      rw [gone]
      by_cases hm : key ∈ evicted.map Prod.fst
      · simp [hm]
      · simp only [hm]
        rfl
    refine .inr ⟨_, rfl, ⟨inv_evict slots.inv n protectedKeys, ?_, slots.bounded⟩, ?_, gone, rfl, rfl, ?_,
      ?_, ?_⟩
    · have released := slots.apart.releaseAll (names ▸ hd) taken
      rw [ids, ← holders] at released
      exact released
    · intro key hm
      obtain ⟨e, hi, rfl⟩ := mem_map.mp hm
      obtain ⟨heldBefore, free⟩ := chosen e hi
      simp only [evictable, decide_eq_true_eq] at free
      exact ⟨e.2, heldBefore, free.1⟩
    · simp [length]
    · intro covered
      have released := Covers.releaseAll (names ▸ hd) taken covered
      rw [ids, ← holders] at released
      exact released
    · intro key slot other claimed
      have released := Reserved.releaseAll (names ▸ hd) taken claimed (names ▸ other)
      rw [ids, ← holders] at released
      exact released

/-- What an accepted `prepare_store` does: idle blocks are evicted, and each key to store gets a slot. -/
structure Stored (keys : List Key) (out : PrepareStoreOutput Key) (m m' : CPUOffloadingManager P Key) : Prop where
  slots : m'.Slots
  keysToStore : out.keysToStore = m.keysToStore keys
  evicted : ∀ key ∈ out.evictedKeys, key ∉ out.keysToStore ∧ ∃ b, m.block key = some b ∧ b.refCnt = 0
  length_eq : out.storeSpec.length = out.keysToStore.length
  stored : ∀ key ∈ out.keysToStore, ∃ slot, (key, slot) ∈ out.keysToStore.zip out.storeSpec ∧
    m'.block key = some { blockId := slot }
  others : ∀ key ∉ out.keysToStore, m'.block key = if key ∈ out.evictedKeys then none else m.block key
  covered : keys.Nodup → m.Covered → m'.Covered
  claimed : ∀ key slot, key ∉ out.evictedKeys → m.Claimed key slot → m'.Claimed key slot
  claims : ∀ e ∈ out.keysToStore.zip out.storeSpec, m'.Claimed e.1 e.2

omit [LawfulCachePolicy P Key] in
theorem keysToStore_absent {keys : List Key} (hm : key ∈ m.keysToStore keys) : m.block key = none := by
  simpa using (mem_filter.mp hm).2

omit [LawfulCachePolicy P Key] in
theorem keysToStore_sublist (m : CPUOffloadingManager P Key) (keys : List Key) : (m.keysToStore keys).Sublist keys := by
  refine filter_sublist.trans ?_
  unfold storable
  split
  · exact List.Sublist.refl _
  · exact filter_sublist

theorem wp_prepareStore (slots : m.Slots) (keys : List Key) :
    wp (prepareStore keys) (fun out m' => (out = none ∧ m' = m) ∨ ∃ o, out = some o ∧ Stored keys o m m')
      (fun _ _ => False) m := by
  unfold prepareStore
  rw [wp_bind, wp_get]
  by_cases nothing : m.keysToStore keys = []
  · simp only [nothing]
    exact .inr ⟨_, rfl, slots, nothing.symm, by simp, rfl, by simp, by simp, fun _ => id, fun _ _ _ => id, by simp⟩
  simp only [nothing, ↓reduceIte, wp_bind]
  refine wp_imp (wp_makeRoom slots _ _) ?_
  rintro out m₁ (⟨rfl, rfl⟩ | ⟨toEvict, rfl, roomy⟩)
  · exact .inl ⟨rfl, rfl⟩
  generalize wanted : m.keysToStore keys = want at nothing roomy ⊢
  have absent : ∀ key ∈ want, m.block key = none := by
    rintro key hm
    rw [← wanted] at hm
    exact keysToStore_absent hm
  have absent₁ : ∀ key ∈ want, m₁.block key = none := by
    intro key hm
    rw [roomy.block, absent key hm, ite_self]
  have enough : want.length - min want.length (m₁.numBlocks - m₁.numAllocatedBlocks) ≤ m₁.freeList.length := by
    have freed := roomy.freed
    rw [roomy.numBlocks, roomy.numAllocatedBlocks]
    simp only [getNumFreeBlocks] at freed
    omega
  have lengths := length_slotsFor enough
  have first := map_fst_zip (Nat.le_of_eq lengths.symm)
  have second := map_snd_zip (Nat.le_of_eq lengths)
  -- The state in which the new slots are set apart, and the one in which the keys hold them.
  generalize grown : (m₁.record toEvict true).takeSlots want.length = m₂
  have holders : m₂.held = m₁.held := by rw [← grown]; rfl
  have free : (m₁.freeList ++ (range (min want.length (m₁.numBlocks - m₁.numAllocatedBlocks))).map
      (m₁.numAllocatedBlocks + ·)).Perm ((want.zip (m₁.slotsFor want.length)).map Prod.snd ++ m₂.freeList) := by
    rw [second, ← grown]
    exact m₁.slotsFor_perm want.length
  have next : m₂.numAllocatedBlocks = m₁.numAllocatedBlocks + min want.length (m₁.numBlocks - m₁.numAllocatedBlocks) := by
    rw [← grown]
    rfl
  have apart := (roomy.slots.apart.grow (min want.length (m₁.numBlocks - m₁.numAllocatedBlocks))).perm free
  rw [← holders, ← next] at apart
  have inserted := insertBlocks_spec (m := m₂) (want.zip (m₁.slotsFor want.length)) (by rw [← grown]; exact roomy.slots.inv) (by
    intro key hm
    rw [first] at hm
    refine insertable_of_absent ?_
    rw [← grown]
    exact absent₁ key hm)
  obtain ⟨inv, taken, stored, others⟩ := inserted
  have pairs : want.zip ((m₁.slotsFor want.length).map fun blockId => ({ blockId } : BlockStatus)) =
      (want.zip (m₁.slotsFor want.length)).map fun e => (e.1, { blockId := e.2 }) := zip_map_right ..
  simp only [allocateBlocks, wp_bind, wp_ensure]
  refine ⟨fun _ => ⟨fun _ => ?_, fun short => absurd ((length_map _).trans lengths) short⟩, fun short => absurd enough short⟩
  refine .inr ⟨_, rfl, ?_⟩
  rw [grown]
  change Stored keys ⟨want, ((m₁.slotsFor want.length).map fun blockId => ({ blockId } : BlockStatus)).map (·.blockId), toEvict⟩ m
    (m₂.insertBlocks (want.zip ((m₁.slotsFor want.length).map fun blockId => { blockId })))
  rw [pairs, map_map, show ((fun b : BlockStatus => b.blockId) ∘ fun blockId => { blockId }) = id from rfl,
    map_id]
  refine ⟨⟨inv, ?_, ?_⟩, wanted.symm, ?_, lengths, ?_, ?_, ?_, ?_, ?_⟩
  · rw [taken]
    exact apart.takeAll
  · have bounded := roomy.slots.bounded
    change m₂.numAllocatedBlocks ≤ m₂.numBlocks
    rw [show m₂.numBlocks = m₁.numBlocks by rw [← grown]; rfl]
    omega
  · intro key hm
    obtain ⟨b, hf, idle⟩ := roomy.evicted key hm
    refine ⟨fun inWant => ?_, b, hf, idle⟩
    rw [absent key inWant] at hf
    cases hf
  · rwa [first] at stored
  · intro key other
    refine (others key (first.symm ▸ other)).trans ?_
    rw [← roomy.block, ← grown]
    rfl
  · intro hd covered
    have grownCovers := (Covers.grow (roomy.covered covered) (min want.length (m₁.numBlocks - m₁.numAllocatedBlocks))).perm free
    rw [← holders, ← next] at grownCovers
    rw [Covered, taken]
    refine grownCovers.takeAll ?_ ?_
    · rw [first, ← wanted]
      exact hd.sublist (m.keysToStore_sublist keys)
    · intro key hm
      rw [first] at hm
      rw [holders]
      simp [held, absent₁ key hm]
  · intro key slot other claimed
    have grownClaim := (Reserved.grow (roomy.claimed key slot other claimed)
      (min want.length (m₁.numBlocks - m₁.numAllocatedBlocks))).perm free
    rw [← holders, ← next] at grownClaim
    rw [Claimed, taken]
    exact grownClaim.takeAll
  · intro e hm
    rw [Claimed, taken]
    exact apart.reserved_takeAll e hm

/-- The manager has called its policy, which inserts only where it may, and has moved slots. -/
inductive Written (m : CPUOffloadingManager P Key) : CPUOffloadingManager P Key → Prop
  | refl : Written m m
  | policy {m' : CPUOffloadingManager P Key} (before : Written m m') (c : PolicyCall Key) (fits : c.Fits m'.policy) :
      Written m (m'.setPolicy (c.exec m'.policy))
  | slots {m' : CPUOffloadingManager P Key} (before : Written m m') (numAllocatedBlocks : Nat) (freeList : List Nat) :
      Written m { m' with numAllocatedBlocks, freeList }

namespace Written

theorem unchanged (written : Written m m') :
    { m' with policy := m.policy, numAllocatedBlocks := m.numAllocatedBlocks, freeList := m.freeList } = m := by
  induction written with
  | refl => rfl
  | policy _ _ _ ih => exact ih
  | slots _ _ _ ih => exact ih

theorem counts (written : Written m m') : m'.counts = m.counts := congrArg (·.counts) written.unchanged

theorem invariant {I : P → Prop} (step : ∀ {p : P} {c : PolicyCall Key}, c.Fits p → I p → I (c.exec p))
    (written : Written m m') (start : I m.policy) : I m'.policy := by
  induction written with
  | refl => exact start
  | policy _ c fits ih => exact step fits ih
  | slots _ _ _ ih => exact ih

theorem record (written : Written m m') (keys : List Key) (removed : Bool) :
    Written (m.record keys removed) (m'.record keys removed) := by
  induction written with
  | refl => exact .refl
  | policy _ c fits ih => exact ih.policy c fits
  | slots _ n free ih => exact ih.slots n free

theorem insertBlocks (written : Written m m') (blocks : List (Key × BlockStatus))
    (insertable : ∀ e ∈ blocks, LawfulCachePolicy.Insertable m'.policy e.1) : Written m (m'.insertBlocks blocks) := by
  induction blocks generalizing m' with
  | nil => exact written
  | cons e rest ih =>
    have next : ∀ e' ∈ rest, LawfulCachePolicy.Insertable (insert e.1 e.2 m'.policy) e'.1 :=
      fun e' hm => insertable_insert (insertable e' (.tail _ hm)) _ _
    exact ih (written.policy (.insert e.1 e.2) (insertable e (.head _))) next

end Written

theorem written_prepareLoad (keys : List Key) :
    wp (prepareLoad keys) (fun _ m' => Written m m') (fun _ m' => Written m m') m := by
  refine wp_imp (wp_mapM (I := Written m) (P := fun _ _ => True) ?_ .refl) fun _ _ done => done.1
  intro key _ t written
  rw [prepareLoadBlock, wp_bind, wp_get]
  cases t.block key with
  | none => exact written
  | some b =>
    simp only [wp_bind, wp_ensure]
    exact ⟨fun _ => ⟨written.policy (.setRefCnt key _) trivial, trivial⟩, fun _ => written⟩

theorem written_completeLoad (keys : List Key) :
    wp (completeLoad keys) (fun _ m' => Written m m') (fun _ m' => Written m m') m := by
  refine wp_forM (I := Written m) ?_ .refl
  intro key _ t written
  rw [completeLoadBlock, wp_bind, wp_get]
  cases t.block key with
  | none => exact written
  | some b =>
    simp only [wp_bind, wp_ensure]
    exact ⟨fun _ => written.policy (.setRefCnt key _) trivial, fun _ => written⟩

theorem written_completeStore (keys : List Key) (success : Bool) :
    wp (completeStore keys success) (fun _ m' => ∃ stored, Written (m.record stored false) m')
      (fun _ m' => Written m m') m := by
  cases success with
  | true =>
    simp only [completeStore, if_true, wp_bind]
    refine wp_imp (wp_mapM (I := Written m) (P := fun _ _ => True) ?_ .refl) fun _ _ done => ⟨_, done.1.record _ _⟩
    intro key _ t written
    simp only [markStored, wp_bind, wp_get]
    split
    · exact ⟨written, trivial⟩
    · split
      · exact ⟨written, trivial⟩
      · exact ⟨written.policy (.setRefCnt key 0) trivial, trivial⟩
  | false =>
    refine wp_imp (wp_forM (I := Written m) ?_ .refl) fun _ _ written => ⟨[], written⟩
    intro key _ t written
    simp only [dropUnstored, wp_bind, wp_get]
    split
    · exact written
    · split
      · exact written
      · split
        · exact written
        · rename_i policy removed
          have gone := written.policy (.remove key) trivial
          rw [PolicyCall.exec, removed] at gone
          exact gone.slots _ _

theorem written_makeRoom (n : Nat) (protect : List Key) :
    wp (makeRoom n protect) (fun _ m' => Written m m') (fun _ m' => Written m m') m := by
  unfold makeRoom
  split
  · exact .refl
  · simp only [wp_bind, wp_get]
    have evicted : Written m (m.setPolicy (evict n protect m.policy).2) := Written.refl.policy (.evict n protect) trivial
    split
    · exact evicted
    · simp only [foldl_freeBlock]
      exact evicted.slots _ _

theorem written_prepareStore (slots : m.Slots) (keys : List Key) :
    wp (prepareStore keys) (fun out m' => Written (m.record (out.elim [] (·.evictedKeys)) true) m') (fun _ _ => True) m := by
  unfold prepareStore
  simp only [wp_bind, wp_get]
  split
  · exact .refl
  simp only [wp_bind]
  refine wp_mono (wp_and (written_makeRoom _ _) (wp_makeRoom slots _ _)) ?_ fun _ _ _ => trivial
  rintro toEvict m₁ ⟨written, room⟩
  cases toEvict with
  | none => exact written
  | some toEvict =>
    simp only [allocateBlocks, wp_bind, wp_ensure, implies_true, and_true]
    intro _ _
    refine ((written.record toEvict true).slots _ _).insertBlocks _ fun e hm => ?_
    obtain ⟨_, ⟨⟩, roomy⟩ := room.resolve_left (by simp)
    refine insertable_of_absent ?_
    have absent := keysToStore_absent (of_mem_zip hm).1
    exact (roomy.block e.1).trans (by rw [absent, ite_self])

theorem slots_resetCache (m : CPUOffloadingManager P Key) : m.resetCache.Slots where
  inv := inv_clear m.policy
  apart := by
    have unheld : m.resetCache.held = fun _ => none := by
      funext key
      exact congrArg (Option.map _) (get_clear m.policy key)
    rw [unheld]
    exact Apart.empty
  bounded := Nat.zero_le _

variable (numBlocks : Nat) (enableEvents : Bool) (storeThreshold maxTrackerSize : Nat)

include numBlocks enableEvents storeThreshold maxTrackerSize

theorem held_init :
    (init numBlocks enableEvents storeThreshold maxTrackerSize : CPUOffloadingManager P Key).held = fun _ => none := by
  funext key
  have absent := get_init (P := P) numBlocks key
  simp [held, block, init, absent]

theorem slots_init : (init numBlocks enableEvents storeThreshold maxTrackerSize : CPUOffloadingManager P Key).Slots where
  inv := inv_init numBlocks
  apart := by
    rw [held_init]
    exact Apart.empty
  bounded := Nat.zero_le _

end CPUOffloadingManager

end KVOffload.Offload
