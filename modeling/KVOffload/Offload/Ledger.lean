import KVOffload.Offload.CPUManagerSpec

/-!
# Transfers in flight

The ledger lists the transfers that read and write cached blocks; their slots stay reserved for their keys.
-/

namespace KVOffload.Offload

open List

structure Transfer (Key : Type) where
  keys : List Key
  slots : List Nat
deriving DecidableEq

section

variable {P Key : Type} [CachePolicy P Key] {m m' : CPUOffloadingManager P Key} {t t' : Transfer Key}

variable (m t) in
/-- A transfer works on the slots that the blocks of its keys have, and they are reserved. -/
structure Transfer.InPlace : Prop where
  aligned : t.keys.length = t.slots.length
  current : ∀ key ∈ t.keys, ∃ slot, (key, slot) ∈ t.keys.zip t.slots ∧ m.held key = some slot
  claimed : ∀ e ∈ t.keys.zip t.slots, m.Claimed e.1 e.2

namespace Transfer.InPlace

theorem mono (inPlace : t.InPlace m) (held : ∀ key ∈ t.keys, m'.held key = m.held key)
    (claimed : ∀ key ∈ t.keys, ∀ slot, m.Claimed key slot → m'.Claimed key slot) : t.InPlace m' where
  aligned := inPlace.aligned
  current key hm := by
    rw [held key hm]
    exact inPlace.current key hm
  claimed e hi := claimed e.1 (of_mem_zip hi).1 e.2 (inPlace.claimed e hi)

theorem of_held (apart : Apart m.held m.freeList m.numAllocatedBlocks)
    (hs : List.Forall₂ (fun key slot => m.held key = some slot) t.keys t.slots) : t.InPlace m where
  aligned := hs.length_eq
  current key hm := by
    obtain ⟨i, bound, rfl⟩ := getElem_of_mem hm
    have bound' := hs.length_eq ▸ bound
    have pair : (t.keys[i], t.slots[i]) ∈ t.keys.zip t.slots :=
      mem_iff_getElem.mpr ⟨i, by rw [length_zip]; omega, getElem_zip⟩
    exact ⟨t.slots[i], pair, (forall₂_iff_zip.mp hs).2 pair⟩
  claimed e hi := apart.reserved ((forall₂_iff_zip.mp hs).2 hi)

theorem append (first : t.InPlace m) (second : t'.InPlace m) : Transfer.InPlace m ⟨t.keys ++ t'.keys, t.slots ++ t'.slots⟩ where
  aligned := by simp [first.aligned, second.aligned]
  current key hm := by
    rw [zip_append first.aligned]
    rcases mem_append.mp hm with inFirst | inSecond
    · obtain ⟨slot, pair, held⟩ := first.current key inFirst
      exact ⟨slot, mem_append_left _ pair, held⟩
    · obtain ⟨slot, pair, held⟩ := second.current key inSecond
      exact ⟨slot, mem_append_right _ pair, held⟩
  claimed e hi := by
    rw [zip_append first.aligned] at hi
    exact (mem_append.mp hi).elim (first.claimed e) (second.claimed e)

end Transfer.InPlace

end

variable {P Key : Type} [DecidableEq Key] {t : Transfer Key} {key : Key}

def readers (reads : List (Transfer Key)) (key : Key) : Nat := (reads.map (·.keys.count key)).sum

def writers (writes : List (Transfer Key)) (key : Key) : Nat := writes.countP (key ∈ ·.keys)

@[simp] theorem readers_cons (t : Transfer Key) (reads : List (Transfer Key)) (key : Key) :
    readers (t :: reads) key = t.keys.count key + readers reads key := by
  simp [readers]

@[simp] theorem writers_cons (t : Transfer Key) (writes : List (Transfer Key)) (key : Key) :
    writers (t :: writes) key = writers writes key + if key ∈ t.keys then 1 else 0 := by
  simp [writers, countP_cons]

theorem readers_append (reads reads' : List (Transfer Key)) (key : Key) :
    readers (reads ++ reads') key = readers reads key + readers reads' key := by
  simp [readers]

theorem writers_append (writes writes' : List (Transfer Key)) (key : Key) :
    writers (writes ++ writes') key = writers writes key + writers writes' key := countP_append

theorem readers_eq_writers {transfers : List (Transfer Key)} (hd : ∀ t ∈ transfers, t.keys.Nodup) (key : Key) :
    readers transfers key = writers transfers key := by
  induction transfers with
  | nil => rfl
  | cons t rest ih =>
    obtain ⟨first, others⟩ := forall_mem_cons.mp hd
    rw [readers_cons, writers_cons, ih others, first.count]
    exact Nat.add_comm _ _

theorem readers_pos {reads : List (Transfer Key)} (inFlight : t ∈ reads) (hm : key ∈ t.keys) :
    0 < readers reads key := by
  obtain ⟨before, after, rfl⟩ := append_of_mem inFlight
  have hp := count_pos_iff.mpr hm
  simp only [readers, map_append, map_cons, sum_append, sum_cons]
  omega

theorem writers_pos {writes : List (Transfer Key)} (inFlight : t ∈ writes)
    (hm : key ∈ t.keys) : 0 < writers writes key :=
  countP_pos_iff.mpr ⟨t, inFlight, by simpa using hm⟩

variable [CachePolicy P Key] [LawfulCachePolicy P Key]

structure Ledger (m : CPUOffloadingManager P Key) (reads writes : List (Transfer Key)) : Prop where
  slots : m.Slots
  absent : ∀ key, m.block key = none → readers reads key = 0 ∧ writers writes key = 0
  busy : ∀ key b, m.block key = some b →
    (b.refCnt = readers reads key ∧ writers writes key = 0) ∨ (b.refCnt = -1 ∧ readers reads key = 0 ∧ writers writes key = 1)
  inPlace : ∀ t ∈ reads ++ writes, t.InPlace m

namespace Ledger

open CPUOffloadingManager

variable {m m' : CPUOffloadingManager P Key} {reads reads' writes writes' : List (Transfer Key)}

theorem perm (ledger : Ledger m reads writes) (sameReads : reads.Perm reads') (sameWrites : writes.Perm writes') :
    Ledger m reads' writes' := by
  have sameReaders : ∀ key, readers reads' key = readers reads key := fun key => (sameReads.map _).symm.sum_nat
  have sameWriters : ∀ key, writers writes' key = writers writes key := fun key => (sameWrites.countP_eq _).symm
  refine ⟨ledger.slots, ?_, ?_, fun t hm => ledger.inPlace t ((sameReads.append sameWrites).mem_iff.mpr hm)⟩
  · intro key none
    rw [sameReaders, sameWriters]
    exact ledger.absent key none
  · intro key b hf
    rw [sameReaders, sameWriters]
    exact ledger.busy key b hf

theorem used (ledger : Ledger m reads writes) (inFlight : t ∈ reads ++ writes)
    (hm : key ∈ t.keys) : ∃ b, m.block key = some b ∧ b.refCnt ≠ 0 := by
  have some' := (mem_append.mp inFlight).imp (fun h => readers_pos h hm) (fun h => writers_pos h hm)
  cases hf : m.block key with
  | none =>
    have := ledger.absent key hf
    omega
  | some b =>
    refine ⟨b, rfl, ?_⟩
    have := ledger.busy key b hf
    omega

theorem of_recounted {f : Key → Int → Int} (recounted : Recounted f m m') (ledger : Ledger m reads writes)
    (absent : ∀ key, m.block key = none → readers reads' key = 0 ∧ writers writes' key = 0)
    (busy : ∀ key b, m.block key = some b →
      (f key b.refCnt = readers reads' key ∧ writers writes' key = 0) ∨
      (f key b.refCnt = -1 ∧ readers reads' key = 0 ∧ writers writes' key = 1))
    (inPlace : ∀ t ∈ reads' ++ writes', t ∈ reads ++ writes ∨ List.Forall₂ (fun key slot => m.held key = some slot) t.keys t.slots) :
    Ledger m' reads' writes' where
  slots := recounted.slots ledger.slots
  absent key none := by
    rw [recounted.block, Option.map_eq_none_iff] at none
    exact absent key none
  busy key b hf := by
    obtain ⟨b', before, _, count⟩ := recounted.before hf
    rw [count]
    exact busy key b' before
  inPlace t hm := by
    have before := (inPlace t hm).elim (ledger.inPlace t) (.of_held ledger.slots.apart)
    exact before.mono (fun key _ => by rw [recounted.held]) fun key _ slot => (recounted.claimed key slot).mpr

variable {keys : List Key}

theorem prepareLoad (ledger : Ledger m reads writes) (ready : m.Ready keys) :
    ∃ ids m', prepareLoad keys m = .ok ids m' ∧ Ledger m' (⟨keys, ids⟩ :: reads) writes ∧
      Recounted (fun key r => r + keys.count key) m m' := by
  obtain ⟨ids, m', run, recounted, _, slots⟩ := wp_total (wp_mono (wp_prepareLoad ledger.slots.inv keys) (fun _ _ h => h)
    (fun _ _ h => absurd ready h.1)) (fun _ _ h => h)
  refine ⟨ids, m', run, of_recounted recounted ledger ?_ ?_ ?_, recounted⟩
  · intro key none
    have other : key ∉ keys := by
      intro hm
      obtain ⟨b, hf, _⟩ := ready key hm
      rw [none] at hf
      cases hf
    rw [readers_cons, count_eq_zero_of_not_mem other, Nat.zero_add]
    exact ledger.absent key none
  · intro key b hf
    rw [readers_cons]
    by_cases hm : key ∈ keys
    · obtain ⟨b', hf', nonneg⟩ := ready key hm
      rw [hf] at hf'
      obtain rfl := Option.some.inj hf'
      have := ledger.busy key b hf
      push_cast
      omega
    · rw [count_eq_zero_of_not_mem hm]
      simpa using ledger.busy key b hf
  · intro t hm
    rcases mem_cons.mp hm with rfl | old
    · exact .inr slots
    · exact .inl old

theorem completeLoad {keys' : List Key} {ids : List Nat} (ledger : Ledger m (⟨keys, ids⟩ :: reads) writes)
    (hs : keys'.Perm keys) : ∃ m', completeLoad keys' m = .ok () m' ∧ Ledger m' reads writes := by
  have pinned : m.Pinned keys' := by
    intro key hm
    have count := count_pos_iff.mpr hm
    have counts := hs.count_eq key
    obtain ⟨b, hf, used⟩ := ledger.used mem_cons_self (hs.mem_iff.mp hm)
    have := ledger.busy key b hf
    simp only [readers_cons] at this
    exact ⟨b, hf, by omega⟩
  obtain ⟨_, m', run, recounted, _⟩ := wp_total (wp_mono (wp_completeLoad ledger.slots.inv keys') (fun _ _ h => h)
    (fun _ _ h => absurd pinned h.1)) (fun _ _ h => h)
  refine ⟨m', run, of_recounted recounted ledger ?_ ?_ ?_⟩
  · intro key none
    have := ledger.absent key none
    rw [readers_cons] at this
    omega
  · intro key b hf
    have counts := hs.count_eq key
    have := ledger.busy key b hf
    rw [readers_cons] at this
    push_cast at this
    omega
  · intro t hm
    exact .inl (.tail _ hm)

theorem prepareStore (ledger : Ledger m reads writes) (keys : List Key) :
    wp (prepareStore keys) (fun out m' => (out = none ∧ m' = m) ∨
      ∃ o, out = some o ∧ Stored keys o m m' ∧ Ledger m' reads (⟨o.keysToStore, o.storeSpec⟩ :: writes))
      (fun _ _ => False) m := by
  refine wp_imp (wp_prepareStore ledger.slots keys) ?_
  rintro out m' (refused | ⟨o, rfl, stored⟩)
  · exact .inl refused
  have unchanged : ∀ t ∈ reads ++ writes, ∀ key ∈ t.keys, key ∉ o.keysToStore ∧ key ∉ o.evictedKeys := by
    intro t inFlight key hm
    obtain ⟨b, hf, used⟩ := ledger.used inFlight hm
    constructor
    · intro stored'
      rw [stored.keysToStore] at stored'
      rw [keysToStore_absent stored'] at hf
      cases hf
    · intro evicted
      obtain ⟨_, b', hf', idle⟩ := stored.evicted key evicted
      rw [hf] at hf'
      obtain rfl := Option.some.inj hf'
      exact used idle
  have old : ∀ t ∈ reads ++ writes, t.InPlace m' := by
    intro t inFlight
    refine (ledger.inPlace t inFlight).mono ?_ ?_
    · intro key hm
      obtain ⟨notStored, notEvicted⟩ := unchanged t inFlight key hm
      rw [held, held, stored.others key notStored, if_neg notEvicted]
    · intro key hm slot
      exact stored.claimed key slot (unchanged t inFlight key hm).2
  refine .inr ⟨o, rfl, stored, stored.slots, ?_, ?_, ?_⟩
  · intro key none
    have notStored : key ∉ o.keysToStore := by
      intro hm
      obtain ⟨slot, _, hf⟩ := stored.stored key hm
      rw [none] at hf
      cases hf
    rw [stored.others key notStored] at none
    rw [writers_cons, if_neg notStored]
    by_cases evicted : key ∈ o.evictedKeys
    · obtain ⟨_, b, hf, idle⟩ := stored.evicted key evicted
      have := ledger.busy key b hf
      omega
    · rw [if_neg evicted] at none
      exact ledger.absent key none
  · intro key b hf
    rw [writers_cons]
    by_cases hm : key ∈ o.keysToStore
    · obtain ⟨slot, _, hf'⟩ := stored.stored key hm
      rw [hf] at hf'
      obtain rfl := Option.some.inj hf'
      rw [stored.keysToStore] at hm
      have before := ledger.absent key (keysToStore_absent hm)
      rw [stored.keysToStore, if_pos hm]
      exact .inr ⟨rfl, before.1, by omega⟩
    · rw [stored.others key hm] at hf
      rw [if_neg hm]
      by_cases evicted : key ∈ o.evictedKeys
      · rw [if_pos evicted] at hf
        cases hf
      · rw [if_neg evicted] at hf
        exact ledger.busy key b hf
  · intro t hm
    simp only [mem_append, mem_cons] at hm
    rcases hm with read | rfl | written
    · exact old t (mem_append_left _ read)
    · refine ⟨stored.length_eq.symm, ?_, stored.claims⟩
      intro key hm
      obtain ⟨slot, pair, hf⟩ := stored.stored key hm
      exact ⟨slot, pair, by rw [held, hf]; rfl⟩
    · exact old t (mem_append_right _ written)

theorem written (ledger : Ledger m reads (t :: writes)) (hm : key ∈ t.keys) :
    ∃ slot, m.block key = some { refCnt := -1, blockId := slot } ∧ readers reads key = 0 ∧ writers writes key = 0 := by
  obtain ⟨b, hf, _⟩ := ledger.used (mem_append_right _ (.head _)) hm
  have := ledger.busy key b hf
  rw [writers_cons, if_pos hm] at this
  obtain ⟨refCnt, slot⟩ := b
  refine ⟨slot, ?_, by omega, by omega⟩
  rw [hf, show refCnt = -1 by simp only at this; omega]

section

variable {keys' : List Key} {ids : List Nat} (ledger : Ledger m reads (⟨keys, ids⟩ :: writes))
  (hs : ∀ key, key ∈ keys' ↔ key ∈ keys)

include ledger hs

theorem completeStore_success : ∃ m', completeStore keys' true m = .ok () m' ∧ Ledger m' reads writes ∧ m'.Ready keys' := by
  obtain ⟨_, m', run, recounted⟩ := wp_total (wp_completeStore_success ledger.slots.inv keys') (fun _ _ h => h)
  refine ⟨m', run, of_recounted recounted ledger ?_ ?_ ?_, ?_⟩
  · intro key none
    have := ledger.absent key none
    rw [writers_cons] at this
    exact ⟨this.1, by omega⟩
  · intro key b hf
    by_cases hm : key ∈ keys
    · obtain ⟨slot, hf', unread, unwritten⟩ := ledger.written hm
      rw [hf] at hf'
      obtain rfl := Option.some.inj hf'
      rw [unread, unwritten, storedCount, if_pos ⟨(hs key).mpr hm, by simp⟩]
      exact .inl ⟨rfl, rfl⟩
    · have := ledger.busy key b hf
      rw [writers_cons, if_neg hm] at this
      rw [storedCount, if_neg fun both => hm ((hs key).mp both.1)]
      exact this
  · intro t hm
    exact .inl ((mem_append.mp hm).elim (mem_append_left _) fun old => mem_append_right _ (.tail _ old))
  · intro key hm
    obtain ⟨slot, hf, _, _⟩ := ledger.written ((hs key).mp hm)
    exact ⟨_, recounted.after hf, by simp [storedCount, hm]⟩

theorem completeStore_failure : ∃ m', completeStore keys' false m = .ok () m' ∧ Ledger m' reads writes := by
  obtain ⟨_, m', run, dropped⟩ := wp_total (wp_completeStore_failure ledger.slots keys') (fun _ _ h => h)
  have kept : ∀ key ∉ keys, m'.block key = m.block key := by
    intro key other
    rw [dropped.block]
    cases m.block key <;> simp [hs, other]
  have gone : ∀ key ∈ keys, m'.block key = none := by
    intro key hm
    obtain ⟨slot, hf, _, _⟩ := ledger.written hm
    rw [dropped.block, hf]
    simp [hs, hm, BlockStatus.isReady]
  have others : ∀ t ∈ reads ++ writes, ∀ key ∈ t.keys, key ∉ keys := by
    intro t inFlight key used hm
    obtain ⟨slot, _, unread, unwritten⟩ := ledger.written hm
    rcases mem_append.mp inFlight with read | written
    · have := readers_pos read used
      omega
    · have := writers_pos written used
      omega
  have old : ∀ t ∈ reads ++ writes, t ∈ reads ++ ⟨keys, ids⟩ :: writes := fun t hm =>
    (mem_append.mp hm).elim (mem_append_left _) fun old => mem_append_right _ (.tail _ old)
  refine ⟨m', run, dropped.slots, ?_, ?_, ?_⟩
  · intro key none
    by_cases hm : key ∈ keys
    · obtain ⟨_, _, unread, unwritten⟩ := ledger.written hm
      exact ⟨unread, unwritten⟩
    · rw [kept key hm] at none
      have := ledger.absent key none
      rw [writers_cons, if_neg hm] at this
      exact this
  · intro key b hf
    have other : key ∉ keys := by
      intro hm
      rw [gone key hm] at hf
      cases hf
    rw [kept key other] at hf
    have := ledger.busy key b hf
    rwa [writers_cons, if_neg other] at this
  · intro t hm
    refine (ledger.inPlace t (old t hm)).mono ?_ ?_
    · intro key used
      rw [held, held, kept key (others t hm key used)]
    · intro key used slot
      exact dropped.claimed key slot fun dropped => others t hm key used ((hs key).mp dropped)

theorem completeStore (success : Bool) :
    ∃ m', completeStore keys' success m = .ok () m' ∧ Ledger m' reads writes ∧ (success = true → m'.Ready keys') := by
  cases success with
  | true =>
    obtain ⟨m', run, ledger', ready⟩ := ledger.completeStore_success hs
    exact ⟨m', run, ledger', fun _ => ready⟩
  | false =>
    obtain ⟨m', run, ledger'⟩ := ledger.completeStore_failure hs
    exact ⟨m', run, ledger', fun impossible => nomatch impossible⟩

end

theorem merge {first second : Transfer Key} (ledger : Ledger m reads (first :: second :: writes)) :
    Ledger m reads (⟨first.keys ++ second.keys, first.slots ++ second.slots⟩ :: writes) := by
  have firstIn : first ∈ reads ++ first :: second :: writes := mem_append_right _ (.head _)
  have secondIn : second ∈ reads ++ first :: second :: writes :=
    mem_append_right _ (.tail _ (.head _))
  have old : ∀ t ∈ reads ++ writes, t ∈ reads ++ first :: second :: writes := fun t hm =>
    (mem_append.mp hm).elim (mem_append_left _)
      fun old => mem_append_right _ (.tail _ (.tail _ old))
  have split : ∀ t ∈ reads ++ ⟨first.keys ++ second.keys, first.slots ++ second.slots⟩ :: writes,
      t ∈ reads ++ writes ∨ t = ⟨first.keys ++ second.keys, first.slots ++ second.slots⟩ := by
    intro t hm
    simp only [mem_append, mem_cons] at hm ⊢
    tauto
  refine ⟨ledger.slots, ?_, ?_, ?_⟩
  · intro key none
    have := ledger.absent key none
    simp only [writers_cons] at this
    simp only [writers_cons, mem_append]
    split <;> split_ifs at this <;> first | omega | tauto
  · intro key b hf
    have := ledger.busy key b hf
    simp only [writers_cons] at this
    simp only [writers_cons, mem_append]
    by_cases inFirst : key ∈ first.keys <;> by_cases inSecond : key ∈ second.keys <;>
      simp only [inFirst, inSecond, ↓reduceIte, or_self, or_true, true_or] at this ⊢ <;> omega
  · intro t hm
    rcases split t hm with before | rfl
    · exact ledger.inPlace t (old t before)
    · exact (ledger.inPlace first firstIn).append (ledger.inPlace second secondIn)

theorem of_same (ledger : Ledger m reads writes) (inv : LawfulCachePolicy.Inv m'.policy) (block : m'.block = m.block)
    (numBlocks : m'.numBlocks = m.numBlocks) (next : m'.numAllocatedBlocks = m.numAllocatedBlocks)
    (free : m'.freeList = m.freeList) : Ledger m' reads writes := by
  have recounted : Recounted (fun _ r => r) m m' := ⟨inv, fun key => by simp [block], numBlocks, next, free⟩
  exact of_recounted recounted ledger ledger.absent ledger.busy fun t hm => .inl hm

theorem empty (numBlocks : Nat) (enableEvents : Bool) (storeThreshold maxTrackerSize : Nat) :
    Ledger (CPUOffloadingManager.init numBlocks enableEvents storeThreshold maxTrackerSize : CPUOffloadingManager P Key) [] [] where
  slots := slots_init numBlocks enableEvents storeThreshold maxTrackerSize
  absent key _ := ⟨rfl, rfl⟩
  busy key b hf := by
    have absent := LawfulCachePolicy.get_init (P := P) numBlocks key
    simp [block, CPUOffloadingManager.init, absent] at hf
  inPlace := by simp

end Ledger

end KVOffload.Offload
