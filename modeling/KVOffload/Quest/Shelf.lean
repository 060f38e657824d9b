import KVOffload.Lib.Purge
import KVOffload.Quest.WorkingSet

/-!
# What one sequence sees of a shared manager

`Shelf` is the storage of one sequence by itself. A manager shows a shelf to `owner` when the rows and blocks of `owner` are
those of the shelf, the shared tables looked at only at the block numbers `blocks`.
-/

namespace KVOffload.Quest

open TierManager List OrderedDict Function LRUSlotMap BlockMemory

variable {S D R : Type} {bs : Nat}

structure Shelf (bs : Nat) (R D : Type) where
  summary : Nat → D
  arena : Nat → Option (KVBlock bs R)
  backup : Nat → Option (KVBlock bs R)
  trimmed : Bool

namespace Shelf

def bare (summary : Nat → D) : Shelf bs R D := ⟨summary, fun _ => none, fun _ => none, false⟩

def score (b : Nat) (digest : D) (v : Shelf bs R D) : Shelf bs R D :=
  { v with summary := Function.update v.summary b digest }

def place (b : Nat) (content : KVBlock bs R) (v : Shelf bs R D) : Shelf bs R D :=
  { v with arena := Function.update v.arena b (some content) }

def store (b : Nat) (content : KVBlock bs R) (v : Shelf bs R D) : Shelf bs R D :=
  { v with backup := Function.update v.backup b (some content) }

def mirror (b : Nat) (content : KVBlock bs R) (v : Shelf bs R D) : Shelf bs R D :=
  match v.backup b with
  | some _ => v
  | none => v.store b content

variable (cfg : TierConfig bs R D)

def install (b : Nat) (content : KVBlock bs R) (v : Shelf bs R D) : Shelf bs R D :=
  if cfg.enableWriteThrough then (v.place b content).mirror b content else v.place b content

def settle (lo b : Nat) (content : KVBlock bs R) (v : Shelf bs R D) : Shelf bs R D :=
  if lo ≤ b then v.install cfg b content
  else if cfg.enableWriteThrough then v.mirror b content else v.store b content

def load (b : Nat) (content : KVBlock bs R) (v : Shelf bs R D) : Shelf bs R D :=
  { v.place b content with
    backup := if cfg.enableWriteThrough then v.backup else Function.update v.backup b none }

def ensure (seq : S) : List Nat → Shelf bs R D → Option (QuestError S) × Shelf bs R D
  | [], v => (none, v)
  | b :: rest, v =>
    match v.arena b, v.backup b with
    | some _, _ => ensure seq rest v
    | none, some content => ensure seq rest (v.load cfg b content)
    | none, none => (some (.notStored (seq, b)), v)

def release (v : Shelf bs R D) : Shelf bs R D := bare v.summary

def trim (numFullBlocks : Nat) (content : Nat → KVBlock bs R) (v : Shelf bs R D) : Shelf bs R D :=
  if v.trimmed then v
  else (List.range numFullBlocks).foldl (fun v b => v.settle cfg (keepLo cfg.gpuBudget numFullBlocks) b (content b))
    { v with trimmed := true }

def step : Call S R bs → Shelf bs R D → Option (QuestError S) × Shelf bs R D
  | .registerPrefillSummary _ b kBlock, v => (none, v.score b (cfg.digest kBlock))
  | .onBlockFilled _ b content, v => (none, (v.score b (cfg.digest content.k)).install cfg b content)
  | .trimToWorkingSet _ n engine row, v => (none, v.trim cfg n fun b => engine (row b))
  | .writeLiveBlock _ b content, v => (none, v.place b content)
  | .ensureResident seq ids _, v => v.ensure cfg seq ids
  | .freeRequest _, v => (none, v.release)
  | _, v => (none, v)

def forSeq [DecidableEq S] (owner seq : S) (f : Shelf bs R D → Shelf bs R D) (v : Shelf bs R D) : Shelf bs R D :=
  if seq = owner then f v else v

end Shelf

variable [DecidableEq S] (cfg : TierConfig bs R D)

/-- The tables of a manager that has not evicted a block, whatever was called for whom. -/
structure Sound (s : TierManager S D (Memory bs R)) : Prop where
  capacity : s.slotMap.capacity = cfg.gpuBudget
  pool : (s.cpuFree ++ s.cpuSlots.values ++ s.hostSlots.values).Subperm (List.range cfg.cpuBlocks)
  durable : cfg.enableWriteThrough = true → ∀ k, k ∉ s.cpuSlots
  unmirrored : cfg.enableWriteThrough = false → ∀ k, k ∉ s.hostSlots
  spilled : ∀ k ∈ s.cpuSlots, k.1 ∈ s.trimmed

structure Sees (owner : S) (blocks : Finset Nat) (v : Shelf bs R D) (s : TierManager S D (Memory bs R)) : Prop where
  summary : ∀ b ∈ blocks, s.summary b = v.summary b
  arena : ∀ b, (s.slotMap.slot? (owner, b)).map s.mem.arena = v.arena b
  hosted : ∀ b, (backup cfg s (owner, b)).map s.mem.host = v.backup b
  trimmed : owner ∈ s.trimmed ↔ v.trimmed = true
  inside : ∀ b, v.arena b ≠ none ∨ v.backup b ≠ none → b ∈ blocks
  away : ∀ b ∈ blocks, v.arena b = none → v.backup b ≠ none → s.residency b = .onCpu
  rows : ∀ b ∈ blocks, s.residency b = .onGpu ∨ s.residency b = .onCpu ∧ v.backup b ≠ none
  untrimmed : v.trimmed = false → ∀ b ∈ blocks, s.residency b = .onGpu

/-- After a call for `seq` made in `s`. A call for `owner` loses no pool slot. -/
structure Shows (owner : S) (blocks : Finset Nat) (seq : S) (s : TierManager S D (Memory bs R)) (v : Shelf bs R D)
    (t : TierManager S D (Memory bs R)) : Prop where
  sound : Sound cfg t
  sees : Sees cfg owner blocks v t
  total : seq = owner → poolTotal t = poolTotal s

variable {cfg} {owner seq : S} {blocks : Finset Nat} {v : Shelf bs R D} {s t : TierManager S D (Memory bs R)} {c : Nat}
  {k : S × Nat}

omit [DecidableEq S] in
theorem Sound.nodup (sound : Sound cfg s) : (s.cpuFree ++ s.cpuSlots.values ++ s.hostSlots.values).Nodup := by
  obtain ⟨l, hs, sub⟩ := sound.pool
  exact hs.nodup_iff.mp (nodup_range.sublist sub)

theorem backup_mem (hf : backup cfg s k = some c) : c ∈ s.cpuSlots.values ++ s.hostSlots.values := by
  unfold backup at hf
  split at hf
  · exact mem_append_right _ (mem_values_iff.mpr ⟨k, hf⟩)
  · exact mem_append_left _ (mem_values_iff.mpr ⟨k, hf⟩)

theorem Sound.backup_not_free (sound : Sound cfg s) (hf : backup cfg s k = some c) : c ∉ s.cpuFree := by
  intro free
  have apart := sound.nodup
  rw [append_assoc] at apart
  exact disjoint_of_nodup_append apart free (backup_mem hf)

variable (cfg) in
structure Stashed (k : S × Nat) (c : Nat) (content : KVBlock bs R) (s t : TierManager S D (Memory bs R)) : Prop where
  free : s.cpuFree = c :: t.cpuFree
  bare : backup cfg s k = none
  slotMap : t.slotMap = s.slotMap
  mem : t.mem = { s.mem with host := update s.mem.host c content }
  summary : t.summary = s.summary
  trimmed : t.trimmed = s.trimmed
  through : cfg.enableWriteThrough = true → t.hostSlots = s.hostSlots.insert k c ∧ t.cpuSlots = s.cpuSlots
  back : cfg.enableWriteThrough = false → k.1 ∈ s.trimmed ∧ t.cpuSlots = s.cpuSlots.insert k c ∧ t.hostSlots = s.hostSlots

namespace Stashed

variable {content : KVBlock bs R} (stashed : Stashed cfg k c content s t)

include stashed

theorem lookup (k' : S × Nat) : backup cfg t k' = if k' = k then some c else backup cfg s k' := by
  cases mode : cfg.enableWriteThrough with
  | true => simp [backup, mode, (stashed.through mode).1, get?_insert]
  | false => simp [backup, mode, (stashed.back mode).2.1, get?_insert]

theorem pool : (t.cpuFree ++ t.cpuSlots.values ++ t.hostSlots.values).Perm (s.cpuFree ++ s.cpuSlots.values ++ s.hostSlots.values) := by
  have bare := stashed.bare
  rw [stashed.free]
  cases mode : cfg.enableWriteThrough with
  | true =>
    obtain ⟨host, cpu⟩ := stashed.through mode
    simp only [backup, mode] at bare
    rw [cpu, host, values_insert_of_not_mem (get?_eq_none_iff.mp bare), ← append_assoc]
    exact perm_append_singleton c _
  | false =>
    obtain ⟨_, cpu, host⟩ := stashed.back mode
    simp only [backup, mode] at bare
    rw [cpu, host, values_insert_of_not_mem (get?_eq_none_iff.mp bare), ← append_assoc]
    exact (perm_append_singleton c _).append_right _

theorem total : poolTotal t = poolTotal s := by
  simpa [poolTotal, Nat.add_assoc] using stashed.pool.length_eq

theorem sound (sound : Sound cfg s) : Sound cfg t := by
  refine ⟨stashed.slotMap ▸ sound.capacity, stashed.pool.subperm.trans sound.pool, fun mode => ?_, fun mode => ?_, ?_⟩
  · rw [(stashed.through mode).2]
    exact sound.durable mode
  · rw [(stashed.back mode).2.2]
    exact sound.unmirrored mode
  rw [stashed.trimmed]
  cases mode : cfg.enableWriteThrough with
  | true =>
    rw [(stashed.through mode).2]
    exact sound.spilled
  | false =>
    obtain ⟨begun, cpu, _⟩ := stashed.back mode
    intro k' hm
    rw [cpu] at hm
    rcases mem_insert.mp hm with rfl | old
    · exact begun
    · exact sound.spilled k' old

end Stashed

variable (sees : Sees cfg owner blocks v s)

include sees in
theorem Sees.frame (summary : ∀ b ∈ blocks, t.summary b = s.summary b)
    (rows : ∀ b ∈ blocks, t.residency b = s.residency b) (slots : ∀ b, t.slotMap.slot? (owner, b) = s.slotMap.slot? (owner, b))
    (arena : ∀ b slot, s.slotMap.slot? (owner, b) = some slot → t.mem.arena slot = s.mem.arena slot)
    (backups : ∀ b, backup cfg t (owner, b) = backup cfg s (owner, b))
    (host : ∀ b c, backup cfg s (owner, b) = some c → t.mem.host c = s.mem.host c)
    (trimmed : owner ∈ t.trimmed ↔ owner ∈ s.trimmed) : Sees cfg owner blocks v t where
  summary b hm := (summary b hm).trans (sees.summary b hm)
  arena b := by
    rw [slots b, ← sees.arena b]
    exact Option.map_congr fun slot held => arena b slot held
  hosted b := by
    rw [backups b, ← sees.hosted b]
    exact Option.map_congr fun c hf => host b c hf
  trimmed := trimmed.trans sees.trimmed
  inside := sees.inside
  away b hm gone kept := (rows b hm).trans (sees.away b hm gone kept)
  rows b hm := by
    rw [rows b hm]
    exact sees.rows b hm
  untrimmed fresh b hm := (rows b hm).trans (sees.untrimmed fresh b hm)

variable {b : Nat} {b' : Nat}

include sees in
theorem Sees.score (side : b ∈ blocks ↔ seq = owner) (digest : D) :
    Sees cfg owner blocks (Shelf.forSeq owner seq (Shelf.score b digest) v)
      { s with summary := update s.summary b digest } := by
  by_cases own : seq = owner
  · rw [Shelf.forSeq, if_pos own]
    refine ⟨fun b' hw => ?_, sees.arena, sees.hosted, sees.trimmed, sees.inside, sees.away, sees.rows, sees.untrimmed⟩
    by_cases hs : b' = b
    · simp [Shelf.score, hs]
    · simpa [Shelf.score, hs] using sees.summary b' hw
  · rw [Shelf.forSeq, if_neg own]
    refine sees.frame (fun b' hw => ?_) (fun _ _ => rfl) (fun _ => rfl) (fun _ _ _ => rfl) (fun _ => rfl)
      (fun _ _ _ => rfl) Iff.rfl
    exact update_of_ne (fun hs : b' = b => own (side.mp (hs ▸ hw))) _ _

omit [DecidableEq S] in
theorem other_key {x y : S} (ne : x ≠ y) : (x, b) ≠ (y, b') :=
  fun hs => ne (congrArg Prod.fst hs)

omit [DecidableEq S] in
theorem other_block {x : S} (ne : b ≠ b') : (x, b) ≠ (x, b') :=
  fun hs => ne (congrArg Prod.snd hs)

theorem LRUSlotMap.Claimed.ne_slot {K : Type} [DecidableEq K] {m m' : LRUSlotMap K} {key k : K} {slot slot' : Nat}
    (claimed : m.Claimed key slot m') (ne : k ≠ key) (held : m.slot? k = some slot') : slot' ≠ slot := by
  rintro rfl
  have mine : m'.slot? key = some slot' := by simp [claimed.lookup]
  have theirs : m'.slot? k = some slot' := by simp [claimed.lookup, ne, held]
  exact ne (slot?_inj theirs mine)

variable {m : LRUSlotMap (S × Nat)} {slot : Nat}

include sees in
theorem Sees.place
    (claimed : s.slotMap.Claimed (seq, b) slot m) (side : b ∈ blocks ↔ seq = owner) (content : KVBlock bs R) :
    Sees cfg owner blocks (Shelf.forSeq owner seq (Shelf.place b content) v)
      (fillClaimed (seq, b) slot content { s with slotMap := m }) := by
  by_cases own : seq = owner
  · subst own
    have hm := side.mpr rfl
    rw [Shelf.forSeq, if_pos rfl]
    refine ⟨sees.summary, fun b' => ?_, sees.hosted, sees.trimmed, fun b' held => ?_, fun b' hw => ?_,
      fun b' hw => ?_, fun fresh b' hw => ?_⟩
    · by_cases hs : b' = b
      · subst hs
        simp [fillClaimed, setResidency, setMem, Shelf.place, claimed.lookup, fillSlot]
      · have other : (seq, b') ≠ (seq, b) := other_block hs
        simp only [fillClaimed, setResidency, setMem, Shelf.place, claimed.lookup, other, ne_eq, hs, not_false_eq_true, update_of_ne]
        rw [← sees.arena]
        exact Option.map_congr fun slot' held => update_of_ne (claimed.ne_slot other held) _ _
    · by_cases hs : b' = b
      · exact hs ▸ hm
      · simp only [Shelf.place, ne_eq, hs, not_false_eq_true, update_of_ne] at held
        exact sees.inside b' held
    · by_cases hs : b' = b
      · subst hs
        simp [Shelf.place]
      · simpa [Shelf.place, fillClaimed, setResidency, setMem, hs] using sees.away b' hw
    · by_cases hs : b' = b
      · subst hs
        simp [fillClaimed, setResidency]
      · simpa [Shelf.place, fillClaimed, setResidency, setMem, hs] using sees.rows b' hw
    · by_cases hs : b' = b
      · subst hs
        simp [fillClaimed, setResidency]
      · simpa [fillClaimed, setResidency, setMem, hs] using sees.untrimmed fresh b' hw
  · rw [Shelf.forSeq, if_neg own]
    have other : ∀ b', (owner, b') ≠ (seq, b) := fun b' => other_key (Ne.symm own)
    refine sees.frame (fun _ _ => rfl) (fun b' hw => ?_) (fun b' => ?_) (fun b' slot' held => ?_) (fun _ => rfl)
      (fun _ _ _ => rfl) Iff.rfl
    · have ne : b' ≠ b := fun hs => own (side.mp (hs ▸ hw))
      simp [fillClaimed, setResidency, setMem, ne]
    · simp [fillClaimed, setResidency, setMem, claimed.lookup, other]
    · exact update_of_ne (claimed.ne_slot (other b') held) _ _

include sees in
theorem Sees.backup_none_iff : v.backup b = none ↔ backup cfg s (owner, b) = none := by
  rw [← sees.hosted b, Option.map_eq_none_iff]

include sees in
theorem Sees.arena_none_iff : v.arena b = none ↔ s.slotMap.slot? (owner, b) = none := by
  rw [← sees.arena b, Option.map_eq_none_iff]

variable {content : KVBlock bs R}

section

variable (sees : Sees cfg owner blocks v s)

include sees

theorem Sees.rebacked {found : Option Nat} (side : b ∈ blocks ↔ seq = owner)
    (slotMap : t.slotMap = s.slotMap) (arena : t.mem.arena = s.mem.arena)
    (host : ∀ k c, backup cfg s k = some c → t.mem.host c = s.mem.host c)
    (summary : t.summary = s.summary) (trimmed : t.trimmed = s.trimmed)
    (lookup : ∀ k, backup cfg t k = if k = (seq, b) then found else backup cfg s k)
    (others : ∀ b' ≠ b, t.residency b' = s.residency b')
    (row : seq = owner → (v.arena b = none → t.residency b = .onCpu) ∧
      (t.residency b = .onGpu ∨ t.residency b = .onCpu ∧ found ≠ none) ∧ (v.trimmed = false → t.residency b = .onGpu)) :
    Sees cfg owner blocks
      (Shelf.forSeq owner seq (fun w => { w with backup := update w.backup b (found.map t.mem.host) }) v) t := by
  by_cases own : seq = owner
  · subst own
    obtain ⟨gone, either, begun⟩ := row rfl
    rw [Shelf.forSeq, if_pos rfl]
    refine ⟨by rw [summary]; exact sees.summary, by rw [slotMap, arena]; exact sees.arena, fun b' => ?_,
      by rw [trimmed]; exact sees.trimmed, fun b' held => ?_, fun b' hw => ?_, fun b' hw => ?_, fun fresh b' hw => ?_⟩
    all_goals by_cases hs : b' = b
    · simp [hs, lookup]
    · rw [lookup, if_neg (other_block hs)]
      simp only [ne_eq, hs, not_false_eq_true, update_of_ne]
      rw [← sees.hosted]
      exact Option.map_congr fun c hf => host _ c hf
    · exact hs ▸ side.mpr rfl
    · simp only [ne_eq, hs, not_false_eq_true, update_of_ne] at held
      exact sees.inside b' held
    · exact fun missing _ => hs ▸ gone (hs ▸ missing)
    · rw [others b' hs]
      simpa [hs] using sees.away b' hw
    · simpa [hs] using either
    · rw [others b' hs]
      simpa [hs] using sees.rows b' hw
    · exact hs ▸ begun fresh
    · rw [others b' hs]
      exact sees.untrimmed fresh b' hw
  · rw [Shelf.forSeq, if_neg own]
    have other : ∀ b', (owner, b') ≠ (seq, b) := fun b' => other_key (Ne.symm own)
    exact sees.frame (by simp [summary]) (fun b' hw => others b' fun hs => own (side.mp (hs ▸ hw))) (by simp [slotMap])
      (by simp [arena]) (fun b' => by rw [lookup, if_neg (other b')]) (fun b' => host _) (by rw [trimmed])

theorem Sees.stash (sound : Sound cfg s) (stashed : Stashed cfg (seq, b) c content s t)
    (side : b ∈ blocks ↔ seq = owner) (others : ∀ b' ≠ b, t.residency b' = s.residency b')
    (row : seq = owner → (v.arena b = none → t.residency b = .onCpu) ∧
      (t.residency b = .onGpu ∨ t.residency b = .onCpu) ∧ (v.trimmed = false → t.residency b = .onGpu)) :
    Sees cfg owner blocks (Shelf.forSeq owner seq (Shelf.store b content) v) t := by
  have unused : ∀ k c', backup cfg s k = some c' → t.mem.host c' = s.mem.host c' := by
    intro k c' hf
    rw [stashed.mem]
    exact update_of_ne (fun hs => sound.backup_not_free (hs ▸ hf) (stashed.free ▸ (.head _))) _ _
  have backed := sees.rebacked side stashed.slotMap (by rw [stashed.mem]) unused stashed.summary stashed.trimmed stashed.lookup
    others (by simpa using row)
  simp only [Option.map_some, stashed.mem, update_self] at backed
  exact backed

theorem Sees.evictRow (side : b ∈ blocks ↔ seq = owner) (ready : seq = owner → v.backup b ≠ none ∧ v.trimmed = true) :
    Sees cfg owner blocks v { s with residency := update s.residency b .onCpu } := by
  by_cases own : seq = owner
  · obtain ⟨kept, begun⟩ := ready own
    refine ⟨sees.summary, sees.arena, sees.hosted, sees.trimmed, sees.inside, fun b' hw => ?_, fun b' hw => ?_, by simp [begun]⟩
    · by_cases hs : b' = b
      · subst hs
        simp
      · simpa [hs] using sees.away b' hw
    · by_cases hs : b' = b
      · subst hs
        simp [kept]
      · simpa [hs] using sees.rows b' hw
  · refine sees.frame (fun _ _ => rfl) (fun b' hw => ?_) (fun _ => rfl) (fun _ _ _ => rfl) (fun _ => rfl)
      (fun _ _ _ => rfl) Iff.rfl
    exact update_of_ne (fun hs : b' = b => own (side.mp (hs ▸ hw))) _ _

theorem Sees.forSeq_mirror_of_bare (bare : backup cfg s (seq, b) = none) :
    Shelf.forSeq owner seq (Shelf.mirror b content) v = Shelf.forSeq owner seq (Shelf.store b content) v := by
  unfold Shelf.forSeq
  split
  · rename_i own
    rw [Shelf.mirror, sees.backup_none_iff.mpr (own ▸ bare)]
  · rfl

theorem Sees.forSeq_mirror_of_backed
    (hf : backup cfg s (seq, b) = some c) : Shelf.forSeq owner seq (Shelf.mirror b content) v = v := by
  unfold Shelf.forSeq
  split
  · rename_i own
    have held : v.backup b = some (s.mem.host c) := by
      rw [← sees.hosted b, ← own, hf]
      rfl
    rw [Shelf.mirror, held]
  · rfl

end

variable {rest : List Nat} {P P' : Nat → Prop}

def arenaNeed (seq : S) (lo : Nat) (l : List Nat) (s : TierManager S D (Memory bs R)) : Nat :=
  (l.toFinset.filter fun b => lo ≤ b ∧ (seq, b) ∉ s.slotMap.keys).card

variable (cfg) in
def poolNeed (seq : S) (lo : Nat) (l : List Nat) (s : TierManager S D (Memory bs R)) : Nat :=
  (l.toFinset.filter fun b => cfg.enableWriteThrough = true ∧ (seq, b) ∉ s.hostSlots ∨
    cfg.enableWriteThrough = false ∧ b < lo).card

variable (cfg) in
structure Room (seq : S) (lo : Nat) (l : List Nat) (s : TierManager S D (Memory bs R)) : Prop where
  arena : arenaNeed seq lo l s ≤ s.slotMap.freeSlots.length
  pool : poolNeed cfg seq lo l s ≤ s.cpuFree.length

instance (seq : S) (lo : Nat) (l : List Nat) (s : TierManager S D (Memory bs R)) : Decidable (Room cfg seq lo l s) :=
  decidable_of_iff (arenaNeed seq lo l s ≤ s.slotMap.freeSlots.length ∧ poolNeed cfg seq lo l s ≤ s.cpuFree.length)
    ⟨fun room => ⟨room.1, room.2⟩, fun room => ⟨room.arena, room.pool⟩⟩

theorem card_filter_tail_le [DecidablePred P] [DecidablePred P']
    (sub : ∀ b' ∈ rest, P' b' → P b') : (rest.toFinset.filter P').card ≤ ((b :: rest).toFinset.filter P).card := by
  refine Finset.card_le_card fun b' hm => ?_
  simp only [Finset.mem_filter, mem_toFinset, mem_cons] at hm ⊢
  exact ⟨.inr hm.1, sub b' hm.1 hm.2⟩

theorem card_filter_tail_lt [DecidablePred P] [DecidablePred P']
    (head : P b) (sub : ∀ b' ∈ rest, P' b' → P b' ∧ b' ≠ b) :
    (rest.toFinset.filter P').card < ((b :: rest).toFinset.filter P).card := by
  refine Finset.card_lt_card ((Finset.ssubset_iff_of_subset fun b' hm => ?_).mpr ⟨b, ?_, ?_⟩)
  · simp only [Finset.mem_filter, mem_toFinset, mem_cons] at hm ⊢
    exact ⟨.inr hm.1, (sub b' hm.1 hm.2).1⟩
  · simp [head]
  · simp only [Finset.mem_filter, mem_toFinset]
    exact fun hm => (sub b hm.1 hm.2).2 rfl

variable {lo : Nat}

theorem arena_room (room : arenaNeed seq lo (b :: rest) s ≤ s.slotMap.freeSlots.length)
    (kept : lo ≤ b) (missing : (seq, b) ∉ s.slotMap.keys) : s.slotMap.freeSlots ≠ [] := by
  intro full
  have needed : b ∈ ((b :: rest).toFinset.filter fun b => lo ≤ b ∧ (seq, b) ∉ s.slotMap.keys) := by
    simp [kept, missing]
  have := Finset.card_pos.mpr ⟨b, needed⟩
  unfold arenaNeed at room
  rw [full, length_nil] at room
  omega

theorem LRUSlotMap.Claimed.arena_room (claimed : s.slotMap.Claimed (seq, b) slot m) (map : t.slotMap = m)
    (room : arenaNeed seq lo (b :: rest) s ≤ s.slotMap.freeSlots.length) (kept : lo ≤ b) :
    arenaNeed seq lo rest t ≤ t.slotMap.freeSlots.length := by
  have before := length_free_add_keys s.slotMap
  have after := length_free_add_keys m
  have size := claimed.capacity
  have keys : ∀ k, k ∉ m.keys → k ∉ s.slotMap.keys ∧ k ≠ (seq, b) := by
    intro k missing
    rw [claimed.mem_keys, not_or] at missing
    exact missing.symm
  unfold arenaNeed at room ⊢
  rw [map]
  by_cases present : (seq, b) ∈ s.slotMap.keys
  · have count : m.keys.Perm s.slotMap.keys := by
      refine (perm_ext_iff_of_nodup (nodup_keys _) (nodup_keys _)).mpr fun k => ?_
      rw [claimed.mem_keys, or_iff_right_of_imp]
      rintro rfl
      exact present
    replace count := count.length_eq
    have fewer : (rest.toFinset.filter fun b => lo ≤ b ∧ (seq, b) ∉ m.keys).card ≤
        ((b :: rest).toFinset.filter fun b => lo ≤ b ∧ (seq, b) ∉ s.slotMap.keys).card :=
      card_filter_tail_le fun b' _ need => ⟨need.1, (keys _ need.2).1⟩
    omega
  · have count : m.keys.length = s.slotMap.keys.length + 1 := by
      rw [claimed.keys, filter_eq_self.mpr, length_append, length_singleton]
      intro k held
      simpa using fun hs : k = (seq, b) => present (hs ▸ held)
    have fewer : (rest.toFinset.filter fun b => lo ≤ b ∧ (seq, b) ∉ m.keys).card <
        ((b :: rest).toFinset.filter fun b => lo ≤ b ∧ (seq, b) ∉ s.slotMap.keys).card :=
      card_filter_tail_lt ⟨kept, present⟩ fun b' _ need =>
        ⟨⟨need.1, (keys _ need.2).1⟩, fun hs => (keys _ need.2).2 (by rw [hs])⟩
    omega

theorem poolNeed_tail_kept (hosts : ∀ k, k ∉ t.hostSlots → k ∉ s.hostSlots)
    (free : t.cpuFree = s.cpuFree) (room : poolNeed cfg seq lo (b :: rest) s ≤ s.cpuFree.length) :
    poolNeed cfg seq lo rest t ≤ t.cpuFree.length := by
  rw [free]
  refine le_trans (card_filter_tail_le fun b' _ need => ?_) room
  exact need.imp (And.imp_right (hosts _)) id

theorem poolNeed_tail_taken (free : s.cpuFree = c :: t.cpuFree) (fresh : b ∉ rest)
    (needed : cfg.enableWriteThrough = true ∧ (seq, b) ∉ s.hostSlots ∨ cfg.enableWriteThrough = false ∧ b < lo)
    (hosts : cfg.enableWriteThrough = true → ∀ k, k ∉ t.hostSlots → k ∉ s.hostSlots)
    (room : poolNeed cfg seq lo (b :: rest) s ≤ s.cpuFree.length) :
    poolNeed cfg seq lo rest t ≤ t.cpuFree.length := by
  have fewer : poolNeed cfg seq lo rest t < poolNeed cfg seq lo (b :: rest) s :=
    card_filter_tail_lt needed fun b' later need =>
      ⟨need.imp (fun through => ⟨through.1, hosts through.1 _ through.2⟩) id, fun hs => fresh (hs ▸ later)⟩
  rw [free, length_cons] at room
  omega

theorem pool_room (room : poolNeed cfg seq lo (b :: rest) s ≤ s.cpuFree.length)
    (needed : cfg.enableWriteThrough = true ∧ (seq, b) ∉ s.hostSlots ∨ cfg.enableWriteThrough = false ∧ b < lo) :
    s.cpuFree ≠ [] := by
  intro full
  have hm : b ∈ (b :: rest).toFinset.filter fun b => cfg.enableWriteThrough = true ∧ (seq, b) ∉ s.hostSlots ∨
      cfg.enableWriteThrough = false ∧ b < lo := by
    simpa using needed
  have := Finset.card_pos.mpr ⟨b, hm⟩
  unfold poolNeed at room
  rw [full, length_nil] at room
  omega

theorem wp_claimSlot_room {key : S × Nat} {protect : List (S × Nat)}
    {Q : Nat → TierManager S D (Memory bs R) → Prop} {E : QuestError S → TierManager S D (Memory bs R) → Prop}
    (room : key ∉ s.slotMap.keys → s.slotMap.freeSlots ≠ [])
    (done : ∀ slot m, s.slotMap.Claimed key slot m → Q slot { s with slotMap := m }) :
    wp (claimSlot cfg key protect) Q E s := by
  refine wp_claimSlot done (fun victim slot m _ replaced => ?_) (fun zero => ?_)
  · exact absurd replaced.full (room (slot?_eq_none_iff.mp replaced.absent))
  · obtain ⟨noKeys, noFree⟩ := empty_of_capacity zero
    exact absurd noFree (room (by simp [noKeys]))

structure Elsewhere (seq : S) (b : Nat) (s t : TierManager S D (Memory bs R)) : Prop where
  rows : ∀ b' ≠ b, t.residency b' = s.residency b'
  cpuSlots : ∀ k ≠ (seq, b), k ∈ t.cpuSlots ↔ k ∈ s.cpuSlots
  trimmed : t.trimmed = s.trimmed

theorem Shelf.forSeq_comp {f g : Shelf bs R D → Shelf bs R D} :
    Shelf.forSeq owner seq g (Shelf.forSeq owner seq f v) = Shelf.forSeq owner seq (fun v => g (f v)) v := by
  unfold Shelf.forSeq
  split <;> rfl

omit [DecidableEq S] in
theorem Sound.slotMap_change (sound : Sound cfg s) (capacity : t.slotMap.capacity = s.slotMap.capacity)
    (cpuFree : t.cpuFree = s.cpuFree) (cpuSlots : t.cpuSlots = s.cpuSlots) (hostSlots : t.hostSlots = s.hostSlots)
    (trimmed : t.trimmed = s.trimmed) : Sound cfg t := by
  refine ⟨capacity.trans sound.capacity, ?_, ?_, ?_, ?_⟩
  · rw [cpuFree, cpuSlots, hostSlots]
    exact sound.pool
  · rw [cpuSlots]
    exact sound.durable
  · rw [hostSlots]
    exact sound.unmirrored
  · rw [cpuSlots, trimmed]
    exact sound.spilled

theorem mirrorToHost_shows (mode : cfg.enableWriteThrough = true)
    (sound : Sound cfg s) (sees : Sees cfg owner blocks v s) (side : b ∈ blocks ↔ seq = owner)
    (resident : seq = owner → v.arena b ≠ none) (fresh : b ∉ rest)
    (room : poolNeed cfg seq lo (b :: rest) s ≤ s.cpuFree.length) :
    wp (mirrorToHost cfg (seq, b) content) (fun _ t =>
      Shows cfg owner blocks seq s (Shelf.forSeq owner seq (Shelf.mirror b content) v) t ∧ Elsewhere seq b s t ∧
      t.slotMap = s.slotMap ∧ poolNeed cfg seq lo rest t ≤ t.cpuFree.length)
      (fun _ _ => False) s := by
  have lookup : ∀ k, backup cfg s k = s.hostSlots.get? k := fun k => by simp [backup, mode]
  refine wp_mirrorWith (fun there => ?_) (fun missing c rest' free => ?_) (fun missing full => ?_)
  · obtain ⟨c, hf⟩ := mem_iff_get?.mp there
    rw [sees.forSeq_mirror_of_backed ((lookup _).trans hf)]
    exact ⟨⟨sound, sees, fun _ => rfl⟩, ⟨fun _ _ => rfl, fun _ _ => Iff.rfl, rfl⟩, rfl,
      poolNeed_tail_kept (fun _ h => h) rfl room⟩
  · have bare := (lookup _).trans (get?_eq_none_iff.mpr missing)
    rw [sees.forSeq_mirror_of_bare bare]
    have stashed : Stashed cfg (seq, b) c content s { s with
        cpuFree := rest'
        hostSlots := s.hostSlots.insert (seq, b) c
        mem := mirrorBlock c content s.mem } := ⟨free, bare, rfl, rfl, rfl, rfl, fun _ => ⟨rfl, rfl⟩, by simp [mode]⟩
    refine ⟨⟨stashed.sound sound, ?_, fun _ => stashed.total⟩, ⟨fun _ _ => rfl, fun _ _ => Iff.rfl, rfl⟩, rfl, ?_⟩
    · refine sees.stash sound stashed side (fun _ _ => rfl) fun own => ?_
      have hm := side.mpr own
      exact ⟨fun gone => absurd gone (resident own), (sees.rows b hm).imp id And.left,
        fun untouched => sees.untrimmed untouched b hm⟩
    · refine poolNeed_tail_taken free fresh (.inl ⟨mode, missing⟩) (fun _ k absent => ?_) room
      exact fun held => absent (mem_insert.mpr (.inr held))
  · exact pool_room room (.inl ⟨mode, missing⟩) full

theorem install_shows
    (sound : Sound cfg s) (sees : Sees cfg owner blocks v s) (side : b ∈ blocks ↔ seq = owner) (fresh : b ∉ rest)
    (claimed : s.slotMap.Claimed (seq, b) slot m) (room : poolNeed cfg seq lo (b :: rest) s ≤ s.cpuFree.length) :
    wp (if cfg.enableWriteThrough then mirrorToHost cfg (seq, b) content else pure ()) (fun _ t =>
      Shows cfg owner blocks seq s (Shelf.forSeq owner seq (Shelf.install cfg b content) v) t ∧ Elsewhere seq b s t ∧
      t.slotMap = m ∧ poolNeed cfg seq lo rest t ≤ t.cpuFree.length)
      (fun _ _ => False) (fillClaimed (seq, b) slot content { s with slotMap := m }) := by
  have sound' : Sound cfg (fillClaimed (seq, b) slot content { s with slotMap := m }) :=
    sound.slotMap_change claimed.capacity rfl rfl rfl rfl
  have sees' := sees.place claimed side content
  have frame : Elsewhere seq b s (fillClaimed (seq, b) slot content { s with slotMap := m }) :=
    ⟨fun b' ne => update_of_ne ne _ _, fun _ _ => Iff.rfl, rfl⟩
  cases mode : cfg.enableWriteThrough with
  | true =>
    have resident : seq = owner → (Shelf.forSeq owner seq (Shelf.place b content) v).arena b ≠ none := by
      rintro rfl
      simp [Shelf.forSeq, Shelf.place]
    refine wp_imp (mirrorToHost_shows mode sound' sees' side resident fresh room) ?_
    rintro _ t ⟨shows, there, map, tail⟩
    rw [Shelf.forSeq_comp] at shows
    refine ⟨⟨shows.sound, ?_, shows.total⟩, ⟨fun b' ne => ?_, there.cpuSlots, there.trimmed⟩, map, tail⟩
    · have hs : Shelf.install cfg b content = fun w => (w.place b content).mirror b content := by
        funext w
        simp [Shelf.install, mode]
      rw [hs]
      exact shows.sees
    · exact (there.rows b' ne).trans (frame.rows b' ne)
  | false =>
    refine ⟨⟨sound', ?_, fun _ => rfl⟩, frame, rfl, poolNeed_tail_kept (fun _ h => h) rfl room⟩
    have hs : Shelf.install cfg b content = Shelf.place b content := by
      funext w
      simp [Shelf.install, mode]
    rw [hs]
    exact sees'

/-- The end of a spill: the row of the block follows its backup. Another sequence may have left the row in a state
that refuses it. -/
theorem evictRow_shows {w : Shelf bs R D} {u : TierManager S D (Memory bs R)}
    (sound : Sound cfg u) (total : seq = owner → poolTotal u = poolTotal s) (fresh : seq = owner → u.residency b = .onGpu)
    (evicted : Sees cfg owner blocks w { u with residency := update u.residency b .onCpu })
    (stuck : seq ≠ owner → Sees cfg owner blocks v u) (there : Elsewhere seq b s u) (room : Room cfg seq lo rest u) :
    wp (do beginEvict cfg.layerIdx b; completeEvict cfg.layerIdx b) (fun _ t =>
        Shows cfg owner blocks seq s w t ∧ Elsewhere seq b s t ∧ Room cfg seq lo rest t)
      (fun _ t => seq ≠ owner ∧ Sound cfg t ∧ Sees cfg owner blocks v t) u := by
  refine wp_evictRow (fun _ => ⟨⟨?_, evicted, total⟩, ⟨fun b' ne => ?_, there.cpuSlots, there.trimmed⟩,
    ⟨room.arena, room.pool⟩⟩) (fun unready => ?_)
  · exact sound.slotMap_change rfl rfl rfl rfl rfl
  · exact (update_of_ne ne _ _).trans (there.rows b' ne)
  · have other : seq ≠ owner := fun own => unready (.inl (fresh own))
    exact ⟨other, sound, stuck other⟩

theorem Shelf.forSeq_other {f : Shelf bs R D → Shelf bs R D} (other : seq ≠ owner) :
    Shelf.forSeq owner seq f v = v := if_neg other

theorem Stashed.evict_shows (stashed : Stashed cfg (seq, b) c content s t) (sound : Sound cfg s)
    (sees : Sees cfg owner blocks v s) (side : b ∈ blocks ↔ seq = owner) (same : t.residency = s.residency)
    (row : seq = owner → s.residency b = .onGpu ∧ v.trimmed = true) (there : Elsewhere seq b s t) (room : Room cfg seq lo rest t) :
    wp (do beginEvict cfg.layerIdx b; completeEvict cfg.layerIdx b) (fun _ u =>
      Shows cfg owner blocks seq s (Shelf.forSeq owner seq (Shelf.store b content) v) u ∧ Elsewhere seq b s u ∧
      Room cfg seq lo rest u)
      (fun _ u => seq ≠ owner ∧ Sound cfg u ∧ Sees cfg owner blocks v u) t := by
  refine evictRow_shows (stashed.sound sound) (fun _ => stashed.total) (fun own => same ▸ (row own).1) ?_ (fun other => ?_) there room
  · have evicted : Stashed cfg (seq, b) c content s { t with residency := update t.residency b .onCpu } := { stashed with }
    refine sees.stash sound evicted side (fun b' ne => ?_) fun own => by simp [(row own).2]
    exact (update_of_ne ne _ _).trans (congrFun same b')
  · have shown := sees.stash sound stashed side (fun _ _ => by rw [same]) fun own => absurd own other
    rwa [Shelf.forSeq_other other] at shown

theorem keepOrSpill_shows {overflow exhausted : QuestError S}
    (sound : Sound cfg s) (sees : Sees cfg owner blocks v s) (side : b ∈ blocks ↔ seq = owner) (fresh : b ∉ rest)
    (room : Room cfg seq lo (b :: rest) s) (begun : seq ∈ s.trimmed) (row : seq = owner → s.residency b = .onGpu)
    (bare : (seq, b) ∉ s.cpuSlots) :
    wp (keepOrSpill cfg seq lo overflow exhausted b content) (fun _ t =>
      Shows cfg owner blocks seq s (Shelf.forSeq owner seq (Shelf.settle cfg lo b content) v) t ∧
      Elsewhere seq b s t ∧ Room cfg seq lo rest t)
      (fun _ t => seq ≠ owner ∧ Sound cfg t ∧ Sees cfg owner blocks v t) s := by
  have started : seq = owner → v.trimmed = true := fun own => sees.trimmed.mp (own ▸ begun)
  have arenaTail : ∀ t : TierManager S D (Memory bs R), t.slotMap = s.slotMap →
      arenaNeed seq lo rest t ≤ t.slotMap.freeSlots.length := by
    intro t map
    unfold arenaNeed
    rw [map]
    exact le_trans (card_filter_tail_le fun _ _ need => need) room.arena
  refine wp_keepOrSpill (fun kept slot m claimed => ?_) (fun kept missing full => ?_) (fun hb mode => ?_)
    (fun hb mode c rest' free => ?_) (fun hb mode full => ?_) (fun kept zero => ?_)
  · have hs : Shelf.settle cfg lo b content = Shelf.install cfg b content := by
      funext w
      rw [Shelf.settle, if_pos kept]
    rw [hs]
    refine wp_mono (install_shows sound sees side fresh claimed room.pool) ?_ (fun _ _ h => h.elim)
    rintro _ t ⟨shows, there, map, tail⟩
    exact ⟨shows, there, ⟨claimed.arena_room map room.arena kept, tail⟩⟩
  · exact absurd full (arena_room room.arena kept (slot?_eq_none_iff.mp missing))
  · have hs : Shelf.settle cfg lo b content = Shelf.mirror b content := by
      funext w
      rw [Shelf.settle, if_neg (by omega), if_pos mode]
    have lookup : ∀ k, backup cfg s k = s.hostSlots.get? k := fun k => by simp [backup, mode]
    rw [hs]
    refine wp_mirrorWith (fun there => ?_) (fun missing c rest' free => ?_) (fun missing full => ?_)
    · obtain ⟨c, hf⟩ := mem_iff_get?.mp there
      have held := (lookup _).trans hf
      rw [sees.forSeq_mirror_of_backed held]
      refine evictRow_shows sound (fun _ => rfl) row (sees.evictRow side fun own => ⟨?_, started own⟩) (fun _ => sees)
        ⟨fun _ _ => rfl, fun _ _ => Iff.rfl, rfl⟩ ⟨arenaTail s rfl, poolNeed_tail_kept (fun _ h => h) rfl room.pool⟩
      rw [Ne, sees.backup_none_iff, ← own, held]
      simp
    · have unbacked := (lookup _).trans (get?_eq_none_iff.mpr missing)
      rw [sees.forSeq_mirror_of_bare unbacked]
      have stashed : Stashed cfg (seq, b) c content s { s with
          cpuFree := rest'
          hostSlots := s.hostSlots.insert (seq, b) c
          mem := mirrorBlock c content s.mem } := ⟨free, unbacked, rfl, rfl, rfl, rfl, fun _ => ⟨rfl, rfl⟩, by simp [mode]⟩
      refine stashed.evict_shows sound sees side rfl (fun own => ⟨row own, started own⟩) ⟨fun _ _ => rfl, fun _ _ => Iff.rfl, rfl⟩
        ⟨arenaTail _ rfl, poolNeed_tail_taken free fresh (.inl ⟨mode, missing⟩) (fun _ k absent => ?_) room.pool⟩
      exact fun held => absent (mem_insert.mpr (.inr held))
    · exact absurd full (pool_room room.pool (.inl ⟨mode, missing⟩))
  · have hs : Shelf.settle cfg lo b content = Shelf.store b content := by
      funext w
      rw [Shelf.settle, if_neg (by omega), if_neg (by simp [mode])]
    have unbacked : backup cfg s (seq, b) = none := by
      simpa [backup, mode] using get?_eq_none_iff.mpr bare
    rw [hs]
    have stashed : Stashed cfg (seq, b) c content s { s with
        cpuFree := rest'
        mem := storeBlock c content s.mem
        cpuSlots := s.cpuSlots.insert (seq, b) c } :=
      ⟨free, unbacked, rfl, rfl, rfl, rfl, by simp [mode], fun _ => ⟨begun, rfl, rfl⟩⟩
    refine stashed.evict_shows sound sees side rfl (fun own => ⟨row own, started own⟩) ⟨fun _ _ => rfl, fun k ne => ?_, rfl⟩
      ⟨arenaTail _ rfl, poolNeed_tail_taken free fresh (.inr ⟨mode, hb⟩) (by simp) room.pool⟩
    simp [mem_insert, ne]
  · exact absurd full (pool_room room.pool (.inr ⟨mode, hb⟩))
  · obtain ⟨noKeys, noFree⟩ := empty_of_capacity zero
    exact absurd noFree (arena_room room.arena kept (by simp [noKeys]))

end KVOffload.Quest
