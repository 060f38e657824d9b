import KVOffload.Quest.Accounting

/-!
# The two tiers hold every block

`Coherent` relates a manager to a set of stored blocks with their contents, outside a `hole`: the block that a call is working
on.
-/

namespace KVOffload.Quest

open List OrderedDict LRUSlotMap Function

variable {S D M R : Type} {bs : Nat}

structure Quiet (s t : TierManager S D M) : Prop where
  summary : t.summary = s.summary
  prevSelected : t.prevSelected = s.prevSelected
  trimmed : t.trimmed = s.trimmed
  activeSeqs : t.activeSeqs = s.activeSeqs

theorem Quiet.refl (s : TierManager S D M) : Quiet s s := ⟨rfl, rfl, rfl, rfl⟩

theorem Quiet.trans {s t u : TierManager S D M} (first : Quiet s t) (second : Quiet t u) : Quiet s u :=
  ⟨second.summary.trans first.summary, second.prevSelected.trans first.prevSelected,
    second.trimmed.trans first.trimmed, second.activeSeqs.trans first.activeSeqs⟩

variable [DecidableEq S]

def backup (cfg : TierConfig bs R D) (s : TierManager S D M) (k : S × Nat) : Option Nat :=
  if cfg.enableWriteThrough then s.hostSlots.get? k else s.cpuSlots.get? k

def Away (stored : Set (S × Nat)) (s : TierManager S D M) (b : Nat) : Prop :=
  ∃ r, (r, b) ∈ stored ∧ s.slotMap.slot? (r, b) = none

/-- Outside `hole`, the manager holds the blocks of `stored` with `content`, and nothing but the blocks of `live`
takes a slot besides them. -/
structure Coherent (cfg : TierConfig bs R D) (hole stored live : Set (S × Nat)) (data : S × Nat → KVBlock bs R)
    (s : TierManager S D (Memory bs R)) : Prop where
  known : ∀ k ∉ hole, ∀ slot, s.slotMap.slot? k = some slot → k ∈ stored ∨ k ∈ live
  resident : ∀ k ∈ stored, k ∉ hole → ∀ slot, s.slotMap.slot? k = some slot → s.mem.arena slot = data k
  backed : ∀ k ∉ hole, ∀ c, backup cfg s k = some c → k ∈ stored ∧ s.mem.host c = data k
  covered : ∀ k ∈ stored, k ∉ hole → s.slotMap.slot? k = none → ∃ c, backup cfg s k = some c
  mirrored : cfg.enableWriteThrough = true → ∀ k ∈ stored, k ∉ hole → ∃ c, backup cfg s k = some c
  away : ∀ b, (∀ r, (r, b) ∉ hole) → Away stored s b → s.residency b = .onCpu
  here : ∀ b, (∀ r, (r, b) ∉ hole) → ¬ Away stored s b → s.residency b = .onGpu

variable {cfg : TierConfig bs R D} {hole stored live : Set (S × Nat)} {data : S × Nat → KVBlock bs R}
  {s t u : TierManager S D (Memory bs R)} {extra : List Nat} {key k : S × Nat} {copy : Nat → Memory bs R → Memory bs R}
  {slot : Nat} {x : KVBlock bs R} {e : QuestError S} {c c' : Nat}

theorem coherent_init (cfg : TierConfig bs R D) (mem : Memory bs R) (summary : Nat → D)
    (data : S × Nat → KVBlock bs R) : Coherent cfg ∅ ∅ ∅ data (TierManager.init cfg mem summary) where
  known k _ slot held := by simp [TierManager.init] at held
  resident k stored := absurd stored (Set.notMem_empty k)
  backed k _ c hf := by
    unfold backup at hf
    split at hf <;> simp [TierManager.init] at hf
  covered k stored := absurd stored (Set.notMem_empty k)
  mirrored _ k stored := absurd stored (Set.notMem_empty k)
  away b _ away := by
    obtain ⟨r, stored, _⟩ := away
    exact absurd stored (Set.notMem_empty _)
  here _ _ _ := rfl

variable (cfg stored live data s k) in
/-- What `Coherent` says of one block. -/
structure Kept : Prop where
  slot : ∀ slot, s.slotMap.slot? k = some slot → (k ∈ stored ∨ k ∈ live) ∧ (k ∈ stored → s.mem.arena slot = data k)
  back : ∀ c, backup cfg s k = some c → k ∈ stored ∧ s.mem.host c = data k
  cover : k ∈ stored → s.slotMap.slot? k = none ∨ cfg.enableWriteThrough = true → ∃ c, backup cfg s k = some c

def RowKept (stored : Set (S × Nat)) (s : TierManager S D M) (b : Nat) : Prop :=
  (Away stored s b → s.residency b = .onCpu) ∧ (¬ Away stored s b → s.residency b = .onGpu)

theorem coherent_iff : Coherent cfg hole stored live data s ↔
    (∀ k ∉ hole, Kept cfg stored live data s k) ∧ ∀ b, (∀ r, (r, b) ∉ hole) → RowKept stored s b := by
  constructor
  · intro hc
    refine ⟨fun k ho => ⟨fun slot held => ⟨hc.known k ho slot held, fun hm => hc.resident k hm ho slot held⟩, hc.backed k ho, ?_⟩,
      fun b ho => ⟨hc.away b ho, hc.here b ho⟩⟩
    rintro hm (missing | mode)
    · exact hc.covered k hm ho missing
    · exact hc.mirrored mode k hm ho
  · rintro ⟨keys, rows⟩
    exact ⟨fun k ho slot held => ((keys k ho).slot slot held).1, fun k hm ho slot held => ((keys k ho).slot slot held).2 hm,
      fun k ho => (keys k ho).back, fun k hm ho missing => (keys k ho).cover hm (.inl missing),
      fun mode k hm ho => (keys k ho).cover hm (.inr mode), fun b ho => (rows b ho).1, fun b ho => (rows b ho).2⟩

theorem Coherent.frame (hc : Coherent cfg hole stored live data s) (slots : ∀ k ∉ hole, t.slotMap.slot? k = s.slotMap.slot? k)
    (arena : ∀ k ∉ hole, ∀ slot, s.slotMap.slot? k = some slot → t.mem.arena slot = s.mem.arena slot)
    (backups : ∀ k ∉ hole, backup cfg t k = backup cfg s k)
    (host : ∀ k ∉ hole, ∀ c, backup cfg s k = some c → t.mem.host c = s.mem.host c)
    (rows : ∀ b, (∀ r, (r, b) ∉ hole) → t.residency b = s.residency b) : Coherent cfg hole stored live data t := by
  obtain ⟨keys, kept⟩ := coherent_iff.mp hc
  refine coherent_iff.mpr ⟨fun k ho => ?_, fun b ho => ?_⟩
  · obtain ⟨slot, back, cover⟩ := keys k ho
    rw [← slots k ho, ← backups k ho] at cover
    refine ⟨fun held taken => ?_, fun c hf => ?_, cover⟩
    · rw [slots k ho] at taken
      rw [arena k ho held taken]
      exact slot held taken
    · rw [backups k ho] at hf
      rw [host k ho c hf]
      exact back c hf
  · have same : Away stored t b ↔ Away stored s b := by simp only [Away, slots _ (ho _)]
    rw [RowKept, same, rows b ho]
    exact kept b ho

theorem Coherent.congr (hc : Coherent cfg hole stored live data s) (map : t.slotMap = s.slotMap) (mem : t.mem = s.mem)
    (cpuSlots : t.cpuSlots = s.cpuSlots) (hostSlots : t.hostSlots = s.hostSlots) (rows : t.residency = s.residency) :
    Coherent cfg hole stored live data t :=
  hc.frame (by simp [map]) (by simp [mem]) (by simp [backup, cpuSlots, hostSlots]) (by simp [mem]) (by simp [rows])

theorem Coherent.widen {hole' stored' live' : Set (S × Nat)} {content' : S × Nat → KVBlock bs R}
    (hc : Coherent cfg hole stored live data s) (wider : hole ⊆ hole') (hs : ∀ k ∉ hole', k ∈ stored' ↔ k ∈ stored)
    (kept : ∀ k ∉ hole', k ∈ live → k ∈ stored' ∨ k ∈ live') (equal : ∀ k ∈ stored, k ∉ hole' → content' k = data k) :
    Coherent cfg hole' stored' live' content' s := by
  obtain ⟨keys, rows⟩ := coherent_iff.mp hc
  refine coherent_iff.mpr ⟨fun k ho => ?_, fun b ho => ?_⟩
  · obtain ⟨slot, back, cover⟩ := keys k fun hi => ho (wider hi)
    refine ⟨fun held taken => ?_, fun c hf => ?_, fun hm => cover ((hs k ho).mp hm)⟩
    · obtain ⟨known, filled⟩ := slot held taken
      refine ⟨known.elim (fun hm => .inl ((hs k ho).mpr hm)) (kept k ho), fun hm => ?_⟩
      have hm := (hs k ho).mp hm
      exact (filled hm).trans (equal k hm ho).symm
    · obtain ⟨hm, filled⟩ := back c hf
      exact ⟨(hs k ho).mpr hm, filled.trans (equal k hm ho).symm⟩
  · have same : Away stored' s b ↔ Away stored s b := by simp only [Away, hs _ (ho _)]
    rw [RowKept, same]
    exact rows b fun r hi => ho r (wider hi)

theorem Coherent.relive {live' : Set (S × Nat)} (hc : Coherent cfg ∅ stored live data s)
    (kept : ∀ k ∈ live, k ∈ stored ∨ k ∈ live') : Coherent cfg ∅ stored live' data s :=
  hc.widen (Set.Subset.refl _) (fun _ _ => Iff.rfl) (fun k _ => kept k) fun _ _ _ => rfl

theorem Coherent.close (hc : Coherent cfg {key} stored live data s) (kept : Kept cfg stored live data s key)
    (row : RowKept stored s key.2) : Coherent cfg ∅ stored live data s := by
  obtain ⟨keys, rows⟩ := coherent_iff.mp hc
  refine coherent_iff.mpr ⟨fun k _ => ?_, fun b _ => ?_⟩
  · by_cases hs : k = key
    · exact hs ▸ kept
    · exact keys k hs
  · by_cases hs : b = key.2
    · exact hs ▸ row
    · exact rows b fun r hi => hs (congrArg Prod.snd hi)

/-! ### Pool slots -/

theorem Books.backup_ne (books : Books cfg extra s) (hf : backup cfg s k = some c)
    (loose : c' ∈ extra ∨ c' ∈ s.cpuFree) : c' ≠ c := by
  rintro rfl
  have hd := books.pool.nodup_iff.mpr nodup_range
  have entry : c' ∈ s.cpuSlots.values ∨ c' ∈ s.hostSlots.values := by
    unfold backup at hf
    split at hf
    · exact .inr (mem_values_iff.mpr ⟨k, hf⟩)
    · exact .inl (mem_values_iff.mpr ⟨k, hf⟩)
  simp only [nodup_append', disjoint_left, mem_append] at hd
  obtain ⟨_, ⟨⟨_, _, freeCpu⟩, _, freeHost⟩, extraAll⟩ := hd
  rcases loose with taken | free
  · exact extraAll taken (by tauto)
  · rcases entry with cpu | host
    · exact freeCpu free cpu
    · exact freeHost (.inl free) host

omit [DecidableEq S] in
theorem Books.extra_ne_free (books : Books cfg extra s) (taken : c ∈ extra) (free : c' ∈ s.cpuFree) : c' ≠ c := by
  rintro rfl
  have hd := books.pool.nodup_iff.mpr nodup_range
  exact (nodup_append'.mp hd).2.2 taken (by simp [free])

variable (cfg stored e) in
/-- The pool had no slot left, and it is smaller than the set of stored blocks. -/
structure Exhausted : Prop where
  error : e.PoolExhausted
  small : ∀ room : List (S × Nat), (∀ k ∈ stored, k ∈ room) → cfg.cpuBlocks < room.length

omit [DecidableEq S] in
theorem Exhausted.mono {stored' : Set (S × Nat)} (exhausted : Exhausted cfg stored e)
    (sub : stored ⊆ stored') : Exhausted cfg stored' e :=
  ⟨exhausted.error, fun room hi => exhausted.small room fun k hm => hi k (sub hm)⟩

theorem Books.backups (books : Books cfg extra s) (empty : s.cpuFree = []) :
    ∃ keys : List (S × Nat), keys.Nodup ∧ (∀ k, k ∈ keys ↔ backup cfg s k ≠ none) ∧
      extra.length + keys.length = cfg.cpuBlocks := by
  have total := books.pool.length_eq
  simp only [empty, length_append, length_values] at total
  cases mode : cfg.enableWriteThrough with
  | true =>
    have none := eq_nil_iff_forall_not_mem.mpr fun k => books.durable mode k
    refine ⟨s.hostSlots.keys, s.hostSlots.nodup_keys, fun k => ?_, by simpa [none] using total⟩
    rw [backup, if_pos mode, Ne, get?_eq_none_iff, not_not, mem_def]
  | false =>
    have none := eq_nil_iff_forall_not_mem.mpr fun k => books.unmirrored mode k
    refine ⟨s.cpuSlots.keys, s.cpuSlots.nodup_keys, fun k => ?_, by simpa [none] using total⟩
    rw [backup, if_neg (by simp [mode]), Ne, get?_eq_none_iff, not_not, mem_def]

theorem Books.exhausted (books : Books cfg extra s) (bare : List (S × Nat)) (empty : s.cpuFree = [])
    (backed : ∀ k, backup cfg s k ≠ none → k ∈ stored) (hd : bare.Nodup)
    (unbacked : ∀ k ∈ bare, k ∈ stored ∧ backup cfg s k = none) (more : extra.length < bare.length)
    (error : e.PoolExhausted) : Exhausted cfg stored e := by
  refine ⟨error, fun room hi => ?_⟩
  obtain ⟨keys, nodup, backups, total⟩ := books.backups empty
  have separate := nodup_append'.mpr ⟨nodup, hd, fun k used left => (backups k).mp used (unbacked k left).2⟩
  have hw : keys ++ bare ⊆ room := by
    intro k hm
    rcases mem_append.mp hm with used | left
    · exact hi k (backed k ((backups k).mp used))
    · exact hi k (unbacked k left).1
  have count := (separate.subperm hw).length_le
  rw [length_append] at count
  omega

theorem Coherent.mem_of_backed (hc : Coherent cfg {key} stored live data s)
    (closed : backup cfg s key = none) (hf : backup cfg s k ≠ none) : k ∈ stored := by
  obtain ⟨c, hf⟩ := Option.ne_none_iff_exists'.mp hf
  refine (hc.backed k ?_ c hf).1
  rintro rfl
  rw [closed] at hf
  cases hf

/-! ### Claiming a slot -/

theorem Coherent.evict {victim : S × Nat} (hc : Coherent cfg {key} stored live data s) (hm : victim ∈ stored)
    (slots : ∀ k ≠ key, t.slotMap.slot? k = if k = victim then none else s.slotMap.slot? k) (arena : t.mem.arena = s.mem.arena)
    (rows : t.residency = update s.residency victim.2 .onCpu) (saved : ∃ c, backup cfg t victim = some c)
    (backups : ∀ k ≠ key, ∀ c, backup cfg t k = some c →
      k = victim ∧ t.mem.host c = data victim ∨ backup cfg s k = some c ∧ t.mem.host c = s.mem.host c)
    (kept : ∀ k ≠ key, k ≠ victim → backup cfg t k = backup cfg s k) (other : victim ≠ key) :
    Coherent cfg {key} stored live data t := by
  obtain ⟨keys, kept'⟩ := coherent_iff.mp hc
  refine coherent_iff.mpr ⟨fun k ho => ⟨fun slot held => ?_, fun c hf => ?_, fun hi reason => ?_⟩, fun b ho => ?_⟩
  · rw [slots k ho] at held
    split at held
    · cases held
    · rw [arena]
      exact (keys k ho).slot slot held
  · rcases backups k ho c hf with ⟨rfl, filled⟩ | ⟨before, hs⟩
    · exact ⟨hm, filled⟩
    · rw [hs]
      exact (keys k ho).back c before
  · by_cases hs : k = victim
    · exact hs ▸ saved
    · rw [slots k ho, if_neg hs] at reason
      rw [kept k ho hs]
      exact (keys k ho).cover hi reason
  by_cases hs : b = victim.2
  · subst hs
    have gone : Away stored t victim.2 := ⟨victim.1, hm, by rw [slots _ other, if_pos rfl]⟩
    exact ⟨fun _ => by simp [rows], absurd gone⟩
  · have same : Away stored t b ↔ Away stored s b := by
      have ne : ∀ r, (r, b) ≠ victim := fun r equal => hs (congrArg Prod.snd equal)
      simp [Away, slots _ (ho _), ne]
    rw [RowKept, same, rows, update_of_ne hs]
    exact kept' b ho

variable (cfg extra) in
structure Claim (protect : List (S × Nat)) (key : S × Nat) (slot : Nat)
    (s t : TierManager S D (Memory bs R)) : Prop where
  held : t.slotMap.slot? key = some slot
  same : ∀ slot', s.slotMap.slot? key = some slot' → slot' = slot
  others : ∀ k ≠ key, ∀ slot', t.slotMap.slot? k = some slot' → s.slotMap.slot? k = some slot'
  foreign : ∀ k, k.1 ≠ key.1 → t.slotMap.slot? k = s.slotMap.slot? k
  roomy : s.slotMap.slot? key ≠ none ∨ s.slotMap.freeSlots ≠ [] → ∀ k ≠ key, t.slotMap.slot? k = s.slotMap.slot? k
  keys : t.slotMap.keys = s.slotMap.keys.filter (· ≠ key) ++ [key] ∨
    ∃ victim, s.slotMap.victim protect = some victim ∧ s.slotMap.slot? key = none ∧ s.slotMap.freeSlots = [] ∧
      t.slotMap.keys = s.slotMap.keys.filter (· ≠ victim) ++ [key]
  arena : t.mem.arena = s.mem.arena
  row : t.residency key.2 = s.residency key.2
  back : backup cfg t key = backup cfg s key
  host : ∀ c, c ∈ extra ∨ backup cfg s key = some c → t.mem.host c = s.mem.host c
  quiet : Quiet s t

def Victims (stored : Set (S × Nat)) (protect : List (S × Nat)) (key : S × Nat) (s : TierManager S D M) : Prop :=
  s.slotMap.slot? key = none → s.slotMap.freeSlots = [] → ∀ v, s.slotMap.victim protect = some v →
    v ∈ stored ∧ ∀ k ∈ stored, k.1 = key.1

theorem claimSlot_coherent {protect : List (S × Nat)} (books : Books cfg extra s)
    (hc : Coherent cfg {key} stored live data s) (fresh : cfg.enableWriteThrough = false → key ∉ s.cpuSlots)
    (victims : Victims stored protect key s) (light : extra = [] ∨ extra.length = 1 ∧ key ∈ stored) (hp : 0 < cfg.gpuBudget) :
    wp (claimSlot cfg key protect)
      (fun slot t => Books cfg extra t ∧ Coherent cfg {key} stored live data t ∧ Claim cfg extra protect key slot s t)
      (fun e _ => Exhausted cfg stored e) s := by
  refine wp_with (claimSlot_books books fresh) ?_
  refine wp_claimSlot (fun slot m claimed => ?_) (fun victim slot m chosen replaced => ?_) (fun empty => ?_)
  · refine ⟨hc.frame (fun k ho => ?_) (fun _ _ _ _ => rfl) (fun _ _ => rfl) (fun _ _ _ _ => rfl)
      (fun _ _ => rfl), ?_⟩
    · exact (claimed.lookup k).trans (if_neg ho)
    · refine ⟨(claimed.lookup key).trans (if_pos rfl), fun slot' held => ?_, fun k other slot' held => ?_,
        fun k ne => (claimed.lookup k).trans (if_neg (fun equal => ne (congrArg Prod.fst equal))),
        fun _ k ne => (claimed.lookup k).trans (if_neg ne), .inl claimed.keys, rfl, rfl, rfl, fun _ _ => rfl, rfl, rfl, rfl, rfl⟩
      · rcases claimed.origin with before | ⟨missing, _⟩
        · exact Option.some.inj (held.symm.trans before)
        · rw [missing] at held
          cases held
      · exact (claimed.lookup k).trans (if_neg other) ▸ held
  · obtain ⟨hm, alone⟩ := victims replaced.absent replaced.full victim chosen
    have other := replaced.ne
    have row : victim.2 ≠ key.2 := fun equal => other (Prod.ext (alone victim hm) equal)
    have claim : ∀ {t : TierManager S D (Memory bs R)}, t.slotMap = m → t.mem.arena = s.mem.arena → Quiet s t →
        t.residency = update s.residency victim.2 .onCpu → backup cfg t key = backup cfg s key →
        (∀ c, c ∈ extra ∨ backup cfg s key = some c → t.mem.host c = s.mem.host c) →
        Claim cfg extra protect key slot s t := by
      intro t map arena quiet rows back host
      refine ⟨?_, ?_, ?_, ?_, ?_, ?_, arena, ?_, back, host, quiet⟩
      · rw [map, replaced.lookup, if_pos rfl]
      · intro slot' held
        rw [replaced.absent] at held
        cases held
      · intro k ne slot' held
        rw [map, replaced.lookup, if_neg ne] at held
        split at held
        · cases held
        · exact held
      · intro k ne
        have notKey : k ≠ key := fun equal => ne (congrArg Prod.fst equal)
        have notVictim : k ≠ victim := fun equal => ne (equal ▸ alone victim hm)
        rw [map, replaced.lookup, if_neg notKey, if_neg notVictim]
      · rintro (present | free)
        · exact absurd replaced.absent present
        · exact absurd replaced.full free
      · exact .inr ⟨victim, chosen, replaced.absent, replaced.full, map ▸ replaced.keys⟩
      · rw [rows, update_of_ne row.symm]
    -- All stored blocks belong to one sequence, so no other block keeps the row of the victim away.
    have ready : s.residency victim.2 = .onGpu := by
      refine hc.here _ (fun r hi => row ?_) ?_
      · rw [← Set.mem_singleton_iff.mp hi]
      rintro ⟨r, hi, missing⟩
      have owner := Prod.ext ((alone _ hi).trans (alone _ hm).symm) rfl
      rw [owner, replaced.held] at missing
      cases missing
    refine wp_spillHook ?spill ?drop ?full ?bare (fun _ _ stuck => absurd (.inl ready) stuck)
    case spill =>
      intro mode cpuSlot rest free _
      have isFree : cpuSlot ∈ s.cpuFree := by
        rw [show s.cpuFree = cpuSlot :: rest from free]
        exact .head _
      have unused : ∀ {k c}, backup cfg s k = some c → c ≠ cpuSlot :=
        fun hf => (books.backup_ne hf (.inr isFree)).symm
      refine ⟨hc.evict hm (fun k ho => ?_) rfl rfl ⟨cpuSlot, ?_⟩ (fun k ho c hf => ?_)
        (fun k _ ne => ?_) other, claim rfl rfl ⟨rfl, rfl, rfl, rfl⟩ rfl
        (by simp [backup, get?_insert, other.symm]) (fun c loose => ?_)⟩
      · exact (replaced.lookup k).trans (if_neg ho)
      · simp [backup, mode, get?_insert]
      · simp only [backup, mode, get?_insert, Bool.false_eq_true, ↓reduceIte] at hf
        split at hf
        · rename_i hs
          obtain rfl := Option.some.inj hf
          refine .inl ⟨hs, ?_⟩
          have filled := hc.resident victim hm (fun hi => other hi) slot replaced.held
          exact (update_self ..).trans filled
        · have before : backup cfg s k = some c := by simpa [backup, mode] using hf
          exact .inr ⟨before, update_of_ne (unused before) ..⟩
      · simp [backup, get?_insert, ne]
      · refine update_of_ne ?_ ..
        rcases loose with taken | hf
        · exact (books.extra_ne_free taken isFree).symm
        · exact unused hf
    case drop =>
      intro mode present _
      obtain ⟨c, saved⟩ := hc.mirrored mode victim hm (fun hi => other hi)
      refine ⟨hc.evict hm (fun k ho => ?_) rfl rfl ⟨c, saved⟩ (fun k _ c hf => .inr ⟨hf, rfl⟩)
        (fun _ _ _ => rfl) other, claim rfl rfl ⟨rfl, rfl, rfl, rfl⟩ rfl rfl (fun _ _ => rfl)⟩
      exact (replaced.lookup k).trans (if_neg ho)
    case full =>
      intro mode empty
      have closed : backup cfg s key = none := by
        rw [backup, if_neg (by simp [mode])]
        exact get?_eq_none_iff.mpr (fresh mode)
      have unsaved : backup cfg s victim = none := by
        rw [backup, if_neg (by simp [mode])]
        exact get?_eq_none_iff.mpr (books.apart mode victim (mem_keys_of_slot? replaced.held))
      have backed : ∀ k, backup cfg s k ≠ none → k ∈ stored := fun _ => hc.mem_of_backed closed
      rcases light with none | ⟨one, hi⟩
      · exact books.exhausted [victim] empty backed (by simp) (by simp [hm, unsaved]) (by simp [none]) trivial
      · exact books.exhausted [victim, key] empty backed (by simpa using other)
          (by simp [hm, unsaved, hi, closed]) (by simp [one]) trivial
    case bare =>
      intro mode absent
      obtain ⟨c, saved⟩ := hc.mirrored mode victim hm (fun hi => other hi)
      refine absurd (mem_of_get?_eq (v := c) ?_) absent
      simpa [backup, mode] using saved
  · exact absurd (books.arena ▸ empty) (by omega)

theorem Coherent.writeSlot (hc : Coherent cfg {key} stored live data s)
    (held : s.slotMap.slot? key = some slot) (map : t.slotMap = s.slotMap)
    (arena : ∀ slot' ≠ slot, t.mem.arena slot' = s.mem.arena slot') (host : t.mem.host = s.mem.host)
    (cpuSlots : t.cpuSlots = s.cpuSlots) (hostSlots : t.hostSlots = s.hostSlots)
    (rows : ∀ b ≠ key.2, t.residency b = s.residency b) : Coherent cfg {key} stored live data t := by
  refine hc.frame (fun k _ => by rw [map]) (fun k ho slot' taken => ?_) (fun k _ => ?_)
    (fun k _ c _ => by rw [host]) (fun b ho => rows b ?_)
  · refine arena slot' ?_
    rintro rfl
    exact ho (slot?_inj taken held)
  · simp only [backup, cpuSlots, hostSlots]
  · rintro rfl
    exact ho key.1 rfl

theorem mirrorWith_coherent
    (books : Books cfg [] s) (hc : Coherent cfg {key} stored live data s) (hm : key ∈ stored)
    (mode : cfg.enableWriteThrough = true) (old : ∀ c, backup cfg s key = some c → s.mem.host c = x)
    (copies : ∀ c, copy c s.mem = { s.mem with host := update s.mem.host c x }) :
    wp (mirrorWith cfg key copy) (fun _ t => Books cfg [] t ∧ Coherent cfg {key} stored live data t ∧
        (∃ c, backup cfg t key = some c) ∧ (∀ c, backup cfg t key = some c → t.mem.host c = x) ∧
        t.slotMap = s.slotMap ∧ t.mem.arena = s.mem.arena ∧ t.residency = s.residency ∧ Quiet s t)
      (fun e _ => Exhausted cfg stored e) s := by
  refine wp_with (wp_imp (mirrorWith_books books mode) fun _ _ h => h.1) ?_
  refine wp_mirrorWith (fun present => ?_) (fun absent cpuSlot rest free => ?_) (fun absent empty => ?_)
  · refine ⟨hc, ?_, old, rfl, rfl, rfl, Quiet.refl s⟩
    simpa [backup, mode] using mem_iff_get?.mp present
  · have isFree : cpuSlot ∈ s.cpuFree := by
      rw [free]
      exact .head _
    rw [copies]
    refine ⟨hc.frame (fun _ _ => rfl) (fun _ _ _ _ => rfl) (fun k ho => ?_) (fun k _ c hf => ?_)
      (fun _ _ => rfl), ⟨cpuSlot, ?_⟩, fun c hf => ?_, rfl, rfl, rfl, rfl, rfl, rfl, rfl⟩
    · have ne : k ≠ key := ho
      simp [backup, get?_insert, ne]
    · exact update_of_ne (books.backup_ne hf (.inr isFree)).symm ..
    · simp [backup, mode, get?_insert]
    · simp only [backup, mode, get?_insert, ↓reduceIte, Option.some.injEq] at hf
      subst hf
      exact update_self ..
  · have closed : backup cfg s key = none := by
      rw [backup, if_pos mode]
      exact get?_eq_none_iff.mpr absent
    exact books.exhausted [key] empty (fun _ => hc.mem_of_backed closed) (by simp)
      (by simp [hm, closed]) (by simp) trivial

/-! ### Filling blocks -/

variable (stored key) in
def RowFree (s : TierManager S D M) : Prop :=
  ∀ k ∈ stored, k.1 ≠ key.1 → k.2 = key.2 → s.slotMap.slot? k ≠ none

theorem Coherent.promote (hc : Coherent cfg {key} stored live data s)
    (hm : key ∈ stored) (held : s.slotMap.slot? key = some slot) (filled : s.mem.arena slot = data key)
    (row : s.residency key.2 = .onGpu) (rowFree : RowFree stored key s)
    (back : ∀ c, backup cfg s key = some c → s.mem.host c = data key)
    (cover : cfg.enableWriteThrough = true → ∃ c, backup cfg s key = some c) :
    Coherent cfg ∅ stored live data s := by
  refine hc.close ⟨fun slot' held' => ⟨.inl hm, fun _ => ?_⟩, fun c hf => ⟨hm, back c hf⟩, fun _ reason => ?_⟩
    ⟨fun gone => ?_, fun _ => row⟩
  · rwa [← Option.some.inj (held.symm.trans held')]
  · rcases reason with missing | mode
    · rw [held] at missing
      cases missing
    · exact cover mode
  · obtain ⟨r, hi, missing⟩ := gone
    by_cases owner : r = key.1
    · subst owner
      rw [held] at missing
      cases missing
    · exact absurd missing (rowFree _ hi owner rfl)

theorem mirror_promote (slot : Nat) (books : Books cfg [] s)
    (hc : Coherent cfg {key} stored live data s) (hm : key ∈ stored)
    (held : s.slotMap.slot? key = some slot) (filled : s.mem.arena slot = data key)
    (row : s.residency key.2 = .onGpu) (rowFree : RowFree stored key s)
    (back : ∀ c, backup cfg s key = some c → s.mem.host c = data key)
    (copies : ∀ c, copy c s.mem = { s.mem with host := update s.mem.host c (data key) }) :
    wp (if cfg.enableWriteThrough then mirrorWith cfg key copy else pure ())
      (fun _ t => Books cfg [] t ∧ Coherent cfg ∅ stored live data t ∧ t.slotMap = s.slotMap ∧
        t.mem.arena = s.mem.arena ∧ t.residency = s.residency ∧ Quiet s t) (fun e _ => Exhausted cfg stored e) s := by
  by_cases mode : cfg.enableWriteThrough = true
  · simp only [mode]
    refine wp_imp (mirrorWith_coherent books hc hm mode back copies) ?_
    rintro _ t ⟨books', hc', cover, back', map, arena, rows, quiet⟩
    refine ⟨books', ?_, map, arena, rows, quiet⟩
    exact hc'.promote hm (map ▸ held) (by rw [arena, filled]) (by rw [rows, row])
      (fun k hi owner block => by rw [map]; exact rowFree k hi owner block) back' (fun _ => cover)
  · rw [if_neg (by simp [mode]), wp_pure]
    refine ⟨books, ?_, rfl, rfl, rfl, Quiet.refl s⟩
    exact hc.promote hm held filled row rowFree back (fun yes => by simp [mode] at yes)

structure Placed (key : S × Nat) (slot : Nat) (s t : TierManager S D (Memory bs R)) : Prop where
  held : t.slotMap.slot? key = some slot
  others : ∀ k ≠ key, ∀ slot', t.slotMap.slot? k = some slot' → s.slotMap.slot? k = some slot'
  foreign : ∀ k, k.1 ≠ key.1 → t.slotMap.slot? k = s.slotMap.slot? k
  roomy : s.slotMap.slot? key ≠ none ∨ s.slotMap.freeSlots ≠ [] → ∀ k ≠ key, t.slotMap.slot? k = s.slotMap.slot? k
  arena : ∀ slot' ≠ slot, t.mem.arena slot' = s.mem.arena slot'
  prevSelected : t.prevSelected = s.prevSelected
  trimmed : t.trimmed = s.trimmed
  activeSeqs : t.activeSeqs = s.activeSeqs

variable (key slot x) in
def fillClaimed (t : TierManager S D (Memory bs R)) :
    TierManager S D (Memory bs R) :=
  (t.setMem (BlockMemory.fillSlot slot x)).setResidency key.2 .onGpu

theorem Claim.placed
    (claim : Claim cfg [] [] key slot s t) (map : u.slotMap = t.slotMap)
    (arena : u.mem.arena = (fillClaimed key slot x t).mem.arena) (quiet : Quiet t u) : Placed key slot s u where
  held := map ▸ claim.held
  others k ne slot' held := claim.others k ne slot' (map ▸ held)
  foreign k owner := (congrArg (fun m => m.slot? k) map).trans (claim.foreign k owner)
  roomy room k ne := (congrArg (fun m => m.slot? k) map).trans (claim.roomy room k ne)
  arena slot' ne := by
    rw [arena]
    exact (update_of_ne ne ..).trans (congrFun claim.arena slot')
  prevSelected := quiet.prevSelected.trans claim.quiet.prevSelected
  trimmed := quiet.trimmed.trans claim.quiet.trimmed
  activeSeqs := quiet.activeSeqs.trans claim.quiet.activeSeqs

theorem Coherent.fillClaimed (hc : Coherent cfg {key} stored live data t)
    (claim : Claim cfg [] [] key slot s t) (x : KVBlock bs R) :
    Coherent cfg {key} stored live data (fillClaimed key slot x t) :=
  hc.writeSlot claim.held rfl (fun _ ne => update_of_ne ne ..) rfl rfl rfl
    (fun _ ne => update_of_ne ne ..)

theorem Claim.store
    (claim : Claim cfg [] [] key slot s t) (books : Books cfg [] t)
    (hc : Coherent cfg {key} stored live data t) (hm : key ∈ stored) (rowFree : RowFree stored key s)
    (back : ∀ c, backup cfg s key = some c → s.mem.host c = data key)
    (map : u.slotMap = t.slotMap) (mem : u.mem = (fillClaimed key slot (data key) t).mem)
    (rows : u.residency = (fillClaimed key slot (data key) t).residency) (cpuFree : u.cpuFree = t.cpuFree)
    (cpuSlots : u.cpuSlots = t.cpuSlots) (hostSlots : u.hostSlots = t.hostSlots)
    (copies : ∀ c, copy c u.mem = { u.mem with host := update u.mem.host c (data key) }) :
    wp (if cfg.enableWriteThrough then mirrorWith cfg key copy else pure ())
      (fun _ v => Books cfg [] v ∧ Coherent cfg ∅ stored live data v ∧ v.slotMap = t.slotMap ∧
        v.mem.arena = (fillClaimed key slot (data key) t).mem.arena ∧ Quiet u v)
      (fun e _ => Exhausted cfg stored e) u := by
  have backups : ∀ k, backup cfg u k = backup cfg t k := fun k => by simp only [backup, cpuSlots, hostSlots]
  have filled : Coherent cfg {key} stored live data u := by
    refine (hc.fillClaimed claim (data key)).frame (fun k _ => by rw [map]; rfl) (fun _ _ _ _ => by rw [mem])
      (fun k _ => backups k) (fun _ _ _ _ => by rw [mem]) (fun _ _ => by rw [rows])
  refine wp_imp (mirror_promote slot (books.congr map cpuFree cpuSlots hostSlots) filled hm
    (map ▸ claim.held) (by rw [mem]; exact update_self ..) (by rw [rows]; exact update_self ..)
    (fun k hi owner block => ?_) (fun c hf => ?_) copies) ?_
  · rw [map]
    exact (claim.foreign k owner).trans_ne (rowFree k hi owner block)
  · have before := claim.back.symm.trans ((backups key).symm.trans hf)
    rw [mem]
    exact (claim.host c (.inr before)).trans (back c before)
  · rintro _ v ⟨books', hc', map', arena, _, quiet⟩
    exact ⟨books', hc', map'.trans map, arena.trans (by rw [mem]), quiet⟩

theorem Claim.trailing (claim : Claim cfg [] [] key slot s t)
    (hc : Coherent cfg {key} stored live data t) (hm : key ∈ live) (partly : key ∉ stored)
    (bare : backup cfg s key = none) (rowFree : RowFree stored key s) (x : KVBlock bs R) :
    Coherent cfg ∅ stored live data (fillClaimed key slot x t) := by
  refine (hc.fillClaimed claim x).close ⟨fun slot' _ => ⟨.inr hm, fun hi => absurd hi partly⟩, fun c hf => ?_,
    fun hi => absurd hi partly⟩ ⟨fun gone => ?_, fun _ => update_self ..⟩
  · have before := claim.back.symm.trans hf
    rw [bare] at before
    cases before
  · obtain ⟨r, hi, missing⟩ := gone
    by_cases owner : r = key.1
    · subst owner
      exact absurd hi partly
    · exact absurd ((claim.foreign _ owner).symm.trans missing) (rowFree _ hi owner rfl)

theorem rowFree_insert {s : TierManager S D M} (rowFree : RowFree stored key s) :
    RowFree (insert key stored) key s := by
  rintro k (rfl | hi) owner block
  · exact absurd rfl owner
  · exact rowFree k hi owner block

theorem Coherent.open (hc : Coherent cfg ∅ stored live data s) :
    Coherent cfg {key} (insert key stored) live data s := by
  refine hc.widen (Set.empty_subset _) (fun k ho => ?_) (fun _ _ => .inr) (fun _ _ _ => rfl)
  have ne : k ≠ key := ho
  simp [ne]

variable (books : Books cfg [] s) (hc : Coherent cfg ∅ stored live data s) {seq : S} {block : Nat} {room : List (S × Nat)}
  {n : Nat}

include books hc in
theorem onBlockFilled_coherent (fresh : cfg.enableWriteThrough = false → (seq, block) ∉ s.cpuSlots)
    (victims : Victims (insert (seq, block) stored) [] (seq, block) s) (rowFree : RowFree stored (seq, block) s)
    (hp : 0 < cfg.gpuBudget) :
    wp (onBlockFilled cfg seq block (data (seq, block)))
      (fun slot t => Books cfg [] t ∧ Coherent cfg ∅ (insert (seq, block) stored) live data t ∧
      Placed (seq, block) slot s t ∧
      t.summary = update s.summary block (cfg.digest (data (seq, block)).k))
      (fun e _ => Exhausted cfg (insert (seq, block) stored) e) s := by
  unfold onBlockFilled
  simp only [wp_bind, wp_modify, markOnGpu]
  set s' := s.setSummary block (cfg.digest (data (seq, block)).k)
  have hc' : Coherent cfg ∅ stored live data s' :=
    hc.congr rfl rfl rfl rfl rfl
  refine wp_imp (claimSlot_coherent (books.congr rfl rfl rfl rfl) hc'.open fresh victims (.inl rfl) hp) ?_
  rintro slot t ⟨books'', hc'', claim⟩
  rw [wp_when]
  refine wp_imp (claim.store books'' hc'' (Set.mem_insert _ _) (rowFree_insert rowFree)
    (fun c hf => (hc'.backed _ (Set.notMem_empty _) c hf).2) rfl rfl rfl rfl rfl rfl (fun _ => rfl)) ?_
  rintro _ u ⟨books', stored', map, arena, quiet⟩
  have placed := claim.placed map arena ⟨quiet.summary, quiet.prevSelected, quiet.trimmed, quiet.activeSeqs⟩
  exact ⟨books', stored', ⟨placed.held, placed.others, placed.foreign, placed.roomy, placed.arena, placed.prevSelected,
    placed.trimmed, placed.activeSeqs⟩, quiet.summary.trans claim.quiet.summary⟩

theorem Coherent.bare (hc : Coherent cfg ∅ stored live data s) (absent : k ∉ stored) : backup cfg s k = none := by
  cases hf : backup cfg s k with
  | none => rfl
  | some c => exact absurd (hc.backed k (Set.notMem_empty _) c hf).1 absent

theorem not_mem_cpuSlots_of_bare {s : TierManager S D M} (bare : backup cfg s k = none)
    (mode : cfg.enableWriteThrough = false) : k ∉ s.cpuSlots := by
  refine get?_eq_none_iff.mp ?_
  simpa [backup, mode] using bare

include books hc in
theorem claimLive_coherent
    (partly : key ∉ stored) (victims : Victims stored [] key s) (rowFree : RowFree stored key s) (hp : 0 < cfg.gpuBudget) :
    wp (claimSlot cfg key []) (fun slot t => Books cfg [] t ∧ Claim cfg [] [] key slot s t ∧
      ∀ x, Coherent cfg ∅ stored (insert key live) data (fillClaimed key slot x t))
      (fun e _ => Exhausted cfg stored e) s := by
  have bare := hc.bare partly
  have opened : Coherent cfg {key} stored (insert key live) data s :=
    hc.widen (Set.empty_subset _) (fun _ _ => Iff.rfl) (fun _ _ hm => .inr (Set.mem_insert_of_mem _ hm))
      (fun _ _ _ => rfl)
  refine wp_imp (claimSlot_coherent books opened (not_mem_cpuSlots_of_bare bare) victims (.inl rfl) hp) ?_
  rintro slot t ⟨books', hc', claim⟩
  exact ⟨books', claim, claim.trailing hc' (Set.mem_insert _ _) partly bare rowFree⟩

include books hc in
theorem writeLiveBlock_coherent (partly : (seq, block) ∉ stored)
    (victims : Victims stored [] (seq, block) s) (rowFree : RowFree stored (seq, block) s) (hp : 0 < cfg.gpuBudget) :
    wp (writeLiveBlock cfg seq block x)
      (fun slot t => Books cfg [] t ∧ Coherent cfg ∅ stored (insert (seq, block) live) data t ∧
      Placed (seq, block) slot s t ∧ t.mem.arena slot = x ∧ t.summary = s.summary)
      (fun e _ => Exhausted cfg stored e) s := by
  unfold writeLiveBlock
  simp only [wp_bind]
  refine wp_imp (claimLive_coherent books hc partly victims rowFree hp) ?_
  rintro slot t ⟨books', claim, settled⟩
  exact ⟨books'.congr rfl rfl rfl rfl, settled x, claim.placed rfl rfl ⟨rfl, rfl, rfl, rfl⟩,
    update_self .., claim.quiet.summary⟩

/-! ### The prefill loops -/

structure Settled (seq : S) (lo b : Nat) (s t : TierManager S D (Memory bs R)) : Prop where
  slots : ∀ k ≠ (seq, b), t.slotMap.slot? k = s.slotMap.slot? k
  own : t.slotMap.slot? (seq, b) ≠ none ↔ lo ≤ b
  arena : ∀ k ≠ (seq, b), ∀ slot, s.slotMap.slot? k = some slot → t.mem.arena slot = s.mem.arena slot
  prevSelected : t.prevSelected = s.prevSelected
  trimmed : t.trimmed = s.trimmed
  activeSeqs : t.activeSeqs = s.activeSeqs

theorem Coherent.shelve (hc : Coherent cfg {key} stored live data s) (hm : key ∈ stored)
    (missing : s.slotMap.slot? key = none) (row : s.residency key.2 = .onCpu)
    (back : ∀ c, backup cfg s key = some c → s.mem.host c = data key) (cover : ∃ c, backup cfg s key = some c) :
    Coherent cfg ∅ stored live data s := by
  refine hc.close ⟨fun slot held => ?_, fun c hf => ⟨hm, back c hf⟩, fun _ _ => cover⟩ ⟨fun _ => row, absurd ⟨key.1, hm, missing⟩⟩
  rw [missing] at held
  cases held

include books hc in
theorem keepOrSpill_coherent {lo b : Nat} {overflow exhausted : QuestError S} (fresh : (seq, b) ∉ stored)
    (unplaced : s.slotMap.slot? (seq, b) = none) (room : lo ≤ b → s.slotMap.freeSlots ≠ [])
    (allHere : ∀ r, (r, b) ∈ stored → s.slotMap.slot? (r, b) ≠ none) (pool : exhausted.PoolExhausted) (hp : 0 < cfg.gpuBudget) :
    wp (keepOrSpill cfg seq lo overflow exhausted b (data (seq, b)))
      (fun _ t => Books cfg [] t ∧ Coherent cfg ∅ (insert (seq, b) stored) live data t ∧ Settled seq lo b s t ∧
      t.summary = s.summary) (fun e _ => Exhausted cfg (insert (seq, b) stored) e) s := by
  have bare := hc.bare fresh
  have fresh' : PrefillFresh cfg seq lo b s :=
    fun mode => ⟨not_mem_cpuSlots_of_bare bare mode, fun _ => slot?_eq_none_iff.mp unplaced⟩
  refine wp_with (wp_imp (keepOrSpill_books books fresh') fun _ _ h => h.1) ?_
  have opened : Coherent cfg {(seq, b)} (insert (seq, b) stored) live data s := hc.open
  have ready : s.residency b = .onGpu := by
    refine hc.here b (fun _ => Set.notMem_empty _) ?_
    rintro ⟨r, hm, missing⟩
    exact allHere r hm missing
  refine wp_keepOrSpill ?kept ?overfull ?mirrored ?spilled ?full ?empty
  case kept =>
    intro keep slot m claimed
    have held := (claimed.lookup _).trans (if_pos rfl)
    have placed : Coherent cfg {(seq, b)} (insert (seq, b) stored) live data
        { s with slotMap := m } :=
      opened.frame (fun k ho => (claimed.lookup k).trans (if_neg ho)) (fun _ _ _ _ => rfl) (fun _ _ => rfl)
        (fun _ _ _ _ => rfl) (fun _ _ => rfl)
    have mapped := books.withMap (seq, b) (not_mem_cpuSlots_of_bare bare) claimed.capacity
      (fun _ => claimed.mem_keys.mp)
    refine wp_imp (mirror_promote slot (mapped.congr rfl rfl rfl rfl)
      (placed.writeSlot held rfl (fun slot' ne => update_of_ne ne ..) rfl rfl rfl
        (fun b' ne => update_of_ne ne ..)) (Set.mem_insert _ _) held (update_self ..)
      (update_self ..) ?rowFree (fun c hf => absurd (bare.symm.trans hf) (by simp)) (fun _ => rfl))
      ?after
    case rowFree =>
      rintro k (rfl | hm) owner hs
      · exact absurd rfl owner
      · rw [claimed.lookup, if_neg (fun equal => owner (congrArg Prod.fst equal))]
        obtain ⟨r, b'⟩ := k
        obtain rfl : b' = b := hs
        exact allHere r hm
    case after =>
      rintro _ t ⟨-, hc', map, arena, rows, quiet⟩
      refine ⟨hc', ⟨fun k ne => ?_, iff_of_true ?_ keep, fun k ne slot' taken => ?_,
        quiet.prevSelected, quiet.trimmed, quiet.activeSeqs⟩, quiet.summary⟩
      · rw [map]
        exact (claimed.lookup k).trans (if_neg ne)
      · rw [map]
        exact held ▸ Option.some_ne_none slot
      · rw [arena]
        refine update_of_ne ?_ ..
        rintro rfl
        have again := ((claimed.lookup k).trans (if_neg ne)).trans taken
        exact ne (slot?_inj again held)
  case overfull =>
    intro keep _ full
    exact absurd full (room keep)
  case mirrored =>
    intro hb mode
    refine wp_imp (mirrorWith_coherent books opened (Set.mem_insert _ _) mode (fun c hf => absurd (bare.symm.trans hf) (by simp))
      (fun _ => rfl)) ?_
    rintro _ t ⟨-, hc', cover, back, map, arena, rows, quiet⟩
    refine wp_evictRow (fun _ => ?_) (fun stuck => absurd (.inl (by rw [rows]; exact ready)) stuck)
    refine ⟨?_, ⟨fun k _ => by rw [map], iff_of_false (fun own => own (map ▸ unplaced)) (by omega),
      fun k _ slot _ => by rw [arena], quiet.prevSelected, quiet.trimmed, quiet.activeSeqs⟩, quiet.summary⟩
    have row : ∀ b' ≠ b, update t.residency b .onCpu b' = t.residency b' :=
      fun b' ne => update_of_ne ne ..
    refine (hc'.frame (t := { t with residency := update t.residency b .onCpu }) (fun _ _ => rfl)
      (fun _ _ _ _ => rfl) (fun _ _ => rfl) (fun _ _ _ _ => rfl) (fun b' ho => row b' ?_)).shelve
      (Set.mem_insert _ _) (map ▸ unplaced) (update_self ..) back cover
    rintro rfl
    exact ho seq rfl
  case spilled =>
    intro hb mode cpuSlot rest free
    refine wp_evictRow (fun _ => ?_) (fun stuck => absurd (.inl ready) stuck)
    have isFree : cpuSlot ∈ s.cpuFree := by
      rw [free]
      exact .head _
    refine ⟨?_, ⟨fun _ _ => rfl, iff_of_false (fun own => own unplaced) (by omega), fun _ _ _ _ => rfl, rfl, rfl, rfl⟩, rfl⟩
    refine (opened.frame
      (t := { s with
        cpuFree := rest
        mem := BlockMemory.storeBlock cpuSlot (data (seq, b)) s.mem
        cpuSlots := s.cpuSlots.insert (seq, b) cpuSlot
        residency := update s.residency b .onCpu })
      (fun _ _ => rfl) (fun _ _ _ _ => rfl) (fun k ho => ?_) (fun k _ c hf => ?_)
      (fun b' ho => update_of_ne ?_ ..)).shelve (Set.mem_insert _ _) unplaced (update_self ..)
      (fun c hf => ?_) ⟨cpuSlot, by simp [backup, mode, get?_insert]⟩
    · have ne : k ≠ (seq, b) := ho
      simp [backup, get?_insert, ne]
    · exact update_of_ne (books.backup_ne hf (.inr isFree)).symm ..
    · rintro rfl
      exact ho seq rfl
    · simp only [backup, mode, get?_insert, Bool.false_eq_true, ↓reduceIte, Option.some.injEq] at hf
      subst hf
      exact update_self ..
  case full =>
    intro _ _ empty
    exact books.exhausted [(seq, b)] empty (fun _ => opened.mem_of_backed bare) (by simp) (by simp [bare])
      (by simp) pool
  case empty => exact fun _ empty => absurd (books.arena ▸ empty) (by omega)

def blocksOf (seq : S) (n : Nat) : Set (S × Nat) := {k | k.1 = seq ∧ k.2 < n}

omit [DecidableEq S] in
theorem mem_blocksOf : k ∈ blocksOf seq n ↔ k.1 = seq ∧ k.2 < n := Iff.rfl

omit [DecidableEq S] in
theorem insert_blocksOf (stored : Set (S × Nat)) (seq : S) (n : Nat) :
    insert (seq, n) (stored ∪ blocksOf seq n) = stored ∪ blocksOf seq (n + 1) := by
  ext ⟨r, b⟩
  simp only [Set.mem_insert_iff, Prod.mk.injEq]
  constructor
  · rintro (⟨rfl, rfl⟩ | hm | ⟨rfl, hb⟩)
    · exact .inr ⟨rfl, by omega⟩
    · exact .inl hm
    · exact .inr ⟨rfl, by omega⟩
  · rintro (hm | ⟨rfl, hb⟩)
    · exact .inr (.inl hm)
    · by_cases last : b = n
      · exact .inl ⟨rfl, last⟩
      · exact .inr (.inr ⟨rfl, by omega⟩)

structure Trimmed (seq : S) (lo n : Nat) (s t : TierManager S D (Memory bs R)) : Prop where
  slots : ∀ k, k.1 ≠ seq → t.slotMap.slot? k = s.slotMap.slot? k
  own : ∀ b, t.slotMap.slot? (seq, b) ≠ none ↔ lo ≤ b ∧ b < n
  arena : ∀ k, k.1 ≠ seq → ∀ slot, s.slotMap.slot? k = some slot → t.mem.arena slot = s.mem.arena slot
  prevSelected : t.prevSelected = s.prevSelected
  trimmed : t.trimmed = s.trimmed
  activeSeqs : t.activeSeqs = s.activeSeqs

/-- A prefill loop stores the blocks of a sequence that had none. `room` bounds the keys it ends with, `J` follows
the summaries. -/
theorem prefillLoop_coherent {n lo : Nat} {body : Nat → TierM S D (Memory bs R) Unit} {J : Nat → (Nat → D) → Prop}
    (pass : ∀ b t stored', b < n → Books cfg [] t → Coherent cfg ∅ stored' live data t → (seq, b) ∉ stored' →
      t.slotMap.slot? (seq, b) = none → (lo ≤ b → t.slotMap.freeSlots ≠ []) →
      (∀ r, (r, b) ∈ stored' → t.slotMap.slot? (r, b) ≠ none) → J b t.summary →
      wp (body b) (fun _ u => Books cfg [] u ∧ Coherent cfg ∅ (insert (seq, b) stored') live data u ∧
      Settled seq lo b t u ∧ J (b + 1) u.summary) 
      (fun e _ => Exhausted cfg (insert (seq, b) stored') e) t)
    (books : Books cfg [] s) (hc : Coherent cfg ∅ stored live data s)
    (unknown : ∀ b, (seq, b) ∉ stored ∧ s.slotMap.slot? (seq, b) = none)
    (allHere : ∀ k ∈ stored, s.slotMap.slot? k ≠ none) (fits : room.length ≤ cfg.gpuBudget)
    (hi : ∀ k ∈ s.slotMap.keys, k ∈ room) (own : ∀ b, lo ≤ b → b < n → (seq, b) ∈ room) (summaries : J 0 s.summary) :
    wp (forM (range n) body) (fun _ t => Books cfg [] t ∧
      Coherent cfg ∅ (stored ∪ blocksOf seq n) live data t ∧ Trimmed seq lo n s t ∧ J n t.summary)
      (fun e _ => Exhausted cfg (stored ∪ blocksOf seq n) e) s := by
  refine wp_forM_range (I := fun i t => Books cfg [] t ∧
    Coherent cfg ∅ (stored ∪ blocksOf seq i) live data t ∧ Trimmed seq lo i s t ∧ J i t.summary) ?_ ?_
  · rintro i hb t ⟨books', hc', trimmed, sums⟩
    have unplaced : t.slotMap.slot? (seq, i) = none := by
      by_contra held
      exact absurd ((trimmed.own i).mp held).2 (lt_irrefl i)
    refine wp_mono (pass i t _ hb books' hc' ?fresh unplaced ?room ?allHere sums) ?_ (fun _ _ h => h.mono ?sub)
    case sub =>
      rw [insert_blocksOf]
      exact Set.union_subset_union_right _ fun k hm => ⟨hm.1, lt_of_lt_of_le hm.2 hb⟩
    case fresh =>
      rintro (hm | ⟨_, under⟩)
      · exact (unknown i).1 hm
      · exact lt_irrefl i under
    case room =>
      intro keep
      refine freeSlots_ne_nil unplaced (own i keep hb) (fun k hm => ?_) (books'.arena ▸ fits)
      obtain ⟨slot, held⟩ := mem_keys_iff.mp hm
      by_cases owner : k.1 = seq
      · obtain ⟨r, b⟩ := k
        obtain rfl : r = seq := owner
        obtain ⟨low, high⟩ := (trimmed.own b).mp (held ▸ Option.some_ne_none slot)
        exact own b low (by omega)
      · rw [trimmed.slots k owner] at held
        exact hi k (mem_keys_of_slot? held)
    case allHere =>
      rintro r (hm | ⟨_, under⟩)
      · have foreign : r ≠ seq := fun owner => (unknown i).1 (owner ▸ hm)
        rw [trimmed.slots _ foreign]
        exact allHere _ hm
      · exact absurd under (lt_irrefl i)
    rintro _ u ⟨books'', hc'', settled, sums'⟩
    rw [insert_blocksOf] at hc''
    have notOwn : ∀ k, k.1 ≠ seq → k ≠ (seq, i) := fun k owner equal => owner (congrArg Prod.fst equal)
    refine ⟨books'', hc'', ⟨fun k owner => ?_, fun b => ?_, fun k owner slot held => ?_,
      settled.prevSelected.trans trimmed.prevSelected, settled.trimmed.trans trimmed.trimmed,
      settled.activeSeqs.trans trimmed.activeSeqs⟩, sums'⟩
    · rw [settled.slots k (notOwn k owner), trimmed.slots k owner]
    · by_cases last : b = i
      · subst last
        rw [settled.own]
        omega
      · rw [settled.slots _ (fun equal => last (Prod.mk.inj equal).2), trimmed.own]
        omega
    · rw [settled.arena k (notOwn k owner) slot ((trimmed.slots k owner).trans held), trimmed.arena k owner slot held]
  · have none : stored ∪ blocksOf seq 0 = stored := by
      ext k
      simp [mem_blocksOf]
    rw [none]
    refine ⟨books, hc, ⟨fun _ _ => rfl, fun b => ?_, fun _ _ _ _ => rfl, rfl, rfl, rfl⟩, summaries⟩
    simp [(unknown b).2]

include books hc in
theorem trimToWorkingSet_coherent {engine : Nat → KVBlock bs R} {row : Nat → Nat} (first : seq ∉ s.trimmed)
    (agrees : ∀ b < n, engine (row b) = data (seq, b)) (unknown : ∀ b, (seq, b) ∉ stored ∧ s.slotMap.slot? (seq, b) = none)
    (allHere : ∀ k ∈ stored, s.slotMap.slot? k ≠ none) (fits : room.length ≤ cfg.gpuBudget)
    (hi : ∀ k ∈ s.slotMap.keys, k ∈ room) (own : ∀ b, keepLo cfg.gpuBudget n ≤ b → b < n → (seq, b) ∈ room)
    (hp : 0 < cfg.gpuBudget) :
    wp (trimToWorkingSet cfg seq n engine row) (fun _ t => Books cfg [] t ∧
      Coherent cfg ∅ (stored ∪ blocksOf seq n) live data t ∧
      Trimmed seq (keepLo cfg.gpuBudget n) n { s with trimmed := insert seq s.trimmed } t ∧ t.summary = s.summary)
      (fun e _ => Exhausted cfg (stored ∪ blocksOf seq n) e) s := by
  unfold trimToWorkingSet
  simp only [wp_bind, wp_get, first, ↓reduceIte, wp_modify, books.arena]
  refine prefillLoop_coherent (J := fun _ summary => summary = s.summary) ?_ (books.congr rfl rfl rfl rfl)
    (hc.congr rfl rfl rfl rfl rfl)
    unknown allHere fits hi own rfl
  intro b t stored' hb books' hc' fresh unplaced free here sums
  rw [agrees b hb]
  refine wp_imp (keepOrSpill_coherent books' hc' fresh unplaced free here trivial hp) ?_
  rintro _ u ⟨books'', hc'', settled, kept⟩
  exact ⟨books'', hc'', settled, kept.trans sums⟩

/-! ### Loading blocks back -/

structure Loaded (key : S × Nat) (s t : TierManager S D (Memory bs R)) : Prop where
  held : ∃ slot, t.slotMap.slot? key = some slot
  others : ∀ k ≠ key, ∀ slot, t.slotMap.slot? k = some slot →
    s.slotMap.slot? k = some slot ∧ t.mem.arena slot = s.mem.arena slot
  keys : t.slotMap.keys = s.slotMap.keys.filter (· ≠ key) ++ [key] ∨
    ∃ victim, s.slotMap.victim [] = some victim ∧ s.slotMap.slot? key = none ∧ s.slotMap.freeSlots = [] ∧
      t.slotMap.keys = s.slotMap.keys.filter (· ≠ victim) ++ [key]
  quiet : Quiet s t

theorem load_coherent
    (hc : Coherent cfg {(seq, block)} stored live data t) (claim : Claim cfg extra [] (seq, block) slot s t)
    (alone : ∀ k ∈ stored, k.1 = seq) (hm : (seq, block) ∈ stored) (map : u.slotMap = t.slotMap)
    (arena : u.mem.arena = update t.mem.arena slot (data (seq, block))) (host : u.mem.host = t.mem.host)
    (cpuSlots : u.cpuSlots = t.cpuSlots) (hostSlots : u.hostSlots = t.hostSlots)
    (rows : u.residency = update t.residency block .onGpu) (quiet : Quiet t u)
    (back : ∀ c, backup cfg s (seq, block) = some c → t.mem.host c = data (seq, block))
    (cover : cfg.enableWriteThrough = true → ∃ c, backup cfg s (seq, block) = some c) :
    Coherent cfg ∅ stored live data u ∧ Loaded (seq, block) s u := by
  have hs : backup cfg u (seq, block) = backup cfg s (seq, block) := by
    rw [← claim.back]
    simp only [backup, cpuSlots, hostSlots]
  have written := hc.writeSlot claim.held map (fun slot' ne => ?_) host cpuSlots hostSlots
    (fun b ne => ?_)
  · refine ⟨written.promote hm (map ▸ claim.held) (by rw [arena, update_self])
      (by rw [rows, update_self]) (fun k hi owner => absurd (alone k hi) owner)
      (fun c hf => ?_) (fun mode => hs ▸ cover mode), ?_⟩
    · rw [host]
      exact back c (hs ▸ hf)
    · refine ⟨⟨slot, map ▸ claim.held⟩, fun k ne slot' held => ?_, map ▸ claim.keys, claim.quiet.trans quiet⟩
      rw [map] at held
      refine ⟨claim.others k ne slot' held, ?_⟩
      rw [arena, update_of_ne, claim.arena]
      rintro rfl
      exact ne (slot?_inj held claim.held)
  · rw [arena, update_of_ne ne]
  · rw [rows, update_of_ne ne]

include books hc in
theorem ensureOne_coherent (alone : ∀ k ∈ stored, k.1 = seq)
    (hm : (seq, block) ∈ stored) (plain : protectedKeys cfg s seq = [])
    (victims : s.slotMap.slot? (seq, block) = none → s.slotMap.freeSlots = [] →
      ∀ v, s.slotMap.victim [] = some v → v ∈ stored) (hp : 0 < cfg.gpuBudget) :
    wp (ensureOne cfg seq block) (fun _ t => Books cfg [] t ∧ Coherent cfg ∅ stored live data t ∧
      Loaded (seq, block) s t) (fun e _ => Exhausted cfg stored e) s := by
  refine wp_with (ensureOne_books books) ?_
  have opened : Coherent cfg {(seq, block)} stored live data s :=
    hc.widen (Set.empty_subset _) (fun _ _ => Iff.rfl) (fun _ _ => .inr) (fun _ _ _ => rfl)
  have away : (seq, block) ∉ s.slotMap.keys → s.residency block = .onCpu := fun absent =>
    hc.away block (fun _ => Set.notMem_empty _) ⟨seq, hm, slot?_eq_none_iff.mpr absent⟩
  have sparing : Victims stored [] (seq, block) s := fun missing full v chosen => ⟨victims missing full v chosen, alone⟩
  refine wp_ensureOne ?hit ?lost ?mirror ?back
  case hit =>
    intro present
    refine ⟨hc.frame (fun k _ => slot?_touch ..) (fun _ _ _ _ => rfl) (fun _ _ => rfl)
      (fun _ _ _ _ => rfl) (fun _ _ => rfl), ?_, fun k _ slot held => ⟨?_, rfl⟩,
      .inl (keys_touch present), rfl, rfl, rfl, rfl⟩
    · simpa using mem_keys_iff.mp present
    · simpa using held
  case lost =>
    intro absent noHost noCpu
    obtain ⟨c, hf⟩ := hc.covered _ hm (Set.notMem_empty _) (slot?_eq_none_iff.mpr absent)
    unfold backup at hf
    split at hf
    · rename_i mode
      simp [noHost mode] at hf
    · rename_i mode
      simp [noCpu (by simpa using mode)] at hf
  case mirror =>
    intro mode absent c hf
    have backed : backup cfg s (seq, block) = some c := by simpa [backup, mode] using hf
    rw [plain]
    refine wp_imp (claimSlot_coherent books opened (by simp [mode]) sparing (.inl rfl) hp) ?_
    rintro slot t ⟨-, hc', claim⟩
    refine wp_beginLoad (fun _ => ?_) (fun stuck => absurd (claim.row.trans (away absent)) stuck)
    have filled := (claim.host c (.inr backed)).trans (hc.backed _ (Set.notMem_empty _) c backed).2
    refine load_coherent hc' claim alone hm rfl (congrArg (update t.mem.arena slot) filled) rfl rfl rfl
      (by simp) ⟨rfl, rfl, rfl, rfl⟩ (fun c' hf' => ?_) (fun _ => ⟨c, backed⟩)
    rw [← Option.some.inj (backed.symm.trans hf'), filled]
  case back =>
    intro mode absent c hf
    have backed : backup cfg s (seq, block) = some c := by simpa [backup, mode] using hf
    -- The entry of the block is gone, its pool slot is neither free nor behind any entry.
    have taken := books.takeOut mode hf
    have hollow : Coherent cfg {(seq, block)} stored live data
        { s with cpuSlots := s.cpuSlots.erase (seq, block) } := by
      refine opened.frame (fun _ _ => rfl) (fun _ _ _ _ => rfl) (fun k ho => ?_) (fun _ _ _ _ => rfl) (fun _ _ => rfl)
      have ne : k ≠ (seq, block) := ho
      simp [backup, get?_erase, ne]
    have bare : backup cfg { s with cpuSlots := s.cpuSlots.erase (seq, block) }
        (seq, block) = none := by
      simp [backup, mode, get?_erase]
    rw [plain]
    refine wp_imp (claimSlot_coherent taken hollow (not_mem_cpuSlots_of_bare bare) sparing (.inr ⟨rfl, hm⟩) hp) ?_
    rintro slot t ⟨-, hc', claim⟩
    refine wp_beginLoad (fun _ => ?_) (fun stuck => absurd (claim.row.trans (away absent)) stuck)
    have filled := (claim.host c (.inl (.head _))).trans (hc.backed _ (Set.notMem_empty _) c backed).2
    obtain ⟨whole, loaded⟩ := load_coherent (u := { t with
        residency := update (update t.residency block .loading) block .onGpu
        mem := BlockMemory.loadSlot c slot t.mem
        cpuFree := c :: t.cpuFree }) hc' claim alone hm rfl
      (congrArg (update t.mem.arena slot) filled) rfl rfl rfl (by simp) ⟨rfl, rfl, rfl, rfl⟩
      (fun c' hf' => absurd (bare.symm.trans hf') (by simp)) (fun yes => by simp [mode] at yes)
    exact ⟨whole, loaded.held, loaded.others, loaded.keys, loaded.quiet.summary, loaded.quiet.prevSelected,
      loaded.quiet.trimmed, loaded.quiet.activeSeqs⟩

/-! ### Releasing a request -/

theorem Freed.backup_eq {s t : TierManager S D M} (freed : Freed seq s t) (k : S × Nat) :
    backup cfg t k = if k.1 = seq then none else backup cfg s k := by
  unfold backup
  split
  · exact freed.hostSlots k
  · exact freed.cpuSlots k

/-- `free_request` forgets the blocks of the sequence. It resets the rows of these blocks, so no other sequence may
have a block away. -/
theorem freeRequest_coherent (hc : Coherent cfg ∅ stored live data s) (freed : Freed seq s t)
    (othersHere : ∀ k ∈ stored, k.1 ≠ seq → s.slotMap.slot? k ≠ none) :
    Coherent cfg ∅ {k ∈ stored | k.1 ≠ seq} {k ∈ live | k.1 ≠ seq} data t := by
  obtain ⟨keys, rows⟩ := coherent_iff.mp hc
  have keys := fun k => keys k (Set.notMem_empty k)
  refine coherent_iff.mpr ⟨fun k _ => ⟨fun slot held => ?_, fun c hf => ?_, ?_⟩, fun b _ => ⟨?_, fun _ => ?_⟩⟩
  · rw [freed.slots] at held
    split at held
    · cases held
    · rename_i owner
      obtain ⟨known, filled⟩ := (keys k).slot slot held
      exact ⟨known.imp (⟨·, owner⟩) (⟨·, owner⟩), fun hm => freed.mem ▸ filled hm.1⟩
  · rw [freed.backup_eq] at hf
    split at hf
    · cases hf
    · rw [freed.mem]
      obtain ⟨hm, filled⟩ := (keys k).back c hf
      exact ⟨⟨hm, ‹_›⟩, filled⟩
  · rintro ⟨hm, owner⟩ reason
    rw [freed.slots, if_neg owner] at reason
    rw [freed.backup_eq, if_neg owner]
    exact (keys k).cover hm reason
  · rintro ⟨r, ⟨hm, owner⟩, missing⟩
    rw [freed.slots, if_neg owner] at missing
    exact absurd missing (othersHere _ hm owner)
  rw [freed.residency]
  split
  · rfl
  rename_i absent
  rw [not_or, not_or] at absent
  refine (rows b fun r => Set.notMem_empty (r, b)).2 ?_
  rintro ⟨r, hm, missing⟩
  by_cases owner : r = seq
  · subst owner
    obtain ⟨c, hf⟩ := (keys _).cover hm (.inl missing)
    unfold backup at hf
    split at hf
    · exact absent.2.2 (mem_of_get?_eq hf)
    · exact absent.2.1 (mem_of_get?_eq hf)
  · exact othersHere _ hm owner missing

end KVOffload.Quest
