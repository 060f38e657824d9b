import KVOffload.Quest.WorkingSet

/-!
# One decode step

`notify_filled_blocks_after_decode` on a coherent manager. A request that decodes alone may be larger than the arena, since
every evicted block is its own; several requests must fit the arena together.
-/

namespace KVOffload.Quest

open List LRUSlotMap

variable {S D M R : Type} {bs : Nat} [DecidableEq S] {cfg : TierConfig bs R D} {stored live : Set (S × Nat)}
  {data : S × Nat → KVBlock bs R} {s : TierManager S D (Memory bs R)}

variable (cfg stored) in
/-- The resident blocks are among the keys of `room`, which fit the arena, and no stored block is away. -/
structure Roomy (room : List (S × Nat))
    (s : TierManager S D (Memory bs R)) : Prop where
  fits : room.length ≤ cfg.gpuBudget
  inside : ∀ k, s.slotMap.slot? k ≠ none → k ∈ room
  here : ∀ k ∈ stored, s.slotMap.slot? k ≠ none

inductive Mode where
  | alone | shared
  deriving DecidableEq

inductive Regime (cfg : TierConfig bs R D) (stored live : Set (S × Nat)) (room : List (S × Nat)) (seq : S) (n : Nat)
    (s : TierManager S D (Memory bs R)) : Mode → Prop
  | alone (owner : ∀ k, k ∈ stored ∨ k ∈ live → k.1 = seq) : Regime cfg stored live room seq n s .alone
  | shared (roomy : Roomy cfg stored room s) (small : n < cfg.gpuBudget) : Regime cfg stored live room seq n s .shared

variable {room : List (S × Nat)} {n : Nat} {mode : Mode} {key : S × Nat}

theorem Regime.rowFree (key : S × Nat) (regime : Regime cfg stored live room key.1 n s mode) : RowFree stored key s := by
  intro k hm foreign _
  cases regime with
  | alone owner => exact absurd (owner k (.inl hm)) foreign
  | shared roomy _ => exact roomy.here k hm

theorem Roomy.free (roomy : Roomy cfg stored room s) (books : Books cfg [] s) (hm : key ∈ room)
    (missing : s.slotMap.slot? key = none) : s.slotMap.freeSlots ≠ [] := by
  refine freeSlots_ne_nil missing hm (fun k held => roomy.inside k ?_) ?_
  · obtain ⟨slot, held⟩ := mem_keys_iff.mp held
    exact held ▸ Option.some_ne_none slot
  · rw [books.arena]
    exact roomy.fits

theorem Regime.victims (key : S × Nat) (regime : Regime cfg stored live room key.1 n s mode)
    (books : Books cfg [] s) (hc : Coherent cfg ∅ stored live data s) (hm : key ∈ room)
    (trailing : ∀ k ∈ live, k.1 = key.1 → k = key) : Victims stored [] key s := by
  intro missing full v chosen
  cases regime with
  | alone owner =>
    obtain ⟨slot, held⟩ := mem_keys_iff.mp (victim_mem chosen)
    refine ⟨?_, fun k hi => owner k (.inl hi)⟩
    rcases hc.known v (Set.notMem_empty _) slot held with hi | last
    · exact hi
    · rw [trailing v last (owner v (.inr last)), missing] at held
      cases held
  | shared roomy _ => exact absurd full (roomy.free books hm missing)

theorem victims_insert (victims : Victims stored [] key s) : Victims (insert key stored) [] key s := by
  intro missing full v chosen
  obtain ⟨hm, alone⟩ := victims missing full v chosen
  refine ⟨.inr hm, ?_⟩
  rintro k (rfl | hi)
  · rfl
  · exact alone k hi

variable {t : TierManager S D (Memory bs R)} {seq : S} {m : Nat}

theorem Regime.placed {stored' live' : Set (S × Nat)} {slot : Nat}
    (regime : Regime cfg stored live room key.1 n s mode) (books : Books cfg [] s) (hm : key ∈ room)
    (placed : Placed key slot s t) (sub : ∀ k ∈ stored', k = key ∨ k ∈ stored)
    (sub' : ∀ k ∈ live', k = key ∨ k ∈ stored ∨ k ∈ live) : Regime cfg stored' live' room key.1 n t mode := by
  cases regime with
  | alone owner =>
    refine .alone fun k hi => ?_
    rcases hi with hi | hi
    · rcases sub k hi with rfl | old
      · rfl
      · exact owner k (.inl old)
    · rcases sub' k hi with rfl | old
      · rfl
      · exact owner k old
  | shared roomy small =>
    have slots : ∀ k ≠ key, t.slotMap.slot? k = s.slotMap.slot? k := by
      refine placed.roomy ?_
      by_cases missing : s.slotMap.slot? key = none
      · exact .inr (roomy.free books hm missing)
      · exact .inl missing
    refine .shared ⟨roomy.fits, fun k held => ?_, fun k hi => ?_⟩ small
    · by_cases hs : k = key
      · exact hs ▸ hm
      · rw [slots k hs] at held
        exact roomy.inside k held
    · by_cases hs : k = key
      · rw [hs, placed.held]
        exact Option.some_ne_none slot
      · rw [slots k hs]
        exact roomy.here k ((sub k hi).resolve_left hs)

def others (seq : S) (keys : Set (S × Nat)) : Set (S × Nat) := {k ∈ keys | k.1 ≠ seq}

/-- What the manager knows of a request of the batch: nothing, or its blocks up to the token before this one. -/
inductive Tracking (bs : Nat) (stored live : Set (S × Nat)) (r : Request S) (s : TierManager S D (Memory bs R)) : Prop
  | new (first : r.seqId ∉ s.trimmed) (unknown : ∀ b, (r.seqId, b) ∉ stored ∧ (r.seqId, b) ∉ live)
  | old (trimmed : r.seqId ∈ s.trimmed) (blocks : ∀ b, (r.seqId, b) ∈ stored ↔ b < (r.seqLen - 1) / bs)
      (trailing : ∀ b, (r.seqId, b) ∈ live → b = (r.seqLen - 1) / bs)

structure Spared (seq : S) (s t : TierManager S D (Memory bs R)) : Prop where
  slots : ∀ k, k.1 ≠ seq → t.slotMap.slot? k = s.slotMap.slot? k
  arena : ∀ k, k.1 ≠ seq → ∀ slot, s.slotMap.slot? k = some slot → t.mem.arena slot = s.mem.arena slot
  trimmed : t.trimmed = insert seq s.trimmed
  prevSelected : t.prevSelected = s.prevSelected
  activeSeqs : t.activeSeqs = s.activeSeqs

variable (cfg stored live data room mode) in
structure Midway (r : Request S) (m : Nat) (s t : TierManager S D (Memory bs R)) : Prop where
  books : Books cfg [] t
  coherent : Coherent cfg ∅ (others r.seqId stored ∪ blocksOf r.seqId m) live data t
  regime : Regime cfg (others r.seqId stored ∪ blocksOf r.seqId m) live room r.seqId (r.seqLen / bs) t mode
  spared : Spared r.seqId s t
  summary : t.summary = s.summary
  trailing : ∀ b, (r.seqId, b) ∈ live → b = m
  /-- Nothing was trimmed, or the trim has taken all full blocks and left the last one resident. -/
  origin : m = (r.seqLen - 1) / bs ∨
    m = r.seqLen / bs ∧ (0 < m → t.slotMap.slot? (r.seqId, m - 1) ≠ none) ∧ ∀ b, (r.seqId, b) ∉ live

omit [DecidableEq S] in
theorem others_union_blocksOf (blocks : ∀ b, (seq, b) ∈ stored ↔ b < m) :
    others seq stored ∪ blocksOf seq m = stored := by
  ext ⟨r, b⟩
  simp only [others, Set.mem_union, mem_blocksOf]
  by_cases owner : r = seq
  · subst owner
    simp [blocks]
  · simp [owner]

omit [DecidableEq S] in
theorem others_of_unknown (unknown : ∀ b, (seq, b) ∉ stored) : others seq stored = stored := by
  ext ⟨r, b⟩
  simp only [others, Set.mem_ofPred_eq, and_iff_left_iff_imp]
  rintro hm rfl
  exact unknown b hm

theorem keepLo_eq_zero {cap : Nat} (small : m < cap) : keepLo cap m = 0 := by
  unfold keepLo
  omega

theorem mul_lt_of_lt_div {b k : Nat} (hb : b < n / k) : b * k < n :=
  Nat.lt_of_not_le fun le => Nat.not_lt.mpr (Nat.div_le_of_le_mul (Nat.mul_comm .. ▸ le)) hb

variable {r : Request S}

theorem Regime.trimRoom (regime : Regime cfg stored live room r.seqId (r.seqLen / bs) s mode)
    (hc : Coherent cfg ∅ stored live data s) (unknown : ∀ b, (r.seqId, b) ∉ stored ∧ (r.seqId, b) ∉ live)
    (own : ∀ b, b * bs < r.seqLen → (r.seqId, b) ∈ room) :
    ∃ room' : List (S × Nat), room'.length ≤ cfg.gpuBudget ∧ (∀ k ∈ s.slotMap.keys, k ∈ room') ∧
      (∀ b, keepLo cfg.gpuBudget (r.seqLen / bs) ≤ b → b < r.seqLen / bs → (r.seqId, b) ∈ room') ∧
      ∀ k ∈ stored, s.slotMap.slot? k ≠ none := by
  cases regime with
  | alone owner =>
    have empty : ∀ k, k ∉ stored ∧ k ∉ live := by
      rintro ⟨x, b⟩
      constructor
      · intro hm
        obtain rfl : x = r.seqId := owner _ (.inl hm)
        exact (unknown b).1 hm
      · intro hm
        obtain rfl : x = r.seqId := owner _ (.inr hm)
        exact (unknown b).2 hm
    set lo := keepLo cfg.gpuBudget (r.seqLen / bs) with shape
    refine ⟨(range' lo (r.seqLen / bs - lo)).map fun b => (r.seqId, b), ?_, fun k held => ?_, fun b low high => ?_,
      fun k hm => absurd hm (empty k).1⟩
    · rw [length_map, length_range', shape]
      unfold keepLo
      omega
    · obtain ⟨slot, held⟩ := mem_keys_iff.mp held
      rcases hc.known k (Set.notMem_empty _) slot held with hm | hm
      · exact absurd hm (empty k).1
      · exact absurd hm (empty k).2
    · exact mem_map.mpr ⟨b, mem_range'_1.mpr ⟨low, by omega⟩, rfl⟩
  | shared roomy small =>
    refine ⟨room, roomy.fits, fun k held => ?_, fun b _ high => own b (mul_lt_of_lt_div high), roomy.here⟩
    obtain ⟨slot, held⟩ := mem_keys_iff.mp held
    exact roomy.inside k (held ▸ Option.some_ne_none slot)

variable {engine : Nat → KVBlock bs R} (books : Books cfg [] s) (hc : Coherent cfg ∅ stored live data s)
  (agrees : ∀ b, engine (r.blockTable b) = data (r.seqId, b)) (tracking : Tracking bs stored live r s)
  (regime : Regime cfg stored live room r.seqId (r.seqLen / bs) s mode) (own : ∀ b, b * bs < r.seqLen → (r.seqId, b) ∈ room)
  (two : 2 ≤ cfg.gpuBudget)

include books hc agrees tracking regime own two in
theorem trimToWorkingSet_midway :
    wp (trimToWorkingSet cfg r.seqId (r.seqLen / bs) engine r.blockTable)
      (fun _ t => ∃ m, Midway cfg stored live data room mode r m s t) (fun e _ => Exhausted cfg (others r.seqId stored ∪ blocksOf r.seqId (r.seqLen / bs)) e) s := by
  cases tracking with
  | old trimmed blocks trailing =>
    unfold trimToWorkingSet
    simp only [wp_bind, wp_get, trimmed]
    have hs := others_union_blocksOf blocks
    exact ⟨(r.seqLen - 1) / bs, books, hs.symm ▸ hc, hs.symm ▸ regime,
      ⟨fun _ _ => rfl, fun _ _ _ _ => rfl, (Finset.insert_eq_of_mem trimmed).symm, rfl, rfl⟩, rfl, trailing, .inl rfl⟩
  | new first unknown =>
    obtain ⟨room', fits, hi, kept, here⟩ := regime.trimRoom hc unknown own
    have hs := others_of_unknown fun b => (unknown b).1
    refine wp_mono (trimToWorkingSet_coherent books hc first (fun b _ => agrees b)
      (fun b => ⟨(unknown b).1, ?_⟩) here fits hi kept (by omega)) ?_ (fun _ _ h => hs.symm ▸ h)
    · by_contra held
      obtain ⟨slot, held⟩ := Option.ne_none_iff_exists'.mp held
      rcases hc.known _ (Set.notMem_empty _) slot held with hm | hm
      · exact (unknown b).1 hm
      · exact (unknown b).2 hm
    rintro _ t ⟨books', hc', trimmed, summary⟩
    refine ⟨r.seqLen / bs, books', hs.symm ▸ hc', ?_, ⟨trimmed.slots, trimmed.arena, trimmed.trimmed,
      trimmed.prevSelected, trimmed.activeSeqs⟩, summary, fun b hm => absurd hm (unknown b).2,
      .inr ⟨rfl, fun hp => ?_, fun b => (unknown b).2⟩⟩
    · rw [hs]
      cases regime with
      | alone owner =>
        refine .alone ?_
        rintro k ((hm | ⟨owned, _⟩) | hm)
        · exact owner k (.inl hm)
        · exact owned
        · exact owner k (.inr hm)
      | shared roomy small =>
        have whole := keepLo_eq_zero small
        refine .shared ⟨roomy.fits, fun k held => ?_, ?_⟩ small
        · by_cases owner : k.1 = r.seqId
          · obtain ⟨x, b⟩ := k
            obtain rfl : x = r.seqId := owner
            exact own b (mul_lt_of_lt_div ((trimmed.own b).mp held).2)
          · rw [trimmed.slots k owner] at held
            exact roomy.inside k held
        · rintro ⟨x, b⟩ (hm | ⟨owner, hb⟩)
          · have foreign : x ≠ r.seqId := by
              rintro rfl
              exact (unknown b).1 hm
            rw [trimmed.slots _ foreign]
            exact roomy.here _ hm
          · obtain rfl : x = r.seqId := owner
            exact (trimmed.own b).mpr ⟨by omega, hb⟩
    · refine (trimmed.own _).mpr ⟨?_, by omega⟩
      unfold keepLo
      omega

def trailingOf (bs : Nat) (r : Request S) : Set (S × Nat) := {k | k.1 = r.seqId ∧ k.2 ∈ liveBlocks bs r.seqLen}

variable (cfg stored live data room mode r) in
/-- What the bookkeeping of one request leaves: all its full blocks are stored, its trailing block is in the arena. -/
structure Notified (s t : TierManager S D (Memory bs R)) : Prop where
  books : Books cfg [] t
  coherent : Coherent cfg ∅ (others r.seqId stored ∪ blocksOf r.seqId (r.seqLen / bs))
    (others r.seqId live ∪ trailingOf bs r) data t
  regime : Regime cfg (others r.seqId stored ∪ blocksOf r.seqId (r.seqLen / bs))
    (others r.seqId live ∪ trailingOf bs r) room r.seqId (r.seqLen / bs) t mode
  spared : Spared r.seqId s t
  liveHere : ∀ b ∈ liveBlocks bs r.seqLen, ∃ slot, t.slotMap.slot? (r.seqId, b) = some slot ∧
    t.mem.arena slot = data (r.seqId, b)
  summary : t.summary = if r.seqLen % bs = 0 then Function.update s.summary (r.seqLen / bs - 1)
    (cfg.digest (data (r.seqId, r.seqLen / bs - 1)).k) else s.summary

theorem Spared.placed {b slot : Nat} {u : TierManager S D (Memory bs R)} (spared : Spared seq s t)
    (placed : Placed (seq, b) slot t u) : Spared seq s u where
  slots k owner := (placed.foreign k owner).trans (spared.slots k owner)
  arena k owner slot' held := by
    have held' := (spared.slots k owner).trans held
    rw [placed.arena, spared.arena k owner slot' held]
    rintro rfl
    have again := (placed.foreign k owner).trans held'
    exact owner (congrArg Prod.fst (slot?_inj again placed.held))
  trimmed := placed.trimmed.trans spared.trimmed
  prevSelected := placed.prevSelected.trans spared.prevSelected
  activeSeqs := placed.activeSeqs.trans spared.activeSeqs

theorem pred_div_of_boundary (hp : 0 < n) (boundary : n % bs = 0) : 0 < n / bs ∧ (n - 1) / bs = n / bs - 1 := by
  obtain ⟨q, rfl⟩ := Nat.dvd_of_mod_eq_zero boundary
  have size : 0 < bs := Nat.pos_of_mul_pos_right hp
  cases q with
  | zero => simp at hp
  | succ q =>
    rw [Nat.mul_div_cancel_left _ size]
    refine ⟨Nat.succ_pos q, Nat.div_eq_of_lt_le ?_ ?_⟩
    · rw [Nat.mul_succ, Nat.succ_sub_one, Nat.mul_comm]
      omega
    · rw [Nat.mul_succ, Nat.succ_sub_one, Nat.succ_mul, Nat.mul_comm q]
      omega

theorem pred_div_of_unfilled (rest : n % bs ≠ 0) : (n - 1) / bs = n / bs := by
  have split := Nat.div_add_mod' n bs
  rcases Nat.eq_zero_or_pos bs with rfl | size
  · simp
  · have small := Nat.mod_lt n size
    refine Nat.div_eq_of_lt_le ?_ ?_
    · omega
    · rw [Nat.succ_mul]
      omega

include own two in
theorem Midway.fill (midway : Midway cfg stored live data room mode r m s t) (hp : 0 < r.seqLen)
    (boundary : r.seqLen % bs = 0) :
    wp (onBlockFilled cfg r.seqId (r.seqLen / bs - 1) (data (r.seqId, r.seqLen / bs - 1)))
      (fun _ u => Notified cfg stored live data room mode r s u) (fun e _ => Exhausted cfg (others r.seqId stored ∪ blocksOf r.seqId (r.seqLen / bs)) e) t := by
  obtain ⟨some, previous⟩ := pred_div_of_boundary hp boundary
  set n := r.seqLen / bs with shape
  set key := (r.seqId, n - 1) with name
  have noLive : liveBlocks bs r.seqLen = [] := if_pos boundary
  have hm := own (n - 1) (mul_lt_of_lt_div (by omega))
  have trailing : ∀ k ∈ live, k.1 = r.seqId → k = key := by
    rintro ⟨x, b⟩ hi owner
    obtain rfl : x = r.seqId := owner
    rcases midway.origin with hs | ⟨_, _, none⟩
    · rw [midway.trailing b hi, hs, previous]
    · exact absurd hi (none b)
  -- The block is new, or the trim has just stored it and it is resident.
  have fresh : cfg.enableWriteThrough = false → key ∉ t.cpuSlots := by
    intro writeBack
    rcases midway.origin with hs | ⟨hs, here, _⟩
    · refine not_mem_cpuSlots_of_bare (midway.coherent.bare ?_) writeBack
      rintro (⟨_, foreign⟩ | ⟨_, hb⟩)
      · exact foreign rfl
      · have : n - 1 < m := hb
        omega
    · obtain ⟨slot, held⟩ := Option.ne_none_iff_exists'.mp (here (by omega))
      rw [hs] at held
      exact midway.books.apart writeBack key (mem_keys_of_slot? held)
  have victims := midway.regime.victims key midway.books midway.coherent hm trailing
  have whole : insert key (others r.seqId stored ∪ blocksOf r.seqId m) =
      others r.seqId stored ∪ blocksOf r.seqId n := by
    rcases midway.origin with hs | ⟨hs, _⟩
    · rw [name, show n - 1 = m by omega, insert_blocksOf, show m + 1 = n by omega]
    · rw [hs]
      exact Set.insert_eq_of_mem (.inr ⟨rfl, by simp only [name]; omega⟩)
  refine wp_mono (onBlockFilled_coherent midway.books midway.coherent fresh (victims_insert victims)
    (midway.regime.rowFree key) (by omega)) ?_ (fun _ _ h => whole ▸ h)
  rintro slot u ⟨books', hc', placed, summary⟩
  have known : ∀ k ∈ live, k ∈ others r.seqId stored ∪ blocksOf r.seqId n ∨
      k ∈ others r.seqId live ∪ trailingOf bs r := by
    intro k hi
    by_cases owner : k.1 = r.seqId
    · rw [trailing k hi owner, ← whole]
      exact .inl (Set.mem_insert _ _)
    · exact .inr (.inl ⟨hi, owner⟩)
  refine ⟨books', ?_, ?_, midway.spared.placed placed, fun b hi => ?_, ?_⟩
  · rw [whole] at hc'
    exact hc'.relive known
  · refine midway.regime.placed midway.books hm placed (fun k hi => ?_) (fun k hi => ?_)
    · rw [← whole] at hi
      exact hi
    · rcases hi with ⟨hi, _⟩ | ⟨_, last⟩
      · exact .inr (.inr hi)
      · rw [noLive] at last
        cases last
  · rw [noLive] at hi
    cases hi
  · rw [if_pos boundary, summary, midway.summary]

include own two in
theorem Midway.refresh (midway : Midway cfg stored live data room mode r m s t) (rest : r.seqLen % bs ≠ 0) :
    wp (writeLiveBlock cfg r.seqId (r.seqLen / bs) (data (r.seqId, r.seqLen / bs)))
      (fun _ u => Notified cfg stored live data room mode r s u) (fun e _ => Exhausted cfg (others r.seqId stored ∪ blocksOf r.seqId (r.seqLen / bs)) e) t := by
  have previous := pred_div_of_unfilled rest
  obtain rfl : m = r.seqLen / bs := by
    rcases midway.origin with hs | ⟨hs, _⟩
    · exact hs.trans previous
    · exact hs
  set n := r.seqLen / bs with shape
  have single : liveBlocks bs r.seqLen = [n] := if_neg rest
  have hm : (r.seqId, n) ∈ room := by
    refine own n ?_
    have split := Nat.div_add_mod' r.seqLen bs
    rw [← shape] at split
    omega
  have trailing : ∀ k ∈ live, k.1 = r.seqId → k = (r.seqId, n) := by
    rintro ⟨x, b⟩ hi owner
    obtain rfl : x = r.seqId := owner
    rw [midway.trailing b hi]
  have partly : (r.seqId, n) ∉ others r.seqId stored ∪ blocksOf r.seqId n := by
    rintro (⟨_, foreign⟩ | ⟨_, hb⟩)
    · exact foreign rfl
    · exact lt_irrefl n hb
  have hs : insert (r.seqId, n) live ⊆ others r.seqId live ∪ trailingOf bs r := by
    have own : (r.seqId, n) ∈ trailingOf bs r := ⟨rfl, by simp [single]⟩
    rintro k (rfl | hi)
    · exact .inr own
    · by_cases owner : k.1 = r.seqId
      · exact .inr (trailing k hi owner ▸ own)
      · exact .inl ⟨hi, owner⟩
  refine wp_imp (writeLiveBlock_coherent midway.books midway.coherent partly
    (midway.regime.victims (r.seqId, n) midway.books midway.coherent hm trailing) (midway.regime.rowFree (r.seqId, n))
    (by omega)) ?_
  rintro slot u ⟨books', hc', placed, filled, summary⟩
  refine ⟨books', ?_, ?_, midway.spared.placed placed, fun b hi => ?_, ?_⟩
  · exact hc'.relive fun k hi => .inr (hs hi)
  · refine midway.regime.placed midway.books hm placed (fun k hi => .inr hi) (fun k hi => ?_)
    rcases hi with ⟨hi, _⟩ | ⟨owner, last⟩
    · exact .inr (.inr hi)
    · rw [single, mem_singleton] at last
      exact .inl (Prod.ext owner last)
  · rw [single, mem_singleton] at hi
    exact hi ▸ ⟨slot, placed.held, filled⟩
  · rw [if_neg rest, summary, midway.summary]

include books hc agrees tracking regime own two in
theorem notifyDecodeRequest_coherent (hp : 0 < r.seqLen) :
    wp (notifyDecodeRequest cfg engine r) (fun _ t => Notified cfg stored live data room mode r s t)
      (fun e _ => Exhausted cfg (others r.seqId stored ∪ blocksOf r.seqId (r.seqLen / bs)) e) s := by
  unfold notifyDecodeRequest
  simp only [wp_bind]
  refine wp_imp (trimToWorkingSet_midway books hc agrees tracking regime own two) ?_
  rintro _ t ⟨m, midway⟩
  rw [agrees, agrees]
  by_cases boundary : r.seqLen % bs = 0
  · have first : r.seqLen ≠ 0 ∧ r.seqLen % bs = 0 := ⟨by omega, boundary⟩
    simp only [first, ne_eq, not_false_eq_true, and_self, ↓reduceIte, wp_bind]
    exact midway.fill own two hp boundary
  · simp only [boundary, and_false, ↓reduceIte, ne_eq, not_false_eq_true, wp_bind]
    exact midway.refresh own two boundary

variable (cfg stored live data) in
structure Without (gone : List S) (s t : TierManager S D (Memory bs R)) : Prop where
  books : Books cfg [] t
  coherent : Coherent cfg ∅ {k ∈ stored | k.1 ∉ gone} {k ∈ live | k.1 ∉ gone} data t
  slots : ∀ k, t.slotMap.slot? k = if k.1 ∈ gone then none else s.slotMap.slot? k
  mem : t.mem = s.mem
  summary : t.summary = s.summary
  trimmed : ∀ x, x ∈ t.trimmed ↔ x ∈ s.trimmed ∧ x ∉ gone
  prevSelected : ∀ x, t.prevSelected.get? x = if x ∈ gone then none else s.prevSelected.get? x

theorem Without.nil (books : Books cfg [] s) (coherent : Coherent cfg ∅ stored live data s) :
    Without cfg stored live data [] s s where
  books := books
  coherent := by simpa using coherent
  slots k := by simp
  mem := rfl
  summary := rfl
  trimmed x := by simp
  prevSelected x := by simp

theorem Without.free {gone : List S} {x : S} {u : TierManager S D (Memory bs R)}
    (without : Without cfg stored live data gone s t) (books : Books cfg [] u) (freed : Freed x t u)
    (safe : ∀ k ∈ stored, k.1 ≠ x → s.slotMap.slot? k ≠ none) :
    Without cfg stored live data (gone ++ [x]) s u where
  books := books
  coherent := by
    have left : ∀ keys : Set (S × Nat), {k ∈ {k ∈ keys | k.1 ∉ gone} | k.1 ≠ x} = {k ∈ keys | k.1 ∉ gone ++ [x]} := by
      intro keys
      simp [and_assoc]
    have coherent := freeRequest_coherent without.coherent freed fun k hm owner => ?_
    · rwa [left, left] at coherent
    · rw [without.slots, if_neg hm.2]
      exact safe k hm.1 owner
  slots k := by
    rw [freed.slots, without.slots]
    by_cases last : k.1 = x <;> simp [last]
  mem := freed.mem.trans without.mem
  summary := freed.summary.trans without.summary
  trimmed y := by
    rw [freed.trimmed, Finset.mem_erase, without.trimmed]
    simp only [mem_append, mem_singleton]
    tauto
  prevSelected y := by
    rw [freed.prevSelected, OrderedDict.get?_erase, without.prevSelected]
    by_cases last : y = x <;> simp [last]

def previousSeqs (s : TierManager S D M) : List S := s.activeSeqs.getD []

variable (cfg stored live data) in
structure Released (active : List S) (s t : TierManager S D (Memory bs R)) : Prop where
  books : Books cfg [] t
  coherent : Coherent cfg ∅ {k ∈ stored | k.1 ∈ active} {k ∈ live | k.1 ∈ active} data t
  slots : ∀ k, k.1 ∈ active → t.slotMap.slot? k = s.slotMap.slot? k
  mem : t.mem = s.mem
  summary : t.summary = s.summary
  activeSeqs : t.activeSeqs = some active
  trimmed : ∀ x, x ∈ t.trimmed ↔ x ∈ s.trimmed ∧ (x ∈ active ∨ x ∉ previousSeqs s)
  plain : (∀ x, protectedKeys cfg s x = []) → ∀ x, protectedKeys cfg t x = []

theorem releaseInactive_coherent {active : List S} (books : Books cfg [] s) (hc : Coherent cfg ∅ stored live data s)
    (owned : ∀ k, k ∈ stored ∨ k ∈ live → k.1 ∈ previousSeqs s)
    (safe : ∀ x ∈ previousSeqs s, x ∉ active → ∀ k ∈ stored, k.1 ≠ x → s.slotMap.slot? k ≠ none)
    {E : QuestError S → TierManager S D (Memory bs R) → Prop} :
    wp (releaseInactive active) (fun _ t => Released cfg stored live data active s t) E s := by
  have loop : wp (forM ((previousSeqs s).filter (· ∉ active)) fun old => freeRequest old)
      (fun _ t => Without cfg stored live data ((previousSeqs s).filter (· ∉ active)) s t) E s := by
    refine wp_forM_handled (I := fun gone t => Without cfg stored live data gone s t) ?_ (.nil books hc)
    intro gone x rest split t without
    have hi := split ▸ mem_append_right _ (.head _)
    obtain ⟨hm, left⟩ := mem_filter.mp hi
    refine wp_freeRequest fun u freed => without.free ?_ freed (safe x hm (by simpa using left))
    exact freed.books without.books
  have finish : ∀ t, Without cfg stored live data ((previousSeqs s).filter (· ∉ active)) s t →
      Released cfg stored live data active s { t with activeSeqs := some active } := by
    intro t without
    have stays : ∀ x ∈ active, x ∉ (previousSeqs s).filter (· ∉ active) := by
      intro x hm
      simp [hm]
    have hs : ∀ keys : Set (S × Nat), (∀ k ∈ keys, k.1 ∈ previousSeqs s) →
        {k ∈ keys | k.1 ∉ (previousSeqs s).filter (· ∉ active)} = {k ∈ keys | k.1 ∈ active} := by
      intro keys owner
      ext k
      simp only [Set.mem_ofPred_eq, mem_filter, decide_not, Bool.not_eq_eq_eq_not, Bool.not_true,
        decide_eq_false_iff_not, not_and, not_not, and_congr_right_iff]
      exact fun hm => ⟨fun h => h (owner k hm), fun h _ => h⟩
    refine ⟨without.books.congr rfl rfl rfl rfl, ?_, fun k hm => ?_, without.mem, without.summary, rfl,
      fun x => ?_, fun plain x => ?_⟩
    · have hc := without.coherent
      rw [hs stored fun k hm => owned k (.inl hm), hs live fun k hm => owned k (.inr hm)] at hc
      exact hc.congr rfl rfl rfl rfl rfl
    · exact (without.slots k).trans (if_neg (stays _ hm))
    · rw [without.trimmed, mem_filter, decide_eq_true_eq, not_and, not_not, imp_iff_not_or, or_comm]
    have before := plain x
    unfold protectedKeys at before ⊢
    rw [without.prevSelected]
    split
    · rename_i mixture
      rw [if_pos mixture] at before
      split
      · rfl
      · exact before
    · rfl
  unfold releaseInactive
  simp only [wp_bind, wp_get]
  cases seen : s.activeSeqs with
  | none =>
    refine finish s ?_
    simpa [previousSeqs, seen] using Without.nil books hc
  | some previous =>
    have shape : previousSeqs s = previous := by simp [previousSeqs, seen]
    rw [shape] at loop finish
    rw [wp_bind]
    exact wp_imp loop (fun _ t without => finish t without)

end KVOffload.Quest
