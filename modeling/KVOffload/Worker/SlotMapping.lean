import KVOffload.Worker.InputBatch

/-!
# Slots under decode context parallelism

`_compute_slot_mapping_kernel` (`v1/worker/block_table.py`) and `get_dcp_local_seq_lens` agree if the interleave size divides
the kernel's block size.
-/

namespace KVOffload.Worker

open KVOffload.Core List

/-- What `validate_block_size` and `BlockTable.__init__` accept. -/
structure CpConfig where
  dcpWorldSize : Nat
  blockSize : Nat
  kernelBlockSize : Nat
  interleave : Nat
  ranks : 0 < dcpWorldSize
  sized : 0 < blockSize
  divides : interleave ∣ blockSize
  splits : kernelBlockSize ∣ blockSize

namespace CpConfig

variable (cfg : CpConfig) (rank : Nat)

def blockTable (blockIds : List BlockId) : List BlockId := mapToKernelBlocks (cfg.blockSize / cfg.kernelBlockSize) blockIds

def virtualBlockSize : Nat := cfg.kernelBlockSize * cfg.dcpWorldSize

def virtualBlockOffset (pos : Nat) : Nat := pos - pos / cfg.virtualBlockSize * cfg.virtualBlockSize

def isLocal (pos : Nat) : Bool := cfg.virtualBlockOffset pos / cfg.interleave % cfg.dcpWorldSize = rank

def localBlockOffset (pos : Nat) : Nat :=
  cfg.virtualBlockOffset pos / (cfg.dcpWorldSize * cfg.interleave) * cfg.interleave + cfg.virtualBlockOffset pos % cfg.interleave

/-- The slot that the kernel stores for a position; behind its blocks a row of the table has zeros. -/
def slotMapping (blockIds : List BlockId) (pos : Nat) : Int :=
  let blockNumber := (cfg.blockTable blockIds).getD (pos / cfg.virtualBlockSize) 0
  if cfg.isLocal rank pos then blockNumber * cfg.kernelBlockSize + cfg.localBlockOffset pos else -1

def getDcpLocalSeqLen (seqLen : Nat) : Int :=
  let base := seqLen / cfg.interleave / cfg.dcpWorldSize * cfg.interleave
  let remainder : Int := seqLen - base * cfg.dcpWorldSize
  base + min (max (remainder - rank * cfg.interleave) 0) cfg.interleave

def localSlots (blockIds : List BlockId) : List Nat := mapToKernelBlocks cfg.blockSize blockIds

def covered (blockIds : List BlockId) : Nat := blockIds.length * cfg.blockSize * cfg.dcpWorldSize

/-- The slots of the local positions are apart and fill the blocks of their request from the front. -/
structure Partitioned (tables : List (List BlockId)) : Prop where
  oneRank : ∀ pos, ∃ rank < cfg.dcpWorldSize, ∀ rank', cfg.isLocal rank' pos ↔ rank' = rank
  apart : ∀ rank, ∀ r r' : Nat, ∀ blocks blocks', tables[r]? = some blocks → tables[r']? = some blocks' →
    ∀ pos < cfg.covered blocks, ∀ pos' < cfg.covered blocks', cfg.isLocal rank pos → cfg.isLocal rank pos' →
      cfg.slotMapping rank blocks pos = cfg.slotMapping rank blocks' pos' → r = r' ∧ pos = pos'
  inside : ∀ rank, ∀ blocks ∈ tables, ∀ pos < cfg.covered blocks, cfg.isLocal rank pos →
    ∃ slot ∈ cfg.localSlots blocks, cfg.slotMapping rank blocks pos = slot
  packed : ∀ rank < cfg.dcpWorldSize, ∀ blocks ∈ tables, ∀ seqLen ≤ cfg.covered blocks, ∃ n ≤ (cfg.localSlots blocks).length,
    cfg.getDcpLocalSeqLen rank seqLen = n ∧
      ((List.range seqLen).filter (cfg.isLocal rank)).map (cfg.slotMapping rank blocks) =
        ((cfg.localSlots blocks).take n).map (Int.ofNat ·)

end CpConfig

section

variable {n : Nat} {blocks : List BlockId}

theorem part_div (block : BlockId) {i : Nat} (hb : i < n) : (block * n + i) / n = block := by
  rw [Nat.mul_comm, Nat.mul_add_div (Nat.zero_lt_of_lt hb), Nat.div_eq_of_lt hb, Nat.add_zero]

theorem length_mapToKernelBlocks : (mapToKernelBlocks n blocks).length = blocks.length * n := by
  simp [mapToKernelBlocks]

theorem getElem?_mapToKernelBlocks (hp : 0 < n) (k : Nat) :
    (mapToKernelBlocks n blocks)[k]? = blocks[k / n]?.map (· * n + k % n) := by
  induction blocks generalizing k with
  | nil => simp [mapToKernelBlocks]
  | cons block blocks ih =>
    change (((range n).map (block * n + ·)) ++ mapToKernelBlocks n blocks)[k]? = _
    by_cases first : k < n
    · rw [getElem?_append_left (by simpa using first), Nat.div_eq_of_lt first, Nat.mod_eq_of_lt first]
      simp [first]
    · obtain ⟨k, rfl⟩ := Nat.exists_eq_add_of_le' (Nat.le_of_not_lt first)
      rw [getElem?_append_right (by simp), length_map, length_range, Nat.add_sub_cancel, ih,
        Nat.add_div_right k hp, Nat.add_mod_right, getElem?_cons_succ]

theorem mem_mapToKernelBlocks (hp : 0 < n) {slot : Nat} : slot ∈ mapToKernelBlocks n blocks ↔ slot / n ∈ blocks := by
  simp only [mapToKernelBlocks, mem_flatMap, mem_map, mem_range]
  constructor
  · rintro ⟨block, hm, i, hb, rfl⟩
    rwa [part_div block hb]
  · intro hm
    exact ⟨_, hm, _, Nat.mod_lt slot hp, Nat.div_add_mod' slot n⟩

theorem nodup_mapToKernelBlocks (nodup : blocks.Nodup) : (mapToKernelBlocks n blocks).Nodup := by
  refine nodup_flatMap.mpr ⟨fun block _ => nodup_range.map fun _ _ => add_left_cancel, ?_⟩
  refine nodup.imp fun {a b} ne => disjoint_left.mpr fun slot first second => ne ?_
  obtain ⟨i, hb, rfl⟩ := mem_map.mp first
  obtain ⟨j, hb', hs⟩ := mem_map.mp second
  rw [← part_div a (mem_range.mp hb), ← hs, part_div b (mem_range.mp hb')]

theorem mapToKernelBlocks_mul {m : Nat} (hp : 0 < n) (hp' : 0 < m) :
    mapToKernelBlocks n (mapToKernelBlocks m blocks) = mapToKernelBlocks (m * n) blocks := by
  refine ext_getElem? fun k => ?_
  rw [getElem?_mapToKernelBlocks hp, getElem?_mapToKernelBlocks hp', Option.map_map,
    getElem?_mapToKernelBlocks (mul_pos hp' hp), Nat.div_div_eq_div_mul, mul_comm]
  refine congrArg (Option.map · _) (funext fun block => ?_)
  have split : k % (m * n) = k / n % m * n + k % n := by
    rw [← Nat.mod_mul_left_div_self, ← Nat.mod_mul_left_mod k m n, Nat.div_add_mod']
  simp only [Function.comp, split]
  ring

end

theorem div_mod_succ (n : Nat) {k : Nat} (hp : 0 < k) :
    (n % k + 1 < k ∧ (n + 1) / k = n / k ∧ (n + 1) % k = n % k + 1) ∨
      (n % k + 1 = k ∧ (n + 1) / k = n / k + 1 ∧ (n + 1) % k = 0) := by
  have whole := Nat.mod_add_div n k
  rcases Nat.lt_or_eq_of_le (Nat.succ_le_of_lt (Nat.mod_lt n hp)) with less | last
  · exact .inl ⟨less, (Nat.div_mod_unique hp).mpr ⟨by omega, less⟩⟩
  · refine .inr ⟨last, (Nat.div_mod_unique hp).mpr ⟨?_, hp⟩⟩
    rw [Nat.mul_succ]
    omega

namespace CpConfig

variable {cfg : CpConfig} {rank : Nat}

theorem interleave_pos (cfg : CpConfig) : 0 < cfg.interleave := Nat.pos_of_dvd_of_pos cfg.divides cfg.sized

theorem kernelBlockSize_pos (cfg : CpConfig) : 0 < cfg.kernelBlockSize := Nat.pos_of_dvd_of_pos cfg.splits cfg.sized

theorem virtualBlockSize_pos (cfg : CpConfig) : 0 < cfg.virtualBlockSize := mul_pos cfg.kernelBlockSize_pos cfg.ranks

theorem virtualBlockOffset_eq (pos : Nat) : cfg.virtualBlockOffset pos = pos % cfg.virtualBlockSize := by
  rw [virtualBlockOffset, Nat.mod_eq_sub_div_mul]

theorem localSlots_eq (blocks : List BlockId) :
    cfg.localSlots blocks = mapToKernelBlocks cfg.kernelBlockSize (cfg.blockTable blocks) := by
  obtain ⟨ratio, size⟩ := cfg.splits
  have kernel := cfg.kernelBlockSize_pos
  have hp : 0 < ratio := Nat.pos_of_mul_pos_left (size ▸ cfg.sized)
  rw [blockTable, localSlots, size, Nat.mul_div_cancel_left _ kernel, mapToKernelBlocks_mul kernel hp, Nat.mul_comm]

def localCount (cfg : CpConfig) (rank seqLen : Nat) : Nat :=
  let chunk := seqLen / cfg.interleave
  chunk / cfg.dcpWorldSize * cfg.interleave +
    if chunk % cfg.dcpWorldSize < rank then 0
    else if chunk % cfg.dcpWorldSize = rank then seqLen % cfg.interleave else cfg.interleave

theorem getDcpLocalSeqLen_eq (cfg : CpConfig) (rank seqLen : Nat) :
    cfg.getDcpLocalSeqLen rank seqLen = cfg.localCount rank seqLen := by
  have hw := Nat.mod_lt seqLen cfg.interleave_pos
  have whole := Nat.div_add_mod' seqLen cfg.interleave
  rw [← Nat.div_add_mod' (seqLen / cfg.interleave) cfg.dcpWorldSize] at whole
  unfold getDcpLocalSeqLen localCount
  dsimp only
  generalize cfg.interleave = size at *
  generalize seqLen / size / cfg.dcpWorldSize = a at *
  generalize seqLen / size % cfg.dcpWorldSize = j at *
  generalize seqLen % size = c at *
  have rest : seqLen - ((a * size : Nat) : Int) * cfg.dcpWorldSize = (j * size : Nat) + c := by
    rw [← whole]
    push_cast
    ring
  rcases lt_trichotomy j rank with less | rfl | more
  · have := Nat.mul_le_mul_right size (Nat.succ_le_of_lt less)
    rw [Nat.succ_mul] at this
    simp only [if_pos less]
    omega
  · simp only [lt_irrefl, if_false, if_true]
    omega
  · have := Nat.mul_le_mul_right size (Nat.succ_le_of_lt more)
    rw [Nat.succ_mul] at this
    simp only [if_neg (not_lt_of_gt more), if_neg (ne_of_gt more)]
    omega

theorem localCount_succ (cfg : CpConfig) (known : rank < cfg.dcpWorldSize) (seqLen : Nat) :
    cfg.localCount rank (seqLen + 1) = cfg.localCount rank seqLen +
      if seqLen / cfg.interleave % cfg.dcpWorldSize = rank then 1 else 0 := by
  have size := cfg.interleave_pos
  unfold localCount
  dsimp only
  rcases div_mod_succ seqLen size with ⟨less, chunk, rest⟩ | ⟨last, chunk, rest⟩
  · grind
  · rw [chunk]
    rcases div_mod_succ (seqLen / cfg.interleave) cfg.ranks with ⟨less', round, turn⟩ | ⟨last', round, turn⟩
    · grind
    · grind

def Aligned (cfg : CpConfig) : Prop := cfg.dcpWorldSize = 1 ∨ cfg.interleave ∣ cfg.kernelBlockSize

section

variable (aligned : cfg.Aligned) {blocks : List BlockId} {pos : Nat}

include aligned

theorem Aligned.isLocal_iff : cfg.isLocal rank pos = true ↔ pos / cfg.interleave % cfg.dcpWorldSize = rank := by
  rw [isLocal, decide_eq_true_iff, virtualBlockOffset_eq]
  rcases aligned with single | ⟨m, size⟩
  · rw [single, Nat.mod_one, Nat.mod_one]
  · rw [virtualBlockSize, size, mul_assoc, Nat.mod_mul_right_div_self, Nat.mod_mod_of_dvd _ (Dvd.intro_left m rfl)]

theorem Aligned.localBlockOffset_lt (pos : Nat) : cfg.localBlockOffset pos < cfg.kernelBlockSize := by
  have hb := Nat.mod_lt pos cfg.virtualBlockSize_pos
  have hw := Nat.mod_lt (pos % cfg.virtualBlockSize) cfg.interleave_pos
  rw [localBlockOffset, virtualBlockOffset_eq]
  rcases aligned with single | ⟨m, size⟩
  · rw [single, one_mul, Nat.div_add_mod']
    rwa [virtualBlockSize, single, mul_one] at hb ⊢
  · have rounds : pos % cfg.virtualBlockSize / (cfg.dcpWorldSize * cfg.interleave) < m := by
      refine Nat.div_lt_of_lt_mul (hb.trans_eq ?_)
      rw [virtualBlockSize, size]
      ring
    have := Nat.mul_le_mul_right cfg.interleave (Nat.succ_le_of_lt rounds)
    rw [Nat.succ_mul, Nat.mul_comm m] at this
    omega

theorem Aligned.localIndex (pos : Nat) :
    pos / cfg.virtualBlockSize * cfg.kernelBlockSize + cfg.localBlockOffset pos =
      pos / cfg.interleave / cfg.dcpWorldSize * cfg.interleave + pos % cfg.interleave := by
  rw [localBlockOffset, virtualBlockOffset_eq]
  rcases aligned with single | ⟨m, size⟩
  · rw [single, one_mul, Nat.div_one, Nat.div_add_mod', Nat.div_add_mod', virtualBlockSize, single, mul_one, Nat.div_add_mod']
  · have whole : cfg.virtualBlockSize = m * (cfg.dcpWorldSize * cfg.interleave) := by
      rw [virtualBlockSize, size]
      ring
    rw [Nat.div_div_eq_div_mul, mul_comm cfg.interleave, whole, Nat.mod_mul_left_div_self,
      Nat.mod_mod_of_dvd _ (Dvd.intro_left (m * cfg.dcpWorldSize) (by ring)), mul_comm m, ← Nat.div_div_eq_div_mul, size]
    have round := Nat.div_add_mod' (pos / (cfg.dcpWorldSize * cfg.interleave)) m
    conv_rhs => rw [← round]
    ring

theorem Aligned.slot_eq (covered : pos < cfg.covered blocks)
    (here : cfg.isLocal rank pos = true) :
    (cfg.localSlots blocks)[cfg.localCount rank pos]?.map Int.ofNat = some (cfg.slotMapping rank blocks pos) := by
  have turn := aligned.isLocal_iff.mp here
  have kernel := cfg.kernelBlockSize_pos
  have offset := aligned.localBlockOffset_lt pos
  have index : cfg.localCount rank pos = pos / cfg.virtualBlockSize * cfg.kernelBlockSize + cfg.localBlockOffset pos := by
    rw [localCount, aligned.localIndex, if_neg (by omega), if_pos turn]
  have listed : pos / cfg.virtualBlockSize < (cfg.blockTable blocks).length := by
    refine Nat.div_lt_of_lt_mul (covered.trans_eq ?_)
    obtain ⟨ratio, size⟩ := cfg.splits
    rw [blockTable, length_mapToKernelBlocks, CpConfig.covered, virtualBlockSize, size, Nat.mul_div_cancel_left _ kernel]
    ring
  rw [localSlots_eq, index, getElem?_mapToKernelBlocks kernel, part_div _ offset, Nat.mul_add_mod', Nat.mod_eq_of_lt offset,
    slotMapping, if_pos here, getD_eq_getElem?_getD, getElem?_eq_getElem listed]
  simp

theorem Aligned.packed (known : rank < cfg.dcpWorldSize) {seqLen : Nat}
    (covered : seqLen ≤ cfg.covered blocks) : cfg.localCount rank seqLen ≤ (cfg.localSlots blocks).length ∧
      ((range seqLen).filter (cfg.isLocal rank)).map (cfg.slotMapping rank blocks) =
      ((cfg.localSlots blocks).take (cfg.localCount rank seqLen)).map (Int.ofNat ·) := by
  induction seqLen with
  | zero =>
    have none_ : cfg.localCount rank 0 = 0 := by
      simp only [localCount, Nat.zero_div, Nat.zero_mod]
      grind
    simp [none_]
  | succ pos ih =>
    obtain ⟨hw, before⟩ := ih (Nat.le_of_succ_le covered)
    rw [localCount_succ cfg known, range_succ, filter_append, map_append, before]
    by_cases here : cfg.isLocal rank pos = true
    · have slot := aligned.slot_eq covered here
      obtain ⟨value, hf, eq⟩ := Option.map_eq_some_iff.mp slot
      rw [if_pos (aligned.isLocal_iff.mp here), take_add_one, hf]
      refine ⟨Nat.succ_le_of_lt (List.getElem?_eq_some_iff.mp hf).1, ?_⟩
      simp [here, ← eq]
    · rw [if_neg fun turn => here (aligned.isLocal_iff.mpr turn)]
      exact ⟨hw, by simp [here]⟩

theorem Aligned.partitioned {tables : List (List BlockId)} (hd : tables.flatten.Nodup) : cfg.Partitioned tables := by
  have rank_lt : ∀ {rank pos}, cfg.isLocal rank pos = true → rank < cfg.dcpWorldSize := fun here =>
    aligned.isLocal_iff.mp here ▸ Nat.mod_lt _ cfg.ranks
  have hi : ∀ {rank blocks pos}, pos < cfg.covered blocks → cfg.isLocal rank pos = true →
      ∃ slot ∈ cfg.localSlots blocks, cfg.slotMapping rank blocks pos = slot := by
    intro rank blocks pos covered here
    obtain ⟨slot, hf, eq⟩ := Option.map_eq_some_iff.mp (aligned.slot_eq covered here)
    exact ⟨slot, mem_of_getElem? hf, eq.symm⟩
  refine ⟨fun pos => ?_, fun rank r r' blocks blocks' at_ at_' pos covered pos' covered' here here' hs => ?_,
    fun rank blocks _ pos covered here => hi covered here, fun rank known blocks _ seqLen covered => ?_⟩
  · exact ⟨_, Nat.mod_lt _ cfg.ranks, fun rank' => aligned.isLocal_iff.trans eq_comm⟩
  · obtain ⟨slot, hm, value⟩ := hi covered here
    obtain ⟨slot', hm', value'⟩ := hi covered' here'
    obtain rfl : slot = slot' := Int.ofNat.inj (value.symm.trans (hs.trans value'))
    -- the block of the slot is in both tables
    have block := (mem_mapToKernelBlocks cfg.sized).mp hm
    have block' := (mem_mapToKernelBlocks cfg.sized).mp hm'
    obtain ⟨own, apart⟩ := nodup_flatten.mp hd
    obtain ⟨bound, rfl⟩ := List.getElem?_eq_some_iff.mp at_
    obtain ⟨bound', rfl⟩ := List.getElem?_eq_some_iff.mp at_'
    have disjoint := pairwise_iff_getElem.mp apart
    have request : r = r' := by
      rcases lt_trichotomy r r' with less | hs | more
      · exact (disjoint_left.mp (disjoint r r' bound bound' less) block block').elim
      · exact hs
      · exact (disjoint_left.mp (disjoint r' r bound' bound more) block' block).elim
    subst request
    refine ⟨rfl, ?_⟩
    have nodup := (aligned.packed (rank_lt here) (le_refl (cfg.covered tables[r]))).2
    have once : (((range (cfg.covered tables[r])).filter (cfg.isLocal rank)).map (cfg.slotMapping rank tables[r])).Nodup := by
      rw [nodup]
      refine ((nodup_mapToKernelBlocks (own _ (getElem_mem bound))).sublist (take_sublist _ _)).map ?_
      exact fun _ _ => Int.ofNat.inj
    exact inj_on_of_nodup_map once (by simp [covered, here]) (by simp [covered', here']) hs
  · obtain ⟨hw, filled⟩ := aligned.packed known covered
    exact ⟨_, hw, cfg.getDcpLocalSeqLen_eq rank seqLen, filled⟩

end

theorem aligned_of_partitioned (partitioned : cfg.Partitioned [[1]]) : cfg.Aligned := by
  by_contra astray
  obtain ⟨several, apart⟩ := not_or.mp astray
  have kernel := cfg.kernelBlockSize_pos
  have ranks : 2 ≤ cfg.dcpWorldSize := by have := cfg.ranks; omega
  obtain ⟨ratio, size⟩ := cfg.splits
  have split : 2 ≤ ratio := by
    by_contra small
    have hp : 0 < ratio := Nat.pos_of_mul_pos_left (size ▸ cfg.sized)
    obtain rfl : ratio = 1 := by omega
    exact apart (by rw [← Nat.mul_one cfg.kernelBlockSize, ← size]; exact cfg.divides)
  have rest := Nat.pos_of_ne_zero fun zero => apart (Nat.dvd_of_mod_eq_zero zero)
  have hw := Nat.mod_lt cfg.kernelBlockSize cfg.interleave_pos
  have whole := Nat.div_add_mod' cfg.kernelBlockSize cfg.interleave
  have table : ∀ k < 2, (cfg.blockTable [1]).getD k 0 = ratio + k := by
    intro k hb
    rw [blockTable, size, Nat.mul_div_cancel_left _ kernel, getD_eq_getElem?_getD, getElem?_mapToKernelBlocks (by omega),
      Nat.div_eq_of_lt (by omega), Nat.mod_eq_of_lt (by omega)]
    simp
  have virtual : cfg.virtualBlockSize = cfg.kernelBlockSize * cfg.dcpWorldSize := rfl
  have covered : cfg.virtualBlockSize < cfg.covered [1] := by
    have := Nat.mul_le_mul_left cfg.virtualBlockSize split
    have more := cfg.virtualBlockSize_pos
    have : cfg.covered [1] = cfg.virtualBlockSize * ratio := by
      rw [CpConfig.covered, size, virtual, length_singleton]
      ring
    omega
  have next : cfg.virtualBlockOffset cfg.virtualBlockSize = 0 := by rw [virtualBlockOffset_eq, Nat.mod_self]
  generalize cfg.kernelBlockSize / cfg.interleave = m at *
  generalize cfg.kernelBlockSize % cfg.interleave = t at *
  have before : m * cfg.dcpWorldSize * cfg.interleave + t < cfg.virtualBlockSize := by
    have := Nat.mul_le_mul_left t ranks
    have : cfg.virtualBlockSize = m * cfg.dcpWorldSize * cfg.interleave + t * cfg.dcpWorldSize := by
      rw [virtual, ← whole]
      ring
    omega
  have offset : cfg.virtualBlockOffset (m * cfg.dcpWorldSize * cfg.interleave + t) = m * cfg.dcpWorldSize * cfg.interleave + t := by
    rw [virtualBlockOffset_eq, Nat.mod_eq_of_lt before]
  have here : cfg.isLocal 0 (m * cfg.dcpWorldSize * cfg.interleave + t) = true := by
    rw [isLocal, decide_eq_true_iff, offset, part_div _ hw, Nat.mul_mod_left]
  have here' : cfg.isLocal 0 cfg.virtualBlockSize = true := by
    rw [isLocal, decide_eq_true_iff, next, Nat.zero_div, Nat.zero_mod]
  have slot : cfg.slotMapping 0 [1] (m * cfg.dcpWorldSize * cfg.interleave + t) = cfg.slotMapping 0 [1] cfg.virtualBlockSize := by
    have round : (m * cfg.dcpWorldSize * cfg.interleave + t) / (cfg.dcpWorldSize * cfg.interleave) = m := by
      rw [Nat.mul_assoc, part_div m (hw.trans_le (Nat.le_mul_of_pos_left _ cfg.ranks))]
    simp only [slotMapping, here, here', localBlockOffset, offset, next, round, Nat.div_eq_of_lt before, Nat.div_self cfg.virtualBlockSize_pos, table 0 (by omega), table 1 (by omega), Nat.mul_add_mod', Nat.mod_eq_of_lt hw]
    rw [whole]
    simp
    ring
  have hs := (partitioned.apart 0 0 0 [1] [1] rfl rfl _ (before.trans covered) _ covered here here' slot).2
  omega

theorem slots_partitioned_iff (cfg : CpConfig) : (∀ tables : List (List BlockId), tables.flatten.Nodup → cfg.Partitioned tables) ↔
    cfg.dcpWorldSize = 1 ∨ cfg.interleave ∣ cfg.kernelBlockSize :=
  ⟨fun partitioned => aligned_of_partitioned (partitioned [[1]] (by simp)), fun aligned _ distinct => Aligned.partitioned aligned distinct⟩

def splitConfig : CpConfig := ⟨2, 2, 1, 2, by decide, by decide, by decide, by decide⟩

theorem split_blocks_share_slot : splitConfig.slotMapping 0 [1] 1 = 3 ∧ splitConfig.slotMapping 0 [1] 2 = 3 ∧
    ¬ splitConfig.Partitioned [[1]] := by
  refine ⟨by decide, by decide, fun partitioned => ?_⟩
  have same := (partitioned.apart 0 0 0 [1] [1] rfl rfl 1 (by decide) 2 (by decide) (by decide) (by decide) (by decide)).2
  omega

end CpConfig

end KVOffload.Worker
