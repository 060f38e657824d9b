import KVOffload.Core.LoadTables
import KVOffload.Offload.LookupSpec

/-!
# The keys of a request and the plan of its load

`update_state_after_alloc` finds the first block that waits and loads from there.
-/

namespace KVOffload.Offload

open KVOffload.Core KVCacheManager SchedulerOffloadConfig RequestOffloadState List

variable {α : Type} {config : SchedulerOffloadConfig} {status : RequestOffloadState} {before : List Bytes} {all : List α}
  {n : Nat}

theorem filterMap_range_total {f : Nat → Option α} (total : ∀ i < n, (f i).isSome = true) :
    ((range n).filterMap f).length = n ∧ ∀ i < n, ((range n).filterMap f)[i]? = f i := by
  induction n with
  | zero => simp
  | succ n ih =>
    obtain ⟨length, entries⟩ := ih fun i hb => total i (Nat.lt_succ_of_lt hb)
    obtain ⟨a, last⟩ := Option.isSome_iff_exists.mp (total n (Nat.lt_succ_self n))
    rw [range_succ, filterMap_append, filterMap_cons_some last]
    refine ⟨by rw [length_append, length]; rfl, fun i hb => ?_⟩
    rcases Nat.lt_succ_iff_lt_or_eq.mp hb with before | rfl
    · rw [getElem?_append_left (by omega)]
      exact entries i before
    · rw [getElem?_append_right (by omega), length, Nat.sub_self, last]
      rfl

section

variable {items : List α} {start step : Nat} (positive : 0 < step)

include positive

theorem islice_total (i : Nat) (hb : i < cdiv (items.length - start) step) : items[start + i * step]?.isSome = true := by
  have hi : ¬ items.length - start ≤ step * i := fun far => absurd ((cdiv_le_iff positive).mpr far) (by omega)
  rw [mul_comm] at hi
  rw [getElem?_eq_getElem (by omega)]
  rfl

theorem length_islice : (islice items start step).length = cdiv (items.length - start) step :=
  (filterMap_range_total (islice_total positive)).1

theorem getElem?_islice (i : Nat) : (islice items start step)[i]? = items[start + i * step]? := by
  by_cases hi : i < cdiv (items.length - start) step
  · exact (filterMap_range_total (islice_total positive)).2 i hi
  · have far := (cdiv_le_iff positive).mp (Nat.le_of_not_lt hi)
    rw [mul_comm] at far
    rw [getElem?_eq_none (by rw [length_islice positive]; omega), getElem?_eq_none (by omega)]

end

def requestKeys (hashes : List Bytes) (group : GroupOffloadConfig) : List OffloadKey := newOffloadKeys hashes group 0

section

variable {hashes : List Bytes} {group : GroupOffloadConfig} (positive : 0 < group.hashBlockSizeFactor)

include positive

theorem getElem?_newOffloadKeys (numKeys i : Nat) : (newOffloadKeys hashes group numKeys)[i]? =
    hashes[group.hashBlockSizeFactor * numKeys + group.hashBlockSizeFactor - 1 + i * group.hashBlockSizeFactor]?.map
      (OffloadKey.mk · group.groupIdx) := by
  simp [newOffloadKeys, getElem?_islice positive]

theorem getElem?_requestKeys (i : Nat) : (requestKeys hashes group)[i]? =
    hashes[group.hashBlockSizeFactor - 1 + i * group.hashBlockSizeFactor]?.map (OffloadKey.mk · group.groupIdx) := by
  rw [requestKeys, getElem?_newOffloadKeys positive, mul_zero, zero_add]

theorem length_requestKeys : (requestKeys hashes group).length = hashes.length / group.hashBlockSizeFactor := by
  simp only [requestKeys, newOffloadKeys, length_map, length_islice positive, mul_zero, zero_add, cdiv]
  by_cases enough : group.hashBlockSizeFactor - 1 ≤ hashes.length
  · rw [show hashes.length - (group.hashBlockSizeFactor - 1) + group.hashBlockSizeFactor - 1 = hashes.length by omega]
  · rw [Nat.div_eq_of_lt (by omega), Nat.div_eq_of_lt (by omega)]

theorem requestKeys_extend (extends_ : before <+: hashes) :
    requestKeys before group ++ newOffloadKeys hashes group (requestKeys before group).length = requestKeys hashes group := by
  obtain ⟨rest, rfl⟩ := extends_
  apply ext_getElem?
  intro i
  have length : (requestKeys before group).length = _ := length_requestKeys positive
  have split := Nat.div_add_mod before.length group.hashBlockSizeFactor
  rw [← length] at split
  by_cases old : i < (requestKeys before group).length
  · rw [getElem?_append_left old, getElem?_requestKeys positive, getElem?_requestKeys positive]
    have bound : group.hashBlockSizeFactor * (i + 1) ≤ group.hashBlockSizeFactor * (requestKeys before group).length :=
      Nat.mul_le_mul_left _ old
    rw [mul_add, mul_comm] at bound
    rw [getElem?_append_left (by omega)]
  rw [getElem?_append_right (Nat.le_of_not_lt old), getElem?_newOffloadKeys positive, getElem?_requestKeys positive]
  have parts : i * group.hashBlockSizeFactor = group.hashBlockSizeFactor * (requestKeys before group).length +
      (i - (requestKeys before group).length) * group.hashBlockSizeFactor := by
    rw [mul_comm group.hashBlockSizeFactor, ← add_mul]
    congr 1
    omega
  rw [show group.hashBlockSizeFactor * (requestKeys before group).length + group.hashBlockSizeFactor - 1 +
    (i - (requestKeys before group).length) * group.hashBlockSizeFactor =
    group.hashBlockSizeFactor - 1 + i * group.hashBlockSizeFactor by omega]

theorem requestKeys_inj (nodup : hashes.Nodup) {i j : Nat} {key : OffloadKey}
    (first : (requestKeys hashes group)[i]? = some key) (second : (requestKeys hashes group)[j]? = some key) :
    i = j := by
  rw [getElem?_requestKeys positive, Option.map_eq_some_iff] at first second
  obtain ⟨hash, here, rfl⟩ := first
  obtain ⟨hash', there, hs⟩ := second
  cases hs
  obtain ⟨hi, hs⟩ := List.getElem?_eq_some_iff.mp here
  obtain ⟨hi', hs'⟩ := List.getElem?_eq_some_iff.mp there
  have equal := (List.Nodup.getElem_inj_iff nodup).mp (hs.trans hs'.symm)
  exact Nat.eq_of_mul_eq_mul_right positive (by omega)

end

variable (config) in
/-- The keys of the request are those of its hashes, as after `update_offload_keys`. -/
structure RequestOffloadState.Current (hashes : List Bytes)
    (status : RequestOffloadState) : Prop where
  groups : status.groupStates.length = config.kvGroupConfigs.length
  keys : ∀ g group, config.kvGroupConfigs[g]? = some group → keysOf status g = requestKeys hashes group

theorem current_new (config : SchedulerOffloadConfig) (doRemoteDecode : Bool) :
    (RequestOffloadState.new config doRemoteDecode).Current config [] where
  groups := by simp [RequestOffloadState.new]
  keys g group here := by
    simp only [keysOf, RequestOffloadState.new, getElem?_map, here, Option.map_some]
    simp [requestKeys, newOffloadKeys, islice]

theorem current_updateOffloadKeys {request : Request}
    (positive : ∀ group ∈ config.kvGroupConfigs, 0 < group.hashBlockSizeFactor)
    (current : status.Current config before) (extends_ : before <+: request.blockHashes) :
    (updateOffloadKeys config request status).Current config request.blockHashes where
  groups := by simp [updateOffloadKeys, mapGroups, current.groups]
  keys g group here := by
    have hi := current.groups ▸ (List.getElem?_eq_some_iff.mp here).1
    have keys := current.keys g group here
    have state := getElem?_eq_getElem hi
    simp only [keysOf, state, Option.map_some, Option.getD_some] at keys
    simp only [keysOf, updateOffloadKeys, mapGroups, getElem?_zipWith, here, state, Option.map_some, addOffloadKeys, keys]
    exact requestKeys_extend (positive group (mem_of_getElem? here)) extends_

/-- The entries of `part` are those of `all`, from index `first` on, whose blocks hold the tokens from `a` up to `e`. -/
def Covering (all part : List α) (first size a e : Nat) : Prop :=
  part = (all.drop first).take part.length ∧ ∀ j, (∃ t, a ≤ t ∧ t < e ∧ t / size = j) ↔ first ≤ j ∧ j < first + part.length

theorem holds_iff {size a e j : Nat} (positive : 0 < size) (some : a < e) :
    (∃ t, a ≤ t ∧ t < e ∧ t / size = j) ↔ a / size ≤ j ∧ j < cdiv e size := by
  constructor
  · rintro ⟨t, above, hb, rfl⟩
    refine ⟨Nat.div_le_div_right above, Nat.lt_of_not_le fun far => ?_⟩
    have := (cdiv_le_iff positive).mp far
    have := Nat.mul_div_le t size
    omega
  · rintro ⟨above, hb⟩
    have short : size * j < e := Nat.lt_of_not_le fun far => absurd ((cdiv_le_iff positive).mpr far) (by omega)
    refine ⟨max a (size * j), Nat.le_max_left _ _, Nat.max_lt.mpr ⟨some, short⟩, Nat.le_antisymm ?_ ?_⟩
    · rcases Nat.le_total a (size * j) with less | more
      · rw [Nat.max_eq_right less, Nat.mul_div_cancel_left _ positive]
      · rwa [Nat.max_eq_left more]
    · rw [Nat.le_div_iff_mul_le positive, Nat.mul_comm]
      exact Nat.le_max_right _ _

theorem covering_slice {size a e : Nat} (positive : 0 < size) (some : a < e)
    (enough : cdiv e size ≤ all.length) : Covering all ((all.take (cdiv e size)).drop (a / size)) (a / size) size a e := by
  have length : ((all.take (cdiv e size)).drop (a / size)).length = cdiv e size - a / size := by simp [enough]
  constructor
  · rw [length, drop_take]
  · intro j
    rw [holds_iff positive some]
    omega

theorem covering_nil {first size a e : Nat} (none : e ≤ a) : Covering all [] first size a e := by
  refine ⟨by simp, fun j => ⟨?_, by simp⟩⟩
  omega

/-- The first token that the tokens behind `e` need: all of them, or those in the window. -/
def neededFrom (spec : KVCacheSpec) (c e : Nat) : Nat :=
  match spec.kind with
  | .slidingWindow window => max c (e + 1 - window)
  | _ => c

section

variable {σ : Type} {s : σ} {pool : BlockPool} {spec : KVCacheSpec} {f c e a : Nat} {group : GroupOffloadConfig}
  {keys : List OffloadKey} {blocks : List BlockId}

theorem numLocallyComputedGpuBlocks_eq (table : LoadTable pool spec c e blocks)
    (hw : max (numSkippedBlocks spec e) (c / spec.blockSize) ≤ cdiv e spec.blockSize) :
    numLocallyComputedGpuBlocks pool (blocks.take (cdiv e spec.blockSize)) =
      max (numSkippedBlocks spec e) (c / spec.blockSize) := by
  apply le_antisymm
  · by_contra more
    have more := Nat.lt_of_not_le more
    obtain ⟨block, here, holds⟩ := takeWhile_getElem? _ _ more
    rw [getElem?_take] at here
    split at here
    · rename_i hb
      obtain ⟨block', there, real, unhashed⟩ := table.pending _ (le_refl _) hb
      rw [here] at there
      cases there
      simp [BlockPool.isNull, real, unhashed] at holds
    · cases here
  · apply le_takeWhile_length
    intro i hb
    obtain ⟨block, here, cached⟩ := table.present i hb
    refine ⟨block, ?_, by simpa [BlockPool.isNull] using cached⟩
    rw [getElem?_take_of_lt (by omega), here]

theorem length_of_table (table : LoadTable pool spec c e blocks) : cdiv e spec.blockSize ≤ blocks.length := by
  by_contra short
  rcases lt_or_ge blocks.length (max (numSkippedBlocks spec e) (c / spec.blockSize)) with early | late
  · obtain ⟨block, here, -⟩ := table.present blocks.length early
    simp at here
  · obtain ⟨block, here, -⟩ := table.pending blocks.length late (by omega)
    simp at here

def loadFrom (f a e : Nat) (group : GroupOffloadConfig) (keys : List OffloadKey) (blocks : List BlockId) : GroupLoad where
  keysToLoad := if cdiv e group.gpuBlockSize - a / group.gpuBlockSize = 0 then []
    else keysBetween keys (a / group.gpuBlockSize / f) (cdiv e group.offloadedBlockSize)
  dstBlockIds := (blocks.take (cdiv e group.gpuBlockSize)).drop (a / group.gpuBlockSize)
  blockIndex := a / group.gpuBlockSize

theorem planGroupLoad_eq (size : group.gpuBlockSize = spec.blockSize) (table : LoadTable pool spec c e blocks)
    (first : max (numSkippedBlocks spec e) (c / spec.blockSize) = a / spec.blockSize)
    (hw : a / spec.blockSize ≤ cdiv e spec.blockSize) (filled : spec.blockSize ∣ c)
    (window : ∀ window ∈ group.slidingWindowSizeInBlocks, cdiv e spec.blockSize - a / spec.blockSize ≤ window * f)
    (enough : cdiv e group.offloadedBlockSize ≤ keys.length) :
    planGroupLoad pool f c e group keys blocks s = .ok (loadFrom f a e group keys blocks) s := by
  have hf := numLocallyComputedGpuBlocks_eq table (first ▸ hw)
  rw [first] at hf
  have localTokens : c ≤ a / spec.blockSize * spec.blockSize := by
    obtain ⟨k, rfl⟩ := filled
    rcases eq_zero_or_pos spec.blockSize with zero | positive
    · simp [zero]
    · rw [Nat.mul_div_cancel_left k positive] at first
      rw [mul_comm]
      exact Nat.mul_le_mul_right _ (by omega)
  have big := length_of_table table
  rw [← size] at hf localTokens window big
  refine bind_ok_iff.mpr ⟨(), s, ensure_ok big, ?_⟩
  refine bind_ok_iff.mpr ⟨(), s, ensure_ok (by rwa [hf]), ?_⟩
  refine bind_ok_iff.mpr ⟨(), s, ensure_ok (by rwa [hf]), ?_⟩
  refine bind_ok_iff.mpr ⟨(), s, ensure_ok enough, ?_⟩
  rw [hf]
  rfl

theorem wp_planGroupLoad_dst : wp (planGroupLoad pool f c e group keys blocks) (fun load _ =>
    load.dstBlockIds = (blocks.take (cdiv e group.gpuBlockSize)).drop
      (numLocallyComputedGpuBlocks pool (blocks.take (cdiv e group.gpuBlockSize)))) (fun _ _ => True) s := by
  unfold planGroupLoad
  simp only [wp_bind, wp_ensure]
  exact ⟨fun _ => ⟨fun _ => ⟨fun _ => ⟨fun _ => rfl, fun _ => trivial⟩, fun _ => trivial⟩, fun _ => trivial⟩, fun _ => trivial⟩

theorem dstBlockIds_of_planLoad {s' : σ} {request : RequestId}
    {tables : Nat → List BlockId} {loads : List GroupLoad}
    (run : planLoad pool config request status n tables s = .ok loads s') {i : Nat} {load : GroupLoad}
    (here : config.kvGroupConfigs[i]? = some group) (there : loads[i]? = some load) :
    load.dstBlockIds = ((tables group.groupIdx).take (cdiv (status.numLocallyComputedTokens + n) group.gpuBlockSize)).drop
      (numLocallyComputedGpuBlocks pool
      ((tables group.groupIdx).take (cdiv (status.numLocallyComputedTokens + n) group.gpuBlockSize))) := by
  obtain ⟨loads', t, ran, rest⟩ := bind_ok_iff.mp run
  obtain ⟨_, _, _, last⟩ := bind_ok_iff.mp rest
  cases last
  have each := wp_ok (wp_mapM (I := fun _ => True) (E := fun _ _ => True) (fun group _ _ _ =>
    wp_mono wp_planGroupLoad_dst (fun load _ dst => ⟨trivial, dst⟩) (fun _ _ done => done)) trivial) ran
  obtain ⟨hi, rfl⟩ := List.getElem?_eq_some_iff.mp here
  obtain ⟨hi', rfl⟩ := List.getElem?_eq_some_iff.mp there
  exact (forall₂_iff_get.mp each.2).2 i hi hi'

end

end KVOffload.Offload
