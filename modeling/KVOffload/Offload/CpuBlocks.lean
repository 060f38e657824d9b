import KVOffload.Core.LayoutSpec
import KVOffload.Core.PoolSpec
import KVOffload.Offload.SlotRun

/-!
# The number of CPU blocks

`CPUOffloadingSpec` (`kv_offload/cpu/spec.py`), `SimpleCPUOffloadScheduler._derive_cpu_config` and
`SimpleCPUOffloadWorker.register_kv_caches` work out the number of CPU blocks, each from the configuration it has.
-/

namespace KVOffload.Offload

open KVOffload.Core List

def schedulerGroup (group : KVCacheGroupSpec) : Except ConfigError KVCacheGroupSpec :=
  match group.kvCacheSpec with
  | .layer _ => return group
  | .uniformType _ [] => throw .stopIteration
  | .uniformType _ (first :: _) => return { group with kvCacheSpec := .layer first.2 }

def generateSchedulerKvCacheConfig : List KVCacheConfig → Except ConfigError KVCacheConfig
  | [] => throw (.valueError "list index out of range")
  | first :: rest => do
    require (∀ cfg ∈ first :: rest, cfg.numBlocks = first.numBlocks) (.assertion "num_blocks")
    let kvCacheGroups ← first.kvCacheGroups.mapM schedulerGroup
    return { first with kvCacheGroups }

def groupBlockSize : GroupSpec → Nat
  | .layer spec => spec.blockSize
  | .uniformType blockSize _ => blockSize

def totalBytes (config : KVCacheConfig) : Nat := (config.kvCacheTensors.map KVCacheTensor.size).sum

/-! ### `CPUOffloadingSpec` -/

structure OffloadOptions where
  cpuBytesToUse : Nat
  worldSize : Nat
  blockSize : Option Nat := none

def blockSizeFactor (options : OffloadOptions) (config : KVCacheConfig) : Except ConfigError Nat :=
  match options.blockSize with
  | none => return 1
  | some offloaded => do
    match (config.kvCacheGroups.map fun group => groupBlockSize group.kvCacheSpec).dedup with
    | [gpuBlockSize] => do
      require (gpuBlockSize ≠ 0) .zeroDivision
      require (offloaded % gpuBlockSize = 0) (.assertion "offloaded_block_size_int % gpu_block_size == 0")
      return offloaded / gpuBlockSize
    | _ => throw (.assertion "all groups must have the same block size")

def kvBytesPerOffloadedBlock (options : OffloadOptions) (config : KVCacheConfig) (factor : Nat) : Nat :=
  (if config.numBlocks > 0 then totalBytes config / config.numBlocks * options.worldSize else 0) * factor

def cpuOffloadingBlocks (options : OffloadOptions) (config : KVCacheConfig) : Except ConfigError Nat := do
  let factor ← blockSizeFactor options config
  require (options.cpuBytesToUse ≠ 0) (.valueError "cpu_bytes_to_use must be specified in kv_connector_extra_config")
  let bytes := kvBytesPerOffloadedBlock options config factor
  return if bytes > 0 then options.cpuBytesToUse / bytes else 0

def deriveCpuConfig (gpu : KVCacheConfig) (cpuCapacityBytes : Nat) : Except ConfigError KVCacheConfig := do
  require (gpu.kvCacheTensors ≠ []) (.assertion "len(gpu_config.kv_cache_tensors) > 0")
  require (totalBytes gpu ≠ 0) .zeroDivision
  let numCpuBlocks := max 1 (gpu.numBlocks * cpuCapacityBytes / totalBytes gpu)
  return {
    numBlocks := numCpuBlocks
    kvCacheTensors := gpu.kvCacheTensors.map fun t => { t with size := t.size / gpu.numBlocks * numCpuBlocks }
    kvCacheGroups := gpu.kvCacheGroups }

def registeredSizes (config : KVCacheConfig) : List Nat :=
  (config.kvCacheTensors.filter (·.sharedBy ≠ [])).map KVCacheTensor.size

/-- The bytes of a block in all storages: each is seen as rows of equal length, one for each block, in one or more segments. -/
def totalBytesPerBlock (config : KVCacheConfig) : Nat := ((registeredSizes config).map (· / config.numBlocks)).sum

def registeredCpuBlocks (config : KVCacheConfig) (cpuCapacityBytes : Nat) : Except ConfigError Nat :=
  if registeredSizes config = [] then return 0
  else do
    require (totalBytesPerBlock config ≠ 0) .zeroDivision
    return max 1 (cpuCapacityBytes / totalBytesPerBlock config)

open CPUOffloadingManager in
theorem numBlocks_prepareStore {P Key : Type} [DecidableEq Key] [CachePolicy P Key] {m : CPUOffloadingManager P Key} (keys : List Key) :
    wp (prepareStore keys) (fun _ m' => m'.numBlocks = m.numBlocks) (fun _ m' => m'.numBlocks = m.numBlocks) m := by
  unfold prepareStore makeRoom allocateBlocks
  simp only [wp_bind, wp_get]
  split
  · rfl
  · split
    · simp only [wp_pure, wp_bind, wp_ensure]
      exact ⟨fun _ => ⟨fun _ => rfl, fun _ => rfl⟩, fun _ => rfl⟩
    · simp only [wp_bind, wp_get]
      split
      · rfl
      · simp only [wp_pure, wp_bind, wp_ensure, foldl_freeBlock]
        exact ⟨fun _ => ⟨fun _ => rfl, fun _ => rfl⟩, fun _ => rfl⟩

/-- Some `prepare_store` of a manager with `n` blocks returns the id: with some policy, in some state that its runs keep to. -/
def ManagerAssigns (n id : Nat) : Prop :=
  ∃ (name : CachePolicyName) (m m' : CPUOffloadingManager (name.Policy Nat) Nat) (keys : List Nat) (out : PrepareStoreOutput Nat),
    m.Slots ∧ m.numBlocks = n ∧ CPUOffloadingManager.prepareStore keys m = .ok (some out) m' ∧ id ∈ out.storeSpec

variable {n id : Nat}

open CPUOffloadingManager in
theorem managerAssigns_iff : ManagerAssigns n id ↔ id < n := by
  constructor
  · rintro ⟨name, m, m', keys, out, slots, rfl, run, hm⟩
    obtain ⟨never, -⟩ | ⟨_, hs, stored⟩ := wp_ok (wp_prepareStore slots keys) run
    · cases never
    obtain rfl := Option.some.inj hs
    rw [← map_snd_zip stored.length_eq.le] at hm
    obtain ⟨e, paired, rfl⟩ := mem_map.mp hm
    have bounded := stored.slots.bounded
    rw [wp_ok (numBlocks_prepareStore keys) run] at bounded
    exact Nat.lt_of_lt_of_le (stored.claims e paired).lt bounded
  intro hb
  have first : wp (prepareStore (range (id + 1))) (fun out _ => ∃ o, out = some o ∧ o.storeSpec = range (id + 1))
      (fun _ _ => False) (init n false 0 0 : CPUOffloadingManager (CachePolicyName.lru.Policy Nat) Nat) := by
    have wanted : (init n false 0 0 : CPUOffloadingManager (CachePolicyName.lru.Policy Nat) Nat).keysToStore (range (id + 1)) =
        range (id + 1) := filter_eq_self.mpr fun _ _ => rfl
    have room : (range (id + 1)).length -
        (init n false 0 0 : CPUOffloadingManager (CachePolicyName.lru.Policy Nat) Nat).getNumFreeBlocks = 0 := by
      simp only [getNumFreeBlocks, init, length_range]
      omega
    have fresh : min (id + 1) n = id + 1 := by omega
    unfold prepareStore makeRoom allocateBlocks
    simp only [wp_bind, wp_get, wanted, room, ↓reduceIte, wp_pure, wp_ensure, range_eq_nil, Nat.succ_ne_zero]
    simp [init, slotsFor, fresh, Function.comp_def]
  obtain ⟨_, m', run, out, rfl, slots⟩ := wp_total first fun _ _ never => never
  exact ⟨.lru, _, m', _, out, slots_init n false 0 0, rfl, run, slots ▸ mem_range.mpr (Nat.lt_succ_self id)⟩

/-- `get_new_blocks` of a CPU block pool with `n` blocks returns the id, in some sound state of the pool. -/
def PoolAssigns (n id : Nat) : Prop :=
  ∃ cfg held free pool k ret pool', cfg.numGpuBlocks = n ∧ PoolInv cfg held free pool ∧ pool.nullBlock = 0 ∧
    BlockPool.getNewBlocks cfg (k : Nat) pool = .ok ret pool' ∧ id ∈ ret

theorem poolAssigns_iff : PoolAssigns n id ↔ 0 < id ∧ id < n := by
  constructor
  · rintro ⟨cfg, held, free, pool, k, ret, pool', rfl, inv, null, run, hm⟩
    by_cases enough : k ≤ free.length
    · obtain ⟨_, run', -⟩ := BlockPool.getNewBlocks_eq inv enough
      rw [run] at run'
      cases run'
      obtain ⟨hi, real, -⟩ := (inv.free_iff id).mp (mem_of_mem_take hm)
      exact ⟨pos_of_ne_zero (null ▸ real), hi⟩
    · rw [BlockPool.getNewBlocks_error inv (Int.ofNat_lt.mpr (Nat.lt_of_not_le enough))] at run
      cases run
  rintro ⟨hp, hb⟩
  let cfg : PoolConfig := { numGpuBlocks := n, hashBlockSize := 1, scheme := spelledScheme }
  obtain ⟨n, rfl⟩ : ∃ m, n = m + 1 := ⟨n - 1, by omega⟩
  have listed : range (n + 1) = 0 :: (range n).map (· + 1) := range_succ_eq_map
  obtain ⟨queue, popped, -⟩ := LinkedQueue.popleft_eq (listed ▸ LinkedQueue.represents_init (range (n + 1)) nodup_range)
  obtain ⟨pool, made, null⟩ : ∃ pool, BlockPool.init cfg = .ok pool ∧ pool.nullBlock = 0 := by
    rw [BlockPool.init, listed, popped]
    exact ⟨_, rfl, rfl⟩
  obtain ⟨free, inv⟩ := BlockPool.poolInv_init made
  obtain ⟨pool', run, -⟩ := BlockPool.getNewBlocks_eq inv (le_refl free.length)
  refine ⟨cfg, _, free, pool, free.length, _, pool', rfl, inv, null, run, ?_⟩
  rw [take_length]
  have real := null ▸ hp.ne'
  exact (inv.free_iff id).mpr ⟨hb, real, inv.refs id real⟩

def pageBytes (config : KVCacheConfig) : Nat := (config.kvCacheTensors.map fun tensor => tensor.size / config.numBlocks).sum

def offloadedBytes (options : OffloadOptions) (config : KVCacheConfig) (factor : Nat) : Nat :=
  pageBytes config * options.worldSize * factor

theorem div_le_div_iff_fits {capacity a b : Nat} : capacity / a ≤ capacity / b ↔
    ∀ k > 0, 0 < a → k * a ≤ capacity → 0 < b ∧ k * b ≤ capacity := by
  constructor
  · intro least k some hp fits
    have enough := ((Nat.le_div_iff_mul_le hp).mpr fits).trans least
    have hp' : 0 < b := by
      by_contra zero
      rw [Nat.eq_zero_of_not_pos zero] at enough
      omega
    exact ⟨hp', (Nat.le_div_iff_mul_le hp').mp enough⟩
  · intro all
    by_cases none : capacity / a = 0
    · exact none ▸ Nat.zero_le _
    · have hp : 0 < a := pos_of_ne_zero fun zero => none (by rw [zero, Nat.div_zero])
      obtain ⟨hp', fits⟩ := all _ (pos_of_ne_zero none) hp (Nat.div_mul_le_self capacity a)
      exact (Nat.le_div_iff_mul_le hp').mpr fits

def OffloadRoom (options : OffloadOptions) (sched config : KVCacheConfig) : Prop :=
  ∀ factor factor', blockSizeFactor options sched = .ok factor → blockSizeFactor options config = .ok factor' →
    ∀ k > 0, 0 < offloadedBytes options sched factor → k * offloadedBytes options sched factor ≤ options.cpuBytesToUse →
      0 < offloadedBytes options config factor' ∧ k * offloadedBytes options config factor' ≤ options.cpuBytesToUse

/-- The same for the simple connector, whose first block is the null block. -/
def RegisteredRoom (capacity : Nat) (sched config : KVCacheConfig) : Prop :=
  ∀ k ≥ 2, k * pageBytes sched ≤ capacity → registeredSizes config ≠ [] ∧ k * totalBytesPerBlock config ≤ capacity

section

variable {vllm fitted : VllmConfig} {workers : List Worker} {configs : List KVCacheConfig} {config sched : KVCacheConfig}

theorem totalBytes_eq (whole : ∀ tensor ∈ config.kvCacheTensors, config.numBlocks ∣ tensor.size) :
    totalBytes config = pageBytes config * config.numBlocks := by
  unfold totalBytes pageBytes
  rw [← sum_map_mul_right]
  exact congrArg sum (map_congr_left fun tensor hm => (Nat.div_mul_cancel (whole tensor hm)).symm)

theorem accepted_whole (ha : getKvCacheConfigs vllm workers = .ok (fitted, configs)) :
    ∀ config ∈ configs, ∀ tensor ∈ config.kvCacheTensors, config.numBlocks ∣ tensor.size := by
  obtain ⟨groups, starts, minNumBlocks, -, started, -, shrunk⟩ := accepted_cases ha
  have all := forall₂_comp started shrunk
  intro config hm tensor hi
  obtain ⟨i, hb, rfl⟩ := mem_iff_getElem.mp hm
  obtain ⟨start, begun, shrinks⟩ := all.get (all.length_eq ▸ hb) hb
  obtain ⟨laid, -⟩ := begun.laid.shrink shrinks
  obtain ⟨page, size, -⟩ := laid.sized tensor hi
  exact ⟨page, size.trans (mul_comm _ _)⟩

theorem scheduler_first (given : generateSchedulerKvCacheConfig configs = .ok sched) :
    ∃ first ∈ configs, sched.numBlocks = first.numBlocks ∧ sched.kvCacheTensors = first.kvCacheTensors := by
  cases configs with
  | nil => cases given
  | cons first rest =>
    obtain ⟨_, -, given⟩ := except_bind_ok.mp given
    obtain ⟨groups, -, made⟩ := except_bind_ok.mp given
    rw [except_pure_ok] at made
    subst made
    exact ⟨first, .head _, rfl, rfl⟩

section

variable (whole : ∀ tensor ∈ config.kvCacheTensors, config.numBlocks ∣ tensor.size) {options : OffloadOptions}

include whole

theorem cpuOffloadingBlocks_ok
    : cpuOffloadingBlocks options config = .ok n ↔ ∃ factor, blockSizeFactor options config = .ok factor ∧
      options.cpuBytesToUse ≠ 0 ∧ options.cpuBytesToUse / offloadedBytes options config factor = n := by
  have bytes : ∀ factor, kvBytesPerOffloadedBlock options config factor = offloadedBytes options config factor := by
    intro factor
    unfold kvBytesPerOffloadedBlock offloadedBytes
    split
    · rename_i hp
      rw [totalBytes_eq whole, Nat.mul_div_cancel _ hp]
    · rename_i none
      simp [pageBytes, Nat.eq_zero_of_not_pos none]
  have count : ∀ b, (if b > 0 then options.cpuBytesToUse / b else 0) = options.cpuBytesToUse / b := by
    intro b
    split
    · rfl
    · rename_i none
      rw [Nat.eq_zero_of_not_pos none, Nat.div_zero]
  simp only [cpuOffloadingBlocks, bytes, count, except_bind_ok, require_ok, except_pure_ok, exists_const]

theorem cpuOffloadingBlocks_le_iff
    (whole' : ∀ tensor ∈ sched.kvCacheTensors, sched.numBlocks ∣ tensor.size)
    (counted : cpuOffloadingBlocks options sched = .ok n) :
    (∀ m, cpuOffloadingBlocks options config = .ok m → ∀ id, ManagerAssigns n id → id < m) ↔ OffloadRoom options sched config := by
  obtain ⟨factor, hf, some, rfl⟩ := (cpuOffloadingBlocks_ok whole').mp counted
  have hb : ∀ a b, (∀ id, ManagerAssigns a id → id < b) ↔ a ≤ b := by
    intro a b
    simp only [managerAssigns_iff]
    exact ⟨fun all => Nat.le_of_not_lt fun less => Nat.lt_irrefl b (all b less), fun least id less => Nat.lt_of_lt_of_le less least⟩
  simp only [hb, OffloadRoom, hf, Except.ok.injEq, cpuOffloadingBlocks_ok whole]
  constructor
  · rintro least _ factor' rfl hf'
    exact div_le_div_iff_fits.mp (least _ ⟨factor', hf', some, rfl⟩)
  · rintro room _ ⟨factor', hf', -, rfl⟩
    exact div_le_div_iff_fits.mpr (room factor factor' rfl hf')

end

theorem registeredCpuBlocks_le_iff {capacity : Nat} {cpu : KVCacheConfig}
    (whole' : ∀ tensor ∈ sched.kvCacheTensors, sched.numBlocks ∣ tensor.size)
    (derived : deriveCpuConfig sched capacity = .ok cpu) :
    (∀ m, registeredCpuBlocks config capacity = .ok m → ∀ id, PoolAssigns cpu.numBlocks id → id < m) ↔
      RegisteredRoom capacity sched config := by
  simp only [deriveCpuConfig, except_bind_ok, require_ok, except_pure_ok] at derived
  obtain ⟨_, -, _, some, rfl⟩ := derived
  rw [totalBytes_eq whole'] at some
  have hp : 0 < pageBytes sched := Nat.pos_of_ne_zero fun zero => some (by rw [zero, Nat.zero_mul])
  have blocks : 0 < sched.numBlocks := Nat.pos_of_ne_zero fun zero => some (by rw [zero, Nat.mul_zero])
  have count : sched.numBlocks * capacity / totalBytes sched = capacity / pageBytes sched := by
    rw [totalBytes_eq whole', Nat.mul_comm (pageBytes sched), Nat.mul_div_mul_left _ _ blocks]
  simp only [poolAssigns_iff, RegisteredRoom, ← Nat.le_div_iff_mul_le hp]
  by_cases empty : registeredSizes config = []
  · simp only [registeredCpuBlocks, empty, ↓reduceIte, except_pure_ok, forall_eq', ne_eq, not_true_eq_false, false_and]
    exact ⟨fun all k two fits => absurd (all 1 ⟨Nat.one_pos, by omega⟩) (Nat.not_lt_zero 1), fun none id hi =>
      (none (id + 1) (by omega) (by omega)).elim⟩
  · simp only [registeredCpuBlocks, empty, ↓reduceIte, except_bind_ok, require_ok, except_pure_ok, ne_eq]
    by_cases zero : totalBytesPerBlock config = 0
    · simp [zero]
    · simp only [zero, not_false_eq_true, exists_const, true_and, forall_eq', ← Nat.le_div_iff_mul_le (Nat.pos_of_ne_zero zero)]
      exact ⟨fun all k two fits => by have := all (k - 1) ⟨by omega, by omega⟩; omega, fun all id hi => by
        have := all (id + 1) (by omega) (by omega)
        omega⟩

/-- Every block id that the scheduler hands out exists on every worker exactly when every worker has room for as many blocks
as the first one. -/
theorem cpu_block_ids_exist_iff (accepted : getKvCacheConfigs vllm workers = .ok (fitted, configs))
    (given : generateSchedulerKvCacheConfig configs = .ok sched) :
    (∀ options n, cpuOffloadingBlocks options sched = .ok n →
      ((∀ config ∈ configs, ∀ m, cpuOffloadingBlocks options config = .ok m → ∀ id, ManagerAssigns n id → id < m) ↔
        ∀ config ∈ configs, OffloadRoom options sched config)) ∧
    ∀ capacity cpu, deriveCpuConfig sched capacity = .ok cpu →
      ((∀ config ∈ configs, ∀ m, registeredCpuBlocks config capacity = .ok m → ∀ id, PoolAssigns cpu.numBlocks id → id < m) ↔
        ∀ config ∈ configs, RegisteredRoom capacity sched config) := by
  have whole := accepted_whole accepted
  obtain ⟨first, member, blocks, tensors⟩ := scheduler_first given
  have whole' : ∀ tensor ∈ sched.kvCacheTensors, sched.numBlocks ∣ tensor.size := by
    rw [blocks, tensors]
    exact whole first member
  exact ⟨fun options n counted => forall₂_congr fun config inside => cpuOffloadingBlocks_le_iff (whole config inside) whole' counted,
    fun capacity cpu derived => forall₂_congr fun config _ => registeredCpuBlocks_le_iff whole' derived⟩

end

def tensorParallel : List Worker := [⟨[("a", valueHeadSpec 1)], 100⟩, ⟨[("a", valueHeadSpec 1)], 100⟩]

def unevenStages : List Worker := [⟨[("a", valueHeadSpec 1)], 100⟩, ⟨[("b", valueHeadSpec 1), ("c", valueHeadSpec 1)], 100⟩]

def smallCpu : OffloadOptions := { cpuBytesToUse := 64, worldSize := 2 }

def startUp (workers : List Worker) : Except ConfigError (List KVCacheConfig × KVCacheConfig) := do
  let (_, configs) ← getKvCacheConfigs shortContext workers
  let sched ← generateSchedulerKvCacheConfig configs
  return (configs, sched)

theorem cpu_block_ids_exist_iff_tensorParallel : ∃ configs sched, startUp tensorParallel = .ok (configs, sched) ∧
    cpuOffloadingBlocks smallCpu sched = .ok 8 ∧
    ∀ config ∈ configs, ∀ m, cpuOffloadingBlocks smallCpu config = .ok m → ∀ id, ManagerAssigns 8 id → id < m := by
  obtain ⟨⟨configs, sched⟩, run, counted, same⟩ := okWith_iff.mp
    (show okWith (startUp tensorParallel) (fun result => cpuOffloadingBlocks smallCpu result.2 = .ok 8 ∧
      ∀ config ∈ result.1, config = result.2) = true by decide)
  have both := run
  simp only [startUp, except_bind_ok] at both
  obtain ⟨⟨fitted, configs⟩, accepted, sched, given, hs⟩ := both
  cases hs
  refine ⟨configs, sched, run, counted, ((cpu_block_ids_exist_iff accepted given).1 smallCpu 8 counted).mpr ?_⟩
  intro config inside
  rw [same config inside]
  intro factor factor' found found' k some positive fits
  rw [found] at found'
  cases found'
  exact ⟨positive, fits⟩

/-- The scheduler hands out block 7 in either connector; the second stage has four blocks. -/
theorem second_stage_lacks_block : ∃ configs sched, startUp unevenStages = .ok (configs, sched) ∧
    ∃ config ∈ configs,
      (cpuOffloadingBlocks smallCpu sched = .ok 8 ∧ ManagerAssigns 8 7 ∧ cpuOffloadingBlocks smallCpu config = .ok 4) ∧
      ∃ cpu, deriveCpuConfig sched 32 = .ok cpu ∧ PoolAssigns cpu.numBlocks 7 ∧ registeredCpuBlocks config 32 = .ok 4 := by
  obtain ⟨⟨configs, sched⟩, run, counted, derived, config, inside, fewer, fewer'⟩ := okWith_iff.mp
    (show okWith (startUp unevenStages) (fun result => cpuOffloadingBlocks smallCpu result.2 = .ok 8 ∧
      okWith (deriveCpuConfig result.2 32) (fun cpu => cpu.numBlocks = 8) = true ∧
      ∃ config ∈ result.1, cpuOffloadingBlocks smallCpu config = .ok 4 ∧ registeredCpuBlocks config 32 = .ok 4) = true by decide)
  obtain ⟨cpu, made, eight⟩ := okWith_iff.mp derived
  exact ⟨configs, sched, run, config, inside, ⟨counted, managerAssigns_iff.mpr (by decide), fewer⟩, cpu, made,
    poolAssigns_iff.mpr (eight ▸ by decide), fewer'⟩

end KVOffload.Offload
