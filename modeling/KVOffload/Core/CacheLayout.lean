import KVOffload.Core.CacheGroups

/-!
# The KV cache tensors of the workers

`get_kv_cache_configs` of `kv_cache_utils.py`. Memories are in bytes. The logs are left out, but not the division they start with.
-/

namespace KVOffload.Core

structure KVCacheTensor where
  size : Nat
  sharedBy : List LayerName
deriving DecidableEq, Repr

structure KVCacheConfig where
  numBlocks : Nat
  kvCacheTensors : List KVCacheTensor
  kvCacheGroups : List KVCacheGroupSpec
deriving DecidableEq, Repr

namespace GroupSpec

def isUniformType : GroupSpec → Bool
  | uniformType _ _ => true
  | layer _ => false

def specs : GroupSpec → LayerSpecs
  | uniformType _ specs => specs
  | layer _ => []

def maxMemoryUsagePages (vllm : VllmConfig) (spec : GroupSpec) : Nat :=
  (spec.specs.values.map fun spec => cdiv (spec.maxMemoryUsageBytes vllm) spec.pageSizeBytes).foldr max 0

def maxMemoryUsageBytes (vllm : VllmConfig) : GroupSpec → Nat
  | layer spec => spec.maxMemoryUsageBytes vllm
  | spec => spec.maxMemoryUsagePages vllm * spec.pageSizeBytes

end GroupSpec

def maxLayers (groups : List KVCacheGroupSpec) : Nat := (groups.map fun group => group.layers.length).foldr max 0

inductive LayoutKind where
  | attentionFree
  | uniformType (group : KVCacheGroupSpec)
  | uniformGroups (first : KVCacheGroupSpec) (rest : List KVCacheGroupSpec)
  | general

def layoutKind (groups : List KVCacheGroupSpec) : LayoutKind :=
  match groups with
  | [] => .attentionFree
  | [group] => if group.kvCacheSpec.isUniformType then .uniformType group else .general
  | first :: rest =>
    if groups.all fun group => group.kvCacheSpec.isUniformType then .uniformGroups first rest else .general

def maxLayerTuples (groups : List KVCacheGroupSpec) : Nat :=
  (groups.map fun group => group.kvCacheSpec.specs.numLayerTuples).foldr max 0

def maxMemoryUsageBytesFromGroups (vllm : VllmConfig) (groups : List KVCacheGroupSpec) : Except ConfigError Nat :=
  match layoutKind groups with
  | .attentionFree => return 0
  | .uniformType group => return (group.kvCacheSpec.specs.values.map (LayerSpec.maxMemoryUsageBytes vllm)).sum
  | .uniformGroups first _ =>
    return (groups.map fun group => maxLayerTuples groups * group.kvCacheSpec.maxMemoryUsagePages vllm *
      first.kvCacheSpec.specs.pageSizes.sum).sum
  | .general => do
    let pageSize ← getUniformPageSize (groups.map KVCacheGroupSpec.kvCacheSpec)
    require (pageSize ≠ 0) .zeroDivision
    return maxLayers groups * pageSize * (groups.map fun group => cdiv (group.kvCacheSpec.maxMemoryUsageBytes vllm) pageSize).sum

def poolBytesPerBlock (groups : List KVCacheGroupSpec) : Except ConfigError Nat :=
  match layoutKind groups with
  | .attentionFree => return 0
  | .uniformType group => return group.kvCacheSpec.pageSizeBytes
  | .uniformGroups first _ => return first.kvCacheSpec.specs.pageSizes.sum * maxLayerTuples groups
  | .general => do return (← getUniformPageSize (groups.map KVCacheGroupSpec.kvCacheSpec)) * maxLayers groups

/-- `fits` of `_estimate_max_model_len_from_groups`. -/
def fitsLength (vllm : VllmConfig) (groups : List KVCacheGroupSpec) (availableMemory modelLen : Nat) :
    Except ConfigError Bool := do
  let needed ← maxMemoryUsageBytesFromGroups { vllm with maxModelLen := modelLen } groups
  return decide (needed ≤ availableMemory)

/-- The binary search; each round at least halves `[left, right]`. -/
def searchLength (vllm : VllmConfig) (groups : List KVCacheGroupSpec) (availableMemory : Nat) :
    Nat → Nat → Nat → Nat → Except ConfigError Nat
  | 0, _, _, result => pure result
  | fuel + 1, left, right, result =>
    if left ≤ right then do
      let mid := (left + right) / 2
      if ← fitsLength vllm groups availableMemory mid then
        searchLength vllm groups availableMemory fuel (mid + 1) right mid
      else searchLength vllm groups availableMemory fuel left (mid - 1) result
    else pure result

def estimateMaxModelLen (vllm : VllmConfig) (groups : List KVCacheGroupSpec) (availableMemory : Nat) :
    Except ConfigError Nat := do
  if ← fitsLength vllm groups availableMemory 1 then
    searchLength vllm groups availableMemory (vllm.maxModelLen + 1) 1 vllm.maxModelLen 1
  else return 0

structure Worker where
  specs : LayerSpecs
  availableMemory : Nat
deriving DecidableEq, Repr

structure Projected where
  specs : LayerSpecs
  groups : List KVCacheGroupSpec
  availableMemory : Nat
deriving DecidableEq, Repr

def autoFitMaxModelLen (vllm : VllmConfig) (workers : List Projected) : Except ConfigError VllmConfig := do
  if workers.all (·.groups = []) then return vllm
  else do
    let lengths ← (workers.filter (·.groups ≠ [])).mapM fun worker =>
      estimateMaxModelLen vllm worker.groups worker.availableMemory
    let autoFitMax := lengths.foldr min vllm.maxModelLen
    require (0 < autoFitMax) (.valueError "Cannot auto-fit max_model_len: not enough GPU memory available to serve even a single token.")
    return { vllm with maxModelLen := autoFitMax }

def fitModelLen (vllm : VllmConfig) (workers : List Projected) : Except ConfigError VllmConfig :=
  if vllm.autoFit then autoFitMaxModelLen vllm workers else pure vllm

/-- `_project_kv_cache_groups_to_worker`: a group without layers here keeps its spec. -/
def projectGroup (specs : LayerSpecs) (group : KVCacheGroupSpec) : KVCacheGroupSpec :=
  let layers := group.layers.filter fun entry => entry.1 ∈ specs.names
  match group.kvCacheSpec with
  | .uniformType blockSize all => { layers, kvCacheSpec := .uniformType blockSize (if layers = [] then all else layers) }
  | .layer spec => { layers, kvCacheSpec := .layer spec }

def checkEnoughKvCacheMemory (vllm : VllmConfig) (worker : Projected) : Except ConfigError Unit := do
  if worker.groups = [] then return
  else do
    require (0 < worker.availableMemory) (.valueError "No available memory for the cache blocks.")
    let needed ← maxMemoryUsageBytesFromGroups vllm worker.groups
    require (needed ≤ worker.availableMemory) (.valueError "To serve at least one request with the model's max seq len, more KV cache is needed.")

def sizeBucket (size : Nat) (group : KVCacheGroupSpec) : List LayerName :=
  (bucket (fun entry => entry.2.pageSizeBytes) size group.layers).map Prod.fst

def longestBucket (group : KVCacheGroupSpec) : Nat :=
  (group.layers.pageSizes.map fun size => (sizeBucket size group).length).foldr max 0

/-- `_get_kv_cache_config_deepseek_v4`: a tensor for each position and each page size of the MLA layers. -/
def layoutUniformGroups (vllm : VllmConfig) (first : KVCacheGroupSpec) (groups : List KVCacheGroupSpec) (availableMemory : Nat) :
    Except ConfigError KVCacheConfig := do
  let pageSizes := first.kvCacheSpec.specs.pageSizes.insertionSort (· ≤ ·)
  require (∃ group ∈ groups, group.layers ≠ []) (.valueError "max() arg is an empty sequence")
  let numLayerTuples := (groups.map longestBucket).foldr max 0
  require (pageSizes.sum * numLayerTuples ≠ 0) .zeroDivision
  let numBlocks := vllm.numGpuBlocksOverride.getD (availableMemory / (pageSizes.sum * numLayerTuples))
  return { numBlocks
           kvCacheGroups := groups
           kvCacheTensors := (List.range numLayerTuples).flatMap fun i => pageSizes.map fun size =>
             { size := size * numBlocks, sharedBy := entriesAt (groups.map (sizeBucket size)) i } }

def layoutGeneral (vllm : VllmConfig) (groups : List KVCacheGroupSpec) (availableMemory : Nat) :
    Except ConfigError KVCacheConfig := do
  let groupSize := maxLayers groups
  let pageSize ← getUniformPageSize (groups.map KVCacheGroupSpec.kvCacheSpec)
  require (0 < groupSize) (.assertion "group_size must be greater than 0")
  require (pageSize ≠ 0) .zeroDivision
  let numBlocks := vllm.numGpuBlocksOverride.getD (availableMemory / pageSize / groupSize)
  return { numBlocks
           kvCacheGroups := groups
           kvCacheTensors := (List.range groupSize).map fun i =>
             { size := pageSize * numBlocks, sharedBy := entriesAt (groups.map KVCacheGroupSpec.layerNames) i } }

def layoutUniformType (vllm : VllmConfig) (group : KVCacheGroupSpec) (availableMemory : Nat) : Except ConfigError KVCacheConfig := do
  require (group.kvCacheSpec.pageSizeBytes ≠ 0) .zeroDivision
  let numBlocks := vllm.numGpuBlocksOverride.getD (availableMemory / group.kvCacheSpec.pageSizeBytes)
  return { numBlocks
           kvCacheGroups := [group]
           kvCacheTensors := group.layers.map fun entry =>
             { size := entry.2.pageSizeBytes * numBlocks, sharedBy := [entry.1] } }

def getKvCacheConfigFromGroups (vllm : VllmConfig) (groups : List KVCacheGroupSpec) (availableMemory : Nat) :
    Except ConfigError KVCacheConfig :=
  match layoutKind groups with
  | .attentionFree => return { numBlocks := 1, kvCacheTensors := [], kvCacheGroups := groups }
  | .uniformType group => layoutUniformType vllm group availableMemory
  | .uniformGroups first _ => layoutUniformGroups vllm first groups availableMemory
  | .general => layoutGeneral vllm groups availableMemory

/-- The divisions of `get_max_concurrency_for_kv_cache_config`, which the report of a configuration needs. -/
def reportKvCacheConfig (vllm : VllmConfig) (config : KVCacheConfig) : Except ConfigError Unit :=
  match config.kvCacheGroups with
  | [] => return
  | first :: _ => do
    let numLayerPerGroup := maxLayers config.kvCacheGroups
    let memoryPerBlock := first.kvCacheSpec.pageSizeBytes * numLayerPerGroup
    require (memoryPerBlock ≠ 0) .zeroDivision
    let perRequest := numLayerPerGroup *
      (config.kvCacheGroups.map fun group => group.kvCacheSpec.maxMemoryUsageBytes vllm).sum
    require (cdiv perRequest memoryPerBlock ≠ 0) .zeroDivision

def shrinkConfig (vllm : VllmConfig) (minNumBlocks : Nat) (config : KVCacheConfig) : Except ConfigError KVCacheConfig := do
  require (config.kvCacheTensors = [] ∨ config.numBlocks ≠ 0) .zeroDivision
  require (∀ tensor ∈ config.kvCacheTensors, tensor.size % config.numBlocks = 0) (.assertion "tensor.size % num_blocks_old == 0")
  let shrunk := { config with
    numBlocks := minNumBlocks
    kvCacheTensors := config.kvCacheTensors.map fun tensor =>
      { tensor with size := tensor.size / config.numBlocks * minNumBlocks } }
  reportKvCacheConfig vllm shrunk
  return shrunk

def mergeLayer (merged : LayerSpecs) (entry : LayerName × LayerSpec) : Except ConfigError LayerSpecs :=
  match merged.lookup entry.1 with
  | none => return merged ++ [entry]
  | some spec => do
    require (spec = entry.2)
      (.assertion "The KV cache specs for the same layer are different across workers. This is not supported yet.")
    return merged

def mergeWorkers (workers : List Worker) : Except ConfigError LayerSpecs :=
  (workers.flatMap Worker.specs).foldlM mergeLayer []

/-- With `num_gpu_blocks_override` the plan is made for the memory that will be allocated. -/
def effectiveMemory (vllm : VllmConfig) (groups : List KVCacheGroupSpec) (availableMemory : Nat) : Except ConfigError Nat :=
  match vllm.numGpuBlocksOverride with
  | none => return availableMemory
  | some numBlocks => do
    if groups = [] then return availableMemory
    else do
      let bytesPerBlock ← poolBytesPerBlock groups
      require (bytesPerBlock ≠ 0) .zeroDivision
      return numBlocks * bytesPerBlock

def projectWorker (vllm : VllmConfig) (groups : List KVCacheGroupSpec) (worker : Worker) : Except ConfigError Projected := do
  let projected := groups.map (projectGroup worker.specs)
  return { specs := worker.specs
           groups := projected
           availableMemory := ← effectiveMemory vllm projected worker.availableMemory }

def configWorker (vllm : VllmConfig) (worker : Projected) : Except ConfigError KVCacheConfig := do
  require ((worker.groups.map fun group => group.layers.length).sum = worker.specs.length)
    (.assertion "Some layers are not assigned to any group.")
  getKvCacheConfigFromGroups vllm worker.groups worker.availableMemory

/-- `get_kv_cache_configs`; the configuration comes back with its model length fitted. -/
def getKvCacheConfigs (vllm : VllmConfig) (workers : List Worker) : Except ConfigError (VllmConfig × List KVCacheConfig) := do
  let merged ← mergeWorkers workers
  let groups ← getKvCacheGroups vllm merged
  let projected ← workers.mapM (projectWorker vllm groups)
  let vllm ← fitModelLen vllm projected
  forM projected (checkEnoughKvCacheMemory vllm)
  let configs ← projected.mapM (configWorker vllm)
  match (configs.map KVCacheConfig.numBlocks).min? with
  | none => throw (.valueError "min() arg is an empty sequence")
  | some minNumBlocks => do
    let shrunk ← configs.mapM (shrinkConfig vllm minNumBlocks)
    return (vllm, shrunk)

end KVOffload.Core
