import KVOffload.Core.LayerSpec

/-!
# The KV cache groups of a model

`get_kv_cache_groups` of `kv_cache_utils.py` with all its strategies. Page sizes are read without their assertions: the specs a
model starts with are `Sized`.
-/

namespace KVOffload.Core

abbrev LayerName := String

abbrev LayerSpecs := List (LayerName × LayerSpec)

namespace LayerSpecs

def names (specs : LayerSpecs) : List LayerName := specs.map Prod.fst

def values (specs : LayerSpecs) : List LayerSpec := specs.map Prod.snd

def isUniformSpec (specs : LayerSpecs) : Except ConfigError Bool :=
  match specs with
  | [] => pure true
  | first :: _ => match first.2.merge specs.values with
    | .ok _ => pure true
    | .error (.assertion _) => pure false
    | .error other => throw other

def isUniformType (specs : LayerSpecs) : Except ConfigError Bool :=
  match specs.values with
  | [] => throw .stopIteration
  | one :: rest =>
    if ∃ spec ∈ rest, spec.blockSize ≠ one.blockSize then pure false
    else match one with
      | .slidingWindowMLA _ _ window _ =>
        pure (specs.values.all fun spec => spec.isSlidingWindowMLA ∧ spec.slidingWindow? = some window)
      | .slidingWindow _ _ window => pure (specs.values.all fun spec => spec.slidingWindow? = some window)
      | .crossAttention _ => pure (specs.values.all fun spec => match spec with
        | .crossAttention _ => true
        | _ => false)
      | .chunkedLocalAttention _ size => pure (specs.values.all fun spec => match spec with
        | .chunkedLocalAttention _ other => other = size
        | _ => false)
      | .mamba fields => pure (specs.values.all fun spec => match spec with
        | .mamba other => other.numSpeculativeBlocks = fields.numSpeculativeBlocks
        | _ => false)
      | .quest _ _ | .encoderOnlyAttention _ => throw (.notImplemented "Unsupported KV cache spec type")
      | _ => pure (specs.values.all LayerSpec.isFullAttention)

end LayerSpecs

/-- The spec of a group: one for all its layers, or `UniformTypeKVCacheSpecs` with one for each. -/
inductive GroupSpec where
  | layer (spec : LayerSpec)
  | uniformType (blockSize : Nat) (kvCacheSpecs : LayerSpecs)
deriving DecidableEq, Repr

structure KVCacheGroupSpec where
  layers : LayerSpecs
  kvCacheSpec : GroupSpec
deriving DecidableEq, Repr

def KVCacheGroupSpec.layerNames (group : KVCacheGroupSpec) : List LayerName := group.layers.names

/-- The group of layers of one type; its spec has the block size of the first layer. -/
def uniformGroup (layers : LayerSpecs) : KVCacheGroupSpec where
  layers := layers
  kvCacheSpec := .uniformType ((layers.values.head?.map LayerSpec.blockSize).getD 0) layers

/-- `UniformTypeKVCacheSpecs.from_specs`, asserted not to be `None`. -/
def requireUniformType (layers : LayerSpecs) : Except ConfigError Unit := do
  let uniform ← layers.isUniformType
  require (uniform = true) (.assertion "uniform_spec is not None")

namespace LayerSpecs

def pageSizes (specs : LayerSpecs) : List Nat := firstOccurrences (specs.values.map LayerSpec.pageSizeBytes)

/-- `get_num_layer_tuples`: the most layers that have one page size. -/
def numLayerTuples (specs : LayerSpecs) : Nat :=
  (specs.pageSizes.map fun size => (specs.values.map LayerSpec.pageSizeBytes).count size).foldr max 0

end LayerSpecs

def createKvCacheGroupSpecs (groupedLayers : List LayerSpecs) : Except ConfigError (List KVCacheGroupSpec) :=
  groupedLayers.mapM fun layers => match layers with
    | [] => throw .stopIteration
    | first :: _ => do
      let merged ← first.2.merge layers.values
      return { layers, kvCacheSpec := .layer merged }

/-- The conversion of `unify_hybrid_kv_cache_specs`. -/
def convertToFull (uniformBlockSize : Option Nat) : LayerSpec → LayerSpec
  | .slidingWindowMLA base _ _ mla =>
    (LayerSpec.mlaAttention { base with
        blockSize := uniformBlockSize.getD base.blockSize
        kvQuantMode := .none } { headSizeV := base.headSize } mla).applyAlignmentPadding
  | .slidingWindow base headSizeV window => .fullAttention base { headSizeV, slidingWindow := some window }
  | .chunkedLocalAttention base size =>
    .fullAttention { base with kvQuantMode := .none } { headSizeV := base.headSize, attentionChunkSize := some size }
  | spec => spec

def isOneType (specs : LayerSpecs) : Except ConfigError Bool := do
  if ← specs.isUniformSpec then return true else specs.isUniformType

def unifyHybridKvCacheSpecs (specs : LayerSpecs) : Except ConfigError LayerSpecs := do
  if ← isOneType specs then return specs
  else do
    let hasFullAttention := specs.values.any LayerSpec.isFullAttention
    let hasSlidingWindow := specs.values.any fun spec => spec.slidingWindow?.isSome
    let hasChunkedLocalAttention := specs.values.any LayerSpec.isChunkedLocal
    let hasSlidingWindowMLA := specs.values.any LayerSpec.isSlidingWindowMLA
    require (hasSlidingWindowMLA → hasFullAttention) (.assertion "has_full_attention")
    let uniformBlockSize := if hasSlidingWindowMLA then
        (specs.values.find? LayerSpec.isFullAttention).map LayerSpec.blockSize else none
    let unified := if hasFullAttention ∧ (hasSlidingWindow ∨ hasChunkedLocalAttention) then
        specs.map fun entry => (entry.1, convertToFull uniformBlockSize entry.2) else specs
    let oneType ← isOneType unified
    require (oneType = true) (.valueError "Hybrid KV cache manager is disabled but failed to convert the KV cache specs to one unified type.")
    return unified

/-- One round of the loop of `unify_kv_cache_spec_page_size`. -/
def unifyPageSize (maxPageSize : Nat) (spec : LayerSpec) : Except ConfigError LayerSpec := do
  if spec.pageSizeBytes = maxPageSize then return spec
  else do
    require (spec.pageSizeBytes ≠ 0) .zeroDivision
    require (maxPageSize % spec.pageSizeBytes = 0)
      (.notImplemented "The page size of the layer is not divisible by the maximum page size. Cannot unify by adjusting block_size.")
    let newSpec := spec.withBlockSize (spec.blockSize * (maxPageSize / spec.pageSizeBytes))
    require (newSpec.Sized ∧ newSpec.pageSizeBytes = maxPageSize) (.assertion "new_spec.page_size_bytes == max_page_size")
    return newSpec

def unifyKvCacheSpecPageSize (specs : LayerSpecs) : Except ConfigError LayerSpecs :=
  if specs.pageSizes.length ≤ 1 then pure specs
  else specs.mapM fun entry => do return (entry.1, ← unifyPageSize (specs.pageSizes.foldr max 0) entry.2)

/-- The number of layers in a group of `_get_kv_cache_groups_uniform_page_size`. -/
def groupSizeOf (counts : List Nat) : Nat :=
  let minNumLayers := counts.foldr min (counts.headD 0)
  let maxNumLayers := counts.foldr max 0
  if 2 * maxNumLayers < 3 * minNumLayers then maxNumLayers else minNumLayers

def groupsUniformPageSize (specs : LayerSpecs) : Except ConfigError (List KVCacheGroupSpec) := do
  let sameTypeLayers := buckets Prod.snd specs
  require (sameTypeLayers ≠ []) (.valueError "min() arg is an empty sequence")
  let groupSize := groupSizeOf (sameTypeLayers.map fun same => same.2.length)
  createKvCacheGroupSpecs (sameTypeLayers.flatMap fun same =>
    let numGroups := cdiv same.2.length groupSize
    (List.range numGroups).map fun i => strided numGroups i same.2)

/-- `group_and_unify_kv_cache_specs`: the MLA layers, then the sliding-window layers by block size and window. -/
def groupAndUnifyKvCacheSpecs (specs : LayerSpecs) : Except ConfigError (Option (LayerSpecs × List LayerSpecs)) := do
  if ¬ specs.values.any LayerSpec.isSlidingWindowMLA then return none
  else do
    let mlaSpecs := specs.filter fun entry => entry.2.isMLAAttention
    let slidingSpecs := specs.filter fun entry => entry.2.isSlidingWindowMLA
    let grouped := (buckets (fun entry => (entry.2.blockSize, entry.2.slidingWindow?)) slidingSpecs).map Prod.snd
    require (mlaSpecs ≠ []) (.assertion "len(mla_specs) > 0")
    forM (mlaSpecs :: grouped) requireUniformType
    return some (mlaSpecs, grouped)

def totalPadding (values : List Nat) (d : Nat) : Nat := (values.map fun x => (d - x % d) % d).sum

def approximateGcd (values : List Nat) (lowerBound : Nat) : Except ConfigError Nat := do
  require (values ≠ []) (.valueError "values must be non-empty")
  require (∀ x ∈ values, 0 < x) (.valueError "values must be positive")
  let minD := max 1 lowerBound
  let maxD := values.foldr max 0
  if minD > maxD then return minD
  else return (List.range' minD (maxD + 1 - minD)).foldl (fun best d =>
    if totalPadding values d < totalPadding values best ∨ (totalPadding values d = totalPadding values best ∧ d > best) then d
    else best) minD

def candidateSize (allPageSizes : List Nat) (size : Nat) : Nat :=
  let above := allPageSizes.filter (size ≤ ·)
  above.foldr min (above.headD size)

def padToCandidate (allPageSizes : List Nat) (spec : LayerSpec) : LayerSpec :=
  let candidate := candidateSize allPageSizes spec.pageSizeBytes
  if spec.pageSizeBytes < candidate then
    match spec.attention? with
    | some base => spec.setAttention { base with pageSizePadded := some candidate }
    | none => spec
  else spec

def splitSlidingGroup (allPageSizes : List Nat) (numLayerTuples : Nat) (specs : LayerSpecs) :
    Except ConfigError (List KVCacheGroupSpec) := do
  require (specs.pageSizes.foldr max 0 ≤ allPageSizes.foldr max 0) (.assertion "max(sm_page_sizes) <= max(all_page_sizes)")
  let padded : LayerSpecs := specs.map fun entry => (entry.1, padToCandidate allPageSizes entry.2)
  let layersPerSize := (buckets (fun entry => entry.2.pageSizeBytes) padded).map Prod.snd
  let numLayersPerSize := (layersPerSize.headD []).length
  require (∀ layers ∈ layersPerSize, layers.length = numLayersPerSize)
    (.assertion "len(set(len(layers) for layers in layers_per_size.values())) == 1")
  let numTupleGroups := cdiv numLayersPerSize numLayerTuples
  -- `list(zip(*layers_per_size.values()))`
  let layerTuples := (List.range numLayersPerSize).map (entriesAt layersPerSize)
  (List.range numTupleGroups).mapM fun i => do
    let layers := (strided numTupleGroups i layerTuples).flatten
    requireUniformType layers
    return uniformGroup layers

def groupsUniformGroups (mlaSpecs : LayerSpecs) (slidingSpecs : List LayerSpecs) :
    Except ConfigError (List KVCacheGroupSpec) := do
  let perGroup := (mlaSpecs :: slidingSpecs).map LayerSpecs.numLayerTuples
  let numLayerTuples ← approximateGcd perGroup mlaSpecs.numLayerTuples
  let slidingGroups ← slidingSpecs.mapM (splitSlidingGroup mlaSpecs.pageSizes numLayerTuples)
  return uniformGroup mlaSpecs :: slidingGroups.flatten

namespace GroupSpec

def pageSizeBytes : GroupSpec → Nat
  | layer spec => spec.pageSizeBytes
  | uniformType _ specs => (specs.values.map LayerSpec.pageSizeBytes).sum

end GroupSpec

def getUniformPageSize (specs : List GroupSpec) : Except ConfigError Nat :=
  match firstOccurrences (specs.map GroupSpec.pageSizeBytes) with
  | [size] => pure size
  | _ => throw (.assertion "len(page_sizes) == 1")

def hiddenGroup (commonPage : Nat) (entry : LayerName × LayerSpec) : Except ConfigError KVCacheGroupSpec := do
  let perToken := (entry.2.attention?.map fun base => base.numKvHeads * base.headSize * base.dtype.size).getD 0
  require (perToken ≠ 0) .zeroDivision
  let aligned := entry.2.aligned (max (commonPage / perToken) 1) commonPage
  require aligned.Sized (.assertion "self.page_size_padded >= real_page_size")
  return { layers := [(entry.1, aligned)], kvCacheSpec := .layer aligned }

def groupsGeneral (specs : LayerSpecs) : Except ConfigError (List KVCacheGroupSpec) := do
  let hiddenSpecs := specs.filter fun entry => entry.2.isHiddenState
  let filtered ← unifyKvCacheSpecPageSize (specs.filter fun entry => ¬ entry.2.isHiddenState)
  let groups ← groupsUniformPageSize filtered
  if hiddenSpecs = [] then return groups
  else do
    let commonPage ← getUniformPageSize (groups.map KVCacheGroupSpec.kvCacheSpec)
    let hidden ← hiddenSpecs.mapM (hiddenGroup commonPage)
    return groups ++ hidden

def groupLayers (specs : LayerSpecs) : Except ConfigError (List KVCacheGroupSpec) := do
  if specs = [] then return []
  else if ← specs.isUniformSpec then createKvCacheGroupSpecs [specs]
  else if ← specs.isUniformType then return [uniformGroup specs]
  else match ← groupAndUnifyKvCacheSpecs specs with
    | some (mlaSpecs, slidingSpecs) => groupsUniformGroups mlaSpecs slidingSpecs
    | none => groupsGeneral specs

def getKvCacheGroups (vllm : VllmConfig) (specs : LayerSpecs) : Except ConfigError (List KVCacheGroupSpec) := do
  if vllm.disableHybridKvCacheManager then groupLayers (← unifyHybridKvCacheSpecs specs) else groupLayers specs

end KVOffload.Core
