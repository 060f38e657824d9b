import KVOffload.Core.CacheManager
import KVOffload.Lib.Fallible
import KVOffload.Lib.Grouping

/-!
# The KV cache specs of the layers

The spec classes of `kv_cache_interface.py`. A frozen dataclass is a constructor, and equal values are equal objects.
-/

namespace KVOffload.Core

/-- The exceptions of the start-up code. `merge` of specs is tried, and only a failed assertion is caught there. -/
inductive ConfigError where
  | assertion (what : String)
  | valueError (what : String)
  | notImplemented (what : String)
  | attributeError
  | stopIteration
  | zeroDivision
deriving DecidableEq, Repr

inductive KVQuantMode where
  | none
  | fp8PerTensor
  | int8PerTokenHead
  | fp8PerTokenHead
  | nvfp4
deriving DecidableEq, Repr

def KVQuantMode.isPerTokenHead : KVQuantMode → Bool
  | .int8PerTokenHead | .fp8PerTokenHead => true
  | _ => false

structure DType where
  name : String
  size : Nat
deriving DecidableEq, Repr

def nvfp4KvCacheFullDim (headSize : Nat) : Nat := headSize / 2 + headSize / 16

structure AttentionFields where
  blockSize : Nat
  numKvHeads : Nat
  headSize : Nat
  dtype : DType
  kvQuantMode : KVQuantMode := .none
  pageSizePadded : Option Nat := none
deriving DecidableEq, Repr

structure FullFields where
  headSizeV : Nat
  slidingWindow : Option Nat := none
  attentionChunkSize : Option Nat := none
deriving DecidableEq, Repr

structure MLAFields where
  cacheDtypeStr : Option String := none
  alignment : Option Nat := none
  compressRatio : Nat := 1
  modelVersion : Option String := none
deriving DecidableEq, Repr

inductive MambaType where
  | mamba1
  | mamba2
  | shortConv
  | linear
  | gdnAttn
  | custom
deriving DecidableEq, Repr

structure MambaFields where
  blockSize : Nat
  shapes : List (List Nat)
  dtypes : List DType
  pageSizePadded : Option Nat := none
  mambaType : MambaType := .mamba2
  mambaCacheMode : MambaCacheMode := .none
  numSpeculativeBlocks : Nat := 0
deriving DecidableEq, Repr

inductive LayerSpec where
  | fullAttention (base : AttentionFields) (full : FullFields)
  | tqFullAttention (base : AttentionFields) (full : FullFields) (tqSlotSize : Nat)
  | mlaAttention (base : AttentionFields) (full : FullFields) (mla : MLAFields)
  | hiddenState (base : AttentionFields) (full : FullFields) (mla : MLAFields)
  | sinkFullAttention (base : AttentionFields) (full : FullFields) (sinkLen : Option Nat)
  | chunkedLocalAttention (base : AttentionFields) (attentionChunkSize : Nat)
  | slidingWindow (base : AttentionFields) (headSizeV slidingWindow : Nat)
  | slidingWindowMLA (base : AttentionFields) (headSizeV : Option Nat) (slidingWindow : Nat) (mla : MLAFields)
  | mamba (fields : MambaFields)
  | quest (base : AttentionFields) (gpuCacheBlocksPerSeq : Nat)
  | encoderOnlyAttention (base : AttentionFields)
  | crossAttention (base : AttentionFields)
deriving DecidableEq, Repr

section

variable (base : AttentionFields)

def AttentionFields.realPageSizeBytes : Nat :=
  2 * base.blockSize * base.numKvHeads *
    (if base.kvQuantMode = .nvfp4 then nvfp4KvCacheFullDim base.headSize else base.headSize) * base.dtype.size

def AttentionFields.keyValuePageSizeBytes (headSizeV : Nat) : Nat :=
  base.blockSize * base.numKvHeads *
    (if base.kvQuantMode = .nvfp4 then nvfp4KvCacheFullDim base.headSize + nvfp4KvCacheFullDim headSizeV
      else base.headSize + headSizeV) * base.dtype.size

def MLAFields.storageBlockSize (mla : MLAFields) : Nat := base.blockSize / mla.compressRatio

def MLAFields.realPageSizeBytes (mla : MLAFields) : Nat :=
  if mla.cacheDtypeStr = some "fp8_ds_mla" then
    if mla.modelVersion = some "deepseek_v4" then mla.storageBlockSize base * 584 else base.blockSize * 656
  else mla.storageBlockSize base * base.numKvHeads * base.headSize * base.dtype.size

/-- `SlidingWindowMLASpec.real_page_size_bytes` -/
def MLAFields.slidingPageSizeBytes (mla : MLAFields) : Nat :=
  if mla.modelVersion = some "deepseek_v4" then mla.storageBlockSize base * 584
  else mla.storageBlockSize base * base.numKvHeads * base.headSize * base.dtype.size

end

namespace LayerSpec

def attention? : LayerSpec → Option AttentionFields
  | fullAttention base _ | tqFullAttention base _ _ | mlaAttention base _ _ | hiddenState base _ _
  | sinkFullAttention base _ _ | chunkedLocalAttention base _ | slidingWindow base _ _ | slidingWindowMLA base _ _ _
  | quest base _ | encoderOnlyAttention base | crossAttention base => some base
  | mamba _ => none

def blockSize : LayerSpec → Nat
  | mamba fields => fields.blockSize
  | spec => (spec.attention?.map AttentionFields.blockSize).getD 0

def pageSizePadded : LayerSpec → Option Nat
  | mamba fields => fields.pageSizePadded
  | spec => spec.attention?.bind AttentionFields.pageSizePadded

def realPageSizeBytes : LayerSpec → Nat
  | fullAttention base full | sinkFullAttention base full _ => base.keyValuePageSizeBytes full.headSizeV
  | tqFullAttention base full tqSlotSize =>
    if tqSlotSize > 0 then base.blockSize * base.numKvHeads * tqSlotSize else base.keyValuePageSizeBytes full.headSizeV
  | mlaAttention base _ mla | hiddenState base _ mla => mla.realPageSizeBytes base
  | slidingWindow base headSizeV _ => base.keyValuePageSizeBytes headSizeV
  | slidingWindowMLA base _ _ mla => mla.slidingPageSizeBytes base
  | chunkedLocalAttention base _ | quest base _ | encoderOnlyAttention base | crossAttention base => base.realPageSizeBytes
  | mamba fields => ((fields.shapes.zip fields.dtypes).map fun (shape, dtype) => shape.prod * dtype.size).sum

def scaleBytes (spec : LayerSpec) : Nat :=
  match spec.attention? with
  | some base => if base.kvQuantMode.isPerTokenHead then 2 * base.blockSize * base.numKvHeads * 4 else 0
  | none => 0

def pageSizeBytes (spec : LayerSpec) : Nat := spec.pageSizePadded.getD (spec.realPageSizeBytes + spec.scaleBytes)

/-- The assertions of `page_size_bytes` and of `SlidingWindowMLASpec.real_page_size_bytes`. -/
def Sized (spec : LayerSpec) : Prop :=
  (∀ padded ∈ spec.pageSizePadded, spec.realPageSizeBytes + spec.scaleBytes ≤ padded) ∧
    match spec with
    | slidingWindowMLA _ _ _ mla => mla.modelVersion = some "deepseek_v4" ∨ mla.modelVersion = none
    | _ => True

instance (spec : LayerSpec) : Decidable spec.Sized := by
  unfold Sized
  split <;> infer_instance

def setAttention (spec : LayerSpec) (base : AttentionFields) : LayerSpec :=
  match spec with
  | fullAttention _ full => fullAttention base full
  | tqFullAttention _ full tqSlotSize => tqFullAttention base full tqSlotSize
  | mlaAttention _ full mla => mlaAttention base full mla
  | hiddenState _ full mla => hiddenState base full mla
  | sinkFullAttention _ full sinkLen => sinkFullAttention base full sinkLen
  | chunkedLocalAttention _ attentionChunkSize => chunkedLocalAttention base attentionChunkSize
  | slidingWindow _ headSizeV window => slidingWindow base headSizeV window
  | slidingWindowMLA _ headSizeV window mla => slidingWindowMLA base headSizeV window mla
  | quest _ gpuCacheBlocksPerSeq => quest base gpuCacheBlocksPerSeq
  | encoderOnlyAttention _ => encoderOnlyAttention base
  | crossAttention _ => crossAttention base
  | mamba fields => mamba fields

def alignment? : LayerSpec → Option Nat
  | mlaAttention _ _ mla | hiddenState _ _ mla | slidingWindowMLA _ _ _ mla => mla.alignment
  | _ => none

/-- `_apply_alignment_padding`, which `__post_init__` of the MLA specs calls. -/
def applyAlignmentPadding (spec : LayerSpec) : LayerSpec :=
  match spec.attention?, spec.alignment? with
  | some base, some alignment =>
    let paddedPageSize := cdiv spec.realPageSizeBytes alignment * alignment
    if paddedPageSize = spec.realPageSizeBytes then spec
    else spec.setAttention { base with pageSizePadded := some paddedPageSize }
  | _, _ => spec

/-- `replace(spec, block_size=...)`, which runs `__post_init__` again. -/
def withBlockSize (spec : LayerSpec) (blockSize : Nat) : LayerSpec :=
  match spec with
  | mamba fields => mamba { fields with blockSize }
  | spec => match spec.attention? with
    | some base => (spec.setAttention { base with blockSize }).applyAlignmentPadding
    | none => spec

/-- `replace(spec, block_size=..., page_size_padded=...)` of a hidden-state layer. -/
def aligned (spec : LayerSpec) (blockSize pageSizePadded : Nat) : LayerSpec :=
  match spec.attention? with
  | some base => (spec.setAttention { base with blockSize, pageSizePadded := some pageSizePadded }).applyAlignmentPadding
  | none => spec

def isFullAttention : LayerSpec → Bool
  | fullAttention _ _ | tqFullAttention _ _ _ | mlaAttention _ _ _ | hiddenState _ _ _ | sinkFullAttention _ _ _ => true
  | _ => false

def isMLAAttention : LayerSpec → Bool
  | mlaAttention _ _ _ | hiddenState _ _ _ => true
  | _ => false

def isHiddenState : LayerSpec → Bool
  | hiddenState _ _ _ => true
  | _ => false

def isSlidingWindowMLA : LayerSpec → Bool
  | slidingWindowMLA _ _ _ _ => true
  | _ => false

def isChunkedLocal : LayerSpec → Bool
  | chunkedLocalAttention _ _ => true
  | _ => false

def slidingWindow? : LayerSpec → Option Nat
  | slidingWindow _ _ window | slidingWindowMLA _ _ window _ => some window
  | _ => none

def full? : LayerSpec → Option FullFields
  | fullAttention _ full | tqFullAttention _ full _ | mlaAttention _ full _ | hiddenState _ full _
  | sinkFullAttention _ full _ => some full
  | _ => none

def mla? : LayerSpec → Option MLAFields
  | mlaAttention _ _ mla | hiddenState _ _ mla | slidingWindowMLA _ _ _ mla => some mla
  | _ => none

def mergeWindowSizes (windowSizes : List Nat) : Except ConfigError (Option Nat) :=
  match firstOccurrences windowSizes with
  | [] => pure none
  | [windowSize] => pure (some windowSize)
  | _ => throw (.valueError "All attention layers in the same KV cache group must have the same window size.")

/-- `FullAttentionSpec.merge`, with the fields of the first spec: only those of `AttentionSpec` are compared. -/
def mergeFull (base : AttentionFields) (headSizeV : Nat) (specs : List LayerSpec) : Except ConfigError FullFields := do
  require (specs.all isFullAttention)
    (.assertion "All attention layers in the same KV cache group must be FullAttentionSpec.")
  require (¬ specs.any isMLAAttention) (.assertion "MLAAttentionSpec should be merged in MLAAttentionSpec.merge")
  let slidingWindow ← mergeWindowSizes (specs.filterMap fun spec => spec.full?.bind FullFields.slidingWindow)
  let attentionChunkSize ← mergeWindowSizes (specs.filterMap fun spec => spec.full?.bind FullFields.attentionChunkSize)
  require (∀ spec ∈ specs, spec.attention? = some base)
    (.assertion "All attention layers in the same KV cache group must have the same attention spec.")
  require (¬ (slidingWindow.isSome ∧ attentionChunkSize.isSome))
    (.assertion "Model with both sliding window layers and chunked local attention layers is not supported.")
  return { headSizeV, slidingWindow, attentionChunkSize }

def sameMLA (mla : MLAFields) (spec : LayerSpec) : Bool :=
  spec.mla?.any fun other =>
    other.cacheDtypeStr = mla.cacheDtypeStr ∧ other.compressRatio = mla.compressRatio ∧ other.modelVersion = mla.modelVersion

/-- `MLAAttentionSpec.merge`: the merged spec has the sizes of the first one and no alignment. -/
def mergeMLA (base : AttentionFields) (mla : MLAFields) (specs : List LayerSpec) :
    Except ConfigError (FullFields × MLAFields) := do
  require (specs.all isMLAAttention)
    (.assertion "All attention layers in the same KV cache group must be MLAAttentionSpec.")
  require (specs.all (sameMLA mla))
    (.assertion "All attention layers in the same KV cache group must use the same quantization method, compress ratio, and model version.")
  return ({ headSizeV := base.headSize }, { mla with alignment := none })

/-- The slot size, which only a `TQFullAttentionSpec` has. -/
def tqSlotSize? : LayerSpec → Option Nat
  | tqFullAttention _ _ tqSlotSize => some tqSlotSize
  | _ => none

def merge (first : LayerSpec) (specs : List LayerSpec) : Except ConfigError LayerSpec :=
  match first with
  | fullAttention base full => do return fullAttention base (← mergeFull base full.headSizeV specs)
  | sinkFullAttention base full sinkLen => do return sinkFullAttention base (← mergeFull base full.headSizeV specs) sinkLen
  | tqFullAttention base full tqSlotSize => do
    let merged ← mergeFull base full.headSizeV specs
    -- The comparison goes from left to right and raises at a spec that has no slot size.
    forM specs fun spec => match spec.tqSlotSize? with
      | none => throw .attributeError
      | some other => require (other = tqSlotSize)
          (.assertion "All TQ layers in the same KV cache group must use the same tq_slot_size.")
    return tqFullAttention base merged tqSlotSize
  | mlaAttention base _ mla => do
    let (full, mla) ← mergeMLA base mla specs
    return mlaAttention base full mla
  | hiddenState base _ mla => do
    let (full, mla) ← mergeMLA base mla specs
    return hiddenState base full mla
  | slidingWindowMLA base _ window mla => do
    require (specs.all isSlidingWindowMLA)
      (.assertion "All attention layers in the same KV cache group must be SlidingWindowMLASpec.")
    require (specs.all fun spec => sameMLA mla spec ∧ spec.slidingWindow? = some window)
      (.assertion "All attention layers in the same KV cache group must use the same quantization method, compress ratio, model version and sliding window size.")
    return slidingWindowMLA { base with kvQuantMode := .none } none window { mla with alignment := none }
  | first => do
    require (∀ spec ∈ specs, spec = first) (.assertion "All layers in the same KV cache group must be the same.")
    return first

end LayerSpec

/-- What the start-up code reads of `VllmConfig`; `autoFit` is `original_max_model_len == -1`. -/
structure VllmConfig where
  maxModelLen : Nat
  maxNumBatchedTokens : Nat
  autoFit : Bool := false
  maxNumEncoderInputTokens : Nat := 0
  mambaCacheMode : MambaCacheMode := .none
  numGpuBlocksOverride : Option Nat := none
  disableHybridKvCacheManager : Bool := false
deriving DecidableEq, Repr

namespace LayerSpec

/-- What the manager of `get_manager_for_kv_cache_spec` works with. The managers of cross attention and of sinks are not
part of the model, and an encoder-only layer has none. -/
def managed? : LayerSpec → Option KVCacheSpec
  | fullAttention base _ | tqFullAttention base _ _ | mlaAttention base _ _ | hiddenState base _ _ | quest base _ =>
    some { blockSize := base.blockSize, kind := .fullAttention }
  | chunkedLocalAttention base attentionChunkSize =>
    some { blockSize := base.blockSize, kind := .chunkedLocalAttention attentionChunkSize }
  | slidingWindow base _ window | slidingWindowMLA base _ window _ =>
    some { blockSize := base.blockSize, kind := .slidingWindow window }
  | mamba fields => some { blockSize := fields.blockSize, kind := .mamba fields.mambaCacheMode fields.numSpeculativeBlocks }
  | sinkFullAttention _ _ _ | encoderOnlyAttention _ | crossAttention _ => none

def maxBlocks (vllm : VllmConfig) : LayerSpec → Nat
  | fullAttention base _ | tqFullAttention base _ _ | mlaAttention base _ _ | hiddenState base _ _
  | sinkFullAttention base _ _ => cdiv vllm.maxModelLen base.blockSize
  | chunkedLocalAttention base attentionChunkSize =>
    (maxAdmissionBlocks { blockSize := base.blockSize, kind := .chunkedLocalAttention attentionChunkSize }
      vllm.maxNumBatchedTokens vllm.maxModelLen).getD 0
  | slidingWindow base _ window | slidingWindowMLA base _ window _ =>
    (maxAdmissionBlocks { blockSize := base.blockSize, kind := .slidingWindow window }
      vllm.maxNumBatchedTokens vllm.maxModelLen).getD 0
  | mamba fields => match vllm.mambaCacheMode with
    | .all => cdiv vllm.maxModelLen fields.blockSize + fields.numSpeculativeBlocks
    | .align => 2 + fields.numSpeculativeBlocks
    | .none => 1 + fields.numSpeculativeBlocks
  | quest _ gpuCacheBlocksPerSeq => gpuCacheBlocksPerSeq
  | encoderOnlyAttention _ => 0
  | crossAttention base => cdiv vllm.maxNumEncoderInputTokens base.blockSize

def maxMemoryUsageBytes (vllm : VllmConfig) (spec : LayerSpec) : Nat := spec.maxBlocks vllm * spec.pageSizeBytes

end LayerSpec

end KVOffload.Core
