import KVOffload.Core.BlockPool
import KVOffload.Lib.Purge

/-!
# The persistent batch

`InputBatch` of `vllm/v1/worker/gpu_input_batch.py`. The source keeps one array for each field, indexed by the row; here a row is
a record. An array keeps what its last writer left, also in rows that no request has.
-/

namespace KVOffload.Worker

open KVOffload.Core Function

structure SamplingParams where
  temperature : Rat
  topP : Rat
  topK : Int
  frequencyPenalty : Rat
  presencePenalty : Rat
  repetitionPenalty : Rat
  /-- `None` is read as the empty list, in this field and in the next. -/
  allowedTokenIds : List Token
  badWordsTokenIds : List (List Token)

inductive RequestParams where
  | sampling (params : SamplingParams)
  | pooling (requiresTokenIds : Bool)

def RequestParams.isPooling : RequestParams → Bool
  | .sampling _ => false
  | .pooling _ => true

structure CachedRequestState where
  reqId : RequestId
  promptTokenIds : Option (List Token)
  promptIsTokenIds : Option (List Bool) := none
  promptEmbeds : Option (List Embedding) := none
  params : RequestParams
  /-- The generator object, which is only compared. -/
  generator : Option Nat := none
  blockIds : List (List BlockId)
  numComputedTokens : Nat := 0
  outputTokenIds : List Token := []
  loraRequest : Option LoRARequest := none
  /-- What `length_from_prompt_token_ids_or_embeds` checks when the state is built. -/
  sameLength : ∀ ids embeds, promptTokenIds = some ids → promptEmbeds = some embeds → embeds.length = ids.length
  flagged : ∀ ids flags, promptTokenIds = some ids → promptIsTokenIds = some flags → flags.length = ids.length

namespace CachedRequestState

def numPromptTokens (r : CachedRequestState) : Nat :=
  match r.promptTokenIds with
  | some ids => ids.length
  | none => (r.promptEmbeds.getD []).length

def numTokens (r : CachedRequestState) : Nat := r.numPromptTokens + r.outputTokenIds.length

def promptFlags (r : CachedRequestState) : List Bool :=
  match r.promptTokenIds with
  | some ids => r.promptIsTokenIds.getD (List.replicate ids.length true)
  | none => List.replicate r.numPromptTokens false

def loraId (r : CachedRequestState) : Nat := (r.loraRequest.map LoRARequest.loraIntId).getD 0

end CachedRequestState

/-- `num_tokens_no_spec`, `num_prompt_tokens` and `num_computed_tokens_cpu` -/
structure TokenCounts where
  noSpec : Nat
  prompt : Nat
  computed : Nat

structure SamplingRow where
  temperature : Rat
  topP : Rat
  topK : Int
  frequencyPenalty : Rat
  presencePenalty : Rat
  repetitionPenalty : Rat
  numAcceptedTokens : Nat

/-- A row of `BlockTable`, with its entry of `num_blocks_per_row`. -/
structure TableRow where
  numBlocks : Nat
  blocks : Nat → BlockId

structure Row where
  outputTokenIds : Option (List Token)
  specTokenIds : List Token
  tokenIds : Nat → Token
  isTokenIds : Nat → Bool
  /-- The entry of the dict `req_prompt_embeds`. -/
  promptEmbeds : Option (List Embedding)
  counts : TokenCounts
  /-- One table for each KV cache group. -/
  blockTable : Nat → TableRow
  loraId : Nat
  sampling : SamplingRow
  /-- The entries of the dicts `generators` and `bad_words_token_ids`. -/
  generator : Option Nat
  badWords : Option (List (List Token))
  /-- `True` masks the token out. -/
  allowedMask : Token → Bool
  needsTokenIds : Bool

structure BatchConfig where
  isPoolingModel : Bool
  maxNumReqs : Nat
  vocabSize : Int
  blocksPerKvBlock : Nat → Nat

variable {α : Type}

def overlay (start : Nat) (values : List α) (array : Nat → α) : Nat → α :=
  fun p => if p < start then array p else (values[p - start]?).getD (array p)

def copyFirst (n : Nat) (source target : Nat → α) : Nat → α := fun p => if p < n then source p else target p

def mapToKernelBlocks (blocksPerKvBlock : Nat) (blocks : List BlockId) : List BlockId :=
  blocks.flatMap fun block => (List.range blocksPerKvBlock).map (block * blocksPerKvBlock + ·)

def TableRow.addRow (kernelBlocks : List BlockId) (old : TableRow) : TableRow :=
  ⟨kernelBlocks.length, overlay 0 kernelBlocks old.blocks⟩

def TableRow.clearRow (old : TableRow) : TableRow := ⟨0, copyFirst old.numBlocks (fun _ => 0) old.blocks⟩

def TableRow.moveRow (source target : TableRow) : TableRow :=
  ⟨source.numBlocks, copyFirst source.numBlocks source.blocks target.blocks⟩

variable (cfg : BatchConfig)

def SamplingParams.row (p : SamplingParams) : SamplingRow where
  temperature := if p.temperature < 1 / 100000 then 0 else p.temperature
  topP := p.topP
  topK := if 0 < p.topK ∧ p.topK < cfg.vocabSize then p.topK else cfg.vocabSize
  frequencyPenalty := p.frequencyPenalty
  presencePenalty := p.presencePenalty
  repetitionPenalty := p.repetitionPenalty
  numAcceptedTokens := 1

def CachedRequestState.counts (r : CachedRequestState) : TokenCounts := ⟨r.numTokens, r.numPromptTokens, r.numComputedTokens⟩

def CachedRequestState.kernelBlocks (r : CachedRequestState) (group : Nat) : List BlockId :=
  mapToKernelBlocks (cfg.blocksPerKvBlock group) (r.blockIds.getD group [])

def Row.fill (row : Row) (r : CachedRequestState) : Row :=
  { row with
    outputTokenIds := some r.outputTokenIds
    specTokenIds := []
    tokenIds := overlay r.numPromptTokens r.outputTokenIds (overlay 0 (r.promptTokenIds.getD []) row.tokenIds)
    isTokenIds := overlay r.numPromptTokens (List.replicate r.outputTokenIds.length true) (overlay 0 r.promptFlags row.isTokenIds)
    promptEmbeds := r.promptEmbeds.or row.promptEmbeds
    counts := r.counts
    blockTable := fun group => (row.blockTable group).addRow (r.kernelBlocks cfg group)
    loraId := r.loraId
    sampling := match r.params with
      | .sampling p => p.row cfg
      | .pooling _ => { row.sampling with numAcceptedTokens := 1 }
    generator := match r.params with
      | .sampling _ => r.generator.or row.generator
      | .pooling _ => row.generator
    allowedMask := match r.params with
      | .sampling p => if p.allowedTokenIds = [] then row.allowedMask else fun t => t ∉ p.allowedTokenIds
      | .pooling _ => row.allowedMask
    badWords := match r.params with
      | .sampling p => if p.badWordsTokenIds = [] then row.badWords else some p.badWordsTokenIds
      | .pooling _ => row.badWords
    needsTokenIds := match r.params with
      | .sampling _ => row.needsTokenIds
      | .pooling requiresTokenIds => requiresTokenIds }

def Row.vacate (row : Row) : Row :=
  let row := { row with
    outputTokenIds := none, specTokenIds := [], blockTable := fun group => (row.blockTable group).clearRow, loraId := 0 }
  if cfg.isPoolingModel then row
  else { row with generator := none, allowedMask := fun _ => false, badWords := none }

def Row.activeTokenCount (row : Row) : Nat := row.counts.noSpec + row.specTokenIds.length

/-- The row that `condense` moves a request to. -/
def Row.moved (source target : Row) : Row :=
  let row := { target with
    outputTokenIds := source.outputTokenIds
    specTokenIds := source.specTokenIds
    tokenIds := copyFirst source.activeTokenCount source.tokenIds target.tokenIds
    isTokenIds := copyFirst source.activeTokenCount source.isTokenIds target.isTokenIds
    promptEmbeds := source.promptEmbeds.or target.promptEmbeds
    counts := source.counts
    blockTable := fun group => (source.blockTable group).moveRow (target.blockTable group)
    loraId := source.loraId }
  if cfg.isPoolingModel then row
  else { row with
    sampling := source.sampling
    generator := source.generator.or target.generator
    allowedMask := source.allowedMask
    badWords := source.badWords.or target.badWords }

/-- The row that `condense` moves a request from: what is popped or cleared of it. -/
def Row.left (source : Row) : Row :=
  let row := { source with outputTokenIds := none, specTokenIds := [], promptEmbeds := none }
  if cfg.isPoolingModel then row else { row with generator := none, badWords := none }

/-- A row of a swap: it gets what the `other` row had, up to the `active` token count, and `mask`. -/
def Row.swapped (active : Nat) (mask : Token → Bool) (row other : Row) : Row :=
  let swapped := { row with
    outputTokenIds := other.outputTokenIds
    specTokenIds := other.specTokenIds
    tokenIds := copyFirst active other.tokenIds row.tokenIds
    isTokenIds := copyFirst active other.isTokenIds row.isTokenIds
    promptEmbeds := other.promptEmbeds
    counts := other.counts
    blockTable := other.blockTable
    loraId := other.loraId }
  if cfg.isPoolingModel then swapped
  else { swapped with sampling := other.sampling, generator := other.generator, badWords := other.badWords, allowedMask := mask }

structure Batch where
  reqIds : List (Option RequestId)
  reqIdToIndex : OrderedDict RequestId Nat
  rows : Nat → Row
  /-- `batch_update_builder._removed`. The source sorts it the other way round and pops from its end. -/
  removed : List Nat
  isRemovedSorted : Bool
  /-- The requests that were added and not removed since: a record of the calls, which no operation reads. -/
  requests : RequestId → Option CachedRequestState

inductive BatchError where
  | assertion
  | keyError
  | runtimeError
deriving DecidableEq

abbrev BatchM := EStateM BatchError Batch

def Row.zero : Row :=
  ⟨none, [], fun _ => 0, fun _ => false, none, ⟨0, 0, 0⟩, fun _ => ⟨0, fun _ => 0⟩, 0, ⟨0, 0, 0, 0, 0, 0, 1⟩, none, none,
    fun _ => false, false⟩

def Batch.init : Batch := ⟨[], .empty, fun _ => .zero, [], false, fun _ => none⟩

namespace Batch

def numReqs (b : Batch) : Nat := b.reqIdToIndex.keys.length

def ensureRemovedSorted (b : Batch) : Batch :=
  if b.isRemovedSorted then b else { b with removed := b.removed.insertionSort (· ≤ ·), isRemovedSorted := true }

def popRemoved (b : Batch) : Option Nat × Batch :=
  match b.ensureRemovedSorted.removed with
  | [] => (none, b)
  | row :: rest => (some row, { b.ensureRemovedSorted with removed := rest })

/-- The row that `_register_add_request` picks. -/
def newReqIndex (b : Batch) : Nat := b.popRemoved.1.getD b.numReqs

end Batch

def removeRequest (reqId : RequestId) : BatchM (Option Nat) := do
  modify fun b => { b with requests := update b.requests reqId none }
  let b ← get
  match b.reqIdToIndex.get? reqId with
  | none => return none
  | some row =>
    modify fun b => { b with reqIdToIndex := b.reqIdToIndex.erase reqId }
    ensure (b.isRemovedSorted = false) .runtimeError
    modify fun b => { b with
      removed := b.removed ++ [row]
      reqIds := b.reqIds.set row none
      rows := update b.rows row ((b.rows row).vacate cfg) }
    return some row

def addRequest (r : CachedRequestState) : BatchM Nat := do
  let b ← get
  let row := b.newReqIndex
  set b.popRemoved.2
  ensure (row < cfg.maxNumReqs) .assertion
  modify fun b => { b with
    reqIds := if row = b.reqIds.length then b.reqIds ++ [some r.reqId] else b.reqIds.set row (some r.reqId)
    reqIdToIndex := b.reqIdToIndex.insert r.reqId row
    rows := update b.rows row ((b.rows row).fill cfg r)
    requests := update b.requests r.reqId (some r) }
  return row

def updateReqSpecTokenIds (reqId : RequestId) (specTokenIds : List Token) : BatchM Unit := do
  let b ← get
  match b.reqIdToIndex.get? reqId with
  | none => throw .keyError
  | some index =>
    let row := b.rows index
    set { b with rows := update b.rows index { row with
      specTokenIds := specTokenIds
      tokenIds := overlay row.counts.noSpec specTokenIds row.tokenIds
      isTokenIds := overlay row.counts.noSpec (List.replicate specTokenIds.length true) row.isTokenIds } }

def swapStates (i1 i2 : Nat) : BatchM Unit := do
  let b ← get
  match b.reqIds[i1]?.join, b.reqIds[i2]?.join with
  | some old1, some old2 =>
    match b.reqIdToIndex.get? old1, b.reqIdToIndex.get? old2 with
    | some index1, some index2 =>
      let row1 := b.rows i1
      let row2 := b.rows i2
      let active := max row1.activeTokenCount row2.activeTokenCount
      -- the two rows of the mask tensor are assigned from views: the second assignment reads what the first wrote
      let rows := update b.rows i1 (row1.swapped cfg active row2.allowedMask row2)
      set { b with
        reqIds := (b.reqIds.set i1 (some old2)).set i2 (some old1)
        reqIdToIndex := (b.reqIdToIndex.insert old1 index2).insert old2 index1
        rows := update rows i2 (row2.swapped cfg active (rows i1).allowedMask row1) }
    | _, _ => throw .keyError
  | _, _ => throw .assertion

/-- The largest index up to the given one that is not a hole. -/
def lastFilled (holes : List Nat) : Nat → Nat
  | 0 => 0
  | last + 1 => if last + 1 ∈ holes then lastFilled holes last else last + 1

/-- The moves of `condense`, from a row to a hole: its loop chooses them without looking into the rows. -/
def condenseMoves : List Nat → Nat → List (Nat × Nat)
  | [], _ => []
  | hole :: holes, last =>
    let source := lastFilled (hole :: holes) last
    if source ≤ hole then [] else (source, hole) :: condenseMoves holes (source - 1)

def moveRequest (source target : Nat) : BatchM Unit := do
  let b ← get
  match b.reqIds[source]?.join with
  | none => throw .assertion
  | some reqId =>
    let rows := update b.rows target ((b.rows source).moved cfg (b.rows target))
    set { b with
      reqIds := (b.reqIds.set target (some reqId)).set source none
      reqIdToIndex := b.reqIdToIndex.insert reqId target
      rows := update rows source ((b.rows source).left cfg) }

def Batch.moves (b : Batch) : List (Nat × Nat) :=
  condenseMoves b.ensureRemovedSorted.removed (b.numReqs + b.removed.length - 1)

def condense : BatchM Unit := do
  let b ← get
  set b.ensureRemovedSorted
  if b.removed = [] then return
  if b.numReqs = 0 then
    modify fun b => { b with reqIds := [] }
    return
  forM b.moves fun move => moveRequest cfg move.1 move.2
  modify fun t => { t with reqIds := t.reqIds.take b.numReqs, removed := t.removed.drop b.moves.length }

/-- `refresh_metadata` hands the changes of the step on and forgets them. -/
def refreshMetadata : BatchM Unit := modify fun b => { b with removed := [], isRemovedSorted := false }

inductive Action where
  | remove (reqId : RequestId)
  | add (r : CachedRequestState)
  | draft (reqId : RequestId) (specTokenIds : List Token)
  | condense
  | swap (i1 i2 : Nat)
  | refresh

def Action.exec : Action → BatchM Unit
  | .remove reqId => discard (removeRequest cfg reqId)
  | .add r => discard (addRequest cfg r)
  | .draft reqId specTokenIds => updateReqSpecTokenIds reqId specTokenIds
  | .condense => Worker.condense cfg
  | .swap i1 i2 => swapStates cfg i1 i2
  | .refresh => refreshMetadata

structure BatchStep where
  removed : List RequestId := []
  drafts : List (RequestId × List Token) := []
  added : List (CachedRequestState × List Token) := []
  swaps : List (Nat × Nat) := []

def BatchStep.actions (step : BatchStep) : List Action :=
  step.removed.map .remove ++ (step.drafts.map (fun d => .draft d.1 d.2) ++
    step.added.flatMap fun a => [.add a.1, .draft a.1.reqId a.2]) ++ [.condense] ++
    step.swaps.map (fun s => .swap s.1 s.2) ++ [.refresh]

end KVOffload.Worker
