import Mathlib

/-!
# Requests

The request as the scheduler, the KV cache manager and the block hasher see it (`vllm/v1/request.py`).
The fields that only end up in statistics and outputs are not part of the model.
-/

namespace KVOffload.Core

/-- Token ids; the async scheduler uses `-1` for drafts that are not known yet. -/
abbrev Token := Int

abbrev RequestId := Nat

abbrev Bytes := List UInt8

/-- Ceiling division, `cdiv` of `vllm/utils/math_utils.py`. -/
def cdiv (a b : Nat) : Nat := (a + b - 1) / b

structure PlaceholderRange where
  offset : Nat
  length : Nat
deriving DecidableEq, Repr

structure MultiModalFeature where
  identifier : String
  mmPosition : PlaceholderRange
deriving DecidableEq, Repr

abbrev Embedding := Bytes

structure LoRARequest where
  loraName : String
  loraIntId : Nat
deriving DecidableEq, Repr

structure SamplingParams where
  maxTokens : Nat
deriving DecidableEq, Repr

inductive RequestStatus where
  | waiting
  | waitingForStructuredOutputGrammar
  | waitingForRemoteKvs
  | waitingForStreamingReq
  | running
  | preempted
  | finishedStopped
  | finishedLengthCapped
  | finishedAborted
  | finishedIgnored
  | finishedError
  | finishedRepetition
deriving DecidableEq, Repr

structure StreamingUpdate where
  mmFeatures : List MultiModalFeature := []
  promptTokenIds : Option (List Token)
  maxTokens : Nat
  arrivalTime : Nat := 0
  samplingParams : SamplingParams
deriving DecidableEq, Repr

/-- `isEmbed` has the masks of the placeholder ranges: which placeholders of a feature get an embedding, all of them without
a mask. -/
structure Request where
  requestId : RequestId
  priority : Int := 0
  arrivalTime : Nat := 0
  samplingParams : SamplingParams
  isPooling : Bool := false
  loraRequest : Option LoRARequest := none
  status : RequestStatus := .waiting
  maxTokens : Nat
  promptTokenIds : Option (List Token)
  promptEmbeds : Option (List Embedding) := none
  numPromptTokens : Nat
  outputTokenIds : List Token := []
  allTokenIds : List Token
  numOutputPlaceholders : Int := 0
  asyncTokensToDiscard : Int := 0
  specTokenIds : List Token := []
  numComputedTokens : Nat := 0
  cacheSalt : Option String := none
  mmFeatures : List MultiModalFeature := []
  isEmbed : List (Option (List Bool)) := []
  isPrefillChunk : Bool := false
  numPreemptions : Nat := 0
  blockHashes : List Bytes := []
  skipReadingPrefixCache : Bool := false
  resumable : Bool := false
  streamingQueue : Option (List (Option StreamingUpdate)) := none
deriving DecidableEq, Repr

namespace Request

def numTokens (request : Request) : Nat := request.allTokenIds.length

end Request

end KVOffload.Core
