import KVOffload.Core.CacheManager
import KVOffload.Offload.CPUManager

/-!
# The scheduler side of the offloading connector

`OffloadingConnectorScheduler` (`vllm/distributed/kv_transfer/kv_connector/v1/offloading/scheduler.py`): configuration, request
state, the search for offloaded blocks and the plan of a load.
-/

namespace KVOffload.Offload

open KVOffload.Core

structure OffloadKey where
  blockHash : Bytes
  groupIdx : Nat
deriving DecidableEq, Repr

inductive ConnectorError where
  | unsupportedSpec (groupIdx : Nat)
  | tooFewOffloadKeys (groupIdx : Nat)
  | searchTooLong
  | tooFewGroupBlocks (groupIdx : Nat)
  | notLocallyComputed (groupIdx : Nat)
  | tooManyPendingBlocks (groupIdx : Nat)
  | unknownRequest (request : RequestId)
  | unknownJob (jobId : Nat)
  | notAStore (jobId : Nat)
  | jobsPending (request : RequestId)
  | wrongNumberOfGroups
  | missingBlockIds (groupIdx : Nat)
  | skippedAfterStored (groupIdx : Nat)
  | notPending (block : BlockId) (jobId : Nat)
  | badCount (jobId : Nat)
  | inTheMiddleOfAStep
  | manager (error : OffloadError OffloadKey)
deriving DecidableEq, Repr

structure GroupOffloadConfig where
  groupIdx : Nat
  gpuBlockSize : Nat
  offloadedBlockSize : Nat
  hashBlockSizeFactor : Nat
  /-- `none` is full attention. -/
  slidingWindowSizeInBlocks : Option Nat
  /-- Offloaded blocks of the group per full-attention segment, if only the last ones are worth storing. -/
  alignmentBlockCount : Option Nat := none
deriving DecidableEq, Repr

structure SchedulerOffloadConfig where
  kvGroupConfigs : List GroupOffloadConfig
  blockSizeFactor : Nat
  numWorkers : Nat
deriving DecidableEq, Repr

def offloadable (spec : KVCacheSpec) : Bool :=
  match spec.kind with
  | .slidingWindow slidingWindow => slidingWindow > 0
  | .chunkedLocalAttention _ => false
  | _ => true

def getSlidingWindowSizeInBlocks (spec : KVCacheSpec) (offloadedBlockSize : Nat) : Option Nat :=
  match spec.kind with
  | .slidingWindow slidingWindow => some (cdiv slidingWindow offloadedBlockSize)
  | .mamba _ _ => some 1
  | _ => none

namespace SchedulerOffloadConfig

variable (cfg : CacheConfig) (blockSizeFactor numWorkers : Nat)

def offloadedBlockSize (g : Nat) : Nat := (cfg.spec g).blockSize * blockSizeFactor

def windowBlocks (g : Nat) : Option Nat :=
  getSlidingWindowSizeInBlocks (cfg.spec g) (offloadedBlockSize cfg blockSizeFactor g)

/-- The block size of the full-attention groups, if they agree in it. -/
def alignmentTokens : Option Nat :=
  let sizes := (((List.range cfg.numGroups).filter fun g => (windowBlocks cfg blockSizeFactor g).isNone).map
    (offloadedBlockSize cfg blockSizeFactor)).dedup
  match sizes with
  | [size] => some size
  | _ => none

def alignmentBlockCount (g : Nat) : Option Nat :=
  match alignmentTokens cfg blockSizeFactor, windowBlocks cfg blockSizeFactor g with
  | some alignmentTokens, some slidingWindowSizeInBlocks =>
    if alignmentTokens ≤ offloadedBlockSize cfg blockSizeFactor g then none
    else
      let perSegment := alignmentTokens / offloadedBlockSize cfg blockSizeFactor g
      if slidingWindowSizeInBlocks ≥ perSegment then none else some perSegment
  | _, _ => none

def groupConfig (g : Nat) : GroupOffloadConfig where
  groupIdx := g
  gpuBlockSize := (cfg.spec g).blockSize
  offloadedBlockSize := offloadedBlockSize cfg blockSizeFactor g
  hashBlockSizeFactor := offloadedBlockSize cfg blockSizeFactor g / cfg.pool.hashBlockSize
  slidingWindowSizeInBlocks := windowBlocks cfg blockSizeFactor g
  alignmentBlockCount := alignmentBlockCount cfg blockSizeFactor g

def fromSpec : Except ConnectorError SchedulerOffloadConfig :=
  match (List.range cfg.numGroups).find? fun g => ¬ offloadable (cfg.spec g) with
  | some g => .error (.unsupportedSpec g)
  | none => .ok ⟨(List.range cfg.numGroups).map (groupConfig cfg blockSizeFactor), blockSizeFactor, numWorkers⟩

end SchedulerOffloadConfig

structure RequestGroupState where
  offloadKeys : List OffloadKey := []
  blockIds : List BlockId := []
  nextStoredBlockIdx : Nat := 0
  numHitBlocks : Nat := 0
deriving DecidableEq, Repr

/-- The request itself is the one of the scheduler, which changes it. -/
structure RequestOffloadState where
  groupStates : List RequestGroupState
  doRemoteDecode : Bool := false
  numLocallyComputedTokens : Nat := 0
  transferJobs : List Nat := []
deriving DecidableEq, Repr

def islice {α : Type} (items : List α) (start step : Nat) : List α :=
  (List.range (cdiv (items.length - start) step)).filterMap fun i => items[start + i * step]?

namespace RequestOffloadState

variable (config : SchedulerOffloadConfig)

def new (doRemoteDecode : Bool) : RequestOffloadState where
  groupStates := config.kvGroupConfigs.map fun _ => {}
  doRemoteDecode

def mapGroups (f : GroupOffloadConfig → RequestGroupState → RequestGroupState) (status : RequestOffloadState) :
    RequestOffloadState := { status with groupStates := List.zipWith f config.kvGroupConfigs status.groupStates }

def newOffloadKeys (blockHashes : List Bytes) (group : GroupOffloadConfig) (numKeys : Nat) : List OffloadKey :=
  let hashes := islice blockHashes (group.hashBlockSizeFactor * numKeys + group.hashBlockSizeFactor - 1) group.hashBlockSizeFactor
  hashes.map (OffloadKey.mk · group.groupIdx)

def addOffloadKeys (blockHashes : List Bytes) (group : GroupOffloadConfig) (state : RequestGroupState) : RequestGroupState :=
  { state with offloadKeys := state.offloadKeys ++ newOffloadKeys blockHashes group state.offloadKeys.length }

def updateOffloadKeys (request : Request) : RequestOffloadState → RequestOffloadState :=
  mapGroups config (addOffloadKeys request.blockHashes)

end RequestOffloadState

section

variable {σ : Type} (ask : OffloadKey → EStateM ConnectorError σ (Option Bool))

def unlessDeferred (deferLookup : Bool) (n : Nat) : Option Nat := if deferLookup then none else some n

def maximalPrefixLookup (hitCount : Nat) (deferLookup : Bool) : List OffloadKey → EStateM ConnectorError σ (Option Nat)
  | [] => return unlessDeferred deferLookup hitCount
  | key :: rest => do
    match ← ask key with
    -- The search goes on, so that the manager can start on the blocks behind.
    | none => maximalPrefixLookup (hitCount + 1) true rest
    | some true => maximalPrefixLookup (hitCount + 1) deferLookup rest
    | some false => return unlessDeferred deferLookup hitCount

def slidingWindowLookup (slidingWindowSize consecutiveHits : Nat) (deferLookup : Bool) :
    List OffloadKey → EStateM ConnectorError σ (Option Nat)
  | [] => return unlessDeferred deferLookup consecutiveHits
  | key :: rest => do
    match ← ask key with
    | none => slidingWindowLookup slidingWindowSize 0 true rest
    | some false => slidingWindowLookup slidingWindowSize 0 deferLookup rest
    | some true =>
      if consecutiveHits + 1 = slidingWindowSize then return unlessDeferred deferLookup (rest.length + slidingWindowSize)
      else slidingWindowLookup slidingWindowSize (consecutiveHits + 1) deferLookup rest

structure LookupState where
  maxHitSizeTokens : Nat
  numHitTokens : Nat := 0
  deferLookup : Bool := false
  lookedUpSlidingWindow : Bool := false
  lookupGroups : List GroupOffloadConfig := []

def keysBetween (keys : List OffloadKey) (startBlockIdx numBlocks : Nat) : List OffloadKey :=
  (keys.take numBlocks).drop startBlockIdx

variable (slidingWindowGroups lookupGroups : List GroupOffloadConfig)

def LookupState.narrow (st : LookupState) (isWindow : Bool) (newNumHitTokens : Nat) : LookupState :=
  let shrunk := newNumHitTokens < st.numHitTokens
  { st with
    numHitTokens := newNumHitTokens
    deferLookup := st.deferLookup ∧ ¬ shrunk
    lookupGroups :=
      if shrunk ∧ st.deferLookup then lookupGroups
      else if shrunk ∧ st.lookedUpSlidingWindow ∧ st.lookupGroups = [] then slidingWindowGroups
      else st.lookupGroups
    lookedUpSlidingWindow := st.lookedUpSlidingWindow ∨ isWindow }

def findHits (keys : List OffloadKey) : Option Nat → EStateM ConnectorError σ (Option Nat)
  | none => maximalPrefixLookup ask 0 false keys
  | some slidingWindowSize => slidingWindowLookup ask slidingWindowSize 0 false keys.reverse

variable (numTokens numComputedTokens : Nat) (keysOf : Nat → List OffloadKey)

def lookupGroup (group : GroupOffloadConfig) (st : LookupState) : EStateM ConnectorError σ (Option LookupState) := do
  let offloadKeys := keysOf group.groupIdx
  ensure (offloadKeys.length ≥ numTokens / group.offloadedBlockSize) (.tooFewOffloadKeys group.groupIdx)
  let maxHit := min st.maxHitSizeTokens (offloadKeys.length * group.offloadedBlockSize)
  if maxHit < numComputedTokens + group.offloadedBlockSize then return none
  else do
    let numBlocks := min (cdiv maxHit group.offloadedBlockSize) offloadKeys.length
    let startBlockIdx := numComputedTokens / group.offloadedBlockSize
    let numHitBlocks ← findHits ask (keysBetween offloadKeys startBlockIdx numBlocks) group.slidingWindowSizeInBlocks
    if numHitBlocks = some 0 then return none
    else
      let st := { st with
        deferLookup := st.deferLookup ∨ numHitBlocks = none
        maxHitSizeTokens := match numHitBlocks with
          | none => maxHit
          | some numHitBlocks => min maxHit (group.offloadedBlockSize * (startBlockIdx + numHitBlocks)) }
      if st.maxHitSizeTokens < numComputedTokens + group.offloadedBlockSize then return none
      else return some (st.narrow slidingWindowGroups lookupGroups group.slidingWindowSizeInBlocks.isSome
        (st.maxHitSizeTokens - numComputedTokens))

def lookupPass : List GroupOffloadConfig → LookupState → EStateM ConnectorError σ (Option LookupState)
  | [], st => return some st
  | group :: rest, st => do
    match ← lookupGroup ask slidingWindowGroups lookupGroups numTokens numComputedTokens keysOf group st with
    | none => return none
    | some st => lookupPass rest st

/-- The loop over the passes. Every pass but the last shrinks the bound. -/
def lookupLoop : Nat → LookupState → EStateM ConnectorError σ (Option LookupState)
  | 0, _ => throw .searchTooLong
  | fuel + 1, st =>
    if st.lookupGroups = [] then return some st
    else do
      let pass ← lookupPass ask slidingWindowGroups lookupGroups numTokens numComputedTokens keysOf st.lookupGroups
        { st with lookedUpSlidingWindow := false, lookupGroups := [] }
      match pass with
      | none => return none
      | some st => lookupLoop fuel st

end

namespace SchedulerOffloadConfig

variable (config : SchedulerOffloadConfig)

def fullAttentionGroups : List GroupOffloadConfig := config.kvGroupConfigs.filter (·.slidingWindowSizeInBlocks.isNone)

def slidingWindowGroups : List GroupOffloadConfig :=
  (config.kvGroupConfigs.filter (·.slidingWindowSizeInBlocks.isSome)).mergeSort fun a b =>
    (b.slidingWindowSizeInBlocks.getD 0) ≤ (a.slidingWindowSizeInBlocks.getD 0)

def allLookupGroups : List GroupOffloadConfig := config.fullAttentionGroups ++ config.slidingWindowGroups

variable {σ : Type} (ask : OffloadKey → EStateM ConnectorError σ (Option Bool)) (request : Request)
  (status : RequestOffloadState)

def keysOf (g : Nat) : List OffloadKey := (status.groupStates[g]?.map (·.offloadKeys)).getD []

def hitKeys (numHitTokens : Nat) (group : GroupOffloadConfig) : List OffloadKey :=
  let keys := keysBetween (keysOf status group.groupIdx) (status.numLocallyComputedTokens / group.offloadedBlockSize)
    (cdiv (status.numLocallyComputedTokens + numHitTokens) group.offloadedBlockSize)
  match group.slidingWindowSizeInBlocks with
  | none => keys
  | some slidingWindowSizeInBlocks => keys.drop (keys.length - slidingWindowSizeInBlocks)

def lookup (blocksBeingLoaded : Option (List OffloadKey)) : EStateM ConnectorError σ (Option Nat) := do
  -- With sliding windows the last token is recomputed for its logits.
  let maxHitSizeTokens := if config.slidingWindowGroups = [] then request.numTokens else request.numTokens - 1
  let found ← lookupLoop ask config.slidingWindowGroups config.allLookupGroups request.numTokens
    status.numLocallyComputedTokens (keysOf status) (maxHitSizeTokens + 2)
    { maxHitSizeTokens, lookupGroups := config.allLookupGroups }
  match found with
  | none => return some 0
  | some st =>
    if st.deferLookup then return none
    else if config.kvGroupConfigs.any fun group =>
        (hitKeys status st.numHitTokens group).any fun key => key ∈ blocksBeingLoaded.getD [] then return none
    else return some st.numHitTokens

end SchedulerOffloadConfig

structure GroupLoad where
  keysToLoad : List OffloadKey
  dstBlockIds : List BlockId
  blockIndex : Nat
deriving DecidableEq, Repr

section

variable (pool : BlockPool)

def numLocallyComputedGpuBlocks (blocks : List BlockId) : Nat :=
  (blocks.takeWhile fun block => pool.isNull block ∨ (pool.blockHash block).isSome).length

variable {σ : Type}

def planGroupLoad (blockSizeFactor numLocallyComputedTokens numCachedTokens : Nat) (group : GroupOffloadConfig)
    (offloadKeys : List OffloadKey) (groupBlocks : List BlockId) : EStateM ConnectorError σ GroupLoad := do
  let numGpuBlocks := cdiv numCachedTokens group.gpuBlockSize
  ensure (groupBlocks.length ≥ numGpuBlocks) (.tooFewGroupBlocks group.groupIdx)
  let numLocal := numLocallyComputedGpuBlocks pool (groupBlocks.take numGpuBlocks)
  ensure (numLocallyComputedTokens ≤ numLocal * group.gpuBlockSize) (.notLocallyComputed group.groupIdx)
  let numPendingGpuBlocks := numGpuBlocks - numLocal
  ensure (∀ window ∈ group.slidingWindowSizeInBlocks, numPendingGpuBlocks ≤ window * blockSizeFactor)
    (.tooManyPendingBlocks group.groupIdx)
  let numBlocks := cdiv numCachedTokens group.offloadedBlockSize
  ensure (offloadKeys.length ≥ numBlocks) (.tooFewOffloadKeys group.groupIdx)
  return {
    keysToLoad := if numPendingGpuBlocks = 0 then [] else keysBetween offloadKeys (numLocal / blockSizeFactor) numBlocks
    dstBlockIds := (groupBlocks.take numGpuBlocks).drop numLocal
    blockIndex := numLocal }

/-- The loads of all groups; no other job of the request may be pending. -/
def planLoad (config : SchedulerOffloadConfig) (request : RequestId) (status : RequestOffloadState) (numExternalTokens : Nat)
    (blocks : Nat → List BlockId) : EStateM ConnectorError σ (List GroupLoad) := do
  let loads ← config.kvGroupConfigs.mapM fun group =>
    planGroupLoad pool config.blockSizeFactor status.numLocallyComputedTokens
      (status.numLocallyComputedTokens + numExternalTokens) group (SchedulerOffloadConfig.keysOf status group.groupIdx)
      (blocks group.groupIdx)
  ensure (status.transferJobs = []) (.jobsPending request)
  return loads

end

end KVOffload.Offload
