import KVOffload.Core.CacheHit

/-!
# The KV cache manager

The managers of the groups (`single_type_kv_cache_manager.py`), the coordinator and `KVCacheManager` (`kv_cache_manager.py`). A
call runs in `CacheM`: what it changed before it raised stays changed.
-/

namespace KVOffload.Core

section

variable (spec : KVCacheSpec)

/-- `get_num_skipped_tokens`; Mamba's `-1` for no token acts as `0` wherever it is used. -/
def getNumSkippedTokens (numComputedTokens : Nat) : Nat :=
  match spec.kind with
  | .fullAttention => 0
  | .slidingWindow slidingWindow => numComputedTokens + 1 - slidingWindow
  | .chunkedLocalAttention attentionChunkSize => numComputedTokens / attentionChunkSize * attentionChunkSize
  | .mamba _ _ => numComputedTokens - 1

def numSkippedBlocks (numComputedTokens : Nat) : Nat := getNumSkippedTokens spec numComputedTokens / spec.blockSize

/-- `max_admission_blocks_per_request` of the spec. -/
def maxAdmissionBlocks (maxNumBatchedTokens maxModelLen : Nat) : Option Nat :=
  match spec.kind with
  | .slidingWindow slidingWindow =>
    some (cdiv (min (slidingWindow - 1 + maxNumBatchedTokens) maxModelLen) spec.blockSize + 1)
  | .chunkedLocalAttention attentionChunkSize =>
    some (cdiv (min (attentionChunkSize + maxNumBatchedTokens) maxModelLen) spec.blockSize)
  | _ => none

def cacheBlockMask (numCachedBlocks numFullBlocks alignmentTokens : Nat) : Option (List Bool) :=
  match spec.kind with
  | .slidingWindow slidingWindow =>
    let perSegment := alignmentTokens / spec.blockSize
    let tail := cdiv (slidingWindow - 1) spec.blockSize
    if tail ≥ perSegment then none
    else some ((List.range' numCachedBlocks (numFullBlocks - numCachedBlocks)).map fun i =>
      decide (i % perSegment ≥ perSegment - tail))
  | _ => none

end

/-- What a manager keeps of its group. The last three fields belong to the Mamba manager. -/
structure GroupState where
  reqToBlocks : OrderedDict RequestId (List BlockId) := .empty
  numCachedBlock : RequestId → Option Nat := fun _ => none
  cachedBlocksThisStep : List Bytes := []
  lastStateBlockIdx : RequestId → Option Nat := fun _ => none
  allocatedBlockReqs : RequestId → Bool := fun _ => false

def GroupState.blocks (group : GroupState) (request : RequestId) : List BlockId := (group.reqToBlocks.get? request).getD []

structure KVCacheManager where
  blockPool : BlockPool
  groups : Nat → GroupState

abbrev CacheM := EStateM CacheError KVCacheManager

namespace KVCacheManager

def onPool {α : Type} (x : PoolM α) : CacheM α := fun s =>
  match x s.blockPool with
  | .ok a pool => .ok a { s with blockPool := pool }
  | .error e pool => .error e { s with blockPool := pool }

def onGroup (g : Nat) (f : GroupState → GroupState) (s : KVCacheManager) : KVCacheManager :=
  { s with groups := Function.update s.groups g (f (s.groups g)) }

def setBlocks (g : Nat) (request : RequestId) (blocks : List BlockId) : KVCacheManager → KVCacheManager :=
  onGroup g fun group => { group with reqToBlocks := group.reqToBlocks.insert request blocks }

def setNumCached (g : Nat) (request : RequestId) (n : Option Nat) : KVCacheManager → KVCacheManager :=
  onGroup g fun group => { group with numCachedBlock := Function.update group.numCachedBlock request n }

def setLastState (g : Nat) (request : RequestId) (idx : Option Nat) : KVCacheManager → KVCacheManager :=
  onGroup g fun group => { group with lastStateBlockIdx := Function.update group.lastStateBlockIdx request idx }

def setAllocated (g : Nat) (request : RequestId) (allocated : Bool) : KVCacheManager → KVCacheManager :=
  onGroup g fun group => { group with allocatedBlockReqs := Function.update group.allocatedBlockReqs request allocated }

/-- `self.req_to_blocks[request_id]`, which enters `[]` for a request that is not in the dict. -/
def reqBlocks (g : Nat) (request : RequestId) : CacheM (List BlockId) := do
  let blocks := ((← get).groups g).blocks request
  modify (setBlocks g request blocks)
  return blocks

variable (cfg : CacheConfig)

/-! ### The managers of the groups -/

section

variable (g : Nat) (request : RequestId)

def getNumEvictableBlocks (pool : BlockPool) (blocks : List BlockId) : Nat :=
  (blocks.filter fun block => pool.refCnt block = 0 ∧ ¬ pool.isNull block).length

/-- `SingleTypeKVCacheManager.get_num_blocks_to_allocate` -/
def baseNumBlocksToAllocate (numTokens : Nat) (newComputedBlocks : List BlockId) (totalComputedTokens : Nat)
    (applyAdmissionCap : Bool) : CacheM Int := do
  let spec := cfg.spec g
  let s ← get
  let required := cdiv numTokens spec.blockSize
  let numRequiredBlocks := if applyAdmissionCap then
      ((maxAdmissionBlocks spec cfg.maxNumBatchedTokens cfg.maxModelLen).map (min required)).getD required
    else required
  let numReqBlocks := ((s.groups g).blocks request).length
  if ((s.groups g).numCachedBlock request).isSome then do
    ensure (newComputedBlocks.length = 0) .newComputedBlocks
    return ((numRequiredBlocks - numReqBlocks : Nat) : Int)
  else
    let numSkipped := numSkippedBlocks spec totalComputedTokens
    let numLocalComputedBlocks := newComputedBlocks.length + numReqBlocks
    let numNewBlocks := numRequiredBlocks - max numSkipped numLocalComputedBlocks
    let numEvictableBlocks := getNumEvictableBlocks s.blockPool (newComputedBlocks.drop (numSkipped - numReqBlocks))
    return ((numNewBlocks + numEvictableBlocks : Nat) : Int)

/-- `MambaManager.get_num_blocks_to_allocate` in align mode, behind the check of the hit. -/
def alignNumBlocksToAllocate (numSpeculativeBlocks : Nat) (newComputedBlocks : List BlockId) (numTokensMainModel : Nat) :
    CacheM Int := do
  let numRequiredBlocks := cdiv numTokensMainModel (cfg.spec g).blockSize + numSpeculativeBlocks
  let blocks ← reqBlocks g request
  let s ← get
  let numNewBlocks : Int := (numRequiredBlocks : Int) - newComputedBlocks.length - blocks.length
  let numNewBlocks : Int :=
    if numNewBlocks > 0 then if (s.groups g).allocatedBlockReqs request then 1 else 1 + numSpeculativeBlocks
    else numNewBlocks
  return numNewBlocks + getNumEvictableBlocks s.blockPool newComputedBlocks

def getNumBlocksToAllocate (numTokens : Nat) (newComputedBlocks : List BlockId) (totalComputedTokens numTokensMainModel : Nat)
    (applyAdmissionCap : Bool) : CacheM Int := do
  match (cfg.spec g).kind with
  | .mamba mode numSpeculativeBlocks =>
    let s ← get
    -- A hit on a state of this step is put off: no pool has that many blocks.
    if newComputedBlocks.getLast?.any fun block =>
        (s.blockPool.blockHash block).any ((s.groups g).cachedBlocksThisStep.contains ·) then
      return (cfg.pool.numGpuBlocks : Int) + 1
    else if mode ≠ .align then
      baseNumBlocksToAllocate cfg g request (numTokens + (cfg.spec g).blockSize * numSpeculativeBlocks) newComputedBlocks
        totalComputedTokens applyAdmissionCap
    else alignNumBlocksToAllocate cfg g request numSpeculativeBlocks newComputedBlocks numTokensMainModel
  | _ => baseNumBlocksToAllocate cfg g request numTokens newComputedBlocks totalComputedTokens applyAdmissionCap

def allocateExternalBlocks (numTotalComputedTokens : Nat) : CacheM Unit := do
  let blocks := ((← get).groups g).blocks request
  let allocated ← onPool (BlockPool.getNewBlocks cfg.pool
    ((cdiv numTotalComputedTokens (cfg.spec g).blockSize : Int) - blocks.length))
  modify (setBlocks g request (blocks ++ allocated))

def touchComputed (newComputedBlocks : List BlockId) : CacheM Unit :=
  if cfg.pool.enableCaching then onPool (BlockPool.touch newComputedBlocks)
  else ensure (newComputedBlocks = []) .computedWithoutCaching

def allocateNewComputedBlocks (newComputedBlocks : List BlockId) (numLocalComputedTokens numExternalComputedTokens : Nat) :
    CacheM Unit := do
  if (((← get).groups g).numCachedBlock request).isSome then
    ensure (newComputedBlocks.length = 0) .newComputedBlocks
  else do
    let held ← reqBlocks g request
    ensure (held.length = 0) .requestHasBlocks
    let numTotalComputedTokens := numLocalComputedTokens + numExternalComputedTokens
    let numSkippedTokens := getNumSkippedTokens (cfg.spec g) numTotalComputedTokens
    let numSkipped := numSkippedBlocks (cfg.spec g) numTotalComputedTokens
    let newComputedBlocks := newComputedBlocks.drop numSkipped
    let numExternalComputedTokens := if numSkipped > 0 then
        min (numTotalComputedTokens - numSkippedTokens) numExternalComputedTokens
      else numExternalComputedTokens
    touchComputed cfg newComputedBlocks
    let s ← get
    let blocks := List.replicate numSkipped s.blockPool.nullBlock ++ newComputedBlocks
    modify (setBlocks g request blocks)
    modify (setNumCached g request (some blocks.length))
    onlyIf (numExternalComputedTokens > 0) (allocateExternalBlocks cfg g request numTotalComputedTokens)

def baseAllocateNewBlocks (numTokens : Nat) : CacheM (List BlockId) := do
  let blocks ← reqBlocks g request
  let numNewBlocks := cdiv numTokens (cfg.spec g).blockSize - blocks.length
  if numNewBlocks = 0 then return []
  else do
    let newBlocks ← onPool (BlockPool.getNewBlocks cfg.pool numNewBlocks)
    modify (setBlocks g request (blocks ++ newBlocks))
    return newBlocks

/-- The loop that moves the speculative blocks of the last step behind the blocks that are skipped. -/
def reuseSpeculative (nullBlock : BlockId) (numSkipped : Nat) : List Nat → List BlockId → List BlockId
  | [], blocks => blocks
  | i :: rest, blocks =>
    if i < numSkipped then
      reuseSpeculative nullBlock numSkipped rest ((blocks ++ [blocks.getD i nullBlock]).set i nullBlock)
    else blocks

/-- `MambaManager.allocate_new_blocks` in align mode. -/
def alignAllocateNewBlocks (numSpeculativeBlocks numTokensMainModel : Nat) : CacheM (List BlockId) := do
  let blocks ← reqBlocks g request
  let numRequiredBlocks := cdiv numTokensMainModel (cfg.spec g).blockSize + numSpeculativeBlocks
  if numRequiredBlocks = blocks.length then return []
  else do
    ensure (numRequiredBlocks > blocks.length) (.requiredBelowHeld numRequiredBlocks blocks.length)
    let prevBlockLen := blocks.length
    let s ← get
    let blocksAllocated := (s.groups g).allocatedBlockReqs request
    -- The running state is in the last block before the speculative ones; after a hit it is in the last block.
    onlyIf (blocksAllocated ∨ prevBlockLen > 0) (modify (setLastState g request
      (some (if blocksAllocated then prevBlockLen - 1 - numSpeculativeBlocks else prevBlockLen - 1))))
    let numSkipped := numRequiredBlocks - numSpeculativeBlocks - 1
    let nullBlock := s.blockPool.nullBlock
    let padded := blocks ++ List.replicate (numSkipped - prevBlockLen) nullBlock
    let blocks := if blocksAllocated then
        reuseSpeculative nullBlock numSkipped (List.range' (prevBlockLen - numSpeculativeBlocks) numSpeculativeBlocks) padded
      else padded
    modify (setBlocks g request blocks)
    let numNewBlocks : Int := (numRequiredBlocks : Int) - blocks.length
    ensure (numNewBlocks ≤ if blocksAllocated then (1 : Int) else (numSpeculativeBlocks : Int) + 1)
      (.tooManyNewBlocks numNewBlocks)
    let newBlocks ← onPool (BlockPool.getNewBlocks cfg.pool numNewBlocks)
    modify (setBlocks g request (blocks ++ newBlocks))
    modify (setAllocated g request true)
    return (blocks ++ newBlocks).drop prevBlockLen

def allocateNewBlocks (numTokens numTokensMainModel : Nat) : CacheM (List BlockId) :=
  match (cfg.spec g).kind with
  | .mamba mode numSpeculativeBlocks =>
    if mode ≠ .align then baseAllocateNewBlocks cfg g request (numTokens + (cfg.spec g).blockSize * numSpeculativeBlocks)
    else alignAllocateNewBlocks cfg g request numSpeculativeBlocks numTokensMainModel
  | _ => baseAllocateNewBlocks cfg g request numTokens

/-- What `MambaManager.cache_blocks` does after the base method: the hashes of this step are remembered. -/
def rememberCached (blocks : List BlockId) : CacheM Unit :=
  forM blocks fun block => do
    let s ← get
    onlyIf (¬ s.blockPool.isNull block) (match s.blockPool.blockHash block with
      | none => throw (.notHashed block)
      | some hash => modify (onGroup g fun group =>
          { group with cachedBlocksThisStep := hash :: group.cachedBlocksThisStep.filter (· ≠ hash) }))

def managerCacheBlocks (request : Request) (numTokens : Nat) (alignmentTokens : Option Nat) : CacheM Unit := do
  let spec := cfg.spec g
  let numCachedBlocks := (((← get).groups g).numCachedBlock request.requestId).getD 0
  let numFullBlocks := numTokens / spec.blockSize
  if numCachedBlocks ≥ numFullBlocks then return
  else do
    let blockMask := match alignmentTokens with
      | none => none
      | some alignment => if alignment ≤ spec.blockSize then none
          else cacheBlockMask spec numCachedBlocks numFullBlocks alignment
    let blocks ← reqBlocks g request.requestId
    onPool (BlockPool.cacheFullBlocks cfg.pool request blocks numCachedBlocks numFullBlocks spec.blockSize g blockMask)
    modify (setNumCached g request.requestId (some numFullBlocks))
    match spec.kind with
    | .mamba _ _ => rememberCached g (slice blocks numCachedBlocks numFullBlocks)
    | _ => return

def managerFree : CacheM Unit := do
  modify (setAllocated g request false)
  modify (setLastState g request none)
  let blocks := ((← get).groups g).blocks request
  modify (onGroup g fun group => { group with reqToBlocks := group.reqToBlocks.erase request })
  onPool (BlockPool.freeBlocks blocks.reverse)
  modify (setNumCached g request none)

/-- The blocks that the loop of `remove_skipped_blocks` takes out, from right to left up to a null block. -/
def removedBlocks (nullBlock : BlockId) (blocks : List BlockId) (numSkipped : Nat) : List BlockId :=
  (blocks.take numSkipped).reverse.takeWhile (· ≠ nullBlock)

def withoutRemoved (nullBlock : BlockId) (blocks : List BlockId) (numSkipped : Nat) : List BlockId :=
  let n := (removedBlocks nullBlock blocks numSkipped).length
  blocks.take (min numSkipped blocks.length - n) ++ List.replicate n nullBlock ++ blocks.drop numSkipped

def baseRemoveSkippedBlocks (totalComputedTokens : Nat) : CacheM Unit := do
  let spec := cfg.spec g
  if getNumSkippedTokens spec totalComputedTokens = 0 then return
  else do
    let blocks ← reqBlocks g request
    let nullBlock := (← get).blockPool.nullBlock
    let numSkipped := numSkippedBlocks spec totalComputedTokens
    modify (setBlocks g request (withoutRemoved nullBlock blocks numSkipped))
    onPool (BlockPool.freeBlocks (removedBlocks nullBlock blocks numSkipped))

/-- The part of `MambaManager.remove_skipped_blocks` for align mode. -/
def freeLastState (numComputedTokens : Nat) : CacheM Unit := do
  match ((← get).groups g).lastStateBlockIdx request with
  | none => return
  | some lastStateBlockIdx =>
    onlyIf (lastStateBlockIdx < cdiv numComputedTokens (cfg.spec g).blockSize - 1) (do
      let blocks ← reqBlocks g request
      let nullBlock := (← get).blockPool.nullBlock
      match blocks[lastStateBlockIdx]? with
      | none => throw (.noBlockAt lastStateBlockIdx)
      | some block => onlyIf (block ≠ nullBlock) (do
          onPool (BlockPool.freeBlocks [block])
          modify (setBlocks g request (blocks.set lastStateBlockIdx nullBlock))))

/-- `remove_skipped_blocks` of the group's manager. -/
def managerRemoveSkippedBlocks (totalComputedTokens : Nat) : CacheM Unit := do
  match (cfg.spec g).kind with
  | .mamba mode numSpeculativeBlocks =>
    let numComputedTokens := totalComputedTokens - numSpeculativeBlocks
    baseRemoveSkippedBlocks cfg g request numComputedTokens
    onlyIf (mode = .align) (freeLastState cfg g request numComputedTokens)
  | _ => baseRemoveSkippedBlocks cfg g request totalComputedTokens

end

/-! ### The coordinator -/

def groupIds : List Nat := List.range cfg.numGroups

/-- `KVCacheCoordinator.get_num_blocks_to_allocate` -/
def totalBlocksToAllocate (request : RequestId) (numTokens : Nat) (newComputedBlocks : KVCacheBlocks)
    (totalComputedTokens numTokensMainModel : Nat) (applyAdmissionCap : Bool) : CacheM Int := do
  let counts ← (groupIds cfg).mapM fun g =>
    getNumBlocksToAllocate cfg g request numTokens (newComputedBlocks g) totalComputedTokens numTokensMainModel applyAdmissionCap
  return counts.sum

/-- `cache_blocks` of the coordinator; that of hybrid models works in whole segments. -/
def coordinatorCacheBlocks (request : Request) (numComputedTokens : Nat) : CacheM Unit :=
  if cfg.numGroups = 1 then
    forM (groupIds cfg) fun g => managerCacheBlocks cfg g request numComputedTokens none
  else
    let numComputedTokens := numComputedTokens / lcmBlockSize cfg * lcmBlockSize cfg
    forM (groupIds cfg) fun g => managerCacheBlocks cfg g request numComputedTokens (some (lcmBlockSize cfg))

/-! ### `KVCacheManager` -/

/-- `get_computed_blocks`; `none` is a failed assertion of a lookup. -/
def getComputedBlocks (s : KVCacheManager) (request : Request) : Option (KVCacheBlocks × Nat) :=
  if ¬ cfg.pool.enableCaching ∨ request.skipReadingPrefixCache then some (fun _ => [], 0)
  else coordinatorHit cfg s.blockPool request.blockHashes (request.numTokens - 1)

def hasBlocks (blocks : KVCacheBlocks) : Bool := (groupIds cfg).any fun g => blocks g ≠ []

def removeSkippedBlocks (request : RequestId) (totalComputedTokens : Nat) : CacheM Unit :=
  forM (groupIds cfg) fun g => managerRemoveSkippedBlocks cfg g request totalComputedTokens

structure SlotArgs where
  numNewTokens : Nat
  numNewComputedTokens : Nat := 0
  newComputedBlocks : KVCacheBlocks := fun _ => []
  numLookaheadTokens : Nat := 0
  numExternalComputedTokens : Nat := 0
  delayCacheBlocks : Bool := false
  fullSequenceMustFit : Bool := false

section

variable (request : Request) (args : SlotArgs)

def SlotArgs.numLocalComputedTokens : Nat := request.numComputedTokens + args.numNewComputedTokens

def SlotArgs.allComputedTokens : Nat := args.numLocalComputedTokens request + args.numExternalComputedTokens

def SlotArgs.totalComputedTokens : Nat := min (args.allComputedTokens request) cfg.maxModelLen

def SlotArgs.numTokensMainModel : Nat := args.totalComputedTokens cfg request + args.numNewTokens

def SlotArgs.numTokensNeedSlot : Nat := min (args.numTokensMainModel cfg request + args.numLookaheadTokens) cfg.maxModelLen

def fullSequenceFits : CacheM Bool := do
  if ¬ args.fullSequenceMustFit then return true
  else do
    let fullNumTokens := min request.numTokens cfg.maxModelLen
    let numBlocksToAllocate ← totalBlocksToAllocate cfg request.requestId fullNumTokens args.newComputedBlocks
      (args.totalComputedTokens cfg request) fullNumTokens true
    return decide (numBlocksToAllocate ≤ (← get).blockPool.getNumFreeBlocks)

/-- The stages of `allocate_slots` behind the free-block check: the computed blocks and the new ones. -/
def takeSlots : CacheM (List (List BlockId)) := do
  onlyIf (hasBlocks cfg args.newComputedBlocks ∨ args.numExternalComputedTokens > 0) (forM (groupIds cfg) fun g =>
    allocateNewComputedBlocks cfg g request.requestId (args.newComputedBlocks g) (args.numLocalComputedTokens request)
      args.numExternalComputedTokens)
  (groupIds cfg).mapM fun g =>
    allocateNewBlocks cfg g request.requestId (args.numTokensNeedSlot cfg request) (args.numTokensMainModel cfg request)

def cacheSlots : CacheM Unit :=
  onlyIf (cfg.pool.enableCaching ∧ ¬ args.delayCacheBlocks) (coordinatorCacheBlocks cfg request
    (min (args.totalComputedTokens cfg request + args.numNewTokens) request.numTokens))

def slotsNeeded : CacheM Int :=
  totalBlocksToAllocate cfg request.requestId (args.numTokensNeedSlot cfg request) args.newComputedBlocks
    (args.allComputedTokens request) (args.numTokensMainModel cfg request) false

/-- `allocate_slots`: the new blocks by group, or `none` if the free blocks do not suffice. -/
def allocateSlots : CacheM (Option (List (List BlockId))) := do
  ensure (¬ (args.numNewTokens = 0 ∧ args.numExternalComputedTokens = 0)) .noNewTokens
  let fits ← fullSequenceFits cfg request args
  if ¬ fits then return none
  else do
    removeSkippedBlocks cfg request.requestId (args.totalComputedTokens cfg request)
    let numBlocksToAllocate ← slotsNeeded cfg request args
    if numBlocksToAllocate > (← get).blockPool.getNumFreeBlocks then return none
    else do
      let newBlocks ← takeSlots cfg request args
      cacheSlots cfg request args
      return some newBlocks

end

def free (request : RequestId) : CacheM Unit := forM (groupIds cfg) fun g => managerFree g request

def cacheBlocks (request : Request) (numComputedTokens : Nat) : CacheM Unit :=
  onlyIf cfg.pool.enableCaching (coordinatorCacheBlocks cfg request numComputedTokens)

def evictBlocks (blockIds : List BlockId) : CacheM Unit := onPool (BlockPool.evictBlocks cfg.pool blockIds)

def resetPrefixCache : CacheM Bool := onPool (BlockPool.resetPrefixCache cfg.pool)

def newStepStarts : CacheM Unit :=
  forM (groupIds cfg) fun g => modify (onGroup g fun group => { group with cachedBlocksThisStep := [] })

def init : Except CacheError KVCacheManager :=
  match BlockPool.init cfg.pool with
  | .ok pool => .ok ⟨pool, fun _ => {}⟩
  | .error e => .error e

end KVCacheManager

end KVOffload.Core
