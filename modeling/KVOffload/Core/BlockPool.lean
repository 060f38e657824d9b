import KVOffload.Lib.LinkedQueue
import KVOffload.Lib.OrderedDict
import KVOffload.Core.BlockHash

/-!
# The block pool

`BlockPool` of `vllm/v1/core/block_pool.py`. Blocks are named by their ids. A call runs in `PoolM`: what it changed before it
raised stays changed.
-/

namespace KVOffload.Core

abbrev BlockId := Nat

inductive CacheError where
  | queue (error : QueueError)
  /-- `ValueError`: "Cannot get .. free blocks from the pool". -/
  | cannotGetFreeBlocks (numBlocks : Int)
  /-- `assert block.ref_cnt == 0` of `get_new_blocks`. -/
  | refCntNotZero (block : BlockId)
  /-- `assert blk.block_hash is None` of `cache_full_blocks`. -/
  | alreadyHashed (block : BlockId)
  /-- `assert len(request.block_hashes) >= num_full_blocks`. -/
  | tooFewHashes
  /-- `IndexError` of `new_block_hashes[i]`. -/
  | noHashAt (i : Nat)
  /-- `IndexError` of `blocks[i]`. -/
  | noBlockAt (i : Nat)
  /-- `assert block_mask is None or len(block_mask) == len(new_full_blocks)`. -/
  | maskLength
  /-- `assert block_size % self.hash_block_size == 0`. -/
  | notAMultiple (blockSize : Nat)
  /-- "Invalid block_id .. This indicates a bug in the KV connector". -/
  | invalidBlockId (block : BlockId)
  /-- `assert len(new_computed_blocks) == 0` for a request with cached blocks. -/
  | newComputedBlocks
  /-- `assert len(req_blocks) == 0` for a new request. -/
  | requestHasBlocks
  /-- "Computed blocks should be empty when prefix caching is disabled". -/
  | computedWithoutCaching
  /-- `ValueError`: "num_new_tokens must be greater than 0 when there are no external computed tokens". -/
  | noNewTokens
  /-- "num_required_blocks .. < len(req_blocks) ..". -/
  | requiredBelowHeld (numRequiredBlocks held : Nat)
  /-- `assert num_new_blocks <= 1` and `assert num_new_blocks <= self.num_speculative_blocks + 1`. -/
  | tooManyNewBlocks (numNewBlocks : Int)
  /-- `assert block.block_hash is not None` of the Mamba manager. -/
  | notHashed (block : BlockId)
  /-- The assertions of `ChunkedLocalAttentionManager.find_longest_cache_hit`. -/
  | unsupportedLookup
deriving DecidableEq, Repr

/-- An entry of the map: one block, or the ids of a dict in the order they were inserted. -/
inductive CachedBlocks where
  | single (block : BlockId)
  | many (blocks : List BlockId)
deriving DecidableEq, Repr

abbrev BlockHashToBlockMap := OrderedDict Bytes CachedBlocks

namespace BlockHashToBlockMap

/-- The first block of the entry; a dict that is stored is never empty. -/
def getOneBlock (cache : BlockHashToBlockMap) (key : Bytes) : Option BlockId :=
  match cache.get? key with
  | none => none
  | some (.single block) => some block
  | some (.many blocks) => blocks.head?

def insertId (blocks : List BlockId) (block : BlockId) : List BlockId :=
  if block ∈ blocks then blocks else blocks ++ [block]

def insertBlock (cache : BlockHashToBlockMap) (key : Bytes) (block : BlockId) : BlockHashToBlockMap :=
  match cache.get? key with
  | none => cache.insert key (.single block)
  | some (.single other) => cache.insert key (.many (insertId [other] block))
  | some (.many blocks) => cache.insert key (.many (insertId blocks block))

/-- The entry is taken out and put back when it does not hold the block or holds others. -/
def pop (cache : BlockHashToBlockMap) (key : Bytes) (block : BlockId) : Option BlockId × BlockHashToBlockMap :=
  match cache.get? key with
  | none => (none, cache)
  | some (.single other) =>
    if other = block then (some other, cache.erase key)
    else (none, (cache.erase key).insert key (.single other))
  | some (.many blocks) =>
    let left := blocks.filter (· ≠ block)
    (if block ∈ blocks then some block else none,
      if left ≠ [] then (cache.erase key).insert key (.many left) else cache.erase key)

end BlockHashToBlockMap

inductive KVCacheEvent where
  | blockStored (blockHashes : List Bytes) (parentBlockHash : Option Bytes) (tokenIds : List Token) (blockSize : Nat)
      (loraId : Option Nat) (loraName : Option String) (extraKeys : Option (List (Option (List ExtraKey))))
      (groupIdx : Nat)
  | blockRemoved (blockHashes : List Bytes) (groupIdx : Nat)
  | allBlocksCleared
deriving DecidableEq, Repr

structure PoolConfig where
  numGpuBlocks : Nat
  enableCaching : Bool := true
  hashBlockSize : Nat
  enableKvCacheEvents : Bool := false
  scheme : HashScheme

structure BlockPool where
  nullBlock : BlockId
  refCnt : BlockId → Int
  blockHash : BlockId → Option Bytes
  freeBlockQueue : LinkedQueue BlockId
  cachedBlockHashToBlock : BlockHashToBlockMap
  kvEventQueue : List KVCacheEvent

abbrev PoolM := EStateM CacheError BlockPool

namespace BlockPool

def onQueue {α : Type} (x : EStateM QueueError (LinkedQueue BlockId) α) : PoolM α := fun pool =>
  match x pool.freeBlockQueue with
  | .ok a queue => .ok a { pool with freeBlockQueue := queue }
  | .error e queue => .error (.queue e) { pool with freeBlockQueue := queue }

def addRef (n : Int) (block : BlockId) (pool : BlockPool) : BlockPool :=
  { pool with refCnt := Function.update pool.refCnt block (pool.refCnt block + n) }

def setHash (block : BlockId) (hash : Option Bytes) (pool : BlockPool) : BlockPool :=
  { pool with blockHash := Function.update pool.blockHash block hash }

def setCached (cache : BlockHashToBlockMap) (pool : BlockPool) : BlockPool :=
  { pool with cachedBlockHashToBlock := cache }

def emit (event : KVCacheEvent) (pool : BlockPool) : BlockPool :=
  { pool with kvEventQueue := pool.kvEventQueue ++ [event] }

def isNull (pool : BlockPool) (block : BlockId) : Bool := block = pool.nullBlock

def getNumFreeBlocks (pool : BlockPool) : Int := pool.freeBlockQueue.count

variable (cfg : PoolConfig)

def init : Except CacheError BlockPool :=
  match LinkedQueue.popleft (.init (List.range cfg.numGpuBlocks)) with
  | .ok nullBlock queue => .ok
    { nullBlock := nullBlock
      refCnt := fun _ => 0
      blockHash := fun _ => none
      freeBlockQueue := queue
      cachedBlockHashToBlock := .empty
      kvEventQueue := [] }
  | .error e _ => .error (.queue e)

/-- The blocks cached under the hash for the groups, or `none` if one of them has none. -/
def getCachedBlock (pool : BlockPool) (blockHash : Bytes) (kvCacheGroupIds : List Nat) : Option (List BlockId) :=
  kvCacheGroupIds.mapM fun groupId =>
    pool.cachedBlockHashToBlock.getOneBlock (makeBlockHashWithGroupId blockHash groupId)

def maybeEvictCachedBlock (block : BlockId) : PoolM Bool := do
  match (← get).blockHash block with
  | none => return false
  | some blockHash =>
    match BlockHashToBlockMap.pop (← get).cachedBlockHashToBlock blockHash block with
    | (none, cache) =>
      modify (setCached cache)
      return false
    | (some _, cache) =>
      modify fun pool => (pool.setCached cache).setHash block none
      onlyIf cfg.enableKvCacheEvents (modify (emit (.blockRemoved [getBlockHash blockHash] (getGroupId blockHash))))
      return true

def claimBlock (block : BlockId) : PoolM Unit := do
  onlyIf cfg.enableCaching (discard (maybeEvictCachedBlock cfg block))
  ensure ((← get).refCnt block = 0) (.refCntNotZero block)
  modify (addRef 1 block)

def getNewBlocks (numBlocks : Int) : PoolM (List BlockId) := do
  ensure (numBlocks ≤ (← get).getNumFreeBlocks) (.cannotGetFreeBlocks numBlocks)
  let ret ← onQueue (LinkedQueue.popleftN numBlocks)
  forM ret (claimBlock cfg)
  return ret

def touchBlock (block : BlockId) : PoolM Unit := do
  let pool ← get
  onlyIf (pool.refCnt block = 0 ∧ ¬ pool.isNull block) (onQueue (LinkedQueue.remove block))
  modify (addRef 1 block)

def touch (blocks : List BlockId) : PoolM Unit := forM blocks touchBlock

def freeBlocks (orderedBlocks : List BlockId) : PoolM Unit := do
  forM orderedBlocks fun block => modify (addRef (-1) block)
  let pool ← get
  onQueue (LinkedQueue.appendN (orderedBlocks.filter fun block => pool.refCnt block = 0 ∧ ¬ pool.isNull block))

def evictBlocks (blockIds : List BlockId) : PoolM Unit :=
  forM blockIds fun block => do
    ensure (block < cfg.numGpuBlocks) (.invalidBlockId block)
    discard (maybeEvictCachedBlock cfg block)

def resetHashes (pool : BlockPool) : BlockPool :=
  { pool with blockHash := fun block => if block < cfg.numGpuBlocks then none else pool.blockHash block }

def resetPrefixCache : PoolM Bool := do
  let numUsedBlocks := (cfg.numGpuBlocks : Int) - (← get).getNumFreeBlocks
  -- the null block is always marked as used
  if numUsedBlocks ≠ 1 then return false else do
    modify (setCached .empty)
    modify (resetHashes cfg)
    onlyIf cfg.enableKvCacheEvents (modify (emit .allBlocksCleared))
    return true

def takeEvents : PoolM (List KVCacheEvent) := do
  if ¬ cfg.enableKvCacheEvents then return [] else do
    let events := (← get).kvEventQueue
    modify fun pool => { pool with kvEventQueue := [] }
    return events

/-- One pass of the loop of `cache_full_blocks`: the hash the block gets, `none` for blocks that are passed over. -/
def cacheFullBlock (newBlockHashes : List Bytes) (kvCacheGroupId : Nat) (blockMask : Option (List Bool))
    (i : Nat) (block : BlockId) : PoolM (Option Bytes) := do
  let pool ← get
  if pool.isNull block ∨ blockMask.any (fun mask => mask[i]? = some false) then return none else do
    ensure (pool.blockHash block = none) (.alreadyHashed block)
    match newBlockHashes[i]? with
    | none => throw (.noHashAt i)
    | some blockHash =>
      let key := makeBlockHashWithGroupId blockHash kvCacheGroupId
      modify (setHash block (some key))
      modify fun pool => pool.setCached (pool.cachedBlockHashToBlock.insertBlock key block)
      return some blockHash

def eventExtraKeys (request : Request) (blockSize : Nat) : List Nat → Int → List (Option (List ExtraKey))
  | [], _ => []
  | i :: rest, currMmIdx =>
    let (extraKeys, currMmIdx) :=
      generateBlockHashExtraKeys cfg.scheme request (i * blockSize) (i * blockSize + blockSize) currMmIdx
    extraKeys :: eventExtraKeys request blockSize rest currMmIdx

def emitBlockStored (request : Request) (blocks : List BlockId) (numCachedBlocks numFullBlocks blockSize kvCacheGroupId : Nat)
    (blockMask : Option (List Bool)) (blockHashes newHashes : List Bytes) : PoolM Unit := do
  ensure (numFullBlocks ≤ blocks.length) (.noBlockAt blocks.length)
  let pool ← get
  let named := (List.range' numCachedBlocks (numFullBlocks - numCachedBlocks)).filter fun i =>
    ¬ (blocks[i]?.any pool.isNull ∨ blockMask.any fun mask => mask[i - numCachedBlocks]? = some false)
  let extraKeys := eventExtraKeys cfg request blockSize named 0
  modify (emit (.blockStored newHashes (if numCachedBlocks = 0 then none else blockHashes[numCachedBlocks - 1]?)
    (slice request.allTokenIds (numCachedBlocks * blockSize) (numFullBlocks * blockSize)) blockSize
    (request.loraRequest.map (·.loraIntId)) (request.loraRequest.map (·.loraName))
    (if extraKeys = [] then none else some extraKeys) kvCacheGroupId))

def cacheFullBlocks (request : Request) (blocks : List BlockId) (numCachedBlocks numFullBlocks blockSize kvCacheGroupId : Nat)
    (blockMask : Option (List Bool)) : PoolM Unit := do
  if numCachedBlocks ≥ numFullBlocks then return else do
    let newFullBlocks := slice blocks numCachedBlocks numFullBlocks
    ensure (request.blockHashes.length ≥ numFullBlocks) .tooFewHashes
    ensure (blockMask.all fun mask => mask.length = newFullBlocks.length) .maskLength
    ensure (blockSize = cfg.hashBlockSize ∨ blockSize % cfg.hashBlockSize = 0) (.notAMultiple blockSize)
    let blockHashes := hashesAt cfg.hashBlockSize request.blockHashes blockSize
    let hashes ← newFullBlocks.zipIdx.mapM fun entry =>
      cacheFullBlock (blockHashes.drop numCachedBlocks) kvCacheGroupId blockMask entry.2 entry.1
    onlyIf cfg.enableKvCacheEvents (emitBlockStored cfg request blocks numCachedBlocks numFullBlocks blockSize kvCacheGroupId
      blockMask blockHashes (hashes.filterMap id))

end BlockPool

end KVOffload.Core
