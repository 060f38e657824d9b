import KVOffload.Core.BlockPool

/-!
# Prefix cache lookups

`find_longest_cache_hit` of the groups (`single_type_kv_cache_manager.py`) and of the coordinators (`kv_cache_coordinator.py`).
Hits are rows: one for each block position, with one block for each group that is looked up.
-/

namespace KVOffload.Core

inductive MambaCacheMode where
  | none
  | all
  | align
deriving DecidableEq, Repr

inductive SpecKind where
  | fullAttention
  | slidingWindow (slidingWindow : Nat)
  | chunkedLocalAttention (attentionChunkSize : Nat)
  | mamba (mambaCacheMode : MambaCacheMode) (numSpeculativeBlocks : Nat)
deriving DecidableEq, Repr

/-- `layout` stands for the fields that are only compared: heads, sizes and types. -/
structure KVCacheSpec where
  blockSize : Nat
  kind : SpecKind
  layout : Nat := 0
deriving DecidableEq, Repr

def KVCacheSpec.isFullAttention (spec : KVCacheSpec) : Bool := spec.kind = .fullAttention

/-- What the coordinator and `KVCacheManager` are given. `eagleGroupIds` are the groups of the last-block drop. -/
structure CacheConfig where
  pool : PoolConfig
  maxModelLen : Nat
  maxNumBatchedTokens : Nat
  numGroups : Nat
  spec : Nat → KVCacheSpec
  eagleGroupIds : Nat → Bool := fun _ => false

abbrev HitRow := List BlockId

section

variable (blockSize alignmentTokens : Nat) (useEagle : Bool) (nullRow : HitRow) (lookup : Nat → Option HitRow)

def alignedLength : Nat → Nat
  | 0 => 0
  | n + 1 => if blockSize ≠ alignmentTokens ∧ (n + 1) * blockSize % alignmentTokens ≠ 0 then alignedLength n else n + 1

def alignRows (rows : List HitRow) : List HitRow := rows.take (alignedLength blockSize alignmentTokens rows.length)

def hitRun (start : Nat) : Nat → List HitRow
  | 0 => []
  | n + 1 => match lookup start with
    | none => []
    | some row => row :: hitRun (start + 1) n

/-- `FullAttentionManager.find_longest_cache_hit` -/
def fullAttentionHit (maxNumBlocks : Nat) : List HitRow :=
  let rows := hitRun lookup 0 maxNumBlocks
  let rows := if useEagle then rows.dropLast else rows
  alignRows blockSize alignmentTokens rows

/-- The search of the sliding window manager from right to left. `run` are the contiguous hits from the next position
on; the blocks found outside of it are deleted in the end. -/
def slidingWindowSearch (contiguousBlocks : Nat) : Nat → List HitRow → Nat × List HitRow × Bool
  | 0, run => (0, run, false)
  | i + 1, run => match lookup i with
    | none => slidingWindowSearch contiguousBlocks i []
    | some row =>
      let postPopBlocks := if useEagle then i else i + 1
      if run = [] ∧ blockSize ≠ alignmentTokens ∧ postPopBlocks * blockSize % alignmentTokens ≠ 0 then
        slidingWindowSearch contiguousBlocks i run
      else if (row :: run).length ≥ contiguousBlocks then (i, row :: run, true)
      else slidingWindowSearch contiguousBlocks i (row :: run)

/-- `SlidingWindowManager.find_longest_cache_hit` -/
def slidingWindowHit (slidingWindow maxNumBlocks : Nat) : List HitRow :=
  let contiguousBlocks := cdiv (slidingWindow - 1) blockSize + if useEagle then 1 else 0
  let (i, run, matchFound) := slidingWindowSearch blockSize alignmentTokens useEagle lookup contiguousBlocks maxNumBlocks []
  let rows := if matchFound then List.replicate i nullRow ++ run else alignRows blockSize alignmentTokens run
  if useEagle ∧ rows ≠ [] then alignRows blockSize alignmentTokens rows.dropLast else rows

/-- `ChunkedLocalAttentionManager.find_longest_cache_hit`; `none` is a failed assertion. -/
def chunkedLocalHit (attentionChunkSize maxLength : Nat) : Option (List HitRow) :=
  if useEagle ∨ blockSize ≠ alignmentTokens then none
  else
    let maxNumBlocks := maxLength / blockSize
    let localAttentionStartIdx := maxLength / attentionChunkSize * attentionChunkSize
    let localAttentionStartBlockIdx := localAttentionStartIdx / blockSize
    some (List.replicate localAttentionStartBlockIdx nullRow ++
      hitRun lookup localAttentionStartBlockIdx (maxNumBlocks - localAttentionStartBlockIdx))

def mambaHit : Nat → List HitRow
  | 0 => []
  | i + 1 => match lookup i with
    | none => mambaHit i
    | some row =>
      if blockSize ≠ alignmentTokens ∧ (i + 1) * blockSize % alignmentTokens ≠ 0 then mambaHit i
      else List.replicate i nullRow ++ [row]

end

/-- `find_longest_cache_hit` of the manager of the kind, for groups with one spec. A position behind the last hash is a
miss; the code does not get there while a request has the hashes of all its full blocks. -/
def findLongestCacheHit (pool : BlockPool) (blockHashes : List Bytes) (maxLength : Nat) (groupIds : List Nat)
    (spec : KVCacheSpec) (useEagle : Bool) (alignmentTokens : Nat) : Option (List HitRow) :=
  let nullRow := groupIds.map fun _ => pool.nullBlock
  let lookup (i : Nat) : Option HitRow := blockHashes[i]?.bind (pool.getCachedBlock · groupIds)
  let maxNumBlocks := maxLength / spec.blockSize
  match spec.kind with
  | .fullAttention => some (fullAttentionHit spec.blockSize alignmentTokens useEagle lookup maxNumBlocks)
  | .slidingWindow slidingWindow =>
    some (slidingWindowHit spec.blockSize alignmentTokens useEagle nullRow lookup slidingWindow maxNumBlocks)
  | .chunkedLocalAttention attentionChunkSize =>
    chunkedLocalHit spec.blockSize alignmentTokens useEagle nullRow lookup attentionChunkSize maxLength
  | .mamba _ _ => some (mambaHit spec.blockSize alignmentTokens nullRow lookup maxNumBlocks)

def column (rows : List HitRow) (j : Nat) : List BlockId := rows.filterMap (·[j]?)

abbrev KVCacheBlocks := Nat → List BlockId

section

variable (cfg : CacheConfig)

structure AttentionGroup where
  spec : KVCacheSpec
  groupIds : List Nat
deriving DecidableEq, Repr

def insertGroup (groups : List AttentionGroup) (spec : KVCacheSpec) (i : Nat) : List AttentionGroup :=
  match groups with
  | [] => [⟨spec, [i]⟩]
  | group :: rest =>
    if group.spec = spec then ⟨group.spec, group.groupIds ++ [i]⟩ :: rest else group :: insertGroup rest spec i

/-- `verify_and_split_kv_cache_groups`: full attention comes first. -/
def attentionGroups : List AttentionGroup :=
  let groups := (List.range cfg.numGroups).foldl (fun groups i => insertGroup groups (cfg.spec i) i) []
  groups.filter (·.spec.isFullAttention) ++ groups.filter (¬ ·.spec.isFullAttention)

def lcmBlockSize : Nat := (attentionGroups cfg).foldl (fun acc group => Nat.lcm acc group.spec.blockSize) 1

structure HitSearch where
  currHitLength : Nat
  hitBlocksByGroup : Nat → Option (List BlockId)
  eagleVerified : List Nat

/-- One pass of the inner loop of `HybridKVCacheCoordinator.find_longest_cache_hit`. -/
def searchGroup (pool : BlockPool) (blockHashes : List Bytes) (maxCacheHitLength : Nat) (search : HitSearch) (idx : Nat)
    (group : AttentionGroup) : Option HitSearch :=
  let spec := group.spec
  let cached := group.groupIds.head?.bind search.hitBlocksByGroup
  if spec.isFullAttention ∧ cached.isSome then
    -- Full attention is looked up once; later passes trim it.
    some { search with currHitLength := search.currHitLength / spec.blockSize * spec.blockSize }
  else
    let useEagle := group.groupIds.any cfg.eagleGroupIds && !search.eagleVerified.contains idx
    let maxLength := if useEagle then min (search.currHitLength + spec.blockSize) maxCacheHitLength else search.currHitLength
    match findLongestCacheHit pool (hashesAt cfg.pool.hashBlockSize blockHashes spec.blockSize) maxLength group.groupIds spec
        useEagle (lcmBlockSize cfg) with
    | none => none
    | some rows =>
      let newHitLength := rows.length * spec.blockSize
      let eagleVerified := if useEagle then idx :: search.eagleVerified
        else if newHitLength < search.currHitLength then [] else search.eagleVerified
      some
        { currHitLength := newHitLength
          hitBlocksByGroup := fun g => match group.groupIds.idxOf? g with
            | some j => some (column rows j)
            | none => search.hitBlocksByGroup g
          eagleVerified }

/-- The outer loop; every pass but the last shortens the hit, so that there are at most as many as the first length. -/
def searchLoop (pool : BlockPool) (blockHashes : List Bytes) (maxCacheHitLength : Nat) (simple : Bool) :
    Nat → Nat → HitSearch → Option (Nat × HitSearch)
  | 0, hitLength, search => some (hitLength, search)
  | fuel + 1, hitLength, search => do
    let search ← (attentionGroups cfg).zipIdx.foldlM
      (fun search entry => searchGroup cfg pool blockHashes maxCacheHitLength search entry.2 entry.1)
      { search with currHitLength := hitLength }
    if search.currHitLength ≥ hitLength then some (hitLength, search)
    else if simple then some (search.currHitLength, search)
    else searchLoop pool blockHashes maxCacheHitLength simple fuel search.currHitLength search

/-- `HybridKVCacheCoordinator.find_longest_cache_hit` -/
def hybridHit (pool : BlockPool) (blockHashes : List Bytes) (maxCacheHitLength : Nat) : Option (KVCacheBlocks × Nat) := do
  let groups := attentionGroups cfg
  let isSimpleHybrid := groups.length = 2 ∧ groups.head?.any (·.spec.isFullAttention)
  let (hitLength, search) ← searchLoop cfg pool blockHashes maxCacheHitLength isSimpleHybrid (maxCacheHitLength + 1)
    maxCacheHitLength ⟨maxCacheHitLength, fun _ => none, []⟩
  -- The blocks of the first attention group are cut to the final length if it is full attention.
  let blocks (g : Nat) : List BlockId :=
    let found := (search.hitBlocksByGroup g).getD []
    match groups.head? with
    | some group =>
      if group.spec.isFullAttention ∧ g ∈ group.groupIds then found.take (hitLength / group.spec.blockSize) else found
    | none => found
  some (blocks, hitLength)

/-- `UnitaryKVCacheCoordinator.find_longest_cache_hit` -/
def unitaryHit (pool : BlockPool) (blockHashes : List Bytes) (maxCacheHitLength : Nat) : Option (KVCacheBlocks × Nat) := do
  let spec := cfg.spec 0
  let rows ← findLongestCacheHit pool blockHashes maxCacheHitLength [0] spec (cfg.eagleGroupIds 0) spec.blockSize
  some (fun g => if g = 0 then column rows 0 else [], rows.length * spec.blockSize)

/-- `find_longest_cache_hit` of the coordinator that `get_kv_cache_coordinator` chooses. -/
def coordinatorHit (pool : BlockPool) (blockHashes : List Bytes) (maxCacheHitLength : Nat) : Option (KVCacheBlocks × Nat) :=
  if ¬ cfg.pool.enableCaching then some (fun _ => [], 0)
  else if cfg.numGroups = 1 then unitaryHit cfg pool blockHashes maxCacheHitLength
  else hybridHit cfg pool blockHashes maxCacheHitLength

end

end KVOffload.Core
