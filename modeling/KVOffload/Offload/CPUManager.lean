import KVOffload.Lib.Exec
import KVOffload.Offload.Policies

/-!
# The CPU offloading manager

`CPUOffloadingManager` (`vllm/v1/kv_offload/cpu/manager.py`) over any policy. A load or store specification is the list of its
slot numbers.
-/

namespace KVOffload.Offload

structure OffloadingEvent (Key : Type) where
  keys : List Key
  medium : String
  removed : Bool
deriving DecidableEq, Repr

structure PrepareStoreOutput (Key : Type) where
  keysToStore : List Key
  storeSpec : List Nat
  evictedKeys : List Key
deriving DecidableEq, Repr

/-- The assertions of the manager, and the `KeyError`s of the tracker and of a policy. -/
inductive OffloadError (Key : Type) where
  | notFound (key : Key)
  | notReady (key : Key)
  | refCntZero (key : Key)
  | freeListTooShort
  | wrongNumBlocks
  | emptyTracker
  | keyError (key : Key)
deriving DecidableEq, Repr

structure CPUOffloadingManager (P Key : Type) where
  numBlocks : Nat
  numAllocatedBlocks : Nat := 0
  freeList : List Nat := []
  events : Option (List (OffloadingEvent Key))
  policy : P
  storeThreshold : Nat
  maxTrackerSize : Nat
  counts : Option (OrderedDict Key Nat)

abbrev ManagerM (P Key : Type) := EStateM (OffloadError Key) (CPUOffloadingManager P Key)

namespace CPUOffloadingManager

variable {P Key : Type} [DecidableEq Key] [CachePolicy P Key]

def medium : String := "CPU"

def init (numBlocks : Nat) (enableEvents : Bool) (storeThreshold maxTrackerSize : Nat) : CPUOffloadingManager P Key where
  numBlocks
  events := if enableEvents then some [] else none
  policy := CachePolicy.init numBlocks
  storeThreshold
  maxTrackerSize
  counts := if storeThreshold ≥ 2 then some .empty else none

@[simps] def setPolicy (policy : P) (m : CPUOffloadingManager P Key) : CPUOffloadingManager P Key := { m with policy }

@[simps] def setFreeList (freeList : List Nat) (m : CPUOffloadingManager P Key) : CPUOffloadingManager P Key :=
  { m with freeList }

@[simps] def setCounts (counts : Option (OrderedDict Key Nat)) (m : CPUOffloadingManager P Key) :
    CPUOffloadingManager P Key := { m with counts }

@[simps] def record (keys : List Key) (removed : Bool) (m : CPUOffloadingManager P Key) : CPUOffloadingManager P Key :=
  { m with events := if keys = [] then m.events else m.events.map (· ++ [⟨keys, medium, removed⟩]) }

def block (m : CPUOffloadingManager P Key) (key : Key) : Option BlockStatus := CachePolicy.get m.policy key

def setRefCnt (key : Key) (refCnt : Int) (m : CPUOffloadingManager P Key) : CPUOffloadingManager P Key :=
  m.setPolicy (CachePolicy.setRefCnt key refCnt m.policy)

def getNumFreeBlocks (m : CPUOffloadingManager P Key) : Nat := m.freeList.length + m.numBlocks - m.numAllocatedBlocks

def freeBlock (block : BlockStatus) (m : CPUOffloadingManager P Key) : CPUOffloadingManager P Key :=
  m.setFreeList (m.freeList ++ [block.blockId])

def slotsFor (m : CPUOffloadingManager P Key) (n : Nat) : List Nat :=
  let numFresh := min n (m.numBlocks - m.numAllocatedBlocks)
  (List.range numFresh).map (m.numAllocatedBlocks + ·) ++ m.freeList.reverse.take (n - numFresh)

@[simps] def takeSlots (n : Nat) (m : CPUOffloadingManager P Key) : CPUOffloadingManager P Key :=
  let numFresh := min n (m.numBlocks - m.numAllocatedBlocks)
  { m with
    numAllocatedBlocks := m.numAllocatedBlocks + numFresh
    freeList := m.freeList.take (m.freeList.length - (n - numFresh)) }

def allocateBlocks (n : Nat) : ManagerM P Key (List BlockStatus) := do
  let m ← get
  ensure (m.freeList.length ≥ n - min n (m.numBlocks - m.numAllocatedBlocks)) .freeListTooShort
  modify (takeSlots n)
  return (m.slotsFor n).map fun blockId => { blockId }

def trackLookup (key : Key) (maxTrackerSize : Nat) (counts : OrderedDict Key Nat) : OrderedDict Key Nat :=
  match counts.get? key with
  | some count => (counts.moveToEnd key).insert key (count + 1)
  | none => (counts.dropOldest (if counts.keys.length ≥ maxTrackerSize then 1 else 0)).insert key 1

/-- `none` stands for `None`: the caller should ask again. -/
def lookup (key : Key) : ManagerM P Key (Option Bool) := do
  -- A tracker of size zero pops from an empty dictionary.
  ensure ((← get).counts.isSome → 0 < (← get).maxTrackerSize) .emptyTracker
  modify fun m => m.setCounts (m.counts.map (trackLookup key m.maxTrackerSize))
  match (← get).block key with
  | none => return some false
  | some block => return if block.isReady then some true else none

def prepareLoadBlock (key : Key) : ManagerM P Key Nat := do
  match (← get).block key with
  | none => throw (.notFound key)
  | some block => do
    ensure block.isReady (.notReady key)
    modify (setRefCnt key (block.refCnt + 1))
    return block.blockId

def prepareLoad (keys : List Key) : ManagerM P Key (List Nat) := keys.mapM prepareLoadBlock

def touch (keys : List Key) (m : CPUOffloadingManager P Key) : CPUOffloadingManager P Key :=
  m.setPolicy (CachePolicy.touch keys m.policy)

def completeLoadBlock (key : Key) : ManagerM P Key Unit := do
  match (← get).block key with
  | none => throw (.notFound key)
  | some block => do
    ensure (block.refCnt > 0) (.refCntZero key)
    modify (setRefCnt key (block.refCnt - 1))

def completeLoad (keys : List Key) : ManagerM P Key Unit := forM keys completeLoadBlock

def storable (m : CPUOffloadingManager P Key) (keys : List Key) : List Key :=
  match m.counts with
  | none => keys
  | some counts => keys.filter fun key => (counts.get? key).getD 0 ≥ m.storeThreshold

def keysToStore (m : CPUOffloadingManager P Key) (keys : List Key) : List Key :=
  (m.storable keys).filter fun key => (m.block key).isNone

/-- Evicts blocks if it must; `none` if that is not possible, and the keys of the evicted blocks otherwise. -/
def makeRoom (numBlocksToEvict : Nat) (protectedKeys : List Key) : ManagerM P Key (Option (List Key)) := do
  if numBlocksToEvict = 0 then return some []
  else do
    let (evicted, policy) := CachePolicy.evict numBlocksToEvict protectedKeys (← get).policy
    modify (setPolicy policy)
    match evicted with
    | none => return none
    | some evicted => do
      modify fun m => evicted.foldl (fun m e => m.freeBlock e.2) m
      return some (evicted.map Prod.fst)

def insertBlocks (blocks : List (Key × BlockStatus)) (m : CPUOffloadingManager P Key) : CPUOffloadingManager P Key :=
  m.setPolicy (blocks.foldl (fun policy e => CachePolicy.insert e.1 e.2 policy) m.policy)

def prepareStore (keys : List Key) : ManagerM P Key (Option (PrepareStoreOutput Key)) := do
  let m ← get
  let keysToStore := m.keysToStore keys
  if keysToStore = [] then return some ⟨[], [], []⟩
  else
    match ← makeRoom (keysToStore.length - m.getNumFreeBlocks) (m.storable keys) with
    | none => return none
    | some toEvict => do
      modify (record toEvict true)
      let blocks ← allocateBlocks keysToStore.length
      ensure (blocks.length = keysToStore.length) .wrongNumBlocks
      modify (insertBlocks (keysToStore.zip blocks))
      return some ⟨keysToStore, blocks.map (·.blockId), toEvict⟩

def markStored (key : Key) : ManagerM P Key Bool := do
  match (← get).block key with
  | none => return false
  | some block =>
    if block.isReady then return false
    else do
      modify (setRefCnt key 0)
      return true

def dropUnstored (key : Key) : ManagerM P Key Unit := do
  let m ← get
  match m.block key with
  | none => return
  | some block =>
    if block.isReady then return
    else
      match CachePolicy.remove key m.policy with
      | none => throw (.keyError key)
      | some policy => do
        modify (setPolicy policy)
        modify (freeBlock block)

def completeStore (keys : List Key) (success : Bool) : ManagerM P Key Unit := do
  if success then do
    let stored ← keys.mapM markStored
    modify (record ((keys.zip stored).filterMap fun e => if e.2 then some e.1 else none) false)
  else forM keys dropUnstored

def resetCache (m : CPUOffloadingManager P Key) : CPUOffloadingManager P Key :=
  { m with policy := CachePolicy.clear m.policy, freeList := [], numAllocatedBlocks := 0 }

def takeEvents : ManagerM P Key (List (OffloadingEvent Key)) := do
  let m ← get
  modify fun m => { m with events := m.events.map fun _ => [] }
  return m.events.getD []

end CPUOffloadingManager

end KVOffload.Offload
