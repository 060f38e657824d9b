import KVOffload.Lib.Exec
import KVOffload.Quest.Memory
import KVOffload.Quest.SlotMap

/-!
# The tier manager of one Quest layer

`TierManager` of `cache/tier_manager.py` with the rows of the shared stores that belong to its layer. A call runs in `TierM`:
what it changed before it raised stays changed.
-/

namespace KVOffload.Quest

scoped instance lawfulBEqKey {S : Type} [DecidableEq S] : LawfulBEq (S × Nat) := inferInstance

inductive ResidencyState where
  | onGpu | evicting | onCpu | loading
  deriving DecidableEq, Repr

inductive BlockOrdering where
  | lru | prefetch | mixture
  deriving DecidableEq, Repr

/-- The exceptions of the tier manager and the stores below it. -/
inductive QuestError (S : Type) where
  /-- `KeyError`: the key has no arena slot. -/
  | keyError (key : S × Nat)
  /-- `KeyError`: an eviction from an empty slot map. -/
  | emptyArena
  /-- `ValueError`: "begin_evict requires ON_GPU at (layer, block), got ..". -/
  | beginEvict (layer block : Nat) (got : ResidencyState)
  /-- `ValueError`: "cannot complete_evict at (layer, block): current state ..". -/
  | completeEvict (layer block : Nat) (got : ResidencyState)
  /-- `ValueError`: "begin_load requires ON_CPU at (layer, block), got ..". -/
  | beginLoad (layer block : Nat) (got : ResidencyState)
  /-- `ValueError`: "cannot complete_load at (layer, block): current state ..". -/
  | completeLoad (layer block : Nat) (got : ResidencyState)
  /-- `RuntimeError`: "block key is neither on GPU nor in CPU pool". -/
  | notStored (key : S × Nat)
  /-- `RuntimeError`: "layer CPU pool is full (blocks)". -/
  | cpuPoolFull (layer blocks : Nat)
  /-- `RuntimeError`: "Quest trim: CPU pool exhausted spilling .. blocks for seq .. layer ..". -/
  | trimExhausted (spilled : Nat) (seq : S) (layer : Nat)
  /-- `RuntimeError`: "Quest kvshare prefill: CPU pool exhausted spilling .. blocks for seq .. layer ..". -/
  | ingestExhausted (spilled : Nat) (seq : S) (layer : Nat)
  /-- `AssertionError`: "trim must not overflow the arena". -/
  | trimOverflow
  /-- `AssertionError`: "kvshare prefill ingest must not overflow the arena". -/
  | ingestOverflow
  /-- `AssertionError`: "write-through evicting key with no durable host backup; ..". -/
  | noHostBackup (key : S × Nat)
  /-- `RuntimeError` of `copy_`: more prompt rows than the block holds. -/
  | sizeMismatch (rows : Nat)
  deriving DecidableEq

def QuestError.PoolExhausted {S : Type} : QuestError S → Prop
  | .cpuPoolFull _ _ | .trimExhausted _ _ _ | .ingestExhausted _ _ _ => True
  | _ => False

/-- What `TierManager.__init__` is given and never changes. -/
structure TierConfig (bs : Nat) (R D : Type) where
  layerIdx : Nat
  gpuBudget : Nat
  cpuBlocks : Nat
  streamPool : Bool := false
  enableWriteThrough : Bool := false
  blockOrdering : BlockOrdering := .lru
  prefetchTouch : Bool := false
  digest : (Fin bs → R) → D

structure TierManager (S D M : Type) where
  slotMap : LRUSlotMap (S × Nat)
  mem : M
  summary : Nat → D
  residency : Nat → ResidencyState
  /-- `cpu_store._free[layer_idx]`, the end of the Python list first. -/
  cpuFree : List Nat
  cpuSlots : OrderedDict (S × Nat) Nat
  hostSlots : OrderedDict (S × Nat) Nat
  prevSelected : OrderedDict S (List Nat)
  trimmed : Finset S
  activeSeqs : Option (List S)

abbrev TierM (S D M : Type) := EStateM (QuestError S) (TierManager S D M)

variable {S D M R : Type} {bs : Nat}

def TierManager.init (cfg : TierConfig bs R D) (mem : M) (summary : Nat → D) : TierManager S D M where
  slotMap := .init cfg.gpuBudget
  mem := mem
  summary := summary
  residency _ := .onGpu
  cpuFree := List.range cfg.cpuBlocks
  cpuSlots := .empty
  hostSlots := .empty
  prevSelected := .empty
  trimmed := ∅
  activeSeqs := none

namespace TierManager

/-! ### Updates of single fields -/

def setMem (f : M → M) (s : TierManager S D M) : TierManager S D M := { s with mem := f s.mem }

def setResidency (block : Nat) (state : ResidencyState) (s : TierManager S D M) : TierManager S D M :=
  { s with residency := Function.update s.residency block state }

def setSlotMap (m : LRUSlotMap (S × Nat)) (s : TierManager S D M) : TierManager S D M := { s with slotMap := m }

def setSummary (block : Nat) (digest : D) (s : TierManager S D M) : TierManager S D M :=
  { s with summary := Function.update s.summary block digest }

def freeCpu (cpuSlot : Nat) (s : TierManager S D M) : TierManager S D M := { s with cpuFree := cpuSlot :: s.cpuFree }

variable [DecidableEq S]

def setCpuSlot (key : S × Nat) (cpuSlot : Nat) (s : TierManager S D M) : TierManager S D M :=
  { s with cpuSlots := s.cpuSlots.insert key cpuSlot }

def setHostSlot (key : S × Nat) (cpuSlot : Nat) (s : TierManager S D M) : TierManager S D M :=
  { s with hostSlots := s.hostSlots.insert key cpuSlot }

end TierManager

open TierManager BlockMemory

/-! ### `cache/residency.py` -/

def markOnGpu (block : Nat) : TierM S D M Unit := modify (setResidency block .onGpu)

/-- `begin_evict`: a block already being evicted is left alone. -/
def beginEvict (layer block : Nat) : TierM S D M Unit := do
  match (← get).residency block with
  | .evicting => pure ()
  | .onGpu => modify (setResidency block .evicting)
  | got => throw (.beginEvict layer block got)

def completeEvict (layer block : Nat) : TierM S D M Unit := do
  match (← get).residency block with
  | .evicting => modify (setResidency block .onCpu)
  | got => throw (.completeEvict layer block got)

def beginLoad (layer block : Nat) : TierM S D M Unit := do
  match (← get).residency block with
  | .onCpu => modify (setResidency block .loading)
  | got => throw (.beginLoad layer block got)

def completeLoad (layer block : Nat) : TierM S D M Unit := do
  match (← get).residency block with
  | .loading => modify (setResidency block .onGpu)
  | got => throw (.completeLoad layer block got)

/-! ### `cache/cpu_backing_store.py` -/

def allocOr (error : QuestError S) : TierM S D M Nat := do
  let s ← get
  match s.cpuFree with
  | [] => throw error
  | cpuSlot :: rest =>
    set { s with cpuFree := rest }
    pure cpuSlot

def alloc (cfg : TierConfig bs R D) : TierM S D M Nat := allocOr (.cpuPoolFull cfg.layerIdx cfg.cpuBlocks)

section

variable [DecidableEq S] [BlockMemory M bs R] (cfg : TierConfig bs R D)

/-! ### Eviction -/

def spillToCpu (key : S × Nat) (slot : Nat) : TierM S D M Unit := do
  let cpuSlot ← alloc cfg
  beginEvict cfg.layerIdx key.2
  modify (setMem (spillSlot cpuSlot slot))
  completeEvict cfg.layerIdx key.2
  modify (setCpuSlot key cpuSlot)

/-- `_drop_gpu_slot`, the spill hook of the write-through mode. -/
def dropGpuSlot (key : S × Nat) : TierM S D M Unit := do
  if key ∉ (← get).hostSlots then throw (.noHostBackup key)
  beginEvict cfg.layerIdx key.2
  completeEvict cfg.layerIdx key.2

def spillHook (key : S × Nat) (slot : Nat) : TierM S D M Unit :=
  if cfg.enableWriteThrough then dropGpuSlot cfg key else spillToCpu cfg key slot

def addSlot (key : S × Nat) (protect : List (S × Nat)) : TierM S D M (Nat × Option (S × Nat)) := do
  match (← get).slotMap.add key protect with
  | none => throw .emptyArena
  | some (slot, evicted, m) =>
    modify (setSlotMap m)
    pure (slot, evicted)

/-- `slot, evicted = _slot_map.add(key, protected)`, with the spill of the evicted block that follows it
everywhere but in the two prefill loops. -/
def claimSlot (key : S × Nat) (protect : List (S × Nat)) : TierM S D M Nat := do
  let (slot, evicted) ← addSlot key protect
  match evicted with
  | some victim => spillHook cfg victim slot
  | none => pure ()
  pure slot

def mirrorWith (key : S × Nat) (copy : Nat → M → M) : TierM S D M Unit := do
  if key ∈ (← get).hostSlots then pure ()
  else
    let cpuSlot ← alloc cfg
    modify (setHostSlot key cpuSlot)
    modify (setMem (copy cpuSlot))

def mirrorToHost (key : S × Nat) (block : KVBlock bs R) : TierM S D M Unit :=
  mirrorWith cfg key fun cpuSlot => mirrorBlock cpuSlot block

def mirrorSlotToHost (key : S × Nat) (slot : Nat) : TierM S D M Unit :=
  mirrorWith cfg key fun cpuSlot => spillSlot cpuSlot slot

/-! ### Filling blocks -/

def registerPrefillSummary (block : Nat) (kBlock : Fin bs → R) : TierM S D M Unit :=
  modify (setSummary block (cfg.digest kBlock))

def onBlockFilled (seq : S) (block : Nat) (content : KVBlock bs R) : TierM S D M Nat := do
  modify (setSummary block (cfg.digest content.k))
  let slot ← claimSlot cfg (seq, block) []
  modify (setMem (fillSlot slot content))
  markOnGpu block
  if cfg.enableWriteThrough then mirrorToHost cfg (seq, block) content
  pure slot

def writeLiveBlock (seq : S) (liveBlock : Nat) (content : KVBlock bs R) : TierM S D M Nat := do
  let slot ← claimSlot cfg (seq, liveBlock) []
  modify (setMem (fillSlot slot content))
  markOnGpu liveBlock
  pure slot

/-- One pass of the loops of `trim_to_working_set` and `prefill_ingest_kvshare`: block `b` is kept in the
arena from `keepLo` on and goes to the host below it. -/
def keepOrSpill (seq : S) (keepLo : Nat) (overflow exhausted : QuestError S) (b : Nat) (content : KVBlock bs R) :
    TierM S D M Unit := do
  if keepLo ≤ b then
    let (slot, evicted) ← addSlot (seq, b) []
    if evicted.isSome then throw overflow
    modify (setMem (fillSlot slot content))
    markOnGpu b
    if cfg.enableWriteThrough then mirrorToHost cfg (seq, b) content
  else if cfg.enableWriteThrough then
    mirrorToHost cfg (seq, b) content
    beginEvict cfg.layerIdx b
    completeEvict cfg.layerIdx b
  else
    let cpuSlot ← allocOr exhausted
    modify (setMem (storeBlock cpuSlot content))
    modify (setCpuSlot (seq, b) cpuSlot)
    beginEvict cfg.layerIdx b
    completeEvict cfg.layerIdx b

/-- The first block that `trim_to_working_set` and `prefill_ingest_kvshare` keep: one slot of the arena
stays free for the live block. -/
def keepLo (capacity numFullBlocks : Nat) : Nat := numFullBlocks - min numFullBlocks (capacity - 1)

/-- `trim_to_working_set`: `engine` is `kv_cache`, `row b` the physical block of logical block `b`. -/
def trimToWorkingSet (seq : S) (numFullBlocks : Nat) (engine : Nat → KVBlock bs R) (row : Nat → Nat) :
    TierM S D M Unit := do
  if seq ∈ (← get).trimmed then pure ()
  else
    modify fun s => { s with trimmed := insert seq s.trimmed }
    let lo := keepLo (← get).slotMap.capacity numFullBlocks
    forM (List.range numFullBlocks) fun b =>
      keepOrSpill cfg seq lo .trimOverflow (.trimExhausted lo seq cfg.layerIdx) b (engine (row b))

/-! ### Residency on demand -/

def protectedKeys (s : TierManager S D M) (seq : S) : List (S × Nat) :=
  if cfg.blockOrdering = .mixture then ((s.prevSelected.get? seq).getD []).map fun b => (seq, b) else []

def setPrevSelected (seq : S) (ids : List Nat) : TierM S D M Unit :=
  if cfg.blockOrdering = .mixture then modify fun s => { s with prevSelected := s.prevSelected.insert seq ids }
  else pure ()

/-- The slot of the backup that `_ensure_one_sync` and `_ensure_one_async` load from: a durable host
slot is only read, a write-back slot is taken out of `_cpu_slots`. -/
def takeBackup (key : S × Nat) : TierM S D M (Option Nat) := do
  let s ← get
  if cfg.enableWriteThrough then pure (s.hostSlots.get? key)
  else
    set { s with cpuSlots := s.cpuSlots.erase key }
    pure (s.cpuSlots.get? key)

/-- `_ensure_one_sync` and `_ensure_one_async`, which differ in the stream of the copy only. -/
def ensureOne (seq : S) (block : Nat) : TierM S D M Unit := do
  let key := (seq, block)
  let s ← get
  if key ∈ s.slotMap.keys then modify (setSlotMap (s.slotMap.touch key))
  else
    match ← takeBackup cfg key with
    | none => throw (.notStored key)
    | some cpuSlot =>
      let slot ← claimSlot cfg key (protectedKeys cfg s seq)
      beginLoad cfg.layerIdx block
      modify (setMem (loadSlot cpuSlot slot))
      if ¬ cfg.enableWriteThrough then modify (freeCpu cpuSlot)
      completeLoad cfg.layerIdx block

def touchResident (seq : S) (ids keepIds : List Nat) : TierM S D M Unit :=
  forM (keepIds ++ ids) fun b =>
    modify fun s => if (seq, b) ∈ s.slotMap.keys then setSlotMap (s.slotMap.touch (seq, b)) s else s

def ensureResident (seq : S) (ids keepIds : List Nat) : TierM S D M Unit := do
  touchResident seq ids keepIds
  forM ids fun b => ensureOne cfg seq b
  if cfg.streamPool then modify (setMem syncH2d)

def logicalToSlot (seq : S) (block : Nat) : TierM S D M Nat := do
  match (← get).slotMap.get (seq, block) with
  | none => throw (.keyError (seq, block))
  | some (slot, m) =>
    modify (setSlotMap m)
    pure slot

/-- `prefetch_top_ids`; the event it registers only orders the streams. -/
def prefetchTopIds (seq : S) (ids : List Nat) : TierM S D M Unit := do
  if cfg.streamPool then
    forM ids fun b => do
      ensureOne cfg seq b
      if ¬ cfg.prefetchTouch then
        modify fun s => if (seq, b) ∈ s.slotMap.keys then setSlotMap (s.slotMap.demote (seq, b)) s else s

/-! ### Releasing a request -/

def freeRequest (seq : S) : TierM S D M Unit := do
  let s ← get
  let keys := s.slotMap.keys.filter fun k => k.1 = seq
  forM keys fun k => modify fun s => setSlotMap (s.slotMap.free k) s
  let cpuKeys := s.cpuSlots.entries.filter fun e => e.1.1 = seq
  forM cpuKeys fun e => modify fun s => freeCpu e.2 { s with cpuSlots := s.cpuSlots.erase e.1 }
  let hostKeys := s.hostSlots.entries.filter fun e => e.1.1 = seq
  forM hostKeys fun e => modify fun s => freeCpu e.2 { s with hostSlots := s.hostSlots.erase e.1 }
  modify fun s => { s with trimmed := s.trimmed.erase seq, prevSelected := s.prevSelected.erase seq }
  forM (keys ++ cpuKeys.map Prod.fst ++ hostKeys.map Prod.fst) fun k => markOnGpu k.2

end

/-! ### The shared-scratch mode -/

section

variable [DecidableEq S] [ReadableMemory M bs R] (cfg : TierConfig bs R D)

def blockAt (key value : Nat → R) (lo : Nat) : KVBlock bs R := ⟨fun i => key (lo + i), fun i => value (lo + i)⟩

def leadingRows (key value : Nat → R) (lo n : Nat) : Fin bs → Option (R × R) :=
  fun i => if i.val < n then some (key (lo + i), value (lo + i)) else none

/-- `prefill_ingest_kvshare`: the working set of a prompt of `promptLen` tokens, from this layer's K/V. -/
def prefillIngestKvshare (seq : S) (numFullBlocks : Nat) (key value : Nat → R) (promptLen : Option Nat) :
    TierM S D M Unit := do
  if seq ∈ (← get).trimmed then pure ()
  else
    modify fun s => { s with trimmed := insert seq s.trimmed }
    let lo := keepLo (← get).slotMap.capacity numFullBlocks
    forM (List.range numFullBlocks) fun b => do
      modify (setSummary b (cfg.digest (blockAt key value (b * bs) : KVBlock bs R).k))
      keepOrSpill cfg seq lo .ingestOverflow (.ingestExhausted lo seq cfg.layerIdx) b (blockAt key value (b * bs))
    match promptLen with
    | none => pure ()
    | some promptLen =>
      let tail := promptLen - numFullBlocks * bs
      if 0 < tail then
        let slot ← claimSlot cfg (seq, numFullBlocks) []
        if bs < tail then throw (.sizeMismatch tail)
        modify (setMem (writeRows slot (leadingRows key value (numFullBlocks * bs) tail)))
        markOnGpu numFullBlocks

/-- `append_decode_token_kvshare`: one decode token's K/V, at position `seqLenBefore`. -/
def appendDecodeTokenKvshare (seq : S) (seqLenBefore : Nat) (kTok vTok : R) : TierM S D M Unit := do
  let liveBlock := seqLenBefore / bs
  let offset := seqLenBefore % bs
  let slot ← claimSlot cfg (seq, liveBlock) []
  modify (setMem (writeRows slot fun i => if i.val = offset then some (kTok, vTok) else none))
  markOnGpu liveBlock
  if offset + 1 = bs then
    let s ← get
    modify (setSummary liveBlock (cfg.digest (ReadableMemory.readSlot s.mem slot).k))
    if cfg.enableWriteThrough then mirrorSlotToHost cfg (seq, liveBlock) slot

end

end KVOffload.Quest
