import KVOffload.Offload.CPUManager

/-!
# The tiering manager

`TieringOffloadingManager` (`vllm/v1/kv_offload/tiering/manager.py`): a CPU cache with slower tiers behind it. What the tiers
answer is a parameter of each call, and a job submitted to them leaves its trace in `transferJobs`.
-/

namespace KVOffload.Offload

structure PendingPromotion (Key : Type) where
  keys : List Key := []
  blockIds : List Nat := []
deriving DecidableEq, Repr

structure JobMetadata (Key : Type) where
  keys : List Key
  blockIds : List Nat
  isPromotion : Bool
deriving DecidableEq, Repr

structure JobResult where
  jobId : Nat
  success : Bool
deriving DecidableEq, Repr

inductive TieringError (Key : Type) where
  | unknownJob (jobId tier : Nat)
  | primary (error : OffloadError Key)
deriving DecidableEq, Repr

structure TieringOffloadingManager (P Key ReqId : Type) where
  primaryTier : CPUOffloadingManager P Key
  numTiers : Nat
  jobIdCounter : Nat := 0
  transferJobs : OrderedDict Nat (JobMetadata Key) := .empty
  pendingLoadSubmissions : OrderedDict Nat (OrderedDict ReqId (PendingPromotion Key)) := .empty
  processedJobsThisStep : Bool := false

abbrev TieringM (P Key ReqId : Type) := EStateM (TieringError Key) (TieringOffloadingManager P Key ReqId)

namespace TieringOffloadingManager

variable {P Key ReqId : Type} [DecidableEq Key] [DecidableEq ReqId] [CachePolicy P Key]

@[simps] def setPrimary (primaryTier : CPUOffloadingManager P Key) (m : TieringOffloadingManager P Key ReqId) :
    TieringOffloadingManager P Key ReqId := { m with primaryTier }

@[simps] def setJobs (transferJobs : OrderedDict Nat (JobMetadata Key)) (m : TieringOffloadingManager P Key ReqId) :
    TieringOffloadingManager P Key ReqId := { m with transferJobs }

@[simps] def setProcessed (processedJobsThisStep : Bool) (m : TieringOffloadingManager P Key ReqId) :
    TieringOffloadingManager P Key ReqId := { m with processedJobsThisStep }

def onPrimary {α : Type} (x : ManagerM P Key α) : TieringM P Key ReqId α :=
  onPart (·.primaryTier) setPrimary .primary x

@[simps] def addJob (job : JobMetadata Key) (m : TieringOffloadingManager P Key ReqId) : TieringOffloadingManager P Key ReqId :=
  { m with transferJobs := m.transferJobs.insert m.jobIdCounter job, jobIdCounter := m.jobIdCounter + 1 }

def finishJob (tier : Nat) (completedJob : JobResult) : TieringM P Key ReqId Unit := do
  match (← get).transferJobs.get? completedJob.jobId with
  | none => throw (.unknownJob completedJob.jobId tier)
  | some job => do
    modify fun m => m.setJobs (m.transferJobs.erase completedJob.jobId)
    if job.isPromotion then onPrimary (CPUOffloadingManager.completeStore job.keys completedJob.success)
    else onPrimary (CPUOffloadingManager.completeLoad job.keys)

/-- `finished` is what `get_finished` of each tier returns. -/
def processFinishedJobs (finished : Nat → List JobResult) : TieringM P Key ReqId Unit := do
  forM (List.range (← get).numTiers) fun tier => forM (finished tier) (finishJob tier)

def maybeProcessFinishedJobs (finished : Nat → List JobResult) : TieringM P Key ReqId Unit := do
  if (← get).processedJobsThisStep then return
  else do
    modify (setProcessed true)
    processFinishedJobs finished

def PendingPromotion.extend (entry : PendingPromotion Key) (keys : List Key) (blockIds : List Nat) : PendingPromotion Key :=
  ⟨entry.keys ++ keys, entry.blockIds ++ blockIds⟩

def queuePromotion (tier : Nat) (req : ReqId) (keys : List Key) (blockIds : List Nat)
    (m : TieringOffloadingManager P Key ReqId) : TieringOffloadingManager P Key ReqId :=
  let tierPending := (m.pendingLoadSubmissions.get? tier).getD .empty
  let entry := (tierPending.get? req).getD {}
  { m with pendingLoadSubmissions :=
      m.pendingLoadSubmissions.insert tier (tierPending.insert req (PendingPromotion.extend entry keys blockIds)) }

def initiatePromotion (tier : Nat) (key : Key) (req : ReqId) : TieringM P Key ReqId Bool := do
  match ← onPrimary (CPUOffloadingManager.prepareStore [key]) with
  | none => return false
  | some out => do
    modify (queuePromotion tier req out.keysToStore out.storeSpec)
    return true

def lookupTiers (key : Key) (req : ReqId) (answers : Nat → Option Bool) : List Nat → Bool → TieringM P Key ReqId (Option Bool)
  | [], anyNone => return if anyNone then none else some false
  | tier :: rest, anyNone =>
    match answers tier with
    | some true => do
      let started ← initiatePromotion tier key req
      return if started then none else some false
    | some false => lookupTiers key req answers rest anyNone
    | none => lookupTiers key req answers rest true

def lookup (finished : Nat → List JobResult) (key : Key) (req : ReqId) (answers : Nat → Option Bool) :
    TieringM P Key ReqId (Option Bool) := do
  maybeProcessFinishedJobs finished
  let primaryHit ← onPrimary (CPUOffloadingManager.lookup key)
  if primaryHit = some false then lookupTiers key req answers (List.range (← get).numTiers) false
  else return primaryHit

def pendingEntries (m : TieringOffloadingManager P Key ReqId) : List (PendingPromotion Key) :=
  m.pendingLoadSubmissions.values.flatMap fun pendingByCtx => pendingByCtx.values

def promotionJob (entry : PendingPromotion Key) : JobMetadata Key := ⟨entry.keys, entry.blockIds, true⟩

def flushPendingPromotions (m : TieringOffloadingManager P Key ReqId) : TieringOffloadingManager P Key ReqId :=
  { m.pendingEntries.foldl (fun m entry => m.addJob (promotionJob entry)) m with pendingLoadSubmissions := .empty }

def prepareLoad (finished : Nat → List JobResult) (keys : List Key) : TieringM P Key ReqId (List Nat) := do
  maybeProcessFinishedJobs finished
  onPrimary (CPUOffloadingManager.prepareLoad keys)

def touch (keys : List Key) (m : TieringOffloadingManager P Key ReqId) : TieringOffloadingManager P Key ReqId :=
  m.setPrimary (m.primaryTier.touch keys)

def completeLoad (keys : List Key) : TieringM P Key ReqId Unit := onPrimary (CPUOffloadingManager.completeLoad keys)

def prepareStore (finished : Nat → List JobResult) (keys : List Key) :
    TieringM P Key ReqId (Option (PrepareStoreOutput Key)) := do
  maybeProcessFinishedJobs finished
  onPrimary (CPUOffloadingManager.prepareStore keys)

def cascade (keys : List Key) : TieringM P Key ReqId Unit := do
  let blockIds ← onPrimary (CPUOffloadingManager.prepareLoad keys)
  modify (addJob ⟨keys, blockIds, false⟩)

def completeStore (keys : List Key) (success : Bool) : TieringM P Key ReqId Unit := do
  onPrimary (CPUOffloadingManager.completeStore keys success)
  onlyIf (success = true) (do forM (List.range (← get).numTiers) fun _ => cascade keys)

def takeEvents (finished : Nat → List JobResult) : TieringM P Key ReqId (List (OffloadingEvent Key)) := do
  maybeProcessFinishedJobs finished
  modify flushPendingPromotions
  modify (setProcessed false)
  onPrimary CPUOffloadingManager.takeEvents

/-- The method of the base class, which does nothing. -/
def resetCache (m : TieringOffloadingManager P Key ReqId) : TieringOffloadingManager P Key ReqId := m

end TieringOffloadingManager

end KVOffload.Offload
