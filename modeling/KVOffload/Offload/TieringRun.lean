import KVOffload.Offload.Ledger
import KVOffload.Offload.Tiering

/-!
# Runs of the tiering manager

Jobs, promotions and transfers to and from the GPU are the transfers of one ledger, and every call keeps it.
-/

namespace KVOffload.Offload

open List CPUOffloadingManager TieringOffloadingManager

variable {Key : Type} {α : Type}

def JobMetadata.transfer (job : JobMetadata Key) : Transfer Key := ⟨job.keys, job.blockIds⟩

def PendingPromotion.transfer (entry : PendingPromotion Key) : Transfer Key := ⟨entry.keys, entry.blockIds⟩

namespace TieringOffloadingManager

variable {P Key ReqId : Type}

def jobs (promotion : Bool) (m : TieringOffloadingManager P Key ReqId) : List (Transfer Key) :=
  (m.transferJobs.values.filter (·.isPromotion = promotion)).map JobMetadata.transfer

def cascades (m : TieringOffloadingManager P Key ReqId) : List (Transfer Key) := m.jobs false

def promotions (m : TieringOffloadingManager P Key ReqId) : List (Transfer Key) :=
  m.pendingEntries.map PendingPromotion.transfer ++ m.jobs true

variable {m m' : TieringOffloadingManager P Key ReqId} {loads stores : List (Transfer Key)}
  {primaryTier : CPUOffloadingManager P Key} {job : JobMetadata Key} {id : Nat}

theorem jobs_perm_erase (hf : m.transferJobs.get? id = some job) (promotion : Bool) :
    (m.jobs promotion).Perm
      ((if job.isPromotion = promotion then [job.transfer] else []) ++
      (m.setJobs (m.transferJobs.erase id)).jobs promotion) := by
  have hs := ((OrderedDict.values_perm_erase hf).filter (·.isPromotion = promotion)).map JobMetadata.transfer
  by_cases kind : job.isPromotion = promotion <;> simpa [jobs, kind] using hs

section

variable (fresh : ∀ id ∈ m.transferJobs, id < m.jobIdCounter)

include fresh

theorem jobs_addJob (job : JobMetadata Key) (promotion : Bool) :
    (m.addJob job).jobs promotion = m.jobs promotion ++ if job.isPromotion = promotion then [job.transfer] else [] := by
  have new : m.jobIdCounter ∉ m.transferJobs := fun hm => Nat.lt_irrefl _ (fresh _ hm)
  have values := OrderedDict.values_insert_of_not_mem new job
  by_cases kind : job.isPromotion = promotion <;> simp [jobs, values, kind]

theorem fresh_addJob (job : JobMetadata Key) : ∀ id ∈ (m.addJob job).transferJobs, id < (m.addJob job).jobIdCounter := by
  intro id hm
  rcases OrderedDict.mem_insert.mp hm with rfl | old
  · exact Nat.lt_succ_self _
  · exact Nat.lt_succ_of_lt (fresh id old)

theorem foldl_addJob (entries : List (PendingPromotion Key)) :
    let m' := entries.foldl (fun m entry => m.addJob (promotionJob entry)) m
    (∀ id ∈ m'.transferJobs, id < m'.jobIdCounter) ∧ m'.primaryTier = m.primaryTier ∧ m'.cascades = m.cascades ∧
      m'.jobs true = m.jobs true ++ entries.map PendingPromotion.transfer := by
  induction entries generalizing m with
  | nil => exact ⟨fresh, rfl, rfl, by simp⟩
  | cons entry rest ih =>
    obtain ⟨fresh', primary, cascades, promotions⟩ := ih (fresh_addJob fresh (promotionJob entry))
    refine ⟨fresh', primary, ?_, ?_⟩
    · rw [foldl_cons, cascades, TieringOffloadingManager.cascades, jobs_addJob fresh]
      simp [promotionJob, TieringOffloadingManager.cascades]
    · rw [foldl_cons, promotions, jobs_addJob fresh]
      simp [promotionJob, PendingPromotion.transfer, JobMetadata.transfer]

end

theorem pendingEntries_queuePromotion [DecidableEq ReqId] (tier : Nat) (req : ReqId) (keys : List Key) (blockIds : List Nat) :
    ∃ (entry : Option (PendingPromotion Key)) (others : List (PendingPromotion Key)),
      m.pendingEntries.Perm (entry.toList ++ others) ∧
      (queuePromotion tier req keys blockIds m).pendingEntries.Perm
      (PendingPromotion.extend (entry.getD {}) keys blockIds :: others) := by
  let tierPending := (m.pendingLoadSubmissions.get? tier).getD .empty
  let otherTiers := (m.pendingLoadSubmissions.erase tier).values.flatMap fun pendingByCtx => pendingByCtx.values
  have before : m.pendingEntries.Perm (tierPending.values ++ otherTiers) := by
    have perm := (OrderedDict.values_perm_get? m.pendingLoadSubmissions tier).flatMap_right fun pendingByCtx => pendingByCtx.values
    refine perm.trans (.of_eq ?_)
    cases hf : m.pendingLoadSubmissions.get? tier with
    | none =>
      simp only [tierPending, hf, Option.toList_none]
      rfl
    | some pending => simp [tierPending, otherTiers, hf]
  have after := (OrderedDict.values_perm_insert m.pendingLoadSubmissions tier
    (tierPending.insert req (PendingPromotion.extend ((tierPending.get? req).getD {}) keys blockIds))).flatMap_right
      fun pendingByCtx => pendingByCtx.values
  refine ⟨tierPending.get? req, (tierPending.erase req).values ++ otherTiers, ?_, ?_⟩
  · rw [← append_assoc]
    exact before.trans ((OrderedDict.values_perm_get? tierPending req).append_right _)
  · exact after.trans ((OrderedDict.values_perm_insert tierPending req _).append_right _)

theorem wp_onPrimary {x : ManagerM P Key α} {a : α}
    (run : x m.primaryTier = .ok a primaryTier) {Q : α → TieringOffloadingManager P Key ReqId → Prop}
    {E : TieringError Key → TieringOffloadingManager P Key ReqId → Prop} (after : Q a (m.setPrimary primaryTier)) :
    wp (onPrimary x) Q E m := by
  rw [onPrimary, wp_onPart]
  exact (wp_of_ok run).mpr after

variable [DecidableEq Key] [CachePolicy P Key] [LawfulCachePolicy P Key]

variable (m loads stores) in
/-- `loads` and `stores` are the transfers between the GPU and the cache. -/
structure Consistent : Prop where
  ledger : Ledger m.primaryTier (loads ++ m.cascades) (stores ++ m.promotions)
  fresh : ∀ id ∈ m.transferJobs, id < m.jobIdCounter
  untracked : m.primaryTier.counts = none
  once : ∀ t ∈ m.promotions, t.keys.Nodup

section

variable (hc : m.Consistent loads stores)

include hc

theorem Consistent.setPrimary {loads' stores' : List (Transfer Key)}
    (counts : primaryTier.counts = m.primaryTier.counts)
    (ledger : Ledger primaryTier (loads' ++ m.cascades) (stores' ++ m.promotions)) :
    (m.setPrimary primaryTier).Consistent loads' stores' :=
  ⟨ledger, hc.fresh, counts.trans hc.untracked, hc.once⟩

theorem Consistent.pop (hf : m.transferJobs.get? id = some job) :
    let rest := m.setJobs (m.transferJobs.erase id)
    if job.isPromotion then Ledger m.primaryTier (loads ++ rest.cascades) (job.transfer :: (stores ++ rest.promotions))
    else Ledger m.primaryTier (job.transfer :: (loads ++ rest.cascades)) (stores ++ rest.promotions) := by
  have cascades := (jobs_perm_erase hf false).append_left loads
  have promotions := ((jobs_perm_erase hf true).append_left (m.pendingEntries.map PendingPromotion.transfer)).append_left stores
  cases kind : job.isPromotion with
  | true =>
    rw [kind, if_neg (by decide)] at cascades
    rw [kind] at promotions
    refine hc.ledger.perm cascades (promotions.trans ?_)
    rw [← append_assoc]
    exact perm_middle.trans (.of_eq (by rw [append_assoc]; rfl))
  | false =>
    rw [kind] at cascades
    rw [kind, if_neg (by decide)] at promotions
    exact hc.ledger.perm (cascades.trans perm_middle) promotions

theorem wp_finishJob {result : JobResult} (known : result.jobId ∈ m.transferJobs) (tier : Nat) :
    wp (finishJob tier result) (fun _ m' => m'.Consistent loads stores ∧ m'.transferJobs = m.transferJobs.erase result.jobId)
      (fun _ _ => False) m := by
  obtain ⟨job, hf⟩ := OrderedDict.mem_iff_get?.mp known
  obtain ⟨id, success⟩ := result
  have fresh : ∀ id' ∈ m.transferJobs.erase id, id' < m.jobIdCounter := fun id' hm => hc.fresh id' (OrderedDict.mem_erase.mp hm).2
  have once : ∀ t ∈ (m.setJobs (m.transferJobs.erase id)).promotions, t.keys.Nodup := by
    intro t hm
    refine hc.once t ((mem_append.mp hm).elim (mem_append_left _) fun rest => mem_append_right _ ?_)
    exact (jobs_perm_erase hf true).mem_iff.mpr (mem_append_right _ rest)
  have popped := hc.pop hf
  simp only [finishJob, wp_bind, wp_get, hf]
  cases kind : job.isPromotion with
  | true =>
    simp only [kind] at popped ⊢
    obtain ⟨p, run, ledger, _⟩ := popped.completeStore (fun _ => Iff.rfl) success
    obtain ⟨_, written⟩ := wp_ok (written_completeStore job.keys success) run
    refine wp_onPrimary (m := m.setJobs (m.transferJobs.erase id)) run ?_
    exact ⟨⟨ledger, fresh, written.counts.trans hc.untracked, once⟩, rfl⟩
  | false =>
    simp only [kind] at popped ⊢
    obtain ⟨p, run, ledger⟩ := popped.completeLoad (List.Perm.refl _)
    have written := wp_ok (written_completeLoad job.keys) run
    refine wp_onPrimary (m := m.setJobs (m.transferJobs.erase id)) run ?_
    exact ⟨⟨ledger, fresh, written.counts.trans hc.untracked, once⟩, rfl⟩

end

def reportedIds (finished : Nat → List JobResult) (tiers : List Nat) : List Nat :=
  tiers.flatMap fun tier => (finished tier).map (·.jobId)

variable (m) in
structure Reports (finished : Nat → List JobResult) : Prop where
  once : (reportedIds finished (List.range m.numTiers)).Nodup
  known : ∀ id ∈ reportedIds finished (List.range m.numTiers), id ∈ m.transferJobs

theorem wp_finishJobs {known : List Nat} {earlier : List Nat} {results : List JobResult}
    (once : (earlier ++ results.map (·.jobId)).Nodup) (reported : ∀ id ∈ results.map (·.jobId), id ∈ known)
    (hc : m.Consistent loads stores) (left : ∀ id ∈ known, id ∉ earlier → id ∈ m.transferJobs) (tier : Nat) :
    wp (forM results (finishJob tier))
      (fun _ m' => m'.Consistent loads stores ∧ ∀ id ∈ known, id ∉ earlier ++ results.map (·.jobId) → id ∈ m'.transferJobs)
      (fun _ _ => False) m := by
  refine wp_forM_handled
    (I := fun (done : List JobResult) (t : TieringOffloadingManager P Key ReqId) => t.Consistent loads stores ∧
      ∀ id ∈ known, id ∉ earlier ++ done.map (·.jobId) → id ∈ t.transferJobs)
    ?_ ⟨hc, by simpa using left⟩
  rintro done result rest rfl t ⟨hc, left⟩
  have new : result.jobId ∉ earlier ++ done.map (·.jobId) := by
    rw [map_append, ← append_assoc] at once
    intro hm
    exact (disjoint_of_nodup_append once) hm (.head _)
  refine wp_imp (wp_finishJob hc (left _ (reported _ (by simp)) new) tier) ?_
  rintro _ t' ⟨hc, jobs⟩
  refine ⟨hc, ?_⟩
  intro id hm other
  simp only [map_append, map_cons, map_nil, mem_append, mem_singleton, not_or] at other
  rw [jobs]
  refine OrderedDict.mem_erase.mpr ⟨other.2.2, left id hm ?_⟩
  simpa using ⟨other.1, by simpa using other.2.1⟩

variable {finished : Nat → List JobResult}

variable (hc : m.Consistent loads stores)

include hc in
theorem wp_processFinishedJobs (reports : m.Reports finished) :
    wp (processFinishedJobs finished) (fun _ m' => m'.Consistent loads stores) (fun _ _ => False) m := by
  simp only [processFinishedJobs, wp_bind, wp_get]
  obtain ⟨once, known⟩ := reports
  generalize range m.numTiers = tiers at once known ⊢
  refine wp_imp (wp_forM_handled
    (I := fun done t => t.Consistent loads stores ∧
      ∀ id ∈ m.transferJobs.keys, id ∉ reportedIds finished done → id ∈ t.transferJobs)
    ?_ ⟨hc, fun id hm _ => hm⟩) (fun _ _ h => h.1)
  rintro done tier rest rfl t ⟨hc, left⟩
  have split : reportedIds finished (done ++ tier :: rest) =
      (reportedIds finished done ++ (finished tier).map (·.jobId)) ++ reportedIds finished rest := by
    simp [reportedIds]
  rw [split] at once known
  refine wp_imp (wp_finishJobs (once.sublist (sublist_append_left _ _)) ?_ hc left tier) ?_
  · intro id hm
    exact known id (mem_append_left _ (mem_append_right _ hm))
  · rintro _ t' ⟨hc, left⟩
    refine ⟨hc, ?_⟩
    simpa [reportedIds] using left

variable (m finished) in
def Polls : Prop :=
  m.processedJobsThisStep = false → m.Reports finished

include hc in
theorem wp_maybeProcessFinishedJobs (polls : m.Polls finished) :
    wp (maybeProcessFinishedJobs finished) (fun _ m' => m'.Consistent loads stores) (fun _ _ => False) m := by
  simp only [maybeProcessFinishedJobs, wp_bind, wp_get]
  cases processed : m.processedJobsThisStep with
  | true => exact hc
  | false =>
    have reports := polls processed
    exact wp_processFinishedJobs ⟨hc.ledger, hc.fresh, hc.untracked, hc.once⟩ ⟨reports.once, reports.known⟩

variable {keys keys' : List Key} {ids : List Nat}

section

variable [DecidableEq ReqId]

theorem Consistent.queuePromotion {blockIds : List Nat}
    (hc : m.Consistent loads (⟨keys, blockIds⟩ :: stores)) (hd : keys.Nodup) (tier : Nat) (req : ReqId) :
    (queuePromotion tier req keys blockIds m).Consistent loads stores := by
  obtain ⟨entry, others, before, after⟩ := pendingEntries_queuePromotion tier req keys blockIds
  let rest := stores ++ (others.map PendingPromotion.transfer ++ m.jobs true)
  have moved : (stores ++ m.promotions).Perm (entry.toList.map PendingPromotion.transfer ++ rest) := by
    have perm := ((before.map PendingPromotion.transfer).append_right (m.jobs true)).append_left stores
    refine perm.trans ?_
    rw [map_append, append_assoc]
    exact perm_append_comm_assoc ..
  have ledger := hc.ledger.perm (List.Perm.refl _) (moved.cons _)
  have merged : Ledger m.primaryTier (loads ++ m.cascades)
      ((PendingPromotion.extend (entry.getD {}) keys blockIds).transfer :: rest) := by
    cases entry with
    | none => exact ledger
    | some entry => exact (ledger.perm (List.Perm.refl _) (List.Perm.swap ..)).merge
  have old : ∀ t ∈ entry.toList.map PendingPromotion.transfer ++ (others.map PendingPromotion.transfer ++ m.jobs true),
      t.keys.Nodup := by
    intro t hm
    refine hc.once t ?_
    rw [← append_assoc, ← map_append] at hm
    exact ((before.map PendingPromotion.transfer).append_right (m.jobs true)).mem_iff.mpr hm
  have promotions : (TieringOffloadingManager.queuePromotion tier req keys blockIds m).promotions.Perm
      ((PendingPromotion.extend (entry.getD {}) keys blockIds).transfer :: (others.map PendingPromotion.transfer ++ m.jobs true)) :=
    (after.map PendingPromotion.transfer).append_right _
  refine ⟨?_, hc.fresh, hc.untracked, ?_⟩
  · exact merged.perm (List.Perm.refl _) (perm_middle.symm.trans (promotions.symm.append_left _))
  intro t hm
  rcases mem_cons.mp (promotions.mem_iff.mp hm) with rfl | other
  · cases entry with
    | none => simpa [PendingPromotion.extend, PendingPromotion.transfer] using hd
    | some entry =>
      refine nodup_append'.mpr ⟨old entry.transfer (.head _), hd, ?_⟩
      intro key inEntry new
      -- The ledger has one writer for each key.
      obtain ⟨_, _, _, unwritten⟩ := ledger.written new
      have written : 0 < writers (entry.transfer :: rest) key := writers_pos (.head _) inEntry
      exact absurd written (by simpa using unwritten)
  · exact old t (mem_append_right _ other)

include hc in
theorem wp_initiatePromotion (tier : Nat) (key : Key) (req : ReqId) :
    wp (initiatePromotion tier key req) (fun _ m' => m'.Consistent loads stores) (fun _ _ => False) m := by
  obtain ⟨out, p, run, stored⟩ := wp_total (hc.ledger.prepareStore [key]) (fun _ _ h => h)
  have written := wp_ok (written_prepareStore hc.ledger.slots [key]) run
  rw [initiatePromotion, wp_bind]
  refine wp_onPrimary run ?_
  rcases stored with ⟨rfl, rfl⟩ | ⟨o, rfl, stored, ledger⟩
  · exact hc
  · have hd : o.keysToStore.Nodup := by
      rw [stored.keysToStore]
      exact (nodup_singleton key).sublist (keysToStore_sublist _ _)
    have started : (m.setPrimary p).Consistent loads (⟨o.keysToStore, o.storeSpec⟩ :: stores) :=
      hc.setPrimary written.counts ledger
    exact started.queuePromotion hd tier req

include hc in
theorem wp_lookupTiers (key : Key) (req : ReqId) (answers : Nat → Option Bool)
    (tiers : List Nat) (anyNone : Bool) :
    wp (lookupTiers key req answers tiers anyNone) (fun _ m' => m'.Consistent loads stores) (fun _ _ => False) m := by
  induction tiers generalizing anyNone with
  | nil => exact hc
  | cons tier rest ih =>
    unfold lookupTiers
    split
    · rw [wp_bind]
      exact wp_initiatePromotion hc tier key req
    · exact ih anyNone
    · exact ih true

include hc in
theorem wp_lookup (polls : m.Polls finished)
    (key : Key) (req : ReqId) (answers : Nat → Option Bool) :
    wp (lookup finished key req answers) (fun _ m' => m'.Consistent loads stores) (fun _ _ => False) m := by
  rw [lookup, wp_bind]
  refine wp_imp (wp_maybeProcessFinishedJobs hc polls) ?_
  intro _ m₁ hc
  have looked : (m₁.setPrimary (m₁.primaryTier.setCounts (m₁.primaryTier.counts.map
      (trackLookup key m₁.primaryTier.maxTrackerSize)))).Consistent loads stores :=
    ⟨hc.ledger.of_same hc.ledger.slots.inv rfl rfl rfl rfl, hc.fresh, by simp [hc.untracked], hc.once⟩
  rw [wp_bind, onPrimary, wp_onPart, CPUOffloadingManager.lookup]
  simp only [wp_bind, wp_get, wp_ensure, wp_modify]
  refine ⟨fun _ => ?_, fun limit => absurd (by simp [hc.untracked]) limit⟩
  split
  · exact wp_lookupTiers looked key req answers _ false
  · split
    · exact looked
    · exact looked

end

include hc in
theorem Consistent.flushPendingPromotions :
    m.flushPendingPromotions.Consistent loads stores := by
  obtain ⟨fresh, primary, cascades, promotions⟩ := foldl_addJob hc.fresh m.pendingEntries
  generalize flushed : m.pendingEntries.foldl (fun m entry => m.addJob (promotionJob entry)) m = m' at *
  have shape : m.flushPendingPromotions = { m' with pendingLoadSubmissions := .empty } := by
    rw [← flushed]
    rfl
  rw [shape]
  have perm : m.promotions.Perm ({ m' with pendingLoadSubmissions := .empty } : TieringOffloadingManager P Key ReqId).promotions := by
    refine perm_append_comm.trans (.of_eq ?_)
    rw [← promotions]
    rfl
  refine ⟨?_, fresh, ?_, fun t hm => hc.once t (perm.mem_iff.mpr hm)⟩
  · have ledger := hc.ledger
    rw [← primary, ← cascades] at ledger
    exact ledger.perm (List.Perm.refl _) (perm.append_left _)
  · exact (congrArg counts primary).trans hc.untracked

include hc in
theorem wp_prepareLoad (polls : m.Polls finished)
    (ready : ∀ u m₁, maybeProcessFinishedJobs finished m = .ok u m₁ → m₁.primaryTier.Ready keys) :
    wp (prepareLoad finished keys) (fun ids m' => m'.Consistent (⟨keys, ids⟩ :: loads) stores) (fun _ _ => False) m := by
  obtain ⟨u, m₁, polled, hc⟩ := wp_total (wp_maybeProcessFinishedJobs hc polls) (fun _ _ h => h)
  obtain ⟨ids, p, run, ledger, _⟩ := hc.ledger.prepareLoad (ready u m₁ polled)
  rw [prepareLoad, wp_bind, wp_of_ok polled]
  refine wp_onPrimary run ?_
  exact hc.setPrimary (wp_ok (written_prepareLoad keys) run).counts ledger

theorem wp_completeLoad (hc : m.Consistent (⟨keys, ids⟩ :: loads) stores)
    (hs : keys'.Perm keys) :
    wp (completeLoad keys') (fun _ m' => m'.Consistent loads stores) (fun _ _ => False) m := by
  obtain ⟨p, run, ledger⟩ := hc.ledger.completeLoad hs
  refine wp_onPrimary run ?_
  exact hc.setPrimary (wp_ok (written_completeLoad keys') run).counts ledger

include hc in
theorem wp_prepareStore (polls : m.Polls finished) (keys : List Key) :
    wp (prepareStore finished keys)
      (fun out m' => m'.Consistent loads (out.toList.map (fun o => ⟨o.keysToStore, o.storeSpec⟩) ++ stores))
      (fun _ _ => False) m := by
  rw [prepareStore, wp_bind]
  refine wp_imp (wp_maybeProcessFinishedJobs hc polls) ?_
  intro _ m₁ hc
  obtain ⟨out, p, run, stored⟩ := wp_total (hc.ledger.prepareStore keys) (fun _ _ h => h)
  refine wp_onPrimary run ?_
  refine hc.setPrimary (wp_ok (written_prepareStore hc.ledger.slots keys) run).counts ?_
  rcases stored with ⟨rfl, rfl⟩ | ⟨o, rfl, _, ledger⟩
  · exact hc.ledger
  · exact ledger

include hc in
theorem wp_cascade (ready : m.primaryTier.Ready keys) :
    wp (cascade keys) (fun _ m' => m'.Consistent loads stores ∧ m'.primaryTier.Ready keys) (fun _ _ => False) m := by
  obtain ⟨ids, p, run, ledger, recounted⟩ := hc.ledger.prepareLoad ready
  have written := wp_ok (written_prepareLoad keys) run
  rw [cascade, wp_bind]
  refine wp_onPrimary run ?_
  have promotions : ((m.setPrimary p).addJob ⟨keys, ids, false⟩).promotions = m.promotions :=
    congrArg (m.pendingEntries.map PendingPromotion.transfer ++ ·)
      ((jobs_addJob hc.fresh _ true).trans (append_nil _))
  refine ⟨⟨?_, fresh_addJob hc.fresh _, written.counts.trans hc.untracked, ?_⟩, ?_⟩
  · have cascades : ((m.setPrimary p).addJob ⟨keys, ids, false⟩).cascades = m.cascades ++ [⟨keys, ids⟩] :=
      jobs_addJob hc.fresh _ false
    rw [cascades, promotions, ← append_assoc]
    exact ledger.perm (perm_append_singleton _ _).symm (List.Perm.refl _)
  · rw [promotions]
    exact hc.once
  · intro key hm
    obtain ⟨b, hf, nonneg⟩ := ready key hm
    exact ⟨_, recounted.after hf, Int.add_nonneg nonneg (Int.natCast_nonneg _)⟩

theorem wp_completeStore (hc : m.Consistent loads (⟨keys, ids⟩ :: stores))
    (hs : ∀ key, key ∈ keys' ↔ key ∈ keys) (success : Bool) :
    wp (completeStore keys' success) (fun _ m' => m'.Consistent loads stores) (fun _ _ => False) m := by
  obtain ⟨p, run, ledger, ready⟩ := hc.ledger.completeStore hs success
  obtain ⟨_, written⟩ := wp_ok (written_completeStore keys' success) run
  have hc := hc.setPrimary written.counts ledger
  rw [completeStore, wp_bind]
  refine wp_onPrimary run ?_
  simp only [wp_onlyIf, wp_bind, wp_get]
  refine ⟨fun succeeded => ?_, fun _ => hc⟩
  refine wp_imp (wp_forM (I := fun m' =>
    m'.Consistent loads stores ∧ m'.primaryTier.Ready keys') ?_ ⟨hc, ready succeeded⟩) (fun _ _ h => h.1)
  rintro _ _ m' ⟨hc, ready⟩
  exact wp_cascade hc ready

include hc in
theorem Consistent.touch (keys : List Key) : (m.touch keys).Consistent loads stores := by
  have inv := hc.ledger.slots.inv
  refine ⟨hc.ledger.of_same (LawfulCachePolicy.inv_touch inv keys) ?_ rfl rfl rfl, hc.fresh, hc.untracked, hc.once⟩
  funext key
  exact LawfulCachePolicy.get_touch inv keys key

include hc in
theorem wp_takeEvents (polls : m.Polls finished) :
    wp (takeEvents finished) (fun _ m' => m'.Consistent loads stores) (fun _ _ => False) m := by
  rw [takeEvents, wp_bind]
  refine wp_imp (wp_maybeProcessFinishedJobs hc polls) ?_
  intro _ m₁ hc
  have flushed := hc.flushPendingPromotions
  exact ⟨flushed.ledger.of_same flushed.ledger.slots.inv rfl rfl rfl rfl, flushed.fresh, flushed.untracked, flushed.once⟩

end TieringOffloadingManager

variable (Key ReqId : Type) in
/-- The calls of the manager, with what the tiers report and answer. A call that ends a transfer says which one. -/
inductive TieringCall where
  | lookup (finished : Nat → List JobResult) (key : Key) (req : ReqId) (answers : Nat → Option Bool)
  | prepareLoad (finished : Nat → List JobResult) (keys : List Key)
  | completeLoad (load : Transfer Key) (keys : List Key)
  | prepareStore (finished : Nat → List JobResult) (keys : List Key)
  | completeStore (store : Transfer Key) (keys : List Key) (success : Bool)
  | touch (keys : List Key)
  | takeEvents (finished : Nat → List JobResult)

structure TieringRun (P Key ReqId : Type) where
  manager : TieringOffloadingManager P Key ReqId
  loads : List (Transfer Key) := []
  stores : List (Transfer Key) := []

namespace TieringRun

variable {P Key ReqId : Type} [DecidableEq Key] [DecidableEq ReqId] [CachePolicy P Key]

def init (numBlocks : Nat) (enableEvents : Bool) (numTiers : Nat) : TieringRun P Key ReqId where
  manager := { primaryTier := .init numBlocks enableEvents 1 64000, numTiers }

def onManager (x : TieringM P Key ReqId α) : EStateM (TieringError Key) (TieringRun P Key ReqId) α :=
  onPart (·.manager) (fun manager r => { r with manager }) id x

def exec : TieringCall Key ReqId → EStateM (TieringError Key) (TieringRun P Key ReqId) Unit
  | .lookup finished key req answers => discard (onManager (lookup finished key req answers))
  | .prepareLoad finished keys => do
    let slots ← onManager (prepareLoad finished keys)
    modify fun r => { r with loads := ⟨keys, slots⟩ :: r.loads }
  | .completeLoad load keys => do
    onManager (completeLoad keys)
    modify fun r => { r with loads := r.loads.erase load }
  | .prepareStore finished keys => do
    let out ← onManager (prepareStore finished keys)
    modify fun r => { r with stores := out.toList.map (fun o => ⟨o.keysToStore, o.storeSpec⟩) ++ r.stores }
  | .completeStore store keys success => do
    onManager (completeStore keys success)
    modify fun r => { r with stores := r.stores.erase store }
  | .touch keys => modify fun r => { r with manager := r.manager.touch keys }
  | .takeEvents finished => discard (onManager (takeEvents finished))

/-- What the manager may expect: tiers report their jobs once, `prepare_load` is called for blocks that are ready once
the finished jobs are processed, and a transfer is ended with the keys it was started with. -/
def Enabled (r : TieringRun P Key ReqId) : TieringCall Key ReqId → Prop
  | .lookup finished _ _ _ => r.manager.Polls finished
  | .prepareLoad finished keys => r.manager.Polls finished ∧
      ∀ u m, maybeProcessFinishedJobs finished r.manager = .ok u m → m.primaryTier.Ready keys
  | .completeLoad load keys => load ∈ r.loads ∧ keys.Perm load.keys
  | .prepareStore finished _ => r.manager.Polls finished
  | .completeStore store keys _ => store ∈ r.stores ∧ ∀ key, key ∈ keys ↔ key ∈ store.keys
  | .touch _ => True
  | .takeEvents finished => r.manager.Polls finished

inductive Reachable (numBlocks : Nat) (enableEvents : Bool) (numTiers : Nat) : TieringRun P Key ReqId → Prop
  | start : Reachable numBlocks enableEvents numTiers (init numBlocks enableEvents numTiers)
  | step {r r' : TieringRun P Key ReqId} {c : TieringCall Key ReqId} (reached : Reachable numBlocks enableEvents numTiers r)
      (enabled : r.Enabled c) (run : exec c r = .ok () r') : Reachable numBlocks enableEvents numTiers r'

variable [LawfulCachePolicy P Key] {r : TieringRun P Key ReqId}

omit [DecidableEq ReqId] in
theorem consistent_init (numBlocks : Nat) (enableEvents : Bool) (numTiers : Nat) :
    (init numBlocks enableEvents numTiers : TieringRun P Key ReqId).manager.Consistent [] [] where
  ledger := Ledger.empty numBlocks enableEvents 1 64000
  fresh id hm := absurd hm (OrderedDict.not_mem_empty id)
  untracked := rfl
  once t hm := by simp [init, promotions, pendingEntries, jobs, OrderedDict.values, OrderedDict.empty] at hm

theorem wp_exec (hc : r.manager.Consistent r.loads r.stores) {c : TieringCall Key ReqId}
    (enabled : r.Enabled c) :
    wp (exec c) (fun _ r' => r'.manager.Consistent r'.loads r'.stores) (fun _ _ => False) r := by
  cases c with
  | lookup finished key req answers =>
    rw [exec, wp_discard, onManager, wp_onPart]
    exact TieringOffloadingManager.wp_lookup hc enabled key req answers
  | prepareLoad finished keys =>
    rw [exec, wp_bind, onManager, wp_onPart]
    exact wp_prepareLoad hc enabled.1 enabled.2
  | completeLoad load keys =>
    obtain ⟨inFlight, hs⟩ := enabled
    have first : r.manager.Consistent (load :: r.loads.erase load) r.stores :=
      ⟨hc.ledger.perm ((perm_cons_erase inFlight).append_right _) (List.Perm.refl _), hc.fresh, hc.untracked, hc.once⟩
    rw [exec, wp_bind, onManager, wp_onPart]
    exact wp_completeLoad first hs
  | prepareStore finished keys =>
    rw [exec, wp_bind, onManager, wp_onPart]
    exact wp_prepareStore hc enabled keys
  | completeStore store keys success =>
    obtain ⟨inFlight, hs⟩ := enabled
    have first : r.manager.Consistent r.loads (store :: r.stores.erase store) :=
      ⟨hc.ledger.perm (List.Perm.refl _) ((perm_cons_erase inFlight).append_right _), hc.fresh, hc.untracked, hc.once⟩
    rw [exec, wp_bind, onManager, wp_onPart]
    exact wp_completeStore first hs success
  | touch keys => exact hc.touch keys
  | takeEvents finished =>
    rw [exec, wp_discard, onManager, wp_onPart]
    exact wp_takeEvents hc enabled

theorem Reachable.consistent {numBlocks : Nat} {enableEvents : Bool} {numTiers : Nat}
    (reached : Reachable numBlocks enableEvents numTiers r) : r.manager.Consistent r.loads r.stores := by
  induction reached with
  | start => exact consistent_init numBlocks enableEvents numTiers
  | step _ enabled run ih =>
    have after := wp_ok (wp_exec ih enabled) run
    exact after

end TieringRun

/-- In every state of every interleaving: a block counts its readers, or one GPU store or promotion writes it; transfers in
flight work on the slots of their blocks, which nobody else gets; a key has at most one promotion; no call raises. -/
theorem tiering_of_run {Key ReqId : Type} [DecidableEq Key] [DecidableEq ReqId] (name : CachePolicyName) (numBlocks : Nat)
    (enableEvents : Bool) (numTiers : Nat) {r : TieringRun (name.Policy Key) Key ReqId}
    (reached : r.Reachable numBlocks enableEvents numTiers) :
    (∀ key b, r.manager.primaryTier.block key = some b →
      (b.refCnt = readers r.loads key + readers r.manager.cascades key ∧
          writers r.stores key + writers r.manager.promotions key = 0) ∨
        (b.refCnt = -1 ∧ readers r.loads key + readers r.manager.cascades key = 0 ∧
          writers r.stores key + writers r.manager.promotions key = 1)) ∧
      (∀ t ∈ r.loads ++ r.manager.cascades ++ (r.stores ++ r.manager.promotions), t.InPlace r.manager.primaryTier) ∧
      (∀ key, (r.manager.promotions.map (·.keys.count key)).sum ≤ 1) ∧
      ∀ c, r.Enabled c → ∃ r', TieringRun.exec c r = .ok () r' := by
  have consistent := reached.consistent
  refine ⟨?_, consistent.ledger.inPlace, ?_, ?_⟩
  · intro key b found
    have busy := consistent.ledger.busy key b found
    rw [readers_append, writers_append] at busy
    exact busy
  · intro key
    have once : (r.manager.promotions.map (·.keys.count key)).sum = writers r.manager.promotions key :=
      readers_eq_writers consistent.once key
    have total := writers_append r.stores r.manager.promotions key
    cases found : r.manager.primaryTier.block key with
    | none =>
      have := consistent.ledger.absent key found
      omega
    | some b =>
      have := consistent.ledger.busy key b found
      omega
  · intro c enabled
    obtain ⟨_, r', run, _⟩ := wp_total (TieringRun.wp_exec consistent enabled) (fun _ _ h => h)
    exact ⟨r', run⟩

theorem tiering_of_run_one_store :
    let r : TieringRun (CachePolicyName.lru.Policy Nat) Nat Nat :=
      finalState (TieringRun.exec (.prepareStore (fun _ => []) [7])) (.init 1 false 1)
    r.stores = [⟨[7], [0]⟩] ∧ ∃ r', TieringRun.exec (.completeStore ⟨[7], [0]⟩ [7] true) r = .ok () r' := by
  intro r
  have polls : (TieringRun.init 1 false 1 : TieringRun (CachePolicyName.lru.Policy Nat) Nat Nat).manager.Polls fun _ => [] :=
    fun _ => ⟨List.nodup_nil, fun _ member => nomatch member⟩
  have reached : r.Reachable 1 false 1 := .step .start (c := .prepareStore (fun _ => []) [7]) polls rfl
  refine ⟨rfl, (tiering_of_run .lru 1 false 1 reached).2.2.2 _ ⟨?_, fun _ => Iff.rfl⟩⟩
  exact .head _

end KVOffload.Offload
