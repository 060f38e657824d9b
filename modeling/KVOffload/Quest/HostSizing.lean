import KVOffload.Quest.DecodeStep
import KVOffload.Quest.Prefill

/-!
# The size of the pinned pool

`QuestConfig.resolve_cpu_blocks_per_layer` sizes the pool for the write-through mode. `Provisioned` is why it suffices.
-/

namespace KVOffload.Quest

open List OrderedDict

structure QuestConfig where
  cpuCacheBlocks : Nat
  cpuCacheGib : Option Nat
  enableWriteThrough : Bool
  deriving DecidableEq

inductive SizingError where
  | zeroDivision
  /-- `RuntimeError`: "Quest write-through needs the host pool to back the whole sequence: need .. blocks/layer
  (cdiv(.., ..) * ..) but the configured ceiling is only .. (cpu_cache_blocks=.., cpu_cache_gib=..)". -/
  | ceilingTooLow (need maxModelLen blockSize maxNumSeqs ceiling cpuCacheBlocks : Nat) (cpuCacheGib : Option Nat)
  deriving DecidableEq

def cdiv (a b : Nat) : Nat := (a + b - 1) / b

def resolveCpuBlocksPerLayer (config : QuestConfig) (pageSizeBytes numQuestLayers : Nat)
    (maxModelLen maxNumSeqs blockSize : Option Nat) : Except SizingError Nat := do
  if numQuestLayers = 0 then return 0
  let ceiling ← match config.cpuCacheGib with
    | none => pure config.cpuCacheBlocks
    | some gib =>
      if pageSizeBytes = 0 then throw .zeroDivision
      else pure (min config.cpuCacheBlocks (gib * 1024 ^ 3 / pageSizeBytes / numQuestLayers))
  match maxModelLen, maxNumSeqs, blockSize with
  | some maxModelLen, some maxNumSeqs, some blockSize =>
    if blockSize = 0 then throw .zeroDivision
    else
      let need := cdiv maxModelLen blockSize * maxNumSeqs
      if ceiling < need then
        if config.enableWriteThrough then
          throw (.ceilingTooLow need maxModelLen blockSize maxNumSeqs ceiling config.cpuCacheBlocks config.cpuCacheGib)
        else pure ceiling
      else pure need
  | _, _, _ => pure ceiling

theorem resolve_eq_need {config : QuestConfig} {pageSizeBytes numQuestLayers maxModelLen maxNumSeqs blockSize blocks : Nat}
    (sized : resolveCpuBlocksPerLayer config pageSizeBytes numQuestLayers (some maxModelLen) (some maxNumSeqs)
      (some blockSize) = .ok blocks) (through : config.enableWriteThrough = true) (layers : 0 < numQuestLayers) :
    0 < blockSize ∧ blocks = cdiv maxModelLen blockSize * maxNumSeqs := by
  have settle : ∀ ceiling, ((if blockSize = 0 then throw .zeroDivision else
      if ceiling < cdiv maxModelLen blockSize * maxNumSeqs then
        if config.enableWriteThrough then throw (.ceilingTooLow (cdiv maxModelLen blockSize * maxNumSeqs) maxModelLen
          blockSize maxNumSeqs ceiling config.cpuCacheBlocks config.cpuCacheGib) else pure ceiling
      else pure (cdiv maxModelLen blockSize * maxNumSeqs)) : Except SizingError Nat) = .ok blocks →
      0 < blockSize ∧ blocks = cdiv maxModelLen blockSize * maxNumSeqs := by
    intro ceiling result
    split at result
    · cases result
    · split at result
      · cases result
      · exact ⟨by omega, (Except.ok.inj result).symm⟩
  unfold resolveCpuBlocksPerLayer at sized
  rw [if_neg (by omega)] at sized
  cases gib : config.cpuCacheGib with
  | none =>
    rw [gib] at sized
    exact settle _ (by rw [gib]; exact sized)
  | some budget =>
    rw [gib] at sized
    by_cases page : pageSizeBytes = 0
    · simp only [if_pos page] at sized
      cases sized
    · simp only [page] at sized
      exact settle _ (by rw [gib]; exact sized)

theorem div_le_cdiv (a b : Nat) : a / b ≤ cdiv a b := by
  rcases Nat.eq_zero_or_pos b with rfl | hp
  · simp
  · exact Nat.div_le_div_right (by omega)

variable {S D M R : Type} {bs : Nat}

structure SamePool (s t : TierManager S D M) : Prop where
  cpuFree : t.cpuFree = s.cpuFree
  cpuSlots : t.cpuSlots = s.cpuSlots
  hostSlots : t.hostSlots = s.hostSlots
  activeSeqs : t.activeSeqs = s.activeSeqs

theorem SamePool.refl (s : TierManager S D M) : SamePool s s := ⟨rfl, rfl, rfl, rfl⟩

theorem SamePool.trans {s t u : TierManager S D M} (first : SamePool s t) (second : SamePool t u) : SamePool s u :=
  ⟨second.cpuFree.trans first.cpuFree, second.cpuSlots.trans first.cpuSlots, second.hostSlots.trans first.hostSlots,
    second.activeSeqs.trans first.activeSeqs⟩

/-- Every pool slot is free or behind a mirror, and the mirrors are of blocks below `limit` of the requests of the last
batch, which are `owners`. -/
structure Provisioned (cfg : TierConfig bs R D) (owners : List S) (limit : Nat) (s : TierManager S D M) : Prop where
  total : s.cpuFree.length + s.hostSlots.values.length = cfg.cpuBlocks
  bare : s.cpuSlots.values = []
  known : ∀ k ∈ s.hostSlots, k.1 ∈ owners ∧ k.2 < limit
  active : previousSeqs s = owners

variable {cfg : TierConfig bs R D} {owners : List S} {limit : Nat} {s t : TierManager S D M} {key : S × Nat}

theorem provisioned_init (cfg : TierConfig bs R D) (mem : M) (summary : Nat → D) (limit : Nat) :
    Provisioned cfg [] limit (TierManager.init cfg mem summary : TierManager S D M) where
  total := by simp [TierManager.init, values, empty]
  bare := rfl
  known k hm := by simp [TierManager.init, mem_def, OrderedDict.keys, empty] at hm
  active := rfl

theorem Provisioned.same (stock : Provisioned cfg owners limit s) (hs : SamePool s t) : Provisioned cfg owners limit t where
  total := by rw [hs.cpuFree, hs.hostSlots, stock.total]
  bare := by rw [hs.cpuSlots, stock.bare]
  known k hm := stock.known k (hs.hostSlots ▸ hm)
  active := by rw [previousSeqs, hs.activeSeqs, ← stock.active, previousSeqs]

theorem Provisioned.roomy (stock : Provisioned cfg owners limit s) (enough : owners.length * limit ≤ cfg.cpuBlocks)
    (owner : key.1 ∈ owners) (hb : key.2 < limit) (absent : key ∉ s.hostSlots) : s.cpuFree ≠ [] := by
  intro empty
  have total := stock.total
  rw [empty, length_nil, length_values] at total
  have hd := nodup_cons.mpr ⟨absent, s.hostSlots.nodup_keys⟩
  have hi : key :: s.hostSlots.keys ⊆ owners ×ˢ range limit := by
    intro k hm
    rw [mem_product, mem_range]
    rcases mem_cons.mp hm with rfl | mirrored
    · exact ⟨owner, hb⟩
    · exact stock.known k mirrored
  have bound := (hd.subperm hi).length_le
  rw [length_cons, length_product, length_range] at bound
  omega

section

variable [DecidableEq S] [ReadableMemory M bs R]

def Unrelated (e : QuestError S) (_ : TierManager S D M) : Prop := ¬ e.PoolExhausted

variable (mode : cfg.enableWriteThrough = true)

include mode in
theorem claimSlot_samePool {protect : List (S × Nat)} :
    wp (claimSlot cfg key protect) (fun _ t => SamePool s t) Unrelated s := by
  refine wp_claimSlot (fun _ _ _ => ⟨rfl, rfl, rfl, rfl⟩) (fun victim slot m _ _ => ?_) (fun _ => id)
  refine wp_spillHook (fun off => ?_) (fun _ _ _ => ⟨rfl, rfl, rfl, rfl⟩) (fun off => ?_) (fun _ _ => id) (fun _ _ _ => id)
  · simp [mode] at off
  · simp [mode] at off

variable {seq : S} {E : QuestError S → TierManager S D M → Prop} {block : Nat}

include mode in
theorem ensureOne_samePool :
    wp (ensureOne cfg seq block) (fun _ t => SamePool s t) Unrelated s := by
  refine wp_ensureOne (fun _ => ⟨rfl, rfl, rfl, rfl⟩) (fun _ _ _ => id) (fun _ _ cpuSlot _ => ?_) (fun off => ?_)
  · refine wp_imp (claimSlot_samePool mode) (fun slot t hs => ?_)
    refine wp_beginLoad (fun _ => ?_) (fun _ => id)
    exact hs.trans ⟨rfl, rfl, rfl, rfl⟩
  · simp [mode] at off

omit [ReadableMemory M bs R] in
theorem logicalToSlot_samePool : wp (logicalToSlot seq block) (fun _ t => SamePool s t) Unrelated s := by
  unfold logicalToSlot
  simp only [wp_bind, wp_get]
  split
  · exact id
  · exact ⟨rfl, rfl, rfl, rfl⟩

omit [DecidableEq S] in
theorem wp_mapM_samePool {ι β : Type} {f : ι → TierM S D M β} {items : List ι}
    (pass : ∀ i s, wp (f i) (fun _ t => SamePool s t) Unrelated s) :
    wp (items.mapM f) (fun _ t => SamePool s t) Unrelated s :=
  wp_imp (wp_mapM (P := fun _ _ => True) (fun i _ _ hs => wp_mono (pass i _)
    (fun _ _ next => ⟨hs.trans next, trivial⟩) (fun _ _ h => h)) (SamePool.refl s)) (fun _ _ h => h.1)

include mode in
theorem ensureResident_samePool {ids keepIds : List Nat} :
    wp (ensureResident cfg seq ids keepIds) (fun _ t => SamePool s t) Unrelated s := by
  unfold ensureResident
  simp only [wp_bind]
  refine wp_touchResident fun t hs _ => ?_
  have start : SamePool s t := by
    rw [hs.rest]
    exact ⟨rfl, rfl, rfl, rfl⟩
  refine wp_imp (wp_forM (fun _ _ _ hs => wp_imp (ensureOne_samePool mode) fun _ _ next => hs.trans next) (SamePool.refl t))
    fun _ u ensured => ?_
  have loaded := start.trans ensured
  split
  · exact ⟨loaded.cpuFree, loaded.cpuSlots, loaded.hostSlots, loaded.activeSeqs⟩
  · exact loaded

include mode in
theorem runSparseDecode_samePool {topK : Nat} {select : Select S D} {batch : Batch S} :
    wp (runSparseDecode cfg topK select batch) (fun _ t => SamePool s t) Unrelated s := by
  refine wp_mapM_samePool fun r s => ?_
  unfold decodeRequest
  simp only [wp_bind, wp_get]
  refine wp_imp (ensureResident_samePool mode) (fun _ t ensured => ?_)
  refine wp_imp (wp_mapM_samePool fun b s => logicalToSlot_samePool) (fun _ u read => ?_)
  exact ensured.trans read

omit [ReadableMemory M bs R] in
theorem mirrorWith_provisioned {copy : Nat → M → M}
    (stock : Provisioned cfg owners limit s) (enough : owners.length * limit ≤ cfg.cpuBlocks)
    (owner : key.1 ∈ owners) (hb : key.2 < limit) :
    wp (mirrorWith cfg key copy) (fun _ t => Provisioned cfg owners limit t) E s := by
  refine wp_mirrorWith (fun _ => stock) (fun absent cpuSlot rest free => ?_) (fun absent empty => ?_)
  · have total := stock.total
    refine ⟨?_, stock.bare, fun k hm => ?_, stock.active⟩
    · rw [free, length_cons] at total
      simp only [values_insert_of_not_mem absent, length_append, length_singleton]
      omega
    · rcases mem_insert.mp hm with rfl | before
      · exact ⟨owner, hb⟩
      · exact stock.known k before
  · exact absurd empty (stock.roomy enough owner hb absent)

section

variable (mode : cfg.enableWriteThrough = true) (enough : owners.length * limit ≤ cfg.cpuBlocks) {content : KVBlock bs R}

include mode enough

theorem keepOrSpill_provisioned {lo b : Nat} {overflow exhausted : QuestError S}
    (stock : Provisioned cfg owners limit s) (owner : seq ∈ owners) (hb : b < limit) (other : ¬ overflow.PoolExhausted) :
    wp (keepOrSpill cfg seq lo overflow exhausted b content) (fun _ t => Provisioned cfg owners limit t) Unrelated s := by
  refine wp_keepOrSpill (fun _ slot m _ => ?_) (fun _ _ _ _ => other) (fun _ _ => ?_) (fun _ off => ?_) (fun _ off => ?_)
    (fun _ _ => id)
  · rw [if_pos mode]
    exact mirrorWith_provisioned (stock.same ⟨rfl, rfl, rfl, rfl⟩) enough owner hb
  · refine wp_imp (mirrorWith_provisioned stock enough owner hb) (fun _ t kept => ?_)
    exact wp_evictRow (fun _ => kept.same ⟨rfl, rfl, rfl, rfl⟩) (fun _ => id)
  · simp [mode] at off
  · simp [mode] at off

variable (stock : Provisioned cfg owners limit s) {engine : Nat → KVBlock bs R} {n : Nat}

include stock

theorem trimToWorkingSet_provisioned {row : Nat → Nat}
    (owner : seq ∈ owners) (hw : n ≤ limit) :
    wp (trimToWorkingSet cfg seq n engine row) (fun _ t => Provisioned cfg owners limit t) Unrelated s := by
  unfold trimToWorkingSet
  simp only [wp_bind, wp_get]
  split
  · exact stock
  · refine wp_forM (fun b hm t kept => ?_) (stock.same ⟨rfl, rfl, rfl, rfl⟩)
    exact keepOrSpill_provisioned mode enough kept owner (lt_of_lt_of_le (mem_range.mp hm) hw) id

omit enough in
theorem writeLiveBlock_provisioned :
    wp (writeLiveBlock cfg seq block content) (fun _ t => Provisioned cfg owners limit t) Unrelated s := by
  unfold writeLiveBlock
  simp only [wp_bind]
  refine wp_imp (claimSlot_samePool mode) (fun slot t hs => ?_)
  exact stock.same ⟨hs.cpuFree, hs.cpuSlots, hs.hostSlots, hs.activeSeqs⟩

theorem prefillIngestKvshare_provisioned {key value : Nat → R} {promptLen : Option Nat}
    (owner : seq ∈ owners) (hw : n ≤ limit) :
    wp (prefillIngestKvshare cfg seq n key value promptLen) (fun _ t => Provisioned cfg owners limit t) Unrelated s := by
  unfold prefillIngestKvshare
  simp only [wp_bind, wp_get]
  split
  · exact stock
  simp only [wp_bind, wp_modify, wp_get]
  refine wp_imp (wp_forM (E := Unrelated) (I := fun t => Provisioned cfg owners limit t) (fun b hm t kept => ?_)
    (stock.same ⟨rfl, rfl, rfl, rfl⟩)) (fun _ t kept => ?_)
  · exact keepOrSpill_provisioned mode enough (kept.same ⟨rfl, rfl, rfl, rfl⟩) owner
      (lt_of_lt_of_le (mem_range.mp hm) hw) id
  cases promptLen with
  | none => exact kept
  | some promptLen =>
    simp only
    split
    · simp only [wp_bind]
      refine wp_imp (claimSlot_samePool mode) (fun slot u hs => ?_)
      split
      · exact id
      · exact kept.same ⟨hs.cpuFree, hs.cpuSlots, hs.hostSlots, hs.activeSeqs⟩
    · exact kept

theorem appendDecodeTokenKvshare_provisioned {kTok vTok : R} (owner : seq ∈ owners) (hw : (n + 1) / bs ≤ limit) :
    wp (appendDecodeTokenKvshare cfg seq n kTok vTok) (fun _ t => Provisioned cfg owners limit t) Unrelated s := by
  unfold appendDecodeTokenKvshare
  simp only [wp_bind]
  refine wp_imp (claimSlot_samePool mode) (fun slot t hs => ?_)
  have kept := stock.same hs
  split
  · rename_i last
    have hb : n / bs < limit := by
      rw [(div_succ_of_last last).1] at hw
      omega
    exact mirrorWith_provisioned (kept.same ⟨rfl, rfl, rfl, rfl⟩) enough owner hb
  · exact kept.same ⟨rfl, rfl, rfl, rfl⟩

theorem notifyDecodeRequest_provisioned {r : Request S}
    (owner : r.seqId ∈ owners) (hw : r.seqLen / bs ≤ limit) (started : 0 < r.seqLen) :
    wp (notifyDecodeRequest cfg engine r) (fun _ t => Provisioned cfg owners limit t) Unrelated s := by
  unfold notifyDecodeRequest
  simp only [wp_bind]
  refine wp_imp (trimToWorkingSet_provisioned mode enough stock owner hw) (fun _ t kept => ?_)
  by_cases boundary : r.seqLen % bs = 0
  · have first : r.seqLen ≠ 0 ∧ r.seqLen % bs = 0 := ⟨by omega, boundary⟩
    have full : 0 < r.seqLen / bs := by
      have split := Nat.div_add_mod' r.seqLen bs
      refine Nat.pos_of_ne_zero fun none => ?_
      rw [none] at split
      omega
    simp only [first, ne_eq, not_false_eq_true, and_self, ↓reduceIte]
    unfold onBlockFilled
    simp only [wp_bind, wp_modify, mode, ↓reduceIte]
    refine wp_imp (claimSlot_samePool mode) (fun slot t hs => ?_)
    exact mirrorWith_provisioned (kept.same ⟨hs.cpuFree, hs.cpuSlots, hs.hostSlots, hs.activeSeqs⟩) enough
      owner (by omega)
  · simp only [boundary, and_false, ↓reduceIte, ne_eq, not_false_eq_true, wp_bind]
    exact writeLiveBlock_provisioned mode kept

end

omit [ReadableMemory M bs R] in
theorem releaseInactive_provisioned {active : List S}
    (stock : Provisioned cfg owners limit s) :
    wp (releaseInactive active) (fun _ t => Provisioned cfg active limit t) E s := by
  unfold releaseInactive
  simp only [wp_bind, wp_get]
  cases seen : s.activeSeqs with
  | none =>
    have nobody : owners = [] := by rw [← stock.active, previousSeqs, seen, Option.getD_none]
    refine ⟨stock.total, stock.bare, fun k hm => ?_, rfl⟩
    have := (stock.known k hm).1
    simp [nobody] at this
  | some previous =>
    have before : owners = previous := by rw [← stock.active, previousSeqs, seen, Option.getD_some]
    subst before
    simp only [wp_bind]
    refine wp_imp (wp_forM_handled (I := fun gone t => Provisioned cfg owners limit t ∧
      ∀ k ∈ t.hostSlots, k.1 ∉ gone) (fun gone old rest _ t kept => ?_) ⟨stock, fun _ _ => not_mem_nil⟩) ?_
    · obtain ⟨kept, apart⟩ := kept
      refine wp_freeRequest fun u freed => ?_
      have left : ∀ k ∈ u.hostSlots, k.1 ≠ old ∧ k ∈ t.hostSlots := by
        intro k hm
        obtain ⟨c, hf⟩ := mem_iff_get?.mp hm
        rw [freed.hostSlots] at hf
        split at hf
        · cases hf
        · exact ⟨‹_›, mem_of_get?_eq hf⟩
      have emptied : u.cpuSlots.values = [] := by
        refine eq_nil_iff_forall_not_mem.mpr fun c hm => ?_
        obtain ⟨k, hf⟩ := mem_values_iff.mp hm
        rw [freed.cpuSlots] at hf
        split at hf
        · cases hf
        · have entry := mem_values_iff.mpr ⟨k, hf⟩
          rw [kept.bare] at entry
          cases entry
      refine ⟨⟨?_, emptied, fun k hm => kept.known k (left k hm).2, ?_⟩, fun k hm => ?_⟩
      · have pool := freed.pool.length_eq
        rw [emptied, kept.bare] at pool
        simpa [kept.total] using pool
      · rw [previousSeqs, freed.activeSeqs]
        exact kept.active
      · rw [mem_append, mem_singleton, not_or]
        exact ⟨apart k (left k hm).2, (left k hm).1⟩
    · rintro _ t ⟨kept, apart⟩
      refine ⟨kept.total, kept.bare, fun k hm => ?_, rfl⟩
      obtain ⟨owner, hb⟩ := kept.known k hm
      have stays := apart k hm
      rw [mem_filter, not_and, decide_eq_true_eq, not_not] at stays
      exact ⟨stays owner, hb⟩

inductive Hook (S D R : Type) (bs : Nat) where
  | notifyPrefill (key : Nat → R) (batch : Batch S)
  | notifyDecode (engine : Nat → KVBlock bs R) (batch : Batch S)
  | prefillOffload (key value : Nat → R) (batch : Batch S)
  | decodeWrite (key value : Nat → R) (batch : Batch S)
  | sparseDecode (topK : Nat) (select : Select S D) (batch : Batch S)

def Hook.batch : Hook S D R bs → Batch S
  | .notifyPrefill _ batch | .notifyDecode _ batch | .prefillOffload _ _ batch | .decodeWrite _ _ batch
  | .sparseDecode _ _ batch => batch

def runHook (cfg : TierConfig bs R D) : Hook S D R bs → TierM S D M Unit
  | .notifyPrefill key batch => notifyFilledBlocksAfterPrefill cfg key batch
  | .notifyDecode engine batch => notifyFilledBlocksAfterDecode cfg engine batch
  | .prefillOffload key value batch => kvsharePrefillOffload cfg key value batch
  | .decodeWrite key value batch => kvshareDecodeWrite cfg key value batch
  | .sparseDecode topK select batch => do let _ ← runSparseDecode cfg topK select batch

/-- A batch that the scheduler may form: the limits hold, and a request computes some of its own tokens. -/
structure Admissible (maxModelLen maxNumSeqs : Nat) (batch : Batch S) : Prop where
  count : batch.length ≤ maxNumSeqs
  started : ∀ r ∈ batch, 0 < r.seqLen
  long : ∀ r ∈ batch, r.seqLen ≤ maxModelLen
  query : ∀ r ∈ batch, r.queryLen ≤ r.seqLen

instance (maxModelLen maxNumSeqs : Nat) (batch : Batch S) : Decidable (Admissible maxModelLen maxNumSeqs batch) :=
  decidable_of_iff (batch.length ≤ maxNumSeqs ∧ (∀ r ∈ batch, 0 < r.seqLen) ∧ (∀ r ∈ batch, r.seqLen ≤ maxModelLen) ∧
    ∀ r ∈ batch, r.queryLen ≤ r.seqLen) ⟨fun h => ⟨h.1, h.2.1, h.2.2.1, h.2.2.2⟩, fun h => ⟨h.1, h.2, h.3, h.4⟩⟩

include mode in
theorem runHook_provisioned {maxModelLen maxNumSeqs : Nat} {hook : Hook S D R bs}
    (enough : maxNumSeqs * cdiv maxModelLen bs ≤ cfg.cpuBlocks) (admissible : Admissible maxModelLen maxNumSeqs hook.batch)
    (stock : Provisioned cfg owners (cdiv maxModelLen bs) s) :
    wp (runHook cfg hook) (fun _ t => ∃ owners, Provisioned cfg owners (cdiv maxModelLen bs) t) Unrelated s := by
  have room : (activeIds hook.batch).length * cdiv maxModelLen bs ≤ cfg.cpuBlocks := by
    refine Nat.le_trans (Nat.mul_le_mul_right _ ?_) enough
    refine Nat.le_trans (dedup_sublist _).length_le ?_
    rw [length_map]
    exact admissible.count
  have owner : ∀ r ∈ hook.batch, r.seqId ∈ activeIds hook.batch :=
    fun r hm => mem_dedup.mpr (mem_map_of_mem hm)
  have hw : ∀ {n}, n ≤ maxModelLen → n / bs ≤ cdiv maxModelLen bs :=
    fun le => le_trans (Nat.div_le_div_right le) (div_le_cdiv _ _)
  -- After the release the batch is handled request by request.
  have handle : ∀ {ι : Type} {f : ι → TierM S D M Unit} {items : List ι},
      (∀ i ∈ items, ∀ t, Provisioned cfg (activeIds hook.batch) (cdiv maxModelLen bs) t →
        wp (f i) (fun _ u => Provisioned cfg (activeIds hook.batch) (cdiv maxModelLen bs) u) Unrelated t) →
      wp (do releaseInactive (activeIds hook.batch); forM items f)
        (fun _ t => ∃ owners, Provisioned cfg owners (cdiv maxModelLen bs) t) Unrelated s := by
    intro ι f items pass
    rw [wp_bind]
    refine wp_imp (releaseInactive_provisioned stock) (fun _ t released => ?_)
    exact wp_imp (wp_forM pass released) (fun _ _ kept => ⟨_, kept⟩)
  cases hook with
  | notifyPrefill key batch => exact wp_notifyPrefill ⟨owners, stock.same ⟨rfl, rfl, rfl, rfl⟩⟩
  | notifyDecode engine batch =>
    exact handle fun r hm t kept => notifyDecodeRequest_provisioned mode room kept (owner r hm)
      (hw (admissible.long r hm)) (admissible.started r hm)
  | prefillOffload key value batch =>
    refine handle fun r hm t kept => ?_
    split
    · exact kept
    · exact prefillIngestKvshare_provisioned mode room kept (owner r hm)
        (hw (le_trans (admissible.query r hm) (admissible.long r hm)))
  | decodeWrite key value batch =>
    refine handle fun p hm t kept => ?_
    have hi := fst_mem_of_mem_zipIdx hm
    refine appendDecodeTokenKvshare_provisioned mode room kept (owner p.1 hi) (hw ?_)
    have := admissible.long p.1 hi
    have := admissible.started p.1 hi
    omega
  | sparseDecode topK select batch =>
    simp only [runHook, wp_bind]
    exact wp_imp (runSparseDecode_samePool mode) (fun _ t hs => ⟨owners, stock.same hs⟩)

end

/-- A pool that `resolve_cpu_blocks_per_layer` has sized never runs out under write-through: whatever hooks run, in whatever
order and for whatever batches within the limits, no exception is that of a full pool. -/
theorem host_pool_never_full [DecidableEq S] [ReadableMemory M bs R] (config : QuestConfig) (cfg : TierConfig bs R D)
    (mem : M) (summary : Nat → D) (pageSizeBytes numQuestLayers maxModelLen maxNumSeqs : Nat)
    (sized : resolveCpuBlocksPerLayer config pageSizeBytes numQuestLayers (some maxModelLen) (some maxNumSeqs)
      (some bs) = .ok cfg.cpuBlocks) (layer : cfg.layerIdx < numQuestLayers) (through : config.enableWriteThrough = true)
    (mode : cfg.enableWriteThrough = config.enableWriteThrough) (hooks : List (Hook S D R bs))
    (batches : ∀ hook ∈ hooks, Admissible maxModelLen maxNumSeqs hook.batch) :
    ¬ ∃ e t, forM hooks (runHook cfg) (TierManager.init cfg mem summary : TierManager S D M) = .error e t ∧
      e.PoolExhausted := by
  rintro ⟨e, t, run, exhausted⟩
  obtain ⟨_, blocks⟩ := resolve_eq_need sized through (by omega)
  have enough : maxNumSeqs * cdiv maxModelLen bs ≤ cfg.cpuBlocks := by rw [blocks, Nat.mul_comm]
  have kept : wp (forM hooks (runHook cfg)) (fun _ t => ∃ owners, Provisioned cfg owners (cdiv maxModelLen bs) t) Unrelated
      (TierManager.init cfg mem summary) := by
    refine wp_forM (fun hook member t kept => ?_) ⟨[], provisioned_init cfg mem summary _⟩
    obtain ⟨owners, stock⟩ := kept
    exact runHook_provisioned (mode.trans through) enough (batches hook member) stock
  exact wp_error kept run exhausted

def mirrorConfig : TierConfig 2 Nat Nat where
  layerIdx := 1
  gpuBudget := 2
  cpuBlocks := 3
  enableWriteThrough := true
  digest k := k 0

def mirrorHooks : List (Hook Nat Nat Nat 2) :=
  [.prefillOffload id id [⟨0, 3, 0, 3, id⟩], .decodeWrite id id [⟨0, 4, 0, 1, id⟩],
    .notifyDecode (fun _ => ⟨0, 0⟩) [⟨1, 5, 0, 1, id⟩]]

theorem host_pool_never_full_two_requests :
    ¬ ∃ e t, forM mirrorHooks (runHook mirrorConfig) (TierManager.init mirrorConfig Memory.zero fun _ => 0) =
      .error e t ∧ e.PoolExhausted :=
  host_pool_never_full ⟨8, none, true⟩ mirrorConfig Memory.zero (fun _ => 0) 64 2 5 1 rfl (by decide) rfl rfl mirrorHooks
    (by decide)

end KVOffload.Quest
