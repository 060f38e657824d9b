import KVOffload.Quest.BatchStep

/-!
# Runs of decode steps

Between two steps of a request its sequence grows by one token and its full blocks keep their rows.
-/

namespace KVOffload.Quest

open List

variable {S D R : Type} {bs : Nat}

def Follows (before after : DecodePass S D bs R) : Prop :=
  ∀ r ∈ before.batch, ∀ r' ∈ after.batch, r'.seqId = r.seqId →
    r'.seqLen = r.seqLen + 1 ∧ ∀ b < r.seqLen / bs, after.engine (r'.blockTable b) = before.engine (r.blockTable b)

variable [DecidableEq S] {batch : Batch S} {r : Request S}

def tableOf (batch : Batch S) (x : S) : Nat → Nat := (batch.find? (·.seqId = x)).elim id Request.blockTable

def contentOf (pass : DecodePass S D bs R) (k : S × Nat) : KVBlock bs R := pass.engine (tableOf pass.batch k.1 k.2)

variable (hd : (batch.map Request.seqId).Nodup)

include hd in
theorem find?_seqId (hm : r ∈ batch) :
    batch.find? (·.seqId = r.seqId) = some r := by
  induction batch with
  | nil => cases hm
  | cons first rest ih =>
    obtain ⟨fresh, hd⟩ := nodup_cons.mp hd
    rcases mem_cons.mp hm with rfl | later
    · simp
    · have other : first.seqId ≠ r.seqId := fun hs => fresh (hs ▸ mem_map_of_mem later)
      simpa [other] using ih hd later

include hd in
theorem tableOf_of_mem
    (hm : r ∈ batch) : tableOf batch r.seqId = r.blockTable := by
  rw [tableOf, find?_seqId hd hm, Option.elim_some]

structure ProperPass (cap topK : Nat) (pass : DecodePass S D bs R) : Prop where
  distinct : (pass.batch.map Request.seqId).Nodup
  positive : ∀ r ∈ pass.batch, 0 < r.seqLen
  valid : ValidSelect cap topK bs pass.select pass.batch
  bounded : Bounded cap bs pass.batch

def AllServed (topK : Nat) (pass : DecodePass S D bs R) (out : List (Gathered S D bs R)) : Prop :=
  ∃ summary, List.Forall₂ (fun r g => Served topK pass.select (fun b => pass.engine (r.blockTable b)) summary r g)
    pass.batch out

variable {cfg : TierConfig bs R D} {topK : Nat} {lens : S → Option Nat} {content : S × Nat → KVBlock bs R}
  {s : TierManager S D (Memory bs R)} {passes : List (DecodePass S D bs R)}

theorem decodePass_serving {pass : DecodePass S D bs R} (serving : Serving cfg lens content s)
    (continues : Continues lens content pass.engine pass.batch) (proper : ProperPass cfg.gpuBudget topK pass)
    (size : 0 < bs) (two : 2 ≤ cfg.gpuBudget) :
    wp (decodePass cfg topK pass) (fun out t => Serving cfg (batchLens pass.batch) (contentOf pass) t ∧
      t.summary = pass.batch.foldl (noteSummary cfg (contentOf pass)) s.summary ∧
      List.Forall₂ (fun r g => Served topK pass.select (fun b => pass.engine (r.blockTable b)) t.summary r g)
      pass.batch out)
      (fun e _ => Exhausted cfg (storedOf bs (batchLens pass.batch)) e) s := by
  have agrees : ∀ r ∈ pass.batch, ∀ b, pass.engine (r.blockTable b) = contentOf pass (r.seqId, b) := by
    intro r hm b
    rw [contentOf, tableOf_of_mem proper.distinct hm]
  obtain ⟨mode, service⟩ := service_of_bounded size proper.bounded proper.positive
  unfold decodePass
  rw [wp_bind]
  refine wp_imp (serving.notify size proper.distinct continues agrees proper.positive service two) ?_
  rintro _ t handled
  refine wp_imp (handled.decode proper.distinct service proper.valid two) ?_
  rintro out u ⟨serving', hs, served⟩
  refine ⟨serving', hs.trans handled.summary, ?_⟩
  rw [hs]
  refine ((forall₂_and_left _ _).mpr ⟨agrees, served⟩).imp fun r g ⟨equal, given⟩ => ?_
  rwa [funext equal]

/-- A run of decode passes serves every request of every pass. It raises only when the pool is smaller than the full
blocks of one of the batches. -/
theorem wp_decodeRun (serving : Serving cfg lens content s)
    (continues : ∀ pass ∈ passes.head?, Continues lens content pass.engine pass.batch) (run : passes.IsChain Follows)
    (proper : ∀ pass ∈ passes, ProperPass cfg.gpuBudget topK pass) (size : 0 < bs) (two : 2 ≤ cfg.gpuBudget) :
    wp (passes.mapM (decodePass cfg topK)) (fun out _ => List.Forall₂ (AllServed topK) passes out)
      (fun e _ => ∃ pass ∈ passes, Exhausted cfg (storedOf bs (batchLens pass.batch)) e) s := by
  induction passes generalizing lens content s with
  | nil => exact .nil
  | cons pass rest ih =>
    simp only [mapM_cons, wp_bind]
    have properPass := proper pass (.head _)
    refine wp_mono (decodePass_serving serving (continues pass rfl) properPass size two) ?_
      (fun e _ exhausted => ⟨pass, .head _, exhausted⟩)
    rintro gs t ⟨serving', _, served⟩
    refine wp_mono (ih serving' (fun next first r hm n hf => ?_) run.of_cons
      fun later hm => proper later (.tail _ hm))
      (fun out _ rest => .cons ⟨t.summary, served⟩ rest) ?_
    · obtain ⟨others, rfl⟩ := head?_eq_some_iff.mp first
      obtain ⟨r', hm', owner, rfl⟩ := request_of_batchLens properPass.distinct hf
      obtain ⟨grown, kept⟩ := (isChain_cons_cons.mp run).1 r' hm' r hm owner.symm
      refine ⟨by rw [grown, Nat.add_sub_cancel], fun b hb => ?_⟩
      rw [kept b hb, contentOf, ← owner, tableOf_of_mem properPass.distinct hm']
    · rintro e _ ⟨later, hm, exhausted⟩
      exact ⟨later, .tail _ hm, exhausted⟩

def fullBlocks (bs : Nat) (batch : Batch S) : Nat := (batch.map fun r => r.seqLen / bs).sum

include hd in
theorem Exhausted.lt_fullBlocks {e : QuestError S}
    (exhausted : Exhausted cfg (storedOf bs (batchLens batch)) e) : cfg.cpuBlocks < fullBlocks bs batch := by
  have small := exhausted.small (batch.flatMap fun r => (range (r.seqLen / bs)).map fun b => (r.seqId, b)) ?_
  · simpa [fullBlocks] using small
  · rintro ⟨x, b⟩ ⟨n, hf, hb⟩
    obtain ⟨r, hm, rfl, rfl⟩ := request_of_batchLens hd hf
    exact mem_flatMap.mpr ⟨r, hm, mem_map.mpr ⟨b, mem_range.mpr hb, rfl⟩⟩

theorem decodeRun_returns (mem : Memory bs R) (summary : Nat → D)
    (run : passes.IsChain Follows) (proper : ∀ pass ∈ passes, ProperPass cfg.gpuBudget topK pass) (size : 0 < bs)
    (two : 2 ≤ cfg.gpuBudget) (pool : ∀ pass ∈ passes, fullBlocks bs pass.batch ≤ cfg.cpuBlocks) :
    ∃ out t, passes.mapM (decodePass cfg topK) (TierManager.init cfg mem summary) = .ok out t ∧
      List.Forall₂ (AllServed topK) passes out := by
  refine wp_total (wp_decodeRun (serving_init cfg mem summary fun _ => mem.host 0)
    (fun pass _ r _ n hf => by cases hf) run proper size two) ?_
  rintro e _ ⟨pass, hm, exhausted⟩
  have := exhausted.lt_fullBlocks (proper pass hm).distinct
  have := pool pass hm
  omega

structure TokenStep (bs : Nat) (R : Type) where
  engine : Nat → KVBlock bs R
  row : Nat → Nat
  ids : List Nat

def TokenStep.pass (seq : S) (seqLen : Nat) (step : TokenStep bs R) : DecodePass S D bs R where
  batch := [{ seqId := seq, seqLen := seqLen, queryStart := 0, queryEnd := 1, blockTable := step.row }]
  engine := step.engine
  select _ _ _ _ := step.ids

/-- Decode steps of one request after a prompt of `promptLen` tokens: the bookkeeping, `ensure_resident` of the selected
blocks with the live block kept, and the gather through `logical_to_slot`. -/
def soloRun (cfg : TierConfig bs R D) (seq : S) (promptLen : Nat) (steps : List (TokenStep bs R)) :
    TierM S D (Memory bs R) (List (List (Gathered S D bs R))) :=
  ((steps.zipIdx (promptLen + 1)).map fun p => p.1.pass seq p.2).mapM (decodePass cfg (cfg.gpuBudget - 1))

/-- The two tiers lose nothing: a request of any length decodes without an exception, and each gathered block is read from a
slot of its own as the engine has it. -/
theorem solo_decode_lossless (cfg : TierConfig bs R D) (mem : Memory bs R) (summary : Nat → D) (seq : S)
    (promptLen : Nat) (steps : List (TokenStep bs R)) (size : 0 < bs) (two : 2 ≤ cfg.gpuBudget)
    (pool : (promptLen + steps.length) / bs ≤ cfg.cpuBlocks)
    (selected : ∀ p ∈ steps.zipIdx (promptLen + 1), ValidIds (p.2 / bs) (cfg.gpuBudget - 1) p.1.ids)
    (appended : (steps.zipIdx (promptLen + 1)).IsChain fun p q =>
      ∀ b < p.2 / bs, q.1.engine (q.1.row b) = p.1.engine (p.1.row b)) :
    ∃ out t, soloRun cfg seq promptLen steps (TierManager.init cfg mem summary) = .ok out t ∧
      List.Forall₂ (fun p gs => ∃ g, gs = [g] ∧ g.blocks = p.1.ids ++ liveBlocks bs p.2 ∧ g.slots.Nodup ∧
        g.content = g.blocks.map fun b => p.1.engine (p.1.row b)) (steps.zipIdx (promptLen + 1)) out := by
  have follows : ((steps.zipIdx (promptLen + 1)).map fun p => (p.1.pass seq p.2 : DecodePass S D bs R)).IsChain Follows := by
    rw [isChain_iff_getElem] at appended ⊢
    intro i inside
    rw [length_map] at inside
    have kept := appended i inside
    simp only [getElem_map, getElem_zipIdx] at kept ⊢
    intro r member r' member' _
    obtain rfl := mem_singleton.mp member
    obtain rfl := mem_singleton.mp member'
    exact ⟨(add_assoc ..).symm, kept⟩
  have proper : ∀ pass ∈ (steps.zipIdx (promptLen + 1)).map fun p => (p.1.pass seq p.2 : DecodePass S D bs R),
      ProperPass cfg.gpuBudget (cfg.gpuBudget - 1) pass ∧ fullBlocks bs pass.batch ≤ cfg.cpuBlocks := by
    intro pass member
    obtain ⟨⟨step, seqLen⟩, inside, rfl⟩ := mem_map.mp member
    obtain ⟨low, high, _⟩ := mem_zipIdx inside
    refine ⟨⟨by simp [TokenStep.pass], fun r only => ?_, fun r only _ => ?_, .inl (by simp [TokenStep.pass])⟩, ?_⟩
    · obtain rfl := mem_singleton.mp only
      exact Nat.lt_of_lt_of_le (Nat.succ_pos promptLen) low
    · obtain rfl := mem_singleton.mp only
      exact selected _ inside
    · simp only [TokenStep.pass, fullBlocks, map_cons, map_nil]
      exact le_trans (Nat.div_le_div_right (by omega)) pool
  obtain ⟨out, t, run, served⟩ := decodeRun_returns mem summary follows (fun pass member => (proper pass member).1) size two
    fun pass member => (proper pass member).2
  refine ⟨out, t, run, (forall₂_map_left_iff.mp served).imp fun p gs ⟨scored, given⟩ => ?_⟩
  cases given with
  | @cons _ g _ _ given rest =>
    cases rest
    exact ⟨g, rfl, given.blocks, given.distinct, given.content⟩

def pairConfig : TierConfig 2 Nat Nat where
  layerIdx := 0
  gpuBudget := 2
  cpuBlocks := 4
  digest k := k 0

def countingEngine (p : Nat) : KVBlock 2 Nat := ⟨fun i => 2 * p + i, fun i => 100 + (2 * p + i)⟩

def pairSteps : List (TokenStep 2 Nat) :=
  [[0], [1], [0]].map fun ids => { engine := countingEngine, row := id, ids := ids }

theorem solo_decode_lossless_six_tokens :
    ∃ out t, soloRun pairConfig (S := Nat) 0 3 pairSteps (TierManager.init pairConfig Memory.zero fun _ => 0) = .ok out t ∧
      List.Forall₂ (fun p gs => ∃ g, gs = [g] ∧ g.blocks = p.1.ids ++ liveBlocks 2 p.2 ∧ g.slots.Nodup ∧
        g.content = g.blocks.map fun b => p.1.engine (p.1.row b)) (pairSteps.zipIdx 4) out :=
  solo_decode_lossless pairConfig Memory.zero (fun _ => 0) 0 3 pairSteps (by decide) (by decide) (by decide) (by decide)
    (by simp [pairSteps])

/-- If every pass is one request or fits the arena, no call raises, and each request gathers its selected blocks and its
live block as the engine has them. -/
theorem bounded_batches_decode (cfg : TierConfig bs R D) (mem : Memory bs R) (summary : Nat → D) (topK : Nat)
    (passes : List (DecodePass S D bs R)) (size : 0 < bs) (some : 0 < topK) (small : topK ≤ cfg.gpuBudget - 1)
    (run : passes.IsChain Follows) (distinct : ∀ pass ∈ passes, (pass.batch.map Request.seqId).Nodup)
    (positive : ∀ pass ∈ passes, ∀ r ∈ pass.batch, 0 < r.seqLen)
    (selected : ∀ pass ∈ passes, ∀ r ∈ pass.batch, ∀ summary, ValidIds (r.seqLen / bs) (min topK (r.seqLen / bs))
      (pass.select r summary (r.seqLen / bs) (min topK (r.seqLen / bs))))
    (pool : ∀ pass ∈ passes, fullBlocks bs pass.batch ≤ cfg.cpuBlocks)
    (bounded : ∀ pass ∈ passes, Bounded cfg.gpuBudget bs pass.batch) :
    ∃ out t, passes.mapM (decodePass cfg topK) (TierManager.init cfg mem summary) = .ok out t ∧
      List.Forall₂ (AllServed topK) passes out := by
  refine decodeRun_returns mem summary run (fun pass member => ⟨distinct pass member, positive pass member,
    fun r inside scores => ?_, bounded pass member⟩) size (by omega) pool
  have valid := selected pass member r inside scores
  exact ⟨valid.distinct, valid.below, by have := valid.count; omega⟩

def requestAt (seq first seqLen : Nat) : Request Nat :=
  { seqId := seq, seqLen := seqLen, queryStart := seq, queryEnd := seq + 1, blockTable := fun b => first + b }

def countingPass (batch : Batch Nat) : DecodePass Nat Nat 2 Nat :=
  { batch := batch, engine := countingEngine, select := fun _ _ n _ => range (min n 1) }

theorem validIds_first (n : Nat) : ValidIds n (min 1 n) (range (min n 1)) where
  distinct := nodup_range
  below b hm := by
    have := mem_range.mp hm
    omega
  count := by simp

def roomyConfig : TierConfig 2 Nat Nat := { pairConfig with gpuBudget := 3 }

def sharedPasses : List (DecodePass Nat Nat 2 Nat) :=
  [[requestAt 0 0 3, requestAt 1 4 1], [requestAt 0 0 4, requestAt 1 4 2], [requestAt 0 0 5], [requestAt 0 0 6],
    [requestAt 0 0 7]].map countingPass

theorem bounded_batches_decode_shared :
    ∃ out t, sharedPasses.mapM (decodePass roomyConfig 1) (TierManager.init roomyConfig Memory.zero fun _ => 0) = .ok out t ∧
      List.Forall₂ (AllServed 1) sharedPasses out := by
  refine bounded_batches_decode roomyConfig Memory.zero (fun _ => 0) 1 sharedPasses (by decide) (by decide) (by decide) ?_
    (by decide) (by decide) ?_ (by decide) (by decide)
  · simp [sharedPasses, Follows, countingPass, requestAt]
  · intro pass member r _ _
    obtain ⟨batch, _, rfl⟩ := mem_map.mp member
    exact validIds_first _

theorem two_requests_overflow_arena : ∃ t, decodePass pairConfig 1 (countingPass [requestAt 0 0 3, requestAt 1 4 3])
    (TierManager.init pairConfig Memory.zero fun _ => 0) = .error .trimOverflow t :=
  raised_iff.mp (by decide)

end KVOffload.Quest
