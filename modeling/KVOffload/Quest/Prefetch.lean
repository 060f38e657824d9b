import KVOffload.Quest.DecodeRun

/-!
# The prefetch into the next layer

The layers of a model decode in order, and after its own sparse decode each of them prefetches its selection into the
manager of the next one. That manager has not seen the step yet. In the first decode step it has not seen the request
at all, so the first prefetch of a run finds nothing to load.
-/

namespace KVOffload.Quest

open List

variable {S D R M : Type} {bs : Nat} [DecidableEq S]

/-- An exception of a model step, with the layer on whose manager the call was made. -/
inductive ModelError (S : Type) where
  | forward (layer : Nat) (error : QuestError S)
  | prefetch (layer : Nat) (error : QuestError S)
  deriving DecidableEq

abbrev ModelM (S D M : Type) := EStateM (ModelError S) (Nat → TierManager S D M)

def prefetchWindow (ordering : BlockOrdering) (prefetchWindowBlocks topK : Nat) : Nat :=
  if ordering = .lru then 0 else min (if prefetchWindowBlocks = 0 then topK else prefetchWindowBlocks) topK

structure ModelConfig (bs : Nat) (R D : Type) where
  numQuestLayers : Nat
  layer : Nat → TierConfig bs R D
  prefetchWindowBlocks : Nat
  topK : Nat

def prefetchNext [BlockMemory M bs R] (model : ModelConfig bs R D) (l : Nat) (g : Gathered S D bs R) :
    ModelM S D M Unit :=
  onComponent (l + 1) (.prefetch (l + 1)) do
    let ids := g.topIds.take (prefetchWindow (model.layer l).blockOrdering model.prefetchWindowBlocks model.topK)
    setPrevSelected (model.layer (l + 1)) g.request.seqId ids
    prefetchTopIds (model.layer (l + 1)) g.request.seqId ids

def layerStep [ReadableMemory M bs R] (model : ModelConfig bs R D) (pass : DecodePass S D bs R) (l : Nat) :
    ModelM S D M Unit := do
  let gathered ← onComponent l (.forward l) (decodePass (model.layer l) model.topK pass)
  if (model.layer l).streamPool ∧ l + 1 < model.numQuestLayers ∧
      0 < prefetchWindow (model.layer l).blockOrdering model.prefetchWindowBlocks model.topK then
    forM gathered fun g => prefetchNext model l g

structure ModelStep (S D : Type) (bs : Nat) (R : Type) where
  request : Request S
  engine : Nat → Nat → KVBlock bs R
  select : Nat → Select S D

def ModelStep.pass (step : ModelStep S D bs R) (l : Nat) : DecodePass S D bs R :=
  { batch := [step.request], engine := step.engine l, select := step.select l }

def modelStep [ReadableMemory M bs R] (model : ModelConfig bs R D) (step : ModelStep S D bs R) :
    ModelM S D M Unit :=
  forM (List.range model.numQuestLayers) fun l => layerStep model (step.pass l) l

def modelInit (model : ModelConfig bs R D) (mem : Nat → Memory bs R) (summary : Nat → Nat → D) :
    Nat → TierManager S D (Memory bs R) :=
  fun l => TierManager.init (model.layer l) (mem l) (summary l)

structure Blank (s : TierManager S D M) : Prop where
  keys : s.slotMap.keys = []
  cpuSlots : s.cpuSlots = .empty
  hostSlots : s.hostSlots = .empty

section

variable [BlockMemory M bs R] {cfg : TierConfig bs R D} {seq : S} {s : TierManager S D M}

theorem Blank.ensureOne (blank : Blank s) (block : Nat) :
    wp (ensureOne cfg seq block) (fun _ _ => False) (fun e _ => e = .notStored (seq, block)) s := by
  have absent : (seq, block) ∉ s.slotMap.keys := by simp [blank.keys]
  refine wp_ensureOne (fun present => absent present) (fun _ _ _ => rfl) (fun _ _ c hf => ?_) (fun _ _ c hf => ?_)
  · rw [blank.hostSlots] at hf
    cases hf
  · rw [blank.cpuSlots] at hf
    cases hf

theorem Blank.prefetchTopIds (blank : Blank s) (async : cfg.streamPool = true) (b : Nat) (rest : List Nat) :
    wp (prefetchTopIds cfg seq (b :: rest)) (fun _ _ => False) (fun e _ => e = .notStored (seq, b)) s := by
  unfold Quest.prefetchTopIds
  simp only [async, ↓reduceIte, forM_cons, wp_bind]
  exact wp_imp (blank.ensureOne b) (fun _ _ impossible => impossible.elim)

omit [BlockMemory M bs R] in
theorem Blank.setPrevSelected {E : QuestError S → TierManager S D M → Prop} (blank : Blank s) (ids : List Nat) :
    wp (setPrevSelected cfg seq ids) (fun _ t => Blank t) E s := by
  unfold Quest.setPrevSelected
  split
  · exact ⟨blank.keys, blank.cpuSlots, blank.hostSlots⟩
  · exact blank

end

variable {model : ModelConfig bs R D} {state : Nat → TierManager S D (Memory bs R)} {step : ModelStep S D bs R}

theorem Blank.prefetchNext {l : Nat} {g : Gathered S D bs R} (blank : Blank (state (l + 1))) (chosen : g.topIds ≠ [])
    (window : 0 < prefetchWindow (model.layer l).blockOrdering model.prefetchWindowBlocks model.topK)
    (async : (model.layer (l + 1)).streamPool = true) :
    wp (prefetchNext model l g) (fun _ _ => False)
      (fun e _ => ∃ b, e = .prefetch (l + 1) (.notStored (g.request.seqId, b))) state := by
  obtain ⟨b, rest, shape⟩ := exists_cons_of_ne_nil chosen
  obtain ⟨w, more⟩ := Nat.exists_eq_succ_of_ne_zero (Nat.ne_of_gt window)
  simp only [Quest.prefetchNext, wp_onComponent, shape, more, wp_bind]
  refine wp_imp (blank.setPrevSelected _) (fun _ t blank' => ?_)
  exact wp_mono (blank'.prefetchTopIds async b _) (fun _ _ impossible => impossible)
    (fun e _ lost => ⟨b, congrArg _ lost⟩)

variable (model step) in
/-- A step of the sparse path with selections as `quest_selection` makes them: exactly `min(top_k, full_blocks)`
candidates, each once. -/
structure TopK : Prop where
  sparse : bs ≤ step.request.seqLen
  valid : ∀ l summary, ValidIds (step.request.seqLen / bs) model.topK
    (step.select l step.request summary (step.request.seqLen / bs) (min model.topK (step.request.seqLen / bs)))
  count : ∀ l summary, (step.select l step.request summary (step.request.seqLen / bs)
    (min model.topK (step.request.seqLen / bs))).length = min model.topK (step.request.seqLen / bs)

theorem decodePass_first {cfg : TierConfig bs R D} {mem : Memory bs R} {summary : Nat → D}
    {E : QuestError S → TierManager S D (Memory bs R) → Prop} (topK : TopK model step) (some : 0 < model.topK)
    (small : model.topK < cfg.gpuBudget) (size : 0 < bs) (pool : step.request.seqLen / bs ≤ cfg.cpuBlocks) :
    wp (decodePass cfg model.topK (step.pass 0)) (fun out _ => ∃ g, out = [g] ∧ g.topIds ≠ []) E
      (TierManager.init cfg mem summary) := by
  have full := Nat.div_pos topK.sparse size
  have proper : ProperPass cfg.gpuBudget model.topK (step.pass 0) := by
    refine ⟨by simp [ModelStep.pass], fun r hm => ?_, fun r hm scores => ?_, .inl (by simp [ModelStep.pass])⟩
    · rw [mem_singleton.mp hm]
      exact lt_of_lt_of_le size topK.sparse
    · rw [mem_singleton.mp hm]
      obtain ⟨hd, hb, count⟩ := topK.valid 0 scores
      exact ⟨hd, hb, le_trans count (by omega)⟩
  refine wp_mono (decodePass_serving (serving_init cfg mem summary fun _ => mem.host 0) (fun r _ n hf => by cases hf)
    proper size (by omega)) (fun out t served => ?_) (fun e _ exhausted => ?_)
  · obtain ⟨-, -, given⟩ := served
    obtain ⟨g, _, served, none, rfl⟩ := forall₂_cons_left_iff.mp given
    obtain rfl := forall₂_nil_left_iff.mp none
    refine ⟨g, rfl, fun empty => ?_⟩
    have count := topK.count 0 t.summary
    rw [served.chosen] at empty
    have short := congrArg length empty
    rw [ModelStep.pass, length_nil, count] at short
    omega
  · have bound := exhausted.lt_fullBlocks proper.distinct
    simp only [fullBlocks, ModelStep.pass, map_cons, map_nil, sum_cons, sum_nil] at bound
    omega

theorem layerStep_first {mem : Nat → Memory bs R} {summary : Nat → Nat → D}
    (topK : TopK model step) (layers : 2 ≤ model.numQuestLayers) (some : 0 < model.topK)
    (small : model.topK < (model.layer 0).gpuBudget) (ordering : (model.layer 0).blockOrdering ≠ .lru)
    (async : ∀ l, (model.layer l).streamPool = true) (size : 0 < bs)
    (pool : step.request.seqLen / bs ≤ (model.layer 0).cpuBlocks) :
    wp (layerStep model (step.pass 0) 0) (fun _ _ => False)
      (fun e _ => ∃ seq b, e = .prefetch 1 (.notStored (seq, b))) (modelInit model mem summary) := by
  have window : 0 < prefetchWindow (model.layer 0).blockOrdering model.prefetchWindowBlocks model.topK := by
    rw [prefetchWindow, if_neg ordering]
    split <;> omega
  unfold layerStep
  simp only [wp_bind, wp_onComponent, async, show 1 < model.numQuestLayers by omega, window, and_self, ↓reduceIte]
  refine wp_imp (decodePass_first topK some small size pool) ?_
  rintro _ t ⟨g, rfl, chosen⟩
  simp only [forM_cons, wp_bind]
  refine wp_mono (Blank.prefetchNext ⟨rfl, rfl, rfl⟩ chosen window (async 1))
    (fun _ _ impossible => impossible.elim) ?_
  rintro e _ ⟨b, rfl⟩
  exact ⟨_, b, rfl⟩

def modelRun [ReadableMemory M bs R] (model : ModelConfig bs R D) (steps : List (ModelStep S D bs R)) :
    ModelM S D M Unit :=
  forM steps fun step => modelStep model step

/-- No prefetch of a run raises exactly when the run has no decode step: the first layer prefetches into a manager that is
trimmed only later in the step. -/
theorem prefetch_raises_unless_idle (model : ModelConfig bs R D) (mem : Nat → Memory bs R) (summary : Nat → Nat → D)
    (steps : List (ModelStep S D bs R)) (size : 0 < bs) (layers : 2 ≤ model.numQuestLayers) (some : 0 < model.topK)
    (small : model.topK < (model.layer 0).gpuBudget) (ordering : ∀ l, (model.layer l).blockOrdering ≠ .lru)
    (async : ∀ l, (model.layer l).streamPool = true) (selected : ∀ step ∈ steps, TopK model step)
    (pool : ∀ step ∈ steps, step.request.seqLen / bs ≤ (model.layer 0).cpuBlocks) :
    (¬ ∃ l e t, modelRun model steps (modelInit model mem summary) = .error (.prefetch l e) t) ↔ steps = [] := by
  constructor
  · intro never
    by_contra some_step
    obtain ⟨step, rest, rfl⟩ := List.exists_cons_of_ne_nil some_step
    have raises : wp (modelRun model (step :: rest)) (fun _ _ => False)
        (fun e _ => ∃ seq b, e = .prefetch 1 (.notStored (seq, b))) (modelInit model mem summary) := by
      obtain ⟨n, count⟩ := Nat.exists_eq_add_of_le layers
      rw [modelRun, List.forM_cons, wp_bind, modelStep, count, add_comm, List.range_succ_eq_map, List.forM_cons, wp_bind]
      refine wp_imp (layerStep_first (selected step (.head _)) layers some small (ordering 0) async size
        (pool step (.head _))) (fun _ _ impossible => impossible.elim)
    cases run : modelRun model (step :: rest) (modelInit model mem summary) with
    | ok _ _ => exact wp_ok raises run
    | error e t =>
      obtain ⟨seq, b, rfl⟩ := wp_error raises run
      exact never ⟨1, _, t, run⟩
  · rintro rfl ⟨l, e, t, run⟩
    cases run

def asyncModel : ModelConfig 2 Nat Nat where
  numQuestLayers := 2
  layer l := { pairConfig with layerIdx := l, streamPool := true, blockOrdering := .prefetch }
  prefetchWindowBlocks := 0
  topK := 1

def asyncStep (seqLen : Nat) : ModelStep Nat Nat 2 Nat where
  request := requestAt 0 0 seqLen
  engine _ := countingEngine
  select _ _ _ n _ := List.range (min n 1)

theorem topK_asyncStep {seqLen : Nat} (sparse : 2 ≤ seqLen) : TopK asyncModel (asyncStep seqLen) := by
  refine ⟨sparse, fun l summary => ?_, fun l summary => by simp [asyncStep, asyncModel, min_comm]⟩
  obtain ⟨hd, hb, count⟩ := validIds_first (seqLen / 2)
  exact ⟨hd, hb, le_trans count (min_le_left ..)⟩

theorem prefetch_raises_unless_idle_two_steps :
    (¬ ∃ l e t, modelRun asyncModel [asyncStep 3, asyncStep 4] (modelInit asyncModel (fun _ => Memory.zero) fun _ _ => 0) =
      .error (.prefetch l e) t) ↔ [asyncStep 3, asyncStep 4] = [] := by
  refine prefetch_raises_unless_idle asyncModel (fun _ => Memory.zero) (fun _ _ => 0) [asyncStep 3, asyncStep 4] (by decide)
    (by decide) (by decide) (by decide) (fun _ => by simp [asyncModel]) (fun _ => rfl) (fun step member => ?_) (by decide)
  simp only [List.mem_cons, List.not_mem_nil, or_false] at member
  rcases member with rfl | rfl
  · exact topK_asyncStep (by decide)
  · exact topK_asyncStep (by decide)

/-- The first decode step of a request of three tokens: the second layer has no block 0 to load. -/
theorem first_prefetch_not_stored : ∃ t,
    modelRun asyncModel [asyncStep 3] (modelInit asyncModel (fun _ => Memory.zero) fun _ _ => 0) =
      .error (.prefetch 1 (.notStored (0, 0))) t :=
  raised_iff.mp (by decide)

end KVOffload.Quest
