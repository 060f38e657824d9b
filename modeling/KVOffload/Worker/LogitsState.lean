import KVOffload.Worker.BatchRows
import KVOffload.Lib.RowTable

/-!
# State of the logits processors

`vllm/v1/sample/logits_processor/builtin.py` and `ThinkingBudgetStateHolder` see a step only through the summary of
`BatchUpdateBuilder`. The dict of a processor is the table of its entries; a list of output tokens is kept as its length.
-/

namespace KVOffload.Worker.Logits

open KVOffload.Core List Function

structure SamplingParams where
  minP : Rat := 0
  /-- `None` is read as the empty dict. -/
  logitBias : List (Token × Rat) := []
  minTokens : Nat := 0
  allStopTokenIds : List Token := []
  thinkingTokenBudget : Option Int := none

structure Request extends SamplingParams where
  promptTokenIds : Option (List Token) := none
  /-- The list object. -/
  outputTokenIds : Nat := 0

def toHole (move : Nat × Nat) : RowMove := (move.1, move.2, .unidirectional)

/-- The batch within a step. Its rows are the ones of `_req_ids`, `numReqs` is the length of `req_id_to_index`. -/
structure Pending extends RowUpdate Request where
  rows : Nat → Option Request
  numReqs : Nat

namespace Pending

/-- The request that is removed is given by its row. -/
def removeRequest (b : Pending) (row : Nat) : Pending :=
  match b.rows row with
  | none => b
  | some _ => { b with rows := update b.rows row none, numReqs := b.numReqs - 1, removed := b.removed ++ [row] }

/-- The source sorts the removed rows the other way round and pops from the end. -/
def sortRemoved (b : Pending) : Pending := { b with removed := b.removed.insertionSort (· ≤ ·) }

def addRequest (b : Pending) (r : Request) : Pending :=
  let row := b.removed.head?.getD b.numReqs
  { b with
    rows := update b.rows row (some r), numReqs := b.numReqs + 1
    removed := b.removed.tail, added := b.added ++ [(row, r)] }

def moves (b : Pending) : List RowMove :=
  if b.numReqs = 0 then [] else (condenseMoves b.removed (b.numReqs + b.removed.length - 1)).map toHole

def condense (b : Pending) : Pending :=
  { b with
    rows := b.moves.foldl (moveRow none) b.rows
    removed := b.removed.drop b.moves.length, moved := b.moved ++ b.moves }

def swapStates (b : Pending) (rows : Nat × Nat) : Option Pending :=
  if (b.rows rows.1).isSome && (b.rows rows.2).isSome then
    let move := (rows.1, rows.2, .swap)
    some { b with rows := moveRow none b.rows move, moved := b.moved ++ [move] }
  else none

end Pending

structure Step where
  /-- How many tokens were sampled into the lists since the last step. -/
  sampled : Nat → Nat := fun _ => 0
  removed : List Nat := []
  added : List Request := []
  swaps : List (Nat × Nat) := []

/-- `_update_states` up to `refresh_metadata`; `none` is a failed assertion. -/
def Step.pending (step : Step) (rows : Nat → Option Request) (numReqs : Nat) : Option Pending :=
  let removed := (step.removed.foldl Pending.removeRequest ⟨{}, rows, numReqs⟩).sortRemoved
  step.swaps.foldlM Pending.swapStates (step.added.foldl Pending.addRequest removed).condense

structure MinPLogitsProcessor where
  minPCpu : Nat → Rat := fun _ => 0
  minPCount : Int := 0

namespace MinPLogitsProcessor

variable (p : MinPLogitsProcessor)

def add (x : Nat × Request) : MinPLogitsProcessor :=
  let minP := x.2.minP
  let minPBefore := p.minPCpu x.1
  if minPBefore = minP then p
  else
    ⟨update p.minPCpu x.1 minP,
      if minP ≠ 0 ∧ minPBefore = 0 then p.minPCount + 1
      else if minP = 0 ∧ minPBefore ≠ 0 then p.minPCount - 1
      else p.minPCount⟩

def remove (row : Nat) : MinPLogitsProcessor :=
  if p.minPCpu row ≠ 0 then ⟨update p.minPCpu row 0, p.minPCount - 1⟩ else p

def move : RowMove → MinPLogitsProcessor
  | (a, b, direct) =>
    let minPA := p.minPCpu a
    let minPB := p.minPCpu b
    let cpu :=
      if minPA ≠ minPB then
        let cpu := update p.minPCpu b minPA
        if direct = .swap then update cpu a minPB else cpu
      else p.minPCpu
    if direct = .unidirectional then
      ⟨if minPA ≠ 0 then update cpu a 0 else cpu, if minPB ≠ 0 then p.minPCount - 1 else p.minPCount⟩
    else ⟨cpu, p.minPCount⟩

def updateState (u : RowUpdate Request) : MinPLogitsProcessor :=
  let p := u.added.foldl add p
  if p.minPCount ≠ 0 then u.moved.foldl move (u.removed.foldl remove p) else p

end MinPLogitsProcessor

variable {T : Type}

/-- The table that `process_dict_updates` leaves. It pops the entries of both rows of a move before it stores them again. -/
def processDictUpdates (newState : Request → Option T) (u : RowUpdate Request) (entries : Nat → Option T) :
    Nat → Option T :=
  replay none newState u entries

def logitBiasState (r : Request) : Option (List (Token × Rat)) := if r.logitBias = [] then none else some r.logitBias

structure MinTokens where
  minToks : Nat
  outTokIds : Nat
  stopTokIds : List Token

section

variable (outputs : Nat → Nat)

def minTokensState (r : Request) : Option MinTokens :=
  if r.minTokens = 0 ∨ r.minTokens ≤ outputs r.outputTokenIds then none else some ⟨r.minTokens, r.outputTokenIds, r.allStopTokenIds⟩

def keepUnattained (entry : Option MinTokens) : Option MinTokens := entry.filter fun e => outputs e.outTokIds < e.minToks

def minTokensUpdateState (u : RowUpdate Request) (entries : Nat → Option MinTokens) : Nat → Option MinTokens :=
  keepUnattained outputs ∘ processDictUpdates (minTokensState outputs) u entries

end

structure ThinkingState where
  thinkingTokenBudget : Int
  promptTokIds : Option (List Token)

def thinkingState (r : Request) : Option ThinkingState := r.thinkingTokenBudget.map (⟨·, r.promptTokenIds⟩)

def moveThinking (state : Nat → Option ThinkingState) : RowMove → Nat → Option ThinkingState
  | (i1, i2, .swap) =>
    let stored := if (state i1).isSome then update state i2 (state i1) else state
    if (state i2).isSome then update stored i1 (state i2) else stored
  | (i1, i2, .unidirectional) =>
    let popped := update state i1 none
    if (state i1).isSome then update popped i2 (state i1) else popped

def syncBatch (u : RowUpdate Request) (state : Nat → Option ThinkingState) : Nat → Option ThinkingState :=
  u.moved.foldl moveThinking (addRows thinkingState u.added (clearRows none u.removed state))

structure State where
  rows : Nat → Option Request := fun _ => none
  numReqs : Nat := 0
  outputs : Nat → Nat := fun _ => 0
  minP : MinPLogitsProcessor := {}
  biases : Nat → Option (List (Token × Rat)) := fun _ => none
  minToks : Nat → Option MinTokens := fun _ => none
  thinking : Nat → Option ThinkingState := fun _ => none

def State.step (s : State) (step : Step) : Option State := do
  let b ← step.pending s.rows s.numReqs
  let u := b.toRowUpdate
  let outputs := fun list => s.outputs list + step.sampled list
  return ⟨b.rows, b.numReqs, outputs, s.minP.updateState u, processDictUpdates logitBiasState u s.biases,
    minTokensUpdateState outputs u s.minToks, syncBatch u s.thinking⟩

def budgets (rows : Nat → Option Request) : Nat → Option ThinkingState := (·.bind thinkingState) ∘ rows

/-- A swap exchanges two requests with a thinking budget or two without; a request without one is not moved into a row whose last
request had one. -/
def CleanMove (budgets : Nat → Option ThinkingState) : RowMove → Prop
  | (i1, i2, .swap) => (budgets i1).isSome = (budgets i2).isSome
  | (i1, i2, .unidirectional) => (budgets i1).isSome ∨ budgets i2 = none

def CleanMoves (rows : Nat → Option Request) : List RowMove → Prop
  | [] => True
  | move :: moves => CleanMove (budgets rows) move ∧ CleanMoves (moveRow none rows move) moves

/-- The rows keep their last request until it is moved, a row that `condense` fills the one that was removed from it. -/
def Step.Clean (s : State) (step : Step) : Prop :=
  ∀ b, step.pending s.rows s.numReqs = some b → CleanMoves (replay none some { b.toRowUpdate with moved := [] } s.rows) b.moved

inductive Reachable : State → Prop where
  | init : Reachable {}
  | step {s t : State} {step : Step} (before : Reachable s) (clean : step.Clean s) (done : s.step step = some t) : Reachable t

/-- A row without a request is outside of the batch. -/
structure Follows (s : State) : Prop where
  minP : ∀ i, s.minP.minPCpu i = (s.rows i).elim 0 (·.minP)
  minPCount : Counts 0 s.minP.minPCpu s.minP.minPCount
  logitBias : ∀ i, s.biases i = (s.rows i).bind logitBiasState
  minTokens : ∀ i, s.minToks i = (s.rows i).bind (minTokensState s.outputs)
  thinking : ∀ i, s.thinking i = (s.rows i).bind thinkingState

variable {old : Nat → Option Request} {b : Pending} {u : RowUpdate Request} {b' : Pending} {m : RowMove}

variable (old b) in
structure Described : Prop where
  replayed : replay none some b.toRowUpdate old = b.rows
  nodup : b.removed.Nodup
  apart : ∀ x ∈ b.added, x.1 ∉ b.removed
  directed : ∀ a c, (a, c, .unidirectional) ∈ b.moved → a ≠ c

theorem Described.removeRequest (described : Described old b) (first : b.added = [] ∧ b.moved = []) (row : Nat) :
    Described old (b.removeRequest row) ∧ (b.removeRequest row).added = [] ∧ (b.removeRequest row).moved = [] := by
  obtain ⟨added, moved⟩ := first
  unfold Pending.removeRequest
  split <;> rename_i held
  · exact ⟨described, added, moved⟩
  have replayed := described.replayed
  simp only [replay, moved, foldl_nil] at replayed
  have free : row ∉ b.removed := by
    intro gone
    rw [← replayed, clearRows, if_pos gone] at held
    cases held
  refine ⟨⟨?_, ?_, by simp [added], by simp [moved]⟩, added, moved⟩
  · simp only [replay, moved, foldl_nil, ← replayed]
    funext i
    simp only [clearRows, update_apply]
    grind
  · simpa using nodup_append_comm.mp (nodup_cons.mpr ⟨free, described.nodup⟩)

theorem Described.sortRemoved (described : Described old b) : Described old b.sortRemoved := by
  have perm := b.removed.perm_insertionSort (· ≤ ·)
  refine ⟨?_, perm.nodup_iff.mpr described.nodup, fun x hm => perm.mem_iff.not.mpr (described.apart x hm), described.directed⟩
  have cleared : ∀ t, clearRows none b.sortRemoved.removed t = clearRows (none : Option Request) b.removed t := fun t =>
    funext fun i => by simp [Pending.sortRemoved, clearRows]
  exact (congrArg (b.moved.foldl (moveRow none)) (cleared _)).trans described.replayed

theorem Described.addRequest (described : Described old b) (first : b.moved = []) (r : Request) :
    Described old (b.addRequest r) ∧ (b.addRequest r).moved = [] := by
  unfold Pending.addRequest
  generalize hole : b.removed.head?.getD b.numReqs = row
  have nodup := described.nodup
  have rest : row ∉ b.removed.tail ∧ ∀ i ≠ row, i ∈ b.removed.tail ↔ i ∈ b.removed := by
    cases removed : b.removed with
    | nil => simp
    | cons head tail =>
      rw [removed] at hole nodup
      obtain rfl : head = row := hole
      exact ⟨(nodup_cons.mp nodup).1, fun i other => by simp [other]⟩
  refine ⟨⟨?_, nodup.tail, fun x hm => ?_, by simp [first]⟩, first⟩
  · rw [← described.replayed]
    funext i
    simp only [replay, first, addRows, foldl_append, foldl_cons, foldl_nil, clearRows, update_apply]
    grind
  · have apart := described.apart x
    grind

theorem targets_condenseMoves (holes : List Nat) (last : Nat) :
    (condenseMoves holes last).map Prod.snd = holes.take (condenseMoves holes last).length := by
  induction holes generalizing last with
  | nil => rfl
  | cons hole holes ih =>
    rw [condenseMoves_cons]
    split
    · rfl
    · rw [map_cons, ih, length_cons, take_succ_cons]

theorem foldl_condenseMoves_congr {α : Type} {d : α} {t t' : Nat → α} {holes : List Nat} {last : Nat}
    (hs : ∀ i, i ∉ (condenseMoves holes last).map Prod.snd → t i = t' i) :
    ((condenseMoves holes last).map toHole).foldl (moveRow d) t = ((condenseMoves holes last).map toHole).foldl (moveRow d) t' := by
  induction holes generalizing last t t' with
  | nil => exact funext fun i => hs i (by simp [condenseMoves])
  | cons hole holes ih =>
    rw [condenseMoves_cons] at hs ⊢
    split <;> rename_i order
    · exact funext fun i => hs i (by simp [order])
    rw [if_neg order] at hs
    refine ih fun i other => ?_
    have source : t (lastFilled (hole :: holes) last) = t' (lastFilled (hole :: holes) last) := by
      refine hs _ fun hm => ?_
      rcases mem_cons.mp hm with hm | hm
      · exact order (le_of_eq hm)
      · obtain ⟨move, hm, target⟩ := mem_map.mp hm
        have := mem_condenseMoves hm
        omega
    simp only [toHole, moveRow]
    grind

theorem Described.condense (described : Described old b) (first : b.moved = []) : Described old b.condense := by
  have replayed := described.replayed
  unfold Pending.condense Pending.moves
  split
  · simpa using described
  simp only [first]
  refine ⟨?_, described.nodup.sublist (drop_sublist _ _),
    fun x hm later => described.apart x hm (mem_of_mem_drop later), fun a c hm => ?_⟩
  · rw [← replayed]
    simp only [replay, first, foldl_nil]
    refine foldl_condenseMoves_congr fun i other => ?_
    rw [targets_condenseMoves] at other
    have parts := take_append_drop (condenseMoves b.removed (b.numReqs + b.removed.length - 1)).length b.removed
    simp only [clearRows]
    grind
  · obtain ⟨move, hm, hs⟩ := mem_map.mp hm
    have := mem_condenseMoves hm
    cases hs
    omega

theorem Described.swapStates (described : Described old b) {rows : Nat × Nat} (done : b.swapStates rows = some b') :
    Described old b' := by
  unfold Pending.swapStates at done
  split at done
  · cases done
    refine ⟨?_, described.nodup, described.apart, fun a c hm => described.directed a c (by simpa using hm)⟩
    simp [replay, ← described.replayed]
  · cases done

theorem Described.swaps (described : Described old b) {swaps : List (Nat × Nat)}
    (done : swaps.foldlM Pending.swapStates b = some b') : Described old b' := by
  induction swaps generalizing b with
  | nil =>
    cases done
    exact described
  | cons rows swaps ih =>
    obtain ⟨c, swapped, done⟩ := Option.bind_eq_some_iff.mp (foldlM_cons.symm.trans done)
    exact ih (described.swapStates swapped) done

theorem Step.described {step : Step} {numReqs : Nat} (done : step.pending old numReqs = some b) : Described old b := by
  have start : Described old ⟨{}, old, numReqs⟩ := ⟨clearRows_nil (d := none), .nil, by simp, by simp⟩
  have removed := foldlRecOn (motive := fun b => Described old b ∧ b.added = [] ∧ b.moved = []) step.removed
    Pending.removeRequest ⟨start, rfl, rfl⟩ fun b described row _ => described.1.removeRequest described.2 row
  have added := foldlRecOn (motive := fun b => Described old b ∧ b.moved = []) step.added Pending.addRequest
    ⟨removed.1.sortRemoved, removed.2.2⟩ fun b described r _ => described.1.addRequest described.2 r
  exact (added.1.condense added.2).swaps done

namespace MinPLogitsProcessor

variable {p : MinPLogitsProcessor} {t : Nat → Rat}

variable (p t) in
def Shows : Prop := p.minPCpu = t ∧ Counts 0 t p.minPCount

variable (shows : p.Shows t)

include shows

theorem Shows.add (x : Nat × Request) : (p.add x).Shows (update t x.1 x.2.minP) := by
  obtain ⟨rfl, counts⟩ := shows
  have counts' := counts.update x.1 x.2.minP
  unfold MinPLogitsProcessor.add
  dsimp only
  split <;> rename_i same
  · rw [← same, update_eq_self]
    exact ⟨rfl, counts⟩
  · refine ⟨rfl, counts'.cast ?_⟩
    grind

theorem Shows.remove (row : Nat) : (p.remove row).Shows (update t row 0) := by
  obtain ⟨rfl, counts⟩ := shows
  unfold MinPLogitsProcessor.remove
  split <;> rename_i used
  · exact ⟨rfl, by simpa [used] using counts.update row 0⟩
  · rw [← not_not.mp used, update_eq_self]
    exact ⟨rfl, counts⟩

theorem Shows.move (directed : m.2.2 = .unidirectional → m.1 ≠ m.2.1) : (p.move m).Shows (moveRow 0 t m) := by
  obtain ⟨rfl, counts⟩ := shows
  obtain ⟨a, b, _ | _⟩ := m
  · have apart := directed rfl
    have counts' := (counts.update a 0).update b (p.minPCpu a)
    refine ⟨funext fun i => ?_, ?_⟩
    · simp only [MinPLogitsProcessor.move, moveRow]
      grind
    · refine counts'.cast ?_
      simp only [MinPLogitsProcessor.move]
      grind
  · have counts' := (counts.update a (p.minPCpu b)).update b (p.minPCpu a)
    refine ⟨funext fun i => ?_, ?_⟩
    · simp only [MinPLogitsProcessor.move, moveRow]
      grind
    · refine counts'.cast ?_
      simp only [MinPLogitsProcessor.move]
      grind

theorem Shows.added (added : List (Nat × Request)) :
    (added.foldl MinPLogitsProcessor.add p).Shows (addRows (·.minP) added t) := by
  induction added generalizing p t with
  | nil => exact shows
  | cons x added ih => exact ih (shows.add x)

theorem Shows.removed (removed : List Nat) : (removed.foldl MinPLogitsProcessor.remove p).Shows (clearRows 0 removed t) := by
  induction removed generalizing p t with
  | nil => simpa using shows
  | cons row removed ih =>
    have step : clearRows 0 (row :: removed) t = clearRows 0 removed (update t row 0) := by
      funext i
      simp only [clearRows]
      grind
    rw [step]
    exact ih (shows.remove row)

theorem Shows.moved {moved : List RowMove} (directed : ∀ a b, (a, b, .unidirectional) ∈ moved → a ≠ b) :
    (moved.foldl MinPLogitsProcessor.move p).Shows (moved.foldl (moveRow 0) t) := by
  induction moved generalizing p t with
  | nil => exact shows
  | cons m moved ih =>
    refine ih (shows.move fun one => directed _ _ ?_) fun a b later => directed a b (.tail _ later)
    rw [← one]
    exact .head _

theorem Shows.updateState
    (directed : ∀ a b, (a, b, .unidirectional) ∈ u.moved → a ≠ b) : (p.updateState u).Shows (replay 0 (·.minP) u t) := by
  have added := shows.added u.added
  unfold MinPLogitsProcessor.updateState
  dsimp only
  split <;> rename_i used
  · exact (added.removed u.removed).moved directed
  · -- no row has an entry, so there is nothing to clear or to move
    obtain ⟨cpu, counts⟩ := added
    rw [not_not.mp used] at counts
    have cleared : clearRows 0 u.removed (addRows (·.minP) u.added t) = fun _ => 0 := by simp [counts.default]
    rw [replay, cleared, moves_default, ← counts.default]
    exact ⟨cpu, by rwa [not_not.mp used]⟩

end MinPLogitsProcessor

theorem moveThinking_eq {t : Nat → Option ThinkingState} (clean : CleanMove t m) :
    moveThinking t m = moveRow none t m := by
  obtain ⟨a, b, _ | _⟩ := m <;> funext i <;> cases first : t a <;> cases second : t b <;>
    simp only [CleanMove, moveThinking, moveRow] at clean ⊢ <;> grind

theorem budgets_moveRow (rows : Nat → Option Request) (m : RowMove) :
    moveRow none (budgets rows) m = budgets (moveRow none rows m) :=
  (comp_moveRow (d := none) (·.bind thinkingState) rows m).symm

theorem CleanMoves.foldl_eq {rows : Nat → Option Request} {moves : List RowMove} (clean : CleanMoves rows moves) :
    moves.foldl moveThinking (budgets rows) = moves.foldl (moveRow none) (budgets rows) := by
  induction moves generalizing rows with
  | nil => rfl
  | cons m moves ih =>
    rw [foldl_cons, foldl_cons, moveThinking_eq clean.1, budgets_moveRow]
    exact ih clean.2

theorem syncBatch_eq (apart : ∀ x ∈ u.added, x.1 ∉ u.removed)
    (clean : CleanMoves (replay none some { u with moved := [] } old) u.moved) :
    syncBatch u (budgets old) = replay none thinkingState u (budgets old) := by
  have base := comp_replay (d := none) (·.bind thinkingState) some { u with moved := [] } old
  have moved := clean.foldl_eq
  rw [budgets, base] at moved
  rw [syncBatch, addRows_clearRows apart]
  exact moved

theorem Described.follow {d : T} {enter : Request → T} (view : Option Request → T) (described : Described old b)
    (vacant : view none = d) (held : view ∘ some = enter) : replay d enter b.toRowUpdate (view ∘ old) = view ∘ b.rows := by
  rw [← described.replayed, comp_replay, vacant, held]

theorem Described.minTokens (described : Described old b) {outputs outputs' : Nat → Nat} (grown : ∀ list, outputs list ≤ outputs' list) :
    minTokensUpdateState outputs' b.toRowUpdate ((·.bind (minTokensState outputs)) ∘ old) =
      (·.bind (minTokensState outputs')) ∘ b.rows := by
  have kept : ∀ outputs, (∀ list, outputs list ≤ outputs' list) → ∀ r,
      keepUnattained outputs' (minTokensState outputs r) = minTokensState outputs' r := by
    intro outputs grown r
    simp only [minTokensState]
    split <;> simp [keepUnattained] <;> grind
  have old_ : keepUnattained outputs' ∘ (·.bind (minTokensState outputs)) ∘ old = (·.bind (minTokensState outputs')) ∘ old := by
    funext i
    cases held : old i with
    | none => simp [held, keepUnattained]
    | some r => simp [held, kept outputs grown]
  rw [minTokensUpdateState, processDictUpdates, comp_replay, old_]
  exact described.follow (·.bind (minTokensState outputs')) rfl (funext fun r => (kept outputs' (fun _ => le_refl _) r).symm)

theorem Follows.step {s t : State} {step : Step} (follows : Follows s) (clean : step.Clean s) (done : s.step step = some t) :
    Follows t := by
  obtain ⟨b, pending, done⟩ := Option.bind_eq_some_iff.mp done
  cases done
  have described := Step.described pending
  have cpu : s.minP.minPCpu = (·.elim 0 (·.minP)) ∘ s.rows := funext follows.minP
  have shows : s.minP.Shows ((·.elim 0 (·.minP)) ∘ s.rows) := ⟨cpu, cpu ▸ follows.minPCount⟩
  have follow : replay 0 (·.minP) b.toRowUpdate _ = _ := described.follow (·.elim 0 (·.minP)) rfl rfl
  have minP := shows.updateState described.directed
  rw [follow] at minP
  refine ⟨congrFun minP.1, minP.1 ▸ minP.2, congrFun ?_, congrFun ?_, congrFun ?_⟩
  · rw [show s.biases = (·.bind logitBiasState) ∘ s.rows from funext follows.logitBias]
    exact described.follow (·.bind logitBiasState) rfl rfl
  · rw [show s.minToks = (·.bind (minTokensState s.outputs)) ∘ s.rows from funext follows.minTokens]
    exact described.minTokens fun list => Nat.le_add_right _ _
  · rw [show s.thinking = budgets s.rows from funext follows.thinking]
    exact (syncBatch_eq described.apart (clean b pending)).trans (described.follow (·.bind thinkingState) rfl rfl)

def oneBudget : Step := { added := [{ thinkingTokenBudget := some 4 }, {}] }

end KVOffload.Worker.Logits
