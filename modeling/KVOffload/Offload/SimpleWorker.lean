import KVOffload.Core.Request
import KVOffload.Lib.Purge

/-!
# The worker of the simple offload connector

`SimpleCPUOffloadWorker` (`simple_kv_offload/worker.py`) and the copy thread of `DmaCopyBackend`, one step of each thread at a
time. A stream completes its copies in order. `load_event_to_reqs` keeps all its entries here.
-/

namespace KVOffload.Offload

open KVOffload.Core List

inductive Direction where
  | load
  | store
deriving DecidableEq

structure Lane where
  /-- the event counter of the manager -/
  counter : Nat := 0
  pending : List Nat := []
  /-- the event of the bound metadata, until its copy is launched -/
  toLaunch : Option Nat := none
  /-- the copies that were issued, and those of them that are complete -/
  stream : List Nat := []
  completed : List Nat := []
  events : List Nat := []
  hwm : Int := -1
  /-- a record of the events whose completion was reported -/
  reported : List Nat := []

inductive Pc where
  | idle
  | bound
  | launch (d : Direction)
  | poll (d : Direction)
  | report (d : Direction)
  /-- in `_flush_and_sync_all`; `k` events of the list were waited for -/
  | flush (d : Direction) (k : Nat)
  | clear (d : Direction)
  | flushed
deriving DecidableEq

structure SimpleWorker where
  lanes : Direction → Lane
  queue : List (Direction × Nat)
  /-- the item of the copy thread, and whether its copy was issued and its event recorded -/
  copying : Option ((Direction × Nat) × Bool)
  pc : Pc
  loadEventToReqs : List (List RequestId)
  /-- a record of what `get_finished` returned -/
  finishedRecving : List RequestId

namespace SimpleWorker

def init : SimpleWorker := ⟨fun _ => {}, [], none, .idle, [], []⟩

def setLane (w : SimpleWorker) (d : Direction) (lane : Lane) (pc : Pc) : SimpleWorker :=
  { w with lanes := Function.update w.lanes d lane, pc }

def startPoll (w : SimpleWorker) : Direction → Pc
  | .load => if (w.lanes .load).pending ≠ [] then .poll .load else if (w.lanes .store).pending ≠ [] then .poll .store else .idle
  | .store => if (w.lanes .store).pending ≠ [] then .poll .store else .idle

def bindEvent (lane : Lane) : Lane :=
  { lane with counter := lane.counter + 1, pending := lane.pending ++ [lane.counter], toLaunch := some lane.counter }

/-- `build_connector_meta` and `bind_connector_metadata`, for the requests to load and whether there are blocks to store. -/
def bind (w : SimpleWorker) (loads : List RequestId) (stores : Bool) : SimpleWorker :=
  { w with
    lanes := fun d => match d with
      | .load => if loads = [] then w.lanes .load else bindEvent (w.lanes .load)
      | .store => if stores then bindEvent (w.lanes .store) else w.lanes .store
    loadEventToReqs := if loads = [] then w.loadEventToReqs else w.loadEventToReqs ++ [loads]
    pc := .bound }

def launch (w : SimpleWorker) (d : Direction) : SimpleWorker :=
  match (w.lanes d).toLaunch with
  | none => w
  | some e => { w.setLane d { w.lanes d with toLaunch := none } w.pc with queue := w.queue ++ [(d, e)] }

def report (w : SimpleWorker) (d : Direction) : SimpleWorker :=
  let lane := w.lanes d
  let covered := lane.pending.filter fun e : Nat => (e : Int) ≤ lane.hwm
  let w := w.setLane d
    { lane with pending := lane.pending.filter fun e : Nat => ¬ (e : Int) ≤ lane.hwm, reported := lane.reported ++ covered } w.pc
  match d with
  | .load => { w with
      finishedRecving := w.finishedRecving ++ covered.flatMap fun e => w.loadEventToReqs.getD e [], pc := w.startPoll .store }
  | .store => { w with pc := .idle }

def main (w : SimpleWorker) : SimpleWorker :=
  match w.pc with
  | .idle => w
  | .bound => { w with pc := .launch .load }
  | .launch .load => { w.launch .load with pc := .launch .store }
  | .launch .store => { w.launch .store with pc := w.startPoll .load }
  | .poll d =>
    let lane := w.lanes d
    match lane.events with
    | [] => { w with pc := .report d }
    | e :: rest =>
      if e ∈ lane.completed then w.setLane d { lane with hwm := e, events := rest } (.poll d) else { w with pc := .report d }
  | .report d => w.report d
  | .flush d k =>
    let lane := w.lanes d
    match lane.events[k]? with
    | some e => if e ∈ lane.completed then w.setLane d { lane with hwm := e } (.flush d (k + 1)) else w
    | none => { w with pc := .clear d }
  | .clear .load => w.setLane .load { w.lanes .load with events := [] } (.flush .store 0)
  | .clear .store => w.setLane .store { w.lanes .store with events := [] } .flushed
  | .flushed => { w with pc := .idle }

def copyLoop (w : SimpleWorker) : SimpleWorker :=
  match w.copying with
  | none =>
    match w.queue with
    | [] => w
    | item :: rest => { w with queue := rest, copying := some (item, false) }
  | some ((d, e), false) =>
    { w.setLane d { w.lanes d with stream := (w.lanes d).stream ++ [e] } w.pc with copying := some ((d, e), true) }
  | some ((d, e), true) => { w.setLane d { w.lanes d with events := (w.lanes d).events ++ [e] } w.pc with copying := none }

def complete (w : SimpleWorker) (d : Direction) : SimpleWorker :=
  match (w.lanes d).stream with
  | [] => w
  | e :: rest => w.setLane d { w.lanes d with stream := rest, completed := (w.lanes d).completed ++ [e] } w.pc

end SimpleWorker

inductive WorkerAction where
  | preempt (needFlush : Bool)
  | bind (loads : List RequestId) (stores : Bool)
  | main
  | copyLoop
  | complete (d : Direction)

def WorkerAction.step (w : SimpleWorker) : WorkerAction → SimpleWorker
  | .preempt needFlush =>
    match w.pc with
    | .idle => { w with pc := if needFlush then .flush .load 0 else .idle }
    | _ => w
  | .bind loads stores =>
    match w.pc with
    | .idle => w.bind loads stores
    | _ => w
  | .main => w.main
  | .copyLoop => w.copyLoop
  | .complete d => w.complete d

def WorkerAction.exec (action : WorkerAction) : EStateM Empty SimpleWorker Unit := modify fun w => action.step w

section

variable {l : Lane} {waiting unissued rest : List Nat} {e off : Nat}

variable (l waiting unissued off) in
/-- The events in the list and those that `waiting` has still to bring there are consecutive, and so are the copies on the stream
and the `unissued` ones. `off` events of the list are below the high-water mark. -/
structure LaneInv : Prop where
  events : ∃ c n, l.events ++ waiting = List.range' c n ∧ l.counter = c + n ∧ l.hwm + 1 = ↑(c + off)
  copies : ∃ k, l.stream ++ unissued = List.range' l.completed.length k ∧ l.counter = l.completed.length + k
  completed : l.completed = List.range l.completed.length
  covered : l.hwm < l.completed.length
  inside : off ≤ l.events.length
  once : (l.pending ++ l.reported).Perm (List.range l.counter)
  reported : ∀ e ∈ l.reported, (e : Int) ≤ l.hwm

variable (inv : LaneInv l waiting unissued off)

include inv in
theorem LaneInv.lt_of_mem (done : e ∈ l.completed) : e < l.completed.length := by
  rw [inv.completed, mem_range] at done
  exact done

theorem LaneInv.poll (inv : LaneInv l waiting unissued 0) (list : l.events = e :: rest)
    (done : e ∈ l.completed) : LaneInv { l with hwm := e, events := rest } waiting unissued 0 := by
  obtain ⟨c, n, order, counter, hwm⟩ := inv.events
  have hb := inv.lt_of_mem done
  rw [list, cons_append] at order
  cases n with
  | zero => cases order
  | succ n =>
    rw [range'_succ, cons.injEq] at order
    obtain ⟨rfl, later⟩ := order
    refine ⟨⟨e + 1, n, later, by simp only; omega, by simp⟩, inv.copies, inv.completed, by simpa using hb, by simp, inv.once, ?_⟩
    intro e' old
    have := inv.reported e' old
    simp only
    omega

theorem LaneInv.flush {k : Nat} (inv : LaneInv l waiting unissued k) (list : l.events[k]? = some e) (done : e ∈ l.completed) :
    LaneInv { l with hwm := e } waiting unissued (k + 1) := by
  obtain ⟨c, n, order, counter, hwm⟩ := inv.events
  have hb := inv.lt_of_mem done
  have hi := (List.getElem?_eq_some_iff.mp list).1
  have here : (range' c n)[k]? = some e := by rw [← order, getElem?_append_left hi, list]
  rw [List.getElem?_range' (by simpa using (List.getElem?_eq_some_iff.mp here).1)] at here
  have hs : c + k = e := by simpa using here
  refine ⟨⟨c, n, order, counter, by simp only; omega⟩, inv.copies, inv.completed, by simpa using hb, hi, inv.once, ?_⟩
  intro e' old
  have := inv.reported e' old
  simp only
  omega

theorem LaneInv.clear (inv : LaneInv l [] unissued l.events.length) : LaneInv { l with events := [] } [] unissued 0 := by
  obtain ⟨c, n, order, counter, hwm⟩ := inv.events
  have length : l.events.length = n := by simpa using congrArg length order
  exact ⟨⟨c + n, 0, rfl, by simpa using counter, by simpa [length] using hwm⟩, inv.copies, inv.completed, inv.covered, by simp,
    inv.once, inv.reported⟩

include inv in
theorem LaneInv.report : LaneInv { l with
    pending := l.pending.filter fun e => ¬ e ≤ l.hwm
    reported := l.reported ++ l.pending.filter fun e : Nat => e ≤ l.hwm } waiting unissued off := by
  refine { inv with once := ?_, reported := ?_ }
  · refine List.Perm.trans ?_ inv.once
    have split := filter_append_perm (fun e : Nat => decide (e ≤ l.hwm)) l.pending
    simp only [decide_not]
    refine perm_append_comm.trans (List.Perm.trans ?_ (split.append_right _))
    rw [append_assoc]
    exact perm_append_comm
  · intro e hm
    rcases mem_append.mp hm with old | now
    · exact inv.reported e old
    · simpa using (mem_filter.mp now).2

include inv in
theorem LaneInv.complete (list : l.stream = e :: rest) :
    LaneInv { l with stream := rest, completed := l.completed ++ [e] } waiting unissued off := by
  obtain ⟨k, order, counter⟩ := inv.copies
  have covered := inv.covered
  rw [list, cons_append] at order
  cases k with
  | zero => cases order
  | succ k =>
    rw [range'_succ, cons.injEq] at order
    obtain ⟨rfl, later⟩ := order
    refine { inv with copies := ⟨k, by simpa using later, ?_⟩, completed := ?_, covered := ?_ }
    · simp only [length_append, length_singleton]
      omega
    · simp [range_succ, ← inv.completed]
    · simp only [length_append]
      omega

theorem LaneInv.issue (inv : LaneInv l waiting (e :: unissued) off) :
    LaneInv { l with stream := l.stream ++ [e] } waiting unissued off :=
  { inv with copies := by simpa using inv.copies }

theorem LaneInv.append (inv : LaneInv l (e :: waiting) unissued off) (first : off = 0) :
    LaneInv { l with events := l.events ++ [e] } waiting unissued off :=
  { inv with events := by simpa using inv.events, inside := by simp [first] }

include inv in
theorem LaneInv.bind :
    LaneInv (SimpleWorker.bindEvent l) (waiting ++ [l.counter]) (unissued ++ [l.counter]) off := by
  obtain ⟨c, n, order, counter, hwm⟩ := inv.events
  obtain ⟨k, copies, total⟩ := inv.copies
  refine { inv with events := ⟨c, n + 1, ?_, ?_, hwm⟩, copies := ⟨k + 1, ?_, ?_⟩, once := ?_ }
  · rw [← append_assoc, SimpleWorker.bindEvent, order, range'_concat, counter, Nat.one_mul]
  · simp only [SimpleWorker.bindEvent]
    omega
  · rw [← append_assoc, SimpleWorker.bindEvent, copies, range'_concat, total, Nat.one_mul]
  · simp only [SimpleWorker.bindEvent]
    omega
  · simp only [SimpleWorker.bindEvent, range_succ, append_assoc]
    refine (perm_append_comm.append_left l.pending).trans ?_
    rw [← append_assoc]
    exact inv.once.append_right _

end

namespace SimpleWorker

variable {w : SimpleWorker} {d : Direction}

def onLane (d : Direction) (item : Direction × Nat) : Option Nat := if item.1 = d then some item.2 else none

variable (w d) in
def waiting : List Nat :=
  (w.copying.bind fun item => onLane d item.1).toList ++ w.queue.filterMap (onLane d) ++ (w.lanes d).toLaunch.toList

variable (w d) in
def unissued : List Nat :=
  (w.copying.bind fun item => if item.2 then none else onLane d item.1).toList ++ w.queue.filterMap (onLane d) ++
    (w.lanes d).toLaunch.toList

end SimpleWorker

@[simp] def Pc.offset (l : Lane) (d : Direction) : Pc → Nat
  | .flush d' k => if d' = d then k else 0
  | .clear d' => if d' = d then l.events.length else 0
  | _ => 0

@[simp] def Pc.launches (d : Direction) : Pc → Bool
  | .bound => true
  | .launch d' => d' = .load || d = .store
  | _ => false

@[simp] def Pc.flushing : Pc → Bool
  | .flush _ _ | .clear _ | .flushed => true
  | _ => false

@[simp] def Pc.cleared (d : Direction) : Pc → Bool
  | .flush .store _ | .clear .store => d = .load
  | .flushed => true
  | _ => false

structure WorkerInv (w : SimpleWorker) : Prop where
  lanes : ∀ d, LaneInv (w.lanes d) (w.waiting d) (w.unissued d) (w.pc.offset (w.lanes d) d)
  launched : ∀ d, w.pc.launches d = false → (w.lanes d).toLaunch = none
  quiet : w.pc.flushing = true → w.queue = [] ∧ w.copying = none
  cleared : ∀ d, w.pc.cleared d = true → (w.lanes d).events = []
  reqs : w.loadEventToReqs.length = (w.lanes .load).counter
  recving : w.finishedRecving = (w.lanes .load).reported.flatMap fun e => w.loadEventToReqs.getD e []

variable {w : SimpleWorker}

open SimpleWorker (waiting unissued setLane onLane)

variable {d : Direction} {pc : Pc} {waiting unissued : List Nat} {lane : Lane} {off e : Nat} {l : Lane}

theorem WorkerInv.change (inv : WorkerInv w) {queue : List (Direction × Nat)}
    {copying : Option ((Direction × Nat) × Bool)} (counter : lane.counter = (w.lanes d).counter)
    (reported : lane.reported = (w.lanes d).reported)
    (own : LaneInv lane ({ w.setLane d lane pc with queue, copying }.waiting d)
      ({ w.setLane d lane pc with queue, copying }.unissued d) (pc.offset lane d))
    (other : ∀ d', d' ≠ d → { w.setLane d lane pc with queue, copying }.waiting d' = w.waiting d' ∧
      { w.setLane d lane pc with queue, copying }.unissued d' = w.unissued d' ∧
      pc.offset (w.lanes d') d' = w.pc.offset (w.lanes d') d')
    (launched : ∀ d', pc.launches d' = false → (if d' = d then lane else w.lanes d').toLaunch = none)
    (quiet : pc.flushing = true → queue = [] ∧ copying = none)
    (cleared : ∀ d', pc.cleared d' = true → (if d' = d then lane else w.lanes d').events = []) :
    WorkerInv { w.setLane d lane pc with queue, copying } := by
  have lanes : ∀ d', (w.setLane d lane pc).lanes d' = if d' = d then lane else w.lanes d' := by
    simp [setLane, Function.update_apply]
  refine ⟨fun d' => ?_, fun d' now => by simpa only [lanes] using launched d' now, quiet,
    fun d' now => by simpa only [lanes] using cleared d' now, ?_, ?_⟩
  · change LaneInv ((w.setLane d lane pc).lanes d') _ _ (pc.offset ((w.setLane d lane pc).lanes d') d')
    rw [lanes]
    by_cases hs : d' = d
    · rw [if_pos hs]
      exact hs ▸ own
    · rw [if_neg hs, (other d' hs).1, (other d' hs).2.1, (other d' hs).2.2]
      exact inv.lanes d'
  · simp only [lanes]
    split <;> simp_all [setLane, inv.reqs]
  · simp only [lanes]
    split <;> simp_all [setLane, inv.recving]

theorem WorkerInv.within (inv : WorkerInv w) (toLaunch : lane.toLaunch = (w.lanes d).toLaunch)
    (counter : lane.counter = (w.lanes d).counter) (reported : lane.reported = (w.lanes d).reported)
    (own : LaneInv lane (w.waiting d) (w.unissued d) (pc.offset lane d))
    (other : ∀ d', d' ≠ d → pc.offset (w.lanes d') d' = w.pc.offset (w.lanes d') d')
    (launched : ∀ d', pc.launches d' = false → w.pc.launches d' = false) (quiet : pc.flushing = true → w.pc.flushing = true)
    (cleared : ∀ d', pc.cleared d' = true → if d' = d then lane.events = [] else w.pc.cleared d' = true) :
    WorkerInv (w.setLane d lane pc) := by
  have launch d' : ((w.setLane d lane pc).lanes d').toLaunch = (w.lanes d').toLaunch := by
    by_cases hs : d' = d <;> simp_all [setLane]
  have hs d' : (w.setLane d lane pc).waiting d' = w.waiting d' ∧
      (w.setLane d lane pc).unissued d' = w.unissued d' := by
    simp only [waiting, unissued, launch]
    exact ⟨rfl, rfl⟩
  refine inv.change counter reported ?_ (fun d' apart => ⟨(hs d').1, (hs d').2, other d' apart⟩) (fun d' now => ?_)
    (fun now => inv.quiet (quiet now)) fun d' now => ?_
  · rw [← (hs d).1, ← (hs d).2] at own
    exact own
  · have none := inv.launched d' (launched d' now)
    split <;> simp_all
  · have was := cleared d' now
    split <;> rename_i here
    · rwa [if_pos here] at was
    · rw [if_neg here] at was
      exact inv.cleared d' was

theorem WorkerInv.go (inv : WorkerInv w) (offset : ∀ d, pc.offset (w.lanes d) d = w.pc.offset (w.lanes d) d)
    (launched : ∀ d, pc.launches d = false → (w.lanes d).toLaunch = none)
    (quiet : pc.flushing = true → w.queue = [] ∧ w.copying = none)
    (cleared : ∀ d, pc.cleared d = true → (w.lanes d).events = []) : WorkerInv { w with pc } := by
  refine ⟨fun d => ?_, launched, quiet, cleared, inv.reqs, inv.recving⟩
  rw [offset d]
  exact inv.lanes d

theorem WorkerInv.complete (inv : WorkerInv w) (d : Direction) : WorkerInv (w.complete d) := by
  unfold SimpleWorker.complete
  cases list : (w.lanes d).stream with
  | nil => exact inv
  | cons e rest =>
    refine inv.within rfl rfl rfl ((inv.lanes d).complete list) (fun _ _ => rfl) (fun _ h => h) (fun h => h) fun d' now => ?_
    split <;> rename_i hs
    · exact inv.cleared d (hs ▸ now)
    · exact now

theorem Pc.flushing_of_cleared (cleared : pc.cleared d = true) : pc.flushing = true := by
  revert cleared
  fun_cases Pc.cleared <;> simp

theorem Pc.offset_of_calm (calm : ¬ pc.flushing = true) (l : Lane) (d : Direction) : pc.offset l d = 0 := by
  cases pc <;> simp_all

theorem WorkerInv.lane_of_calm (inv : WorkerInv w) (calm : ¬ w.pc.flushing = true) (d : Direction) :
    LaneInv (w.lanes d) (w.waiting d) (w.unissued d) 0 := by
  have own := inv.lanes d
  rwa [Pc.offset_of_calm calm] at own

theorem WorkerInv.copyLoop (inv : WorkerInv w) : WorkerInv w.copyLoop := by
  unfold SimpleWorker.copyLoop
  match copying : w.copying with
  | none =>
    cases queue : w.queue with
    | nil => exact inv
    | cons item rest =>
      have calm : ¬ w.pc.flushing = true := fun now => by simpa [queue] using (inv.quiet now).1
      refine ⟨fun d => ?_, inv.launched, fun now => absurd now calm, inv.cleared, inv.reqs, inv.recving⟩
      have own := inv.lanes d
      unfold waiting unissued at own ⊢
      rw [copying, queue] at own
      cases here : onLane d item <;> simpa [here] using own
  | some ((d, e), issued) =>
    have calm : ¬ w.pc.flushing = true := fun now => by simpa [copying] using (inv.quiet now).2
    have own := inv.lane_of_calm calm d
    have launched := inv.launched
    have cleared : ∀ d', w.pc.cleared d' ≠ true := fun d' now => calm (Pc.flushing_of_cleared now)
    cases issued
    all_goals
      refine inv.change rfl rfl (Pc.offset_of_calm calm _ _ ▸ ?lane) (fun d' apart => ?_) (fun d' now => ?_)
        (fun now => absurd now calm) fun d' now => absurd now (cleared d')
      case lane =>
        first
        | refine LaneInv.issue ?_
        | refine LaneInv.append ?_ rfl
        simpa [waiting, unissued, copying, onLane, setLane] using own
      · simp [waiting, unissued, copying, onLane, setLane, apart, Ne.symm]
      · split <;> simp_all

theorem WorkerInv.launch (inv : WorkerInv w) (calm : ¬ w.pc.flushing = true) (calm' : ¬ pc.flushing = true)
    (launched : ∀ d', pc.launches d' = false → d' = d ∨ (w.lanes d').toLaunch = none) : WorkerInv { w.launch d with pc } := by
  have own := inv.lane_of_calm calm d
  unfold SimpleWorker.launch
  cases event : (w.lanes d).toLaunch with
  | none =>
    refine inv.go (fun d' => by rw [Pc.offset_of_calm calm, Pc.offset_of_calm calm']) (fun d' now => ?_)
      (fun now => absurd now calm') fun d' now => absurd (Pc.flushing_of_cleared now) calm'
    rcases launched d' now with rfl | none
    · exact event
    · exact none
  | some e =>
    refine inv.change rfl rfl (Pc.offset_of_calm calm' _ _ ▸ ?_) (fun d' apart => ?_) (fun d' now => ?_)
      (fun now => absurd now calm') fun d' now => absurd (Pc.flushing_of_cleared now) calm'
    · have own' : LaneInv { w.lanes d with toLaunch := none } (w.waiting d) (w.unissued d) 0 := { own with }
      simpa [waiting, unissued, setLane, onLane, event] using own'
    · rw [Pc.offset_of_calm calm, Pc.offset_of_calm calm']
      simp [waiting, unissued, setLane, onLane, apart, Ne.symm]
    · rcases launched d' now with hs | none
      · rw [if_pos hs]
      · split <;> simp_all

theorem SimpleWorker.startPoll_calm (w : SimpleWorker) (d : Direction) :
    (w.startPoll d).flushing = false ∧ ∀ d', (w.startPoll d).launches d' = false := by
  unfold startPoll
  split <;> repeat' split
  all_goals simp

section

variable (inv : WorkerInv w)

include inv

theorem WorkerInv.report (pc : w.pc = .report d) : WorkerInv (w.report d) := by
  have calm : ¬ w.pc.flushing = true := by simp [pc]
  have launch : ∀ d', (w.lanes d').toLaunch = none := fun d' => inv.launched d' (by simp [pc])
  have own := (inv.lane_of_calm calm d).report
  have calm' : ¬ (w.report d).pc.flushing = true := by
    cases d with
    | load => simp only [SimpleWorker.report, (SimpleWorker.startPoll_calm _ _).1, Bool.false_eq_true, not_false_eq_true]
    | store => simp [SimpleWorker.report]
  have lanes : ∀ d', ((w.report d).lanes d').toLaunch = none ∧ ((w.report d).lanes d').counter = (w.lanes d').counter ∧
      LaneInv ((w.report d).lanes d') (w.waiting d') (w.unissued d') 0 := by
    intro d'
    have other := inv.lane_of_calm calm d'
    cases d <;> cases d' <;> simp_all [SimpleWorker.report, setLane]
  refine ⟨fun d' => ?_, fun d' _ => (lanes d').1, fun now => absurd now calm', fun d' now => absurd (Pc.flushing_of_cleared now) calm', ?_, ?_⟩
  · rw [Pc.offset_of_calm calm']
    have hs : (w.report d).waiting d' = w.waiting d' ∧ (w.report d).unissued d' = w.unissued d' := by
      simp only [waiting, unissued, (lanes d').1, launch]
      cases d <;> exact ⟨rfl, rfl⟩
    rw [hs.1, hs.2]
    exact (lanes d').2.2
  · rw [(lanes .load).2.1, ← inv.reqs]
    cases d <;> rfl
  · cases d <;> simp [SimpleWorker.report, setLane, inv.recving]

theorem WorkerInv.waiting_of_flushing (flushing : w.pc.flushing = true)
    (launched : w.pc.launches d = false) : w.waiting d = [] := by
  simp [waiting, inv.quiet flushing, inv.launched d launched]

theorem WorkerInv.cleared_lane (flushing : w.pc.flushing = true)
    (all : w.pc.offset (w.lanes d) d = (w.lanes d).events.length) (launched : w.pc.launches d = false)
    (start : pc.offset { w.lanes d with events := [] } d = 0) :
    LaneInv { w.lanes d with events := [] } (w.waiting d) (w.unissued d) (pc.offset { w.lanes d with events := [] } d) := by
  have own := inv.lanes d
  rw [all, inv.waiting_of_flushing flushing launched] at own
  rw [start, inv.waiting_of_flushing flushing launched]
  exact own.clear

theorem WorkerInv.main : WorkerInv w.main := by
  unfold SimpleWorker.main
  split <;> rename_i pc
  · exact inv
  · exact inv.go (by simp [pc]) (by simp) (by simp) (by simp)
  · exact inv.launch (by simp [pc]) (by simp) (by rintro (_ | _) <;> simp)
  · have calm := w.startPoll_calm .load
    refine inv.launch (by simp [pc]) (Bool.eq_false_iff.mp calm.1) fun d' _ => ?_
    cases d' with
    | store => exact .inl rfl
    | load => exact .inr (inv.launched .load (by simp [pc]))
  · rename_i d
    have launch : ∀ d', (w.lanes d').toLaunch = none := fun d' => inv.launched d' (by simp [pc])
    have leave : WorkerInv { w with pc := .report d } :=
      inv.go (by simp [pc]) (fun d' _ => launch d') (by simp) (by simp)
    have own := inv.lanes d
    simp only [pc] at own
    dsimp only
    split
    · exact leave
    · split
      · exact inv.within rfl rfl rfl (own.poll ‹_› ‹_›) (by simp [pc]) (by simp [pc]) (by simp) (by simp)
      · exact leave
  · exact inv.report pc
  · rename_i d k
    have own := inv.lanes d
    simp only [pc, if_pos, Pc.offset] at own
    dsimp only
    split
    · split
      · refine inv.within rfl rfl rfl ?_ ?_ (by simp [pc]) (by simp [pc]) ?_
        · simpa using own.flush ‹_› ‹_›
        · intro d' apart
          simp [pc, Ne.symm apart]
        · cases d <;> simp [pc]
      · exact inv
    rename_i beyond
    refine inv.go (fun d' => ?_) (fun d' _ => inv.launched d' (by simp [pc])) (fun _ => inv.quiet (by simp [pc])) ?_
    · have last := getElem?_eq_none_iff.mp beyond
      have hi := own.inside
      by_cases hs : d = d'
      · subst hs
        simp only [pc, if_pos, Pc.offset]
        omega
      · simp [pc, hs]
    · intro d' now
      exact inv.cleared d' (by rw [pc]; cases d <;> simp_all)
  · refine inv.within rfl rfl rfl (inv.cleared_lane (by simp [pc]) (by simp [pc])
      (by simp [pc]) (by simp)) ?_ (by simp [pc]) (by simp [pc]) ?_
    · rintro (_ | _) apart <;> simp_all
    · rintro (_ | _) <;> simp
  · refine inv.within rfl rfl rfl (inv.cleared_lane (by simp [pc]) (by simp [pc])
      (by simp [pc]) (by simp)) ?_ (by simp [pc]) (by simp [pc]) ?_
    · rintro (_ | _) apart <;> simp_all
    · rintro (_ | _) <;> simp [pc]
  · exact inv.go (by simp [pc]) (fun d' _ => inv.launched d' (by simp [pc])) (by simp)
      (by simp)

theorem WorkerInv.bind (pc : w.pc = .idle) (loads : List RequestId) (stores : Bool) : WorkerInv (w.bind loads stores) := by
  have calm : ¬ w.pc.flushing = true := by simp [pc]
  have launch : ∀ d, (w.lanes d).toLaunch = none := fun d => inv.launched d (by simp [pc])
  have lanes : ∀ d, LaneInv ((w.bind loads stores).lanes d) ((w.bind loads stores).waiting d) ((w.bind loads stores).unissued d) 0 := by
    intro d
    have own := inv.lane_of_calm calm d
    have bound := own.bind
    simp only [waiting, unissued, launch, Option.toList_none, append_nil] at own bound
    cases d <;> simp only [SimpleWorker.bind, waiting, unissued] <;> split
    all_goals first | exact bound | simpa [launch] using own
  refine ⟨lanes, by simp [SimpleWorker.bind], by simp [SimpleWorker.bind], by simp [SimpleWorker.bind], ?_, ?_⟩
  · have reqs := inv.reqs
    by_cases none : loads = []
    · simpa [SimpleWorker.bind, none] using reqs
    · simp [SimpleWorker.bind, none, SimpleWorker.bindEvent, reqs]
  have hw : ∀ e ∈ (w.lanes .load).reported, e < w.loadEventToReqs.length := by
    intro e hm
    rw [inv.reqs, ← mem_range, ← ((inv.lanes .load).once).mem_iff]
    exact mem_append_right _ hm
  by_cases none : loads = []
  · simpa [SimpleWorker.bind, none] using inv.recving
  · simp only [SimpleWorker.bind, none, inv.recving]
    refine flatMap_congr fun e hm => ?_
    simp [getElem?_append_left (hw e hm)]

end

/-- A flush begins when the copy thread has brought the events of all launched copies into their lists. -/
def WorkerAction.Calm (w : SimpleWorker) : WorkerAction → Prop
  | .preempt true => w.pc = .idle → w.queue = [] ∧ w.copying = none
  | _ => True

instance (w : SimpleWorker) (action : WorkerAction) : Decidable (action.Calm w) := by
  unfold WorkerAction.Calm
  split <;> infer_instance

theorem WorkerInv.step (inv : WorkerInv w) (action : WorkerAction) (calm : action.Calm w) : WorkerInv (action.step w) := by
  cases action with
  | preempt needFlush =>
    unfold WorkerAction.step
    dsimp only
    split <;> rename_i pc
    · have launch : ∀ d, (w.lanes d).toLaunch = none := fun d => inv.launched d (by simp [pc])
      cases needFlush with
      | false => exact inv.go (by simp [pc]) (fun d _ => launch d) (by simp) (by simp)
      | true => exact inv.go (by simp [pc]) (fun d _ => launch d) (fun _ => calm pc) (by simp)
    · exact inv
  | bind loads stores =>
    unfold WorkerAction.step
    dsimp only
    split <;> rename_i pc
    · exact inv.bind pc loads stores
    · exact inv
  | main => exact inv.main
  | copyLoop => exact inv.copyLoop
  | complete d => exact inv.complete d

theorem workerInv_init : WorkerInv .init := by
  refine ⟨fun d => ?_, fun _ _ => rfl, fun _ => ⟨rfl, rfl⟩, fun _ _ => rfl, rfl, rfl⟩
  exact ⟨⟨0, 0, rfl, rfl, rfl⟩, ⟨0, rfl, rfl⟩, rfl, by simp [SimpleWorker.init], le_refl 0, List.Perm.refl _, by simp [SimpleWorker.init]⟩

structure LosesNothing (w : SimpleWorker) : Prop where
  /-- When a flush returns, the copies of all events are complete. -/
  flushed : w.pc = .flushed → ∀ d, ∀ e < (w.lanes d).counter, e ∈ (w.lanes d).completed
  /-- An event is below the high-water mark, in the list, or on its way to it. -/
  kept : ∀ d, ∀ e < (w.lanes d).counter, (e : Int) ≤ (w.lanes d).hwm ∨ e ∈ (w.lanes d).events ∨ e ∈ w.waiting d
  /-- A poll ends when no event of the list is complete. -/
  polled : ∀ d, w.pc = .poll d → w.main.pc = .report d → ∀ e ∈ (w.lanes d).events, e ∉ (w.lanes d).completed
  /-- What is below the high-water mark after a poll is reported. -/
  due : ∀ d, w.pc = .report d → ∀ e < (w.lanes d).counter, (e : Int) ≤ (w.lanes d).hwm → e ∈ (w.main.lanes d).reported
  once : ∀ d, (w.lanes d).reported.Nodup
  done : ∀ d, ∀ e ∈ (w.lanes d).reported, e ∈ (w.lanes d).completed
  recving : w.finishedRecving = (w.lanes .load).reported.flatMap fun e => w.loadEventToReqs.getD e []

theorem LaneInv.mem_completed (inv : LaneInv l waiting unissued off)
    (hb : e ≤ l.hwm) : e ∈ l.completed := by
  have covered := inv.covered
  rw [inv.completed, mem_range]
  omega

theorem LaneInv.kept (inv : LaneInv l waiting unissued off)
    (bound : e < l.counter) : e ≤ l.hwm ∨ e ∈ l.events ∨ e ∈ waiting := by
  obtain ⟨c, n, order, counter, hwm⟩ := inv.events
  by_cases hb : e ≤ l.hwm
  · exact .inl hb
  · refine .inr (mem_append.mp ?_)
    rw [order, mem_range'_1]
    omega

theorem WorkerInv.losesNothing (inv : WorkerInv w) : LosesNothing w := by
  refine ⟨fun pc d e bound => ?_, fun d e bound => (inv.lanes d).kept bound, fun d pc ends e listed => ?_, fun d pc e bound hb => ?_,
    fun d => ?_, fun d e hm => (inv.lanes d).mem_completed ((inv.lanes d).reported e hm), inv.recving⟩
  · have list := inv.cleared d (by simp [pc])
    have waiting := inv.waiting_of_flushing (by simp [pc]) (d := d) (by simp [pc])
    rcases (inv.lanes d).kept bound with hb | listed | away
    · exact (inv.lanes d).mem_completed hb
    · simp [list] at listed
    · simp [waiting] at away
  · have own := inv.lanes d
    obtain ⟨c, n, order, counter, hwm⟩ := own.events
    unfold SimpleWorker.main at ends
    cases list : (w.lanes d).events with
    | nil => simp [list] at listed
    | cons first rest =>
      simp only [pc, list] at ends
      -- the first event of the list is the smallest
      have least : first ≤ e := by
        have here := order ▸ mem_append_left _ listed
        rw [list, cons_append] at order
        have head := congrArg head? order
        cases n with
        | zero => simp at head
        | succ n =>
          simp only [head?_cons, range'_succ, Option.some.injEq] at head
          exact head ▸ (mem_range'_1.mp here).1
      intro done
      have hb := own.lt_of_mem done
      have first_done : first ∈ (w.lanes d).completed := by
        rw [own.completed, mem_range]
        omega
      rw [if_pos first_done] at ends
      cases ends
  · have bound := (inv.lanes d).once.mem_iff.mpr (mem_range.mpr bound)
    have lane : (w.main.lanes d).reported = (w.lanes d).reported ++ (w.lanes d).pending.filter fun e : Nat => e ≤ (w.lanes d).hwm := by
      unfold SimpleWorker.main
      rw [pc]
      cases d <;> simp [SimpleWorker.report, setLane]
    rw [lane]
    rcases mem_append.mp bound with pending | reported
    · exact mem_append_right _ (mem_filter.mpr ⟨pending, by simpa using hb⟩)
    · exact mem_append_left _ reported
  · have once := (nodup_range).perm (inv.lanes d).once.symm
    exact (nodup_append.mp once).2.1

def calmFlush : List WorkerAction :=
  [.bind [1] true, .main, .main, .main, .copyLoop, .copyLoop, .copyLoop, .copyLoop, .copyLoop, .copyLoop, .complete .load,
    .main, .main, .main, .main, .complete .store, .preempt true, .main, .main, .main, .main, .main]

def queuedFlush : List WorkerAction :=
  [.bind [1] false, .main, .main, .main, .main, .main, .preempt true, .main, .main, .main, .main]

/-- The copy thread appends the event when the flush has seen the end of the list and before it clears it. -/
def lateAppend : List WorkerAction :=
  [.bind [1] false, .main, .main, .main, .main, .main, .copyLoop, .copyLoop, .preempt true, .main, .copyLoop, .main, .main, .main,
    .complete .load, .main]

end KVOffload.Offload
