import Mathlib

/-!
# In-order streams

Between streams there is no order, but for a command that waits for everything issued to another stream before it.
-/

namespace KVOffload

variable {ι C μ V : Type} [DecidableEq ι]

/-- What the commands are: the stream of each, the stream it waits for and its effect. -/
structure StreamKind (ι C μ : Type) where
  stream : C → ι
  waits : C → Option ι
  exec : C → μ → μ

/-- A command in its queue, with the number of commands of another stream that have to be done before. -/
structure Queued (ι C : Type) where
  command : C
  after : Option (ι × Nat)

structure Device (ι C μ : Type) where
  queue : ι → List (Queued ι C)
  done : ι → Nat
  mem : μ

namespace StreamKind

variable (kind : StreamKind ι C μ)

def sent (i : ι) (log : List C) : List C := log.filter fun c => kind.stream c = i

def enqueue : List C → List C → List (Queued ι C)
  | _, [] => []
  | before, c :: rest =>
    ⟨c, (kind.waits c).map fun i => (i, (kind.sent i before).length)⟩ :: enqueue (before ++ [c]) rest

def start (log : List C) (mem : μ) : Device ι C μ where
  queue i := (kind.enqueue [] log).filter fun q => kind.stream q.command = i
  done _ := 0
  mem := mem

def Ready (d : Device ι C μ) (q : Queued ι C) : Prop :=
  match q.after with
  | none => True
  | some (i, n) => n ≤ d.done i

instance (d : Device ι C μ) (q : Queued ι C) : Decidable (Ready d q) := by
  unfold Ready
  split <;> infer_instance

def tick (i : ι) (d : Device ι C μ) : Option (Device ι C μ) :=
  match d.queue i with
  | [] => none
  | q :: rest =>
    if Ready d q then
      some
        { queue := Function.update d.queue i rest
          done := Function.update d.done i (d.done i + 1)
          mem := kind.exec q.command d.mem }
    else none

def ticks : List ι → Device ι C μ → Option (Device ι C μ)
  | [], d => some d
  | i :: rest, d => (kind.tick i d).bind (ticks rest)

def replay (log : List C) (mem : μ) : μ := log.foldl (fun m c => kind.exec c m) mem

variable {kind}

omit [DecidableEq ι] in
theorem replay_append (log : List C) (c : C) (mem : μ) : kind.replay (log ++ [c]) mem = kind.exec c (kind.replay log mem) := by
  simp [replay]

theorem enqueue_commands (before log : List C) : (kind.enqueue before log).map Queued.command = log := by
  induction log generalizing before with
  | nil => rfl
  | cons c rest ih => simp [enqueue, ih]

theorem start_commands (i : ι) (log : List C) (mem : μ) :
    ((kind.start log mem).queue i).map Queued.command = kind.sent i log := by
  have all : (kind.enqueue [] log).map Queued.command = log := enqueue_commands [] log
  calc ((kind.start log mem).queue i).map Queued.command
      = ((kind.enqueue [] log).map Queued.command).filter fun c => kind.stream c = i := by
        rw [List.filter_map]
        rfl
    _ = kind.sent i log := by rw [all, sent]

/-- Part of the memory is changed by the commands of the stream `main` only, and by these in a way that depends on that
part alone. -/
structure Private (kind : StreamKind ι C μ) (main : ι) (log : List C) (view : μ → V) (act : C → V → V) : Prop where
  own : ∀ c ∈ log, kind.stream c = main → ∀ m, view (kind.exec c m) = act c (view m)
  other : ∀ c ∈ log, kind.stream c ≠ main → ∀ m, view (kind.exec c m) = view m

variable {main : ι} {log : List C} {view : μ → V} {act : C → V → V} {d d' : Device ι C μ} {mem : μ}

theorem Private.replay (priv : Private kind main log view act) (mem : μ) :
    view (kind.replay log mem) = (kind.sent main log).foldl (fun v c => act c v) (view mem) := by
  induction log generalizing mem with
  | nil => rfl
  | cons c rest ih =>
    have tail : Private kind main rest view act :=
      ⟨fun c' hm => priv.own c' (.tail _ hm), fun c' hm => priv.other c' (.tail _ hm)⟩
    have later := ih tail (kind.exec c mem)
    by_cases mine : kind.stream c = main
    · rw [priv.own c (.head _) mine] at later
      simpa [StreamKind.replay, sent, mine] using later
    · rw [priv.other c (.head _) mine] at later
      simpa [StreamKind.replay, sent, mine] using later

variable (kind main log view act) in
/-- Along a schedule: the queues hold issued commands, and `main` has executed the first of its own. -/
structure Underway (mem : μ)
    (d : Device ι C μ) : Prop where
  issued : ∀ i, ∀ q ∈ d.queue i, q.command ∈ log ∧ kind.stream q.command = i
  seen : ∃ before, kind.sent main log = before ++ (d.queue main).map Queued.command ∧
    view d.mem = before.foldl (fun v c => act c v) (view mem)

theorem underway_start (mem : μ) : Underway kind main log view act mem (kind.start log mem) := by
  refine ⟨fun i q hm => ?_, [], ?_, rfl⟩
  · obtain ⟨queued, stream⟩ := List.mem_filter.mp hm
    have command := List.mem_map_of_mem (f := Queued.command) queued
    rw [enqueue_commands] at command
    exact ⟨command, by simpa using stream⟩
  · rw [start_commands, List.nil_append]

theorem Underway.tick (priv : Private kind main log view act) {i : ι}
    (underway : Underway kind main log view act mem d) (step : kind.tick i d = some d') :
    Underway kind main log view act mem d' := by
  obtain ⟨issued, before, split, seen⟩ := underway
  unfold StreamKind.tick at step
  cases queue : d.queue i with
  | nil => simp [queue] at step
  | cons q rest =>
    simp only [queue, Option.ite_none_right_eq_some, Option.some.injEq] at step
    obtain ⟨-, rfl⟩ := step
    obtain ⟨hm, stream⟩ := issued i q (queue ▸ (.head _))
    refine ⟨fun j q' held => ?_, ?_⟩
    · by_cases hs : j = i
      · subst hs
        simp only [Function.update_self] at held
        exact issued j q' (queue ▸ .tail _ held)
      · simp only [ne_eq, hs, not_false_eq_true, Function.update_of_ne] at held
        exact issued j q' held
    by_cases mine : main = i
    · subst mine
      refine ⟨before ++ [q.command], ?_, ?_⟩
      · rw [split, queue]
        simp
      · rw [priv.own _ hm stream, seen]
        simp
    · refine ⟨before, ?_, ?_⟩
      · rw [split]
        simp [Function.update_of_ne mine]
      · rw [priv.other _ hm (fun hs => mine (hs.symm.trans stream)), seen]

theorem Underway.ticks (priv : Private kind main log view act) {schedule : List ι}
    (underway : Underway kind main log view act mem d) (run : kind.ticks schedule d = some d') :
    Underway kind main log view act mem d' := by
  induction schedule generalizing d with
  | nil =>
    obtain rfl : d = d' := by simpa [StreamKind.ticks] using run
    exact underway
  | cons i rest ih =>
    simp only [StreamKind.ticks, Option.bind_eq_some_iff] at run
    obtain ⟨u, first, later⟩ := run
    exact ih (underway.tick priv first) later

end StreamKind

end KVOffload
