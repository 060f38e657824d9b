import Mathlib

/-!
# The loops of `schedule()`

What the other components answer about a request is an input of the loops, which keep the queues.
-/

namespace KVOffload.Core

open List

variable {Req κ : Type}

/-! ### Waiting requests -/

/-- What is found out about a waiting request, in the order of the source's checks. -/
structure Examination where
  /-- Its status is a blocked one, and it cannot be promoted. -/
  blocked : Bool
  /-- As many adapters as `max_loras` are scheduled, and its own is not among them. -/
  loraLimited : Bool
  /-- Whether the connector loads asynchronously, `none` if it cannot tell the number of matched tokens. -/
  loadKvAsync : Option Bool
  /-- The prompt is too long without chunked prefill, or the encoder or the alignment leaves no tokens. -/
  unfit : Bool
  allocated : Bool
  numNewTokens : Int

structure WaitingQueues (Req : Type) where
  tokenBudget : Int
  running : List Req
  waiting : List Req
  skippedWaiting : List Req

namespace WaitingQueues

/-- `_select_waiting_queue_for_scheduling` and `pop_request` under FCFS. -/
def popRequest? (s : WaitingQueues Req) : Option (Req × WaitingQueues Req) :=
  match s.skippedWaiting, s.waiting with
  | request :: skippedWaiting, _ => some (request, { s with skippedWaiting })
  | [], request :: waiting => some (request, { s with waiting })
  | [], [] => none

variable {s t : WaitingQueues Req} {request : Req}

theorem popRequest?_eq (popped : s.popRequest? = some (request, t)) :
    s.skippedWaiting ++ s.waiting = request :: (t.skippedWaiting ++ t.waiting) ∧ t.running = s.running := by
  unfold popRequest? at popped
  split at popped
  · obtain ⟨rfl, rfl⟩ := Prod.mk.inj (Option.some.inj popped)
    simp [*]
  · obtain ⟨rfl, rfl⟩ := Prod.mk.inj (Option.some.inj popped)
    simp [*]
  · cases popped

variable (examine : WaitingQueues Req → Examination) (maxNumRunningReqs : Nat)

/-- The loop, with `step_skipped_waiting`. The queues shrink with every pass, so what is found depends on the pass. -/
def loop (s : WaitingQueues Req) (stepSkippedWaiting : List Req) : WaitingQueues Req × List Req :=
  if s.tokenBudget ≤ 0 ∨ s.running.length = maxNumRunningReqs then (s, stepSkippedWaiting)
  else
    match _popped : s.popRequest? with
    | none => (s, stepSkippedWaiting)
    | some (request, rest) =>
      let found := examine s
      if found.blocked ∨ found.loraLimited ∨ found.loadKvAsync = none then
        loop rest (request :: stepSkippedWaiting)
      else if found.unfit ∨ ¬ found.allocated then (s, stepSkippedWaiting)
      else if found.loadKvAsync = some true then loop rest (request :: stepSkippedWaiting)
      else
        loop { rest with running := s.running ++ [request], tokenBudget := s.tokenBudget - found.numNewTokens }
          stepSkippedWaiting
termination_by s.skippedWaiting.length + s.waiting.length
decreasing_by
  all_goals
    have shorter := congrArg length (popRequest?_eq _popped).1
    simp only [length_append, length_cons] at shorter
    omega

/-- The waiting part of a call that preempts nothing. -/
def schedule (unpaused : Bool) (s : WaitingQueues Req) : WaitingQueues Req :=
  if unpaused then
    let (s, stepSkippedWaiting) := s.loop examine maxNumRunningReqs []
    { s with skippedWaiting := stepSkippedWaiting.foldl (fun queue request => request :: queue) s.skippedWaiting }
  else s

/-- The requests left, those skipped in this step first. -/
def left (s : WaitingQueues Req) (stepSkippedWaiting : List Req) : List Req :=
  stepSkippedWaiting.reverse ++ (s.skippedWaiting ++ s.waiting)

variable {examine maxNumRunningReqs}

theorem left_loop (s : WaitingQueues Req) (skipped : List Req) :
    let t := s.loop examine maxNumRunningReqs skipped
    left t.1 t.2 <+ left s skipped ∧ t.1.running ++ left t.1 t.2 ~ s.running ++ left s skipped := by
  fun_induction loop examine maxNumRunningReqs s skipped with
  | case1 | case2 | case4 => exact ⟨.refl _, .refl _⟩
  | case3 _ _ _ _ _ popped _ _ ih | case5 _ _ _ _ _ popped _ _ _ _ ih =>
    -- A skipped request keeps its place: the list of the skipped ones is reversed once more at the end.
    obtain ⟨queue, running⟩ := popRequest?_eq popped
    simpa only [left, queue, running, reverse_cons, append_assoc, singleton_append] using ih
  | case6 _ skipped _ request rest popped _ _ _ _ ih =>
    obtain ⟨queue, _⟩ := popRequest?_eq popped
    rw [left, queue]
    constructor
    · exact ih.1.trans ((Sublist.refl _).append (sublist_cons_self ..))
    apply ih.2.trans
    rw [append_assoc, singleton_append]
    exact .append_left _ perm_middle.symm

/-- The requests left are in the order they were in, and with the admitted ones they are those of before. -/
theorem schedule_keeps_order (unpaused : Bool) (s : WaitingQueues Req) :
    let t := s.schedule examine maxNumRunningReqs unpaused
    t.skippedWaiting ++ t.waiting <+ s.skippedWaiting ++ s.waiting ∧
      t.running ++ (t.skippedWaiting ++ t.waiting) ~ s.running ++ (s.skippedWaiting ++ s.waiting) := by
  cases unpaused
  · exact ⟨.refl _, .refl _⟩
  simpa [left, schedule] using left_loop s []

end WaitingQueues

/-! ### Running requests -/

inductive SchedulingPolicy where
  | fcfs
  | priority

structure RunningLoop (Req : Type) where
  running : List Req
  reqIndex : Nat
  tokenBudget : Int
  scheduled : List Req
  numScheduledTokens : Req → Int
  /-- The requests passed over for lack of new tokens. -/
  skipped : List Req
  preempted : List Req
  /-- The request slots are being allocated for, with its number of new tokens. -/
  current : Option (Req × Int)
  /-- The current request was preempted itself. -/
  broken : Bool

/-- The settings of a call, and what the loop is told at each of its steps. -/
structure SchedulerCall (Req κ : Type) where
  policy : SchedulingPolicy
  /-- The priority and the arrival time. -/
  key : Req → κ
  tokenBudget : Int
  /-- 0 also for a request whose last step is still running. -/
  numNewTokens : Nat → Int
  allocated : Nat → Bool

namespace RunningLoop

variable [DecidableEq Req] [LinearOrder κ] (call : SchedulerCall Req κ)

def victim? (s : RunningLoop Req) : Option Req :=
  match call.policy with
  | .priority => s.running.argmax call.key
  | .fcfs => s.running.getLast?

def preempt (request victim : Req) (s : RunningLoop Req) : RunningLoop Req :=
  let s := { s with preempted := s.preempted ++ [victim], broken := victim = request }
  match call.policy with
  | .priority =>
    let s := { s with running := s.running.erase victim }
    if victim ∈ s.scheduled then
      { s with
        scheduled := s.scheduled.erase victim
        tokenBudget := s.tokenBudget + s.numScheduledTokens victim
        reqIndex := s.reqIndex - 1 }
    else s
  | .fcfs => { s with running := s.running.dropLast }

/-- One attempt to allocate slots, or the next request up to there. -/
def step (n : Nat) (s : RunningLoop Req) : RunningLoop Req :=
  if s.broken then s
  else
    match s.current with
    | none =>
      match s.running[s.reqIndex]? with
      | none => s
      | some request =>
        if s.tokenBudget ≤ 0 then s
        else if call.numNewTokens n = 0 then { s with skipped := s.skipped ++ [request], reqIndex := s.reqIndex + 1 }
        else { s with current := some (request, call.numNewTokens n) }
    | some (request, numNewTokens) =>
      if call.allocated n then
        { s with
          scheduled := s.scheduled ++ [request]
          numScheduledTokens := Function.update s.numScheduledTokens request numNewTokens
          tokenBudget := s.tokenBudget - numNewTokens
          reqIndex := s.reqIndex + 1
          current := none }
      else
        match s.victim? call with
        | none => s
        | some victim => preempt call request victim s

def run (running : List Req) : Nat → RunningLoop Req
  | 0 => ⟨running, 0, call.tokenBudget, [], fun _ => 0, [], [], none, false⟩
  | n + 1 => (run running n).step call n

/-- The loop ended with budget left and the current request not preempted. -/
def Ended (s : RunningLoop Req) : Prop :=
  s.broken = false ∧ s.current = none ∧ 0 < s.tokenBudget ∧ s.running.length ≤ s.reqIndex

/-- How the requests were considered. One that is preempted after all is no longer scheduled. -/
def considered (s : RunningLoop Req) : List Req := s.scheduled ++ (s.skipped ++ s.preempted)

/-- The step preempts a request that was passed over, which shifts the list under the index. -/
def Displaces (n : Nat) (s : RunningLoop Req) : Prop :=
  call.policy = .priority ∧ s.broken = false ∧ s.current ≠ none ∧ call.allocated n = false ∧
    ∃ victim ∈ s.skipped, s.victim? call = some victim

variable {call} {initial before after : List Req} {s : RunningLoop Req} {request victim : Req} {m n : Nat}

/-- The requests before the index are those scheduled or passed over. -/
structure Aligned (initial before after : List Req) (s : RunningLoop Req) : Prop where
  running : s.running = before ++ after
  reqIndex : s.reqIndex = before.length
  passed : s.scheduled ++ s.skipped ~ before
  current : ∀ c ∈ s.current, c.1 ∈ after.head?
  kept : s.running ++ s.preempted ~ initial

omit [LinearOrder κ] in
@[simp]
theorem preempt_fields : (s.preempt call request victim).skipped = s.skipped ∧
    (s.preempt call request victim).preempted = s.preempted ++ [victim] ∧
      (s.preempt call request victim).broken = decide (victim = request) := by
  unfold preempt
  split
  · simp only
    split <;> exact ⟨rfl, rfl, rfl⟩
  · exact ⟨rfl, rfl, rfl⟩

omit [DecidableEq Req] in
theorem Aligned.kept_without {rest : List Req} (aligned : Aligned initial before after s)
    (removed : victim :: rest ~ s.running) : rest ++ (s.preempted ++ [victim]) ~ initial := by
  rw [← append_assoc]
  exact (perm_append_singleton ..).trans ((removed.append_right _).trans aligned.kept)

theorem Aligned.preempt (aligned : Aligned initial before (request :: after) s)
    (chosen : s.victim? call = some victim) (other : victim ≠ request)
    (unskipped : call.policy = .priority → victim ∉ s.skipped) :
    ∃ before after, Aligned initial before after (preempt call request victim s) := by
  unfold RunningLoop.preempt
  unfold victim? at chosen
  split at chosen
  · rename_i policy
    simp only
    have kept := aligned.kept_without (perm_cons_erase (argmax_mem chosen)).symm
    split
    · rename_i scheduled
      have passed : victim ∈ before := aligned.passed.subset (mem_append_left _ scheduled)
      have rest := aligned.passed.erase victim
      rw [erase_append_left _ scheduled] at rest
      exact ⟨before.erase victim, request :: after, by simp [aligned.running, erase_append_left _ passed],
        by simp [aligned.reqIndex, length_erase_of_mem passed], rest, aligned.current, kept⟩
    rename_i unscheduled
    have ahead : victim ∉ before := by
      intro passed
      obtain scheduled | skipped := mem_append.mp (aligned.passed.symm.subset passed)
      · exact unscheduled scheduled
      exact unskipped policy skipped
    exact ⟨before, request :: after.erase victim,
      by simp [aligned.running, erase_append_right _ ahead, erase_cons_tail, other.symm],
      aligned.reqIndex, aligned.passed, aligned.current, kept⟩
  · simp only [*]
    -- The last request is not the current one, so it stands after it.
    cases after with
    | nil => simp [aligned.running, other.symm] at chosen
    | cons next after =>
      have last := dropLast_append_getLast? _ chosen
      exact ⟨before, (request :: next :: after).dropLast, by simp [aligned.running, dropLast_append_of_ne_nil],
        aligned.reqIndex, aligned.passed, aligned.current,
        aligned.kept_without ((perm_append_singleton ..).symm.trans (.of_eq last))⟩

omit [DecidableEq Req] in
theorem Aligned.next (aligned : Aligned initial before after s) (found : s.running[s.reqIndex]? = some request) :
    ∃ rest, after = request :: rest := by
  rw [aligned.running, aligned.reqIndex, getElem?_append_right (Nat.le_refl _), Nat.sub_self] at found
  exact head?_eq_some_iff.mp (head?_eq_getElem?.trans found)

theorem Aligned.step (aligned : Aligned initial before after s) (safe : ¬ Displaces call n s) :
    (s.step call n).broken ∨ ∃ before after, Aligned initial before after (s.step call n) := by
  fun_cases RunningLoop.step call n s with
  | case1 broken => exact .inl broken
  | case2 | case3 | case7 => exact .inr ⟨_, _, aligned⟩
  | case4 _ current request found =>
    obtain ⟨after, rfl⟩ := aligned.next found
    exact .inr ⟨before ++ [request], after, by simp [aligned.running], by simp [aligned.reqIndex],
      by simpa using aligned.passed.append_right [request], by simp [current], aligned.kept⟩
  | case5 _ _ request found =>
    obtain ⟨after, rfl⟩ := aligned.next found
    exact .inr ⟨before, request :: after, aligned.running, aligned.reqIndex, aligned.passed, by simp, aligned.kept⟩
  | case6 _ request _ current =>
    obtain ⟨after, rfl⟩ := head?_eq_some_iff.mp (aligned.current _ current)
    refine .inr ⟨before ++ [request], after, by simp [aligned.running], by simp [aligned.reqIndex], ?_, by simp, aligned.kept⟩
    rw [append_assoc]
    exact perm_middle.trans ((aligned.passed.cons request).trans (perm_append_singleton ..).symm)
  | case8 unbroken request _ current refused victim chosen =>
    obtain ⟨after, rfl⟩ := head?_eq_some_iff.mp (aligned.current _ current)
    by_cases other : victim = request
    · exact .inl (by simp [other])
    exact .inr (aligned.preempt chosen other fun policy skipped =>
      safe ⟨policy, by simpa using unbroken, by simp [current], by simpa using refused, victim, skipped, chosen⟩)

theorem aligned_run (safe : ∀ m < n, ¬ Displaces call m (run call initial m)) :
    (run call initial n).broken ∨ ∃ before after, Aligned initial before after (run call initial n) := by
  induction n with
  | zero => exact .inr ⟨[], initial, rfl, rfl, .refl _, by simp [run], by simp [run]⟩
  | succ n ih =>
    obtain broken | ⟨_, _, aligned⟩ := ih fun m lt => safe m (Nat.lt_succ_of_lt lt)
    · left
      rw [run, step, if_pos broken]
      exact broken
    exact aligned.step (safe n n.lt_succ_self)

theorem subset_step : s.skipped ⊆ (s.step call n).skipped ∧ s.preempted ⊆ (s.step call n).preempted := by
  fun_cases step call n s <;> exact ⟨by simp, by simp⟩

theorem skipped_and_preempted (displaces : Displaces call m (run call initial m)) (lt : m < n) :
    ∃ victim ∈ (run call initial n).skipped, victim ∈ (run call initial n).preempted := by
  induction lt with
  | refl =>
    obtain ⟨_, unbroken, current, refused, victim, skipped, chosen⟩ := displaces
    obtain ⟨_, current⟩ := Option.ne_none_iff_exists'.mp current
    exact ⟨victim, subset_step.1 skipped, by simp [run, step, *]⟩
  | step _ ih =>
    obtain ⟨victim, skipped, preempted⟩ := ih
    exact ⟨victim, subset_step.1 skipped, subset_step.2 preempted⟩

/-- The first request has no new tokens, and the first allocation for the second one is refused. -/
def trial : SchedulerCall Nat Nat := ⟨.priority, id, 8, Nat.cast, (· ≠ 2)⟩

/-- What the loop can still schedule. -/
def pending (s : RunningLoop Req) : List Req :=
  match s.current with
  | none => s.running.drop s.reqIndex
  | some c => c.1 :: s.running.drop (s.reqIndex + 1)

/-- No request and no token is lost, and no request is scheduled twice. -/
structure Conserved (call : SchedulerCall Req κ) (initial : List Req) (s : RunningLoop Req) : Prop where
  kept : s.preempted ++ s.running ~ initial
  budget : s.tokenBudget + (s.scheduled.map s.numScheduledTokens).sum = call.tokenBudget
  once : (s.scheduled ++ s.pending).Nodup

theorem Conserved.preempt {c : Req × Int} (conserved : Conserved call initial s) (now : s.current = some c)
    (chosen : s.victim? call = some victim) : Conserved call initial (s.preempt call request victim) := by
  obtain ⟨kept, budget, once⟩ := conserved
  have without {rest : List Req} (all : victim :: rest ~ s.running) : s.preempted ++ [victim] ++ rest ~ initial := by
    simpa using (all.append_left _).trans kept
  unfold RunningLoop.preempt
  unfold victim? at chosen
  split at chosen
  · have kept := without (perm_cons_erase (argmax_mem chosen)).symm
    simp only
    split
    · rename_i scheduled
      have passed : victim ∈ s.running.take (s.reqIndex + 1) := by
        grind [pending, argmax_mem chosen, take_append_drop (s.reqIndex + 1) s.running]
      refine ⟨kept, by rw [← budget, ← sum_map_erase _ scheduled, add_assoc], once.sublist (erase_sublist.append ?_)⟩
      simp only [pending, now, cons_sublist_cons]
      conv_lhs => rw [← take_append_drop (s.reqIndex + 1) s.running, erase_append_left _ passed, drop_append]
      rw [drop_eq_nil_of_le (by simp [length_erase_of_mem passed]; omega)]
      exact drop_sublist ..
    · exact ⟨kept, budget, once.sublist (by simp [pending, now, erase_sublist.drop])⟩
  · have last := dropLast_append_getLast? _ chosen
    simp only [*]
    exact ⟨without ((perm_append_singleton ..).symm.trans (.of_eq last)), budget,
      once.sublist (by simp [pending, now, (dropLast_sublist _).drop])⟩

/-- In every state of the loop, whoever is preempted. -/
theorem run_conserves (distinct : initial.Nodup) : Conserved call initial (run call initial n) := by
  induction n with
  | zero => exact ⟨.refl _, by simp [run], distinct⟩
  | succ n conserved =>
    rw [run]
    generalize run call initial n = s at *
    obtain ⟨kept, budget, once⟩ := conserved
    fun_cases RunningLoop.step call n s with
    | case1 | case2 | case3 | case7 => exact ⟨kept, budget, once⟩
    | case4 _ now => exact ⟨kept, budget, once.sublist (by simp [pending, now, drop_sublist_drop_left])⟩
    | case5 _ now request found =>
      obtain ⟨_, next⟩ := head?_eq_some_iff.mp (head?_drop.trans found)
      exact ⟨kept, budget, by simpa [pending, now, next, ← tail_drop] using once⟩
    | case6 _ request _ now =>
      have fresh : request ∉ s.scheduled := by grind [pending]
      refine ⟨kept, ?_, by simpa [pending, now] using once⟩
      rw [← budget, map_append, map_congr_left fun r hm => Function.update_of_ne (ne_of_mem_of_not_mem hm fresh) ..]
      simp
    | case8 _ _ _ now _ _ chosen => exact Conserved.preempt ⟨kept, budget, once⟩ now chosen

theorem run_conserves_trial : Conserved trial [2, 0, 1] (run trial [2, 0, 1] 4) := run_conserves (by decide)

end RunningLoop

end KVOffload.Core
