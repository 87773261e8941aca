/-
The destructor of the logger returns.

It pushes its task and joins the thread of the logger.  That thread pops every task before, and is woken
as often as it has to be, so it comes to that task after a bounded number of steps.

Main definitions:

* `Logger.Ending` — the destructor is in its `Push`, or has pushed its task; `m_thread` is in its `Pop`;
* `Logger.rank` — how many steps are left.

Main results:

* `Logger.Ending.step` — every step keeps it;
* `Logger.rank_lt_of_step` — each step of a thread in its call is one less;
* `logger_stops` — **the destructor returns** with everything written that was pushed before its task.
-/

import IotDrive.Logger
import IotDrive.QueueWakeups

set_option relaxedAutoImplicit false
set_option autoImplicit false

namespace IotDrive

open AtomicObject History Transition

/-! ### Results of `Pop` -/

/-- A `Pop` without a time limit that has taken effect has an item. -/
def QueuePhase.Yields {α : Type} : QueuePhase α → Prop
  | .unlocking call result | .returning call result => call = .pop → result.output ≠ none
  | _ => True

namespace WaitableQueue

variable {σ α : Type} {C : Container σ α} {s t : WaitableQueue σ α}

theorem Moves.yields {a b : QueuePhase α} (h : Moves C s a t b) (ha : a.Yields) : b.Yields := by
  cases h with
  | nothing hempty => exact fun hpop => by cases hpop
  | pop limit item =>
      intro hpop
      cases limit with
      | none => exact Option.some_ne_none item
      | ahead => cases hpop
      | passed => cases hpop
  | empty => exact fun hpop => by cases hpop
  | unlock call result => exact ha
  | _ => trivial

theorem Expires.yields {a b : QueuePhase α} (h : Expires a b) : b.Yields := by
  cases h with
  | giveUp => exact fun hpop => by cases hpop
  | stop => trivial
  | late => trivial

/-- Every step keeps the results of `Pop`. -/
theorem Steps.yields {a : QueueAction α} {out : List (QueueEvent α)} (hstep : Steps C s a t out)
    (h : ∀ phase ∈ s.threads, phase.Yields) : ∀ phase ∈ t.threads, phase.Yields := by
  have hset : ∀ {threads : List (QueuePhase α)} {i : ℕ} {b : QueuePhase α},
      (∀ phase ∈ threads, phase.Yields) → b.Yields → ∀ phase ∈ threads.set i b, phase.Yields := by
    intro threads i b hall hb phase hphase
    rcases List.mem_or_eq_of_mem_set hphase with hold | rfl
    · exact hall phase hold
    · exact hb
  cases hstep with
  | call i call hi =>
      refine hset h ?_
      cases call <;> trivial
  | advance i hi hmove => exact hset h (hmove.yields (h _ (List.mem_of_getElem? hi)))
  | notifyNone i item hi hnone => exact hset h fun hpop => by cases hpop
  | notifyOne i j item limit hi hj => exact hset (hset h fun hpop => by cases hpop) trivial
  | wake i limit hi => exact hset h trivial
  | expire i hi hexpires => exact hset h hexpires.yields
  | ret i call result hi => exact hset h trivial

end WaitableQueue

/-! ### The destructor -/

namespace Logger

/-- A thread of the queue is in a call. -/
def InCall (s : Logger) (i : ℕ) (call : QueueCall LogTask) : Prop :=
  ∃ phase, s.mWq.threads[i]? = some phase ∧ phase.call? = some call

/-- The destructor is in the `Push` of its task, or has pushed it; `m_thread` is in its `Pop`. -/
structure Ending (s : Logger) (history : List (QueueEvent LogTask)) : Prop where
  yields : ∀ phase ∈ s.mWq.threads, phase.Yields
  pushing : ∀ i, s.control = .pushing i → i ≠ 0 ∧ ∃ task, s.InCall i (.push task) ∧ task.stop = true
  pushed : s.control = .joining →
    ∃ i task result, (i, .push task, result) ∈ completed history ∧ task.stop = true
  inside : s.mThread = .waiting → s.InCall 0 .pop

theorem ending_start (n : ℕ) : (start n).Ending [] where
  yields phase hphase := by
    rw [List.eq_of_mem_replicate hphase]
    trivial
  pushing i h := by cases h
  pushed h := by cases h
  inside h := by cases h

variable {putTime : ℤ → List Char} {s t : Logger} {out history : List (QueueEvent LogTask)}

theorem Ending.push (h : s.Ending history) {i : ℕ} (hi : i ≠ 0) {task : LogTask}
    {mWq : WaitableQueue (List LogTask) LogTask} {control : LogControl}
    (hcontrol : control = s.control ∧ s.control ≠ .destroyed ∨
      control = .pushing i ∧ task.stop = true)
    (hstep : s.mWq.step (.queue LogTask) (.call i (.push task)) = some (mWq, out)) :
    Ending { s with mWq, control } (out ++ history) := by
  have hsteps := WaitableQueue.step_cases hstep
  have hyields := hsteps.yields h.yields
  cases hsteps with
  | call i call hcall =>
      have hkeep : ∀ k op, s.InCall k op → InCall { s with
          mWq := { s.mWq with threads := s.mWq.threads.set i (QueueCall.push task).phase }, control } k
          op := by
        rintro k op ⟨phase, hk, hop⟩
        exact (WaitableQueue.Steps.call i (.push task) hcall).call_eq (C := .queue LogTask) hk hop
          (by simp)
      refine ⟨hyields, ?_, ?_, fun hwaiting => hkeep 0 .pop (h.inside hwaiting)⟩
      · rcases hcontrol with ⟨rfl, -⟩ | ⟨rfl, hstop⟩
        · intro k hk
          obtain ⟨hne, task', hcall', hstop⟩ := h.pushing k hk
          exact ⟨hne, task', hkeep k _ hcall', hstop⟩
        · intro k hk
          cases hk
          obtain ⟨hlt, -⟩ := List.getElem?_eq_some_iff.1 hcall
          exact ⟨hi, task, ⟨_, List.getElem?_set_self hlt, rfl⟩, hstop⟩
      · intro hjoining
        rcases hcontrol with ⟨rfl, -⟩ | ⟨rfl, -⟩
        · exact h.pushed hjoining
        · cases hjoining

theorem Ending.pop (h : s.Ending history) {mWq : WaitableQueue (List LogTask) LogTask}
    (hstep : s.mWq.step (.queue LogTask) (.call 0 .pop) = some (mWq, out)) :
    Ending { s with mWq, mThread := .waiting } (out ++ history) := by
  have hsteps := WaitableQueue.step_cases hstep
  have hyields := hsteps.yields h.yields
  cases hsteps with
  | call i call hcall =>
      obtain ⟨hlt, -⟩ := List.getElem?_eq_some_iff.1 hcall
      refine ⟨hyields, ?_, h.pushed, fun _ => ⟨_, List.getElem?_set_self hlt, rfl⟩⟩
      intro k hk
      obtain ⟨hne, task, ⟨phase, hphase, hop⟩, hstop⟩ := h.pushing k hk
      refine ⟨hne, task, ⟨phase, ?_, hop⟩, hstop⟩
      exact (List.getElem?_set_ne hne.symm).trans hphase

/-- Something happens in the queue. -/
theorem Ending.queue (h : s.Ending history) {a : QueueAction LogTask}
    {mWq : WaitableQueue (List LogTask) LogTask} (ha : ∀ i call, a ≠ .call i call)
    (hstep : s.mWq.step (.queue LogTask) a = some (mWq, out)) :
    Ending ({ s with mWq }.observe out) (out ++ history) := by
  have hsteps := WaitableQueue.step_cases hstep
  have hyields := hsteps.yields h.yields
  have hkeep : ∀ {k op}, (∀ op' result, .returned k op' result ∉ out) → s.InCall k op →
      InCall { s with mWq } k op := by
    rintro k op hret ⟨phase, hk, hop⟩
    exact hsteps.call_eq hk hop hret
  have hquiet : out = [] → Ending { s with mWq } history := by
    rintro rfl
    refine ⟨hyields, fun k hk => ?_, h.pushed, fun hwaiting => hkeep (by simp) (h.inside hwaiting)⟩
    obtain ⟨hne, task, hcall, hstop⟩ := h.pushing k hk
    exact ⟨hne, task, hkeep (by simp) hcall, hstop⟩
  cases hsteps with
  | call i call hi => exact absurd rfl (ha i call)
  | ret i call result hi =>
      have hpushed : s.control = .joining → ∃ j task result', (j, .push task, result') ∈
          completed (.returned i call result :: history) ∧ task.stop = true := by
        intro hjoining
        obtain ⟨j, task, result', hmem, hstop⟩ := h.pushed hjoining
        exact ⟨j, task, result', List.mem_cons_of_mem _ hmem, hstop⟩
      by_cases hzero : i = 0
      · subst hzero
        -- `m_thread` has its task, and is not in `Pop` any more
        rw [observe_zero]
        refine ⟨hyields, fun k hk => ?_, hpushed, fun hwaiting => ?_⟩
        · obtain ⟨hne, task, hcall, hstop⟩ := h.pushing k hk
          refine ⟨hne, task, hkeep ?_ hcall, hstop⟩
          intro op' result' hmem
          cases List.mem_singleton.1 hmem
          exact hne rfl
        · cases houtput : result.output with
          | some task =>
              rw [houtput] at hwaiting
              cases hwaiting
          | none =>
              rw [houtput] at hwaiting
              obtain ⟨phase, hphase, hop⟩ := h.inside hwaiting
              cases hi.symm.trans hphase
              have hyield := h.yields _ (List.mem_of_getElem? hi) (Option.some.inj hop)
              exact absurd houtput hyield
      · rw [observe_of_ne _ hzero]
        have hinside : s.mThread = .waiting → InCall { s with
            mWq := { s.mWq with threads := s.mWq.threads.set i .idle } } 0 .pop := by
          refine fun hwaiting => hkeep ?_ (h.inside hwaiting)
          intro op' result' hmem
          cases List.mem_singleton.1 hmem
          exact hzero rfl
        by_cases hcontrol : s.control = .pushing i
        · -- the `Push` of the destructor
          refine ⟨hyields, fun k hk => ?_, fun _ => ?_, hinside⟩
          · dsimp only at hk
            rw [if_pos hcontrol] at hk
            cases hk
          · obtain ⟨-, task, ⟨phase, hphase, hop⟩, hstop⟩ := h.pushing i hcontrol
            cases hi.symm.trans hphase
            cases Option.some.inj hop
            exact ⟨i, task, result, List.mem_cons_self .., hstop⟩
        · dsimp only
          rw [if_neg hcontrol]
          refine ⟨hyields, fun k hk => ?_, hpushed, hinside⟩
          obtain ⟨hne, task, hcall, hstop⟩ := h.pushing k hk
          refine ⟨hne, task, hkeep ?_ hcall, hstop⟩
          intro op' result' hmem
          cases List.mem_singleton.1 hmem
          exact hcontrol hk
  | _ => exact hquiet rfl

/-- Every step keeps it. -/
theorem Ending.step (h : s.Ending history) (hstep : Steps putTime s t out) :
    t.Ending (out ++ history) := by
  cases hstep with
  | push i task control mWq out hi hcontrol hcall => exact h.push hi hcontrol hcall
  | pop mWq out hthread hcall => exact h.pop hcall
  | run task hthread =>
      refine ⟨h.yields, h.pushing, h.pushed, fun hwaiting => ?_⟩
      dsimp only at hwaiting
      split at hwaiting <;> cases hwaiting
  | join hcontrol hthread =>
      exact ⟨h.yields, (fun i hi => by cases hi), (fun hi => by cases hi), h.inside⟩
  | queue a mWq out ha hqueue => exact h.queue ha hqueue

theorem ending_of_run {n : ℕ} {actions : List LoggerAction}
    (hrun : run (logged (Logger.step putTime)) (start n, []) actions = some (s, history)) :
    s.Ending history := by
  refine invariant (I := Ending) (fun s a t out history h hstep => ?_) (ending_start n) hrun
  exact h.step (step_cases hstep)

end Logger

/-! ### The number of steps -/

/-- What the task of a thread costs the thread of the logger, while it is on its way to or from the
container. -/
def QueuePhase.owed : QueuePhase LogTask → ℕ
  | .pushLocking _ | .pushing _ => 20
  | .unlocking _ result | .returning _ result => if result.output.isSome then 19 else 0
  | _ => 0

def QueuePhase.weight (phase : QueuePhase LogTask) : ℕ := phase.rank + phase.owed

theorem QueuePhase.weight_le (phase : QueuePhase LogTask) : phase.weight ≤ 31 := by
  cases phase with
  | unlocking call result => cases result <;> simp [weight, rank, owed] <;> split <;> omega
  | returning call result => cases result <;> simp [weight, rank, owed] <;> split <;> omega
  | _ => simp [weight, rank, owed]

/-- What the thread of the logger has before it, until it is in `Pop` again. -/
def LogPhase.rank : LogPhase → ℕ
  | .popping => 7
  | .running _ => 8
  | _ => 0

def LogControl.rank : LogControl → ℕ
  | .pushing _ | .joining => 1
  | _ => 0

/-- A step of a thread in its call. -/
def LoggerAction.isOwn : LoggerAction → Bool
  | .pop | .run | .join => true
  | .queue a => a.isOwn
  | _ => false

namespace WaitableQueue

variable {s t : WaitableQueue (List LogTask) LogTask}

/-- The weights of the threads, and twenty for each task that is queued. -/
def weight (s : WaitableQueue (List LogTask) LogTask) : ℕ :=
  (s.threads.map QueuePhase.weight).sum + 20 * s.mQueue.length

/-- A thread goes on. -/
theorem Moves.weight_lt {a b : QueuePhase LogTask} (h : Moves (.queue LogTask) s a t b)
    (ha : a.Knows (.queue LogTask) s.mQueue) :
    b.weight + 20 * t.mQueue.length < a.weight + 20 * s.mQueue.length := by
  cases h with
  | push item =>
      have hlen : (Container.push (.queue LogTask) s.mQueue item).length = s.mQueue.length + 1 :=
        List.length_append
      dsimp only
      rw [hlen]
      simp only [QueuePhase.weight, QueuePhase.rank, QueuePhase.owed]
      omega
  | pop limit item =>
      have hlen : s.mQueue.length = (Container.pop (.queue LogTask) s.mQueue).length + 1 :=
        Container.card_pop (.queue LogTask) ha.2
      dsimp only
      rw [hlen]
      simp only [QueuePhase.weight, QueuePhase.rank, QueuePhase.owed]
      split <;> omega
  | _ => simp [QueuePhase.weight, QueuePhase.rank, QueuePhase.owed, QueueResult.output]

theorem weight_set {i : ℕ} {a : QueuePhase LogTask} (hi : s.threads[i]? = some a)
    (b : QueuePhase LogTask) (mQueue : List LogTask) (mMutex : Bool) :
    WaitableQueue.weight ⟨s.threads.set i b, mQueue, mMutex⟩ + a.weight + 20 * s.mQueue.length =
      s.weight + b.weight + 20 * mQueue.length := by
  have hmove := Census.sum_move QueuePhase.weight hi b
  unfold weight
  dsimp only
  omega

end WaitableQueue

namespace Logger

variable {putTime : ℤ → List Char} {s t : Logger} {out history : List (QueueEvent LogTask)}

def rank (s : Logger) : ℕ := s.mWq.weight + s.mThread.rank + s.control.rank

theorem rank_le (s : Logger) :
    s.rank ≤ 31 * s.mWq.threads.length + 20 * s.mWq.mQueue.length + 9 := by
  have hthreads := Census.sum_le QueuePhase.weight_le s.mWq.threads
  have hthread : s.mThread.rank ≤ 8 := by cases s.mThread <;> simp [LogPhase.rank]
  have hcontrol : s.control.rank ≤ 1 := by cases s.control <;> simp [LogControl.rank]
  unfold rank WaitableQueue.weight
  omega

/-- A step of the queue is one less, whatever `m_thread` and the destructor have to do then. -/
theorem rank_lt_of_queue (hguarded : s.mWq.Guarded (.queue LogTask)) {a : QueueAction LogTask}
    (ha : a.isOwn = true) {mWq : WaitableQueue (List LogTask) LogTask}
    (hstep : WaitableQueue.Steps (.queue LogTask) s.mWq a mWq out) :
    ({ s with mWq }.observe out).rank < s.rank := by
  cases hstep with
  | call i call hi => cases ha
  | @advance i a b u hi hmove =>
      have hset := WaitableQueue.weight_set hi b u.mQueue u.mMutex
      have hlt := hmove.weight_lt (hguarded.knows a (List.mem_of_getElem? hi))
      simp only [observe, rank]
      omega
  | notifyNone i item hi hnone =>
      have hset := WaitableQueue.weight_set hi (.returning (.push item) .pushed) s.mWq.mQueue
        s.mWq.mMutex
      simp only [QueuePhase.weight, QueuePhase.rank, QueuePhase.owed, QueueResult.output_pushed,
        Option.isSome_none, Bool.false_eq_true, if_false] at hset
      simp only [observe, rank]
      omega
  | notifyOne i j item limit hi hj =>
      have hset := WaitableQueue.weight_set hi (.returning (.push item) .pushed) s.mWq.mQueue
        s.mWq.mMutex
      have hset' := WaitableQueue.weight_set
        (s := ⟨s.mWq.threads.set i (.returning (.push item) .pushed), s.mWq.mQueue, s.mWq.mMutex⟩)
        (WaitableQueue.getElem?_set_of_blocked hi hj _) (.waking limit) s.mWq.mQueue s.mWq.mMutex
      simp only [QueuePhase.weight, QueuePhase.rank, QueuePhase.owed, QueueResult.output_pushed,
        Option.isSome_none, Bool.false_eq_true, if_false] at hset hset'
      simp only [observe, rank]
      omega
  | wake i limit hi => cases ha
  | expire i hi hexpires => cases ha
  | ret i call result hi =>
      have hset := WaitableQueue.weight_set hi .idle s.mWq.mQueue s.mWq.mMutex
      simp only [QueuePhase.weight, QueuePhase.rank, QueuePhase.owed] at hset
      by_cases hzero : i = 0
      · subst hzero
        rw [observe_zero]
        cases houtput : result.output with
        | none =>
            simp only [rank, Option.map_none, Option.getD_none]
            omega
        | some task =>
            rw [houtput] at hset
            simp only [Option.isSome_some, if_true] at hset
            simp only [rank, Option.map_some, Option.getD_some, LogPhase.rank]
            omega
      · rw [observe_of_ne _ hzero]
        have hcontrol : (if s.control = .pushing i then LogControl.joining else s.control).rank ≤
            s.control.rank := by
          split
          · rename_i heq
            rw [heq]
            exact le_rfl
          · exact le_rfl
        simp only [rank]
        omega

/-- Every step of a thread in its call is one less. -/
theorem rank_lt_of_step (hguarded : s.mWq.Guarded (.queue LogTask)) {a : LoggerAction}
    (ha : a.isOwn = true) (h : s.step putTime a = some (t, out)) : t.rank < s.rank := by
  cases a with
  | log i severity stringToLog time => cases ha
  | destroy i time => cases ha
  | pop =>
      simp only [step, Option.ite_none_right_eq_some] at h
      obtain ⟨hthread, hcall⟩ := h
      obtain ⟨mWq, hstep, rfl⟩ := call_eq_some hcall
      cases WaitableQueue.step_cases hstep with
      | call i call hi =>
          have hset := WaitableQueue.weight_set hi (.popLocking .none) s.mWq.mQueue s.mWq.mMutex
          simp only [QueuePhase.weight, QueuePhase.rank, QueuePhase.owed] at hset
          simp only [rank, hthread, LogPhase.rank, QueueCall.phase]
          omega
  | run =>
      simp only [step] at h
      split at h
      · rename_i task hthread
        cases h
        have hrest : (if task.stop then LogPhase.done else .popping).rank ≤ 7 := by
          split <;> simp [LogPhase.rank]
        have height : s.mThread.rank = 8 := by rw [hthread, LogPhase.rank]
        simp only [rank]
        omega
      · cases h
  | join =>
      simp only [step, Option.ite_none_right_eq_some] at h
      obtain ⟨⟨hcontrol, hthread⟩, heq⟩ := h
      cases heq
      simp only [rank, hcontrol, LogControl.rank]
      omega
  | queue a =>
      have hown : a.isOwn = true := ha
      cases a with
      | call i call => cases hown
      | wake i => cases hown
      | expire i => cases hown
      | _ =>
          obtain ⟨⟨mWq, out'⟩, hstep, heq⟩ := Option.map_eq_some_iff.1 h
          cases heq
          exact rank_lt_of_queue hguarded hown (WaitableQueue.step_cases hstep)

/-! ### Where nothing can go on -/

/-- The queue of a logger in a run, and the invariants of it. -/
theorem queue_of_run {n : ℕ} {actions : List LoggerAction}
    (hrun : run (logged (Logger.step putTime)) (start n, []) actions = some (s, history)) :
    s.mWq.Guarded (.queue LogTask) ∧ s.mWq.Attended (.queue LogTask) ∧
      s.mWq.threads.length = n + 1 := by
  obtain ⟨as, hqueue⟩ := exists_queue_run hrun
  exact WaitableQueue.invariants_of_run hqueue

theorem guarded_of_step (hguarded : s.mWq.Guarded (.queue LogTask)) {a : LoggerAction}
    (h : s.step putTime a = some (t, out)) : t.mWq.Guarded (.queue LogTask) := by
  cases step_cases h with
  | push i task control mWq out hi hcontrol hcall =>
      exact hguarded.step (WaitableQueue.step_cases hcall)
  | pop mWq out hthread hcall => exact hguarded.step (WaitableQueue.step_cases hcall)
  | run task hthread => exact hguarded
  | join hcontrol hthread => exact hguarded
  | queue a mWq out ha hqueue =>
      rw [observe_mWq]
      exact hguarded.step (WaitableQueue.step_cases hqueue)

/-- Where nothing can go on in the logger, nothing can in its queue. -/
theorem settled_of_stuck (hguarded : s.mWq.Guarded (.queue LogTask))
    (hattended : s.mWq.Attended (.queue LogTask))
    (hstuck : ∀ a : LoggerAction, a.isOwn = true → s.step putTime a = none) :
    s.mWq.Settled (.queue LogTask) := by
  refine WaitableQueue.settled_of_stuck hguarded hattended fun a ha => ?_
  have hqueue := hstuck (.queue a) ha
  cases a with
  | call i call => cases ha
  | wake i => cases ha
  | expire i => cases ha
  | _ => exact Option.map_eq_none_iff.1 hqueue

/-- A thread of a settled queue that is in a call is in `Pop`, and there is nothing to pop. -/
theorem pop_of_settled (hsettled : s.mWq.Settled (.queue LogTask)) {i : ℕ}
    {call : QueueCall LogTask} (h : s.InCall i call) :
    (∃ limit : TimeLimit, s.mWq.threads[i]? = some (.blocked limit) ∧ call = limit.call) ∧
      s.mWq.mQueue = [] := by
  obtain ⟨phase, hi, hcall⟩ := h
  rcases hsettled phase (List.mem_of_getElem? hi) with rfl | ⟨hblocked, hempty⟩
  · cases hcall
  · cases phase with
    | blocked limit =>
        exact ⟨⟨limit, hi, (Option.some.inj hcall).symm⟩, List.isEmpty_iff.1 hempty⟩
    | _ => cases hblocked

/-- Where nothing can go on, `m_thread` waits for a task, or is past its loop. -/
theorem thread_of_stuck {tasks : List LogTask} (hwritten : s.Written putTime history tasks)
    (hstuck : ∀ a : LoggerAction, a.isOwn = true → s.step putTime a = none) :
    s.mThread = .waiting ∨ s.mThread = .done := by
  cases hthread : s.mThread with
  | waiting => exact .inl rfl
  | done => exact .inr rfl
  | popping =>
      have hidle := hwritten.outside (by rw [hthread]; exact LogPhase.noConfusion)
      have hpop := hstuck .pop rfl
      simp [Logger.step, hthread, call, WaitableQueue.step, hidle] at hpop
  | running task =>
      have hrun := hstuck .run rfl
      simp [Logger.step, hthread] at hrun

end Logger

/-- All operations of an order come in with it. -/
theorem mem_inputs {order : List (Done (QueueCall LogTask) (QueueResult LogTask))} {i : ℕ}
    {task : LogTask} {result : QueueResult LogTask} (h : (i, .push task, result) ∈ order) :
    task ∈ inputs order := by
  induction order with
  | nil => cases h
  | cons x earlier ih =>
      obtain ⟨j, op, result'⟩ := x
      rw [inputs]
      rcases List.mem_cons.1 h with heq | h
      · cases heq
        exact List.mem_append_right _ (List.mem_cons_self ..)
      · exact List.mem_append_left _ (ih h)

section Runs

variable {putTime : ℤ → List Char} {n : ℕ} {actions : List LoggerAction} {s t : Logger}
  {history later : List (QueueEvent LogTask)}

/-- While the destructor has pushed its task and `m_thread` waits, that task is in the queue. -/
theorem mQueue_ne_nil (hrun : run (logged (Logger.step putTime)) (.start n, []) actions =
      some (s, history)) (hcontrol : s.control = .joining) (hthread : s.mThread = .waiting)
    {limit : TimeLimit} (hblocked : s.mWq.threads[0]? = some (.blocked limit)) :
    s.mWq.mQueue ≠ [] := by
  obtain ⟨tasks, hwritten⟩ := Logger.written_of_run hrun
  obtain ⟨order, horder, hfifo⟩ := exists_log_order hrun hwritten
  obtain ⟨i, task, result, hmem, hstop⟩ := (Logger.ending_of_run hrun).pushed hcontrol
  have hreturn : s.mWq.atomic.toReturn 0 = [] := by
    rw [State.toReturn, WaitableQueue.atomic, view_of_getElem? hblocked]
    rfl
  have hin : task ∈ inputs order := by
    have hthread : (i, .push task, result) ∈ ofThread i order := by
      rw [horder i]
      exact List.mem_append_right _ (List.mem_filter.2 ⟨hmem, decide_eq_true rfl⟩)
    exact mem_inputs (List.mem_filter.1 hthread).1
  intro hempty
  rw [hreturn, hempty, hthread] at hfifo
  have htasks : tasks = inputs order := (List.append_nil tasks).symm.trans hfifo
  rw [← htasks] at hin
  have hloop := hwritten.loop (by rw [hthread]; exact LogPhase.noConfusion) task hin
  cases hstop.symm.trans hloop

/-- Where nothing can go on, the destructor was not called, or has returned. -/
theorem control_of_stuck (hrun : run (logged (Logger.step putTime)) (.start n, []) actions =
      some (s, history)) (hstuck : ∀ a : LoggerAction, a.isOwn = true → s.step putTime a = none) :
    s.control = .alive ∨ s.control = .destroyed := by
  obtain ⟨tasks, hwritten⟩ := Logger.written_of_run hrun
  obtain ⟨hguarded, hattended, -⟩ := Logger.queue_of_run hrun
  have hending := Logger.ending_of_run hrun
  have hsettled := Logger.settled_of_stuck hguarded hattended hstuck
  cases hcontrol : s.control with
  | alive => exact .inl rfl
  | destroyed => exact .inr rfl
  | pushing i =>
      -- a thread in `Push` can go on
      obtain ⟨-, task, hcall, -⟩ := hending.pushing i hcontrol
      obtain ⟨⟨limit, -, heq⟩, -⟩ := Logger.pop_of_settled hsettled hcall
      cases limit <;> cases heq
  | joining =>
      rcases Logger.thread_of_stuck hwritten hstuck with hwaiting | hdone
      · obtain ⟨⟨limit, hblocked, -⟩, hempty⟩ :=
          Logger.pop_of_settled hsettled (hending.inside hwaiting)
        exact absurd hempty (mQueue_ne_nil hrun hcontrol hwaiting hblocked)
      · have hjoin := hstuck .join rfl
        simp [Logger.step, hcontrol, hdone] at hjoin

/-- **The destructor returns.** From every state of every run of the logger with `n` other threads, when
nobody logs any more, the threads take a bounded number of steps, and where none of them can go on the
destructor was not called, or it has returned. -/
theorem logger_stops {more : List LoggerAction}
    (hrun : run (logged (Logger.step putTime)) (.start n, []) actions = some (s, history))
    (hown : ∀ a ∈ more, a.isOwn = true)
    (hmore : run (logged (Logger.step putTime)) (s, history) more = some (t, later)) :
    more.length ≤ 31 * (n + 1) + 20 * s.mWq.mQueue.length + 9 ∧
      ((∀ a : LoggerAction, a.isOwn = true → t.step putTime a = none) →
        t.control = .alive ∨ t.control = .destroyed) := by
  obtain ⟨hguarded, -, hlength⟩ := Logger.queue_of_run hrun
  constructor
  · have hfall : ∀ (s : Logger) a t out, s.mWq.Guarded (.queue LogTask) → a.isOwn = true →
        s.step putTime a = some (t, out) → t.mWq.Guarded (.queue LogTask) ∧ t.rank < s.rank :=
      fun s a t out h ha hstep =>
        ⟨Logger.guarded_of_step h hstep, Logger.rank_lt_of_step h ha hstep⟩
    have hrank := s.rank_le
    rw [hlength] at hrank
    exact (History.length_le_of_rank Logger.rank hfall hguarded hown hmore).trans hrank
  · have hall : run (logged (Logger.step putTime)) (.start n, []) (actions ++ more) =
        some (t, later) := by
      rw [run_append, hrun]
      exact hmore
    exact control_of_stuck hall

end Runs

/-- When the destructor has returned and the threads are outside of the queue, none of them can go on. -/
theorem stopped_stuck (a : LoggerAction) (ha : a.isOwn = true) : stopped.step noTime a = none := by
  have hidle : ∀ i, stopped.mWq.threads[i]? = some QueuePhase.idle ∨ stopped.mWq.threads[i]? = none
    | 0 => Or.inl rfl
    | 1 => Or.inl rfl
    | _ + 2 => Or.inr rfl
  cases a with
  | log | destroy => cases ha
  | pop | run | join => rfl
  | queue a =>
      cases a with
      | call i call => rfl
      | advance i | notifyOne i woken | wake i | expire i | ret i =>
          rcases hidle i with h | h <;>
            simp [Logger.step, WaitableQueue.step, WaitableQueue.next, WaitableQueue.expired, h]

theorem logger_stops_logRun :
    (logLine ++ logStop).length ≤ 91 ∧ (stopped.control = .alive ∨ stopped.control = .destroyed) := by
  have hown : ∀ a ∈ logLine ++ logStop, a.isOwn = true := by decide
  have hstops := logger_stops (run_logCalls headline) hown run_logLater
  exact ⟨hstops.1, hstops.2 stopped_stuck⟩

end IotDrive
