/-
The logger of `logger.cpp`.

`Log` pushes a task into a `WaitableQueue`, and one thread pops the tasks and writes a line for each,
until it has written that of the destructor.  The tasks of the other threads go through the queue as it
is, step by step, and whatever the interleaving, the file holds their lines in one order, in which
each thread finds its own.

Main definitions:

* `LogTask.line` — what `Run` writes for a task;
* `Logger.step` — what can happen, to the queue and around it.

Main results:

* `Logger.exists_queue_run` — a run of the logger is a run of its queue, with the same calls;
* `Logger.Written.step` — what was popped is what was written, and the task at hand;
* `log_written` — **the file is the headline and the lines of the first tasks of one order**.
-/

import IotDrive.QueueAtomicity

set_option relaxedAutoImplicit false
set_option autoImplicit false

namespace IotDrive

open AtomicObject History Transition

/-! ### Tasks -/

/-- `Logger::SEVERITY`. -/
inductive Severity
  | info | warning | error
  deriving DecidableEq

/-- `sever_arr`. -/
def Severity.text : Severity → List Char
  | .info => "INFO - ".toList
  | .warning => "WARNING - ".toList
  | .error => "ERROR - ".toList

/-- `Logger::LogTask`. -/
structure LogTask where
  stringToLog : List Char
  severity : Severity
  mTime : ℤ
  stop : Bool
  deriving DecidableEq

/-- What `Run` writes; `putTime` is `put_time` with the format that is given, on the local time. -/
def LogTask.line (putTime : ℤ → List Char) (task : LogTask) : List Char :=
  putTime task.mTime ++ " - ".toList ++ task.severity.text ++ task.stringToLog ++ ['\n']

/-- What the constructor writes. -/
def headline : List Char :=
  ("Date           | Time    | Type   | File                      | Function" ++
    "                                                                                        " ++
    "| Line | Message\n").toList

/-- What the destructor logs. -/
def logEnd : List Char := "Log End\n".toList

/-! ### The logger -/

/-- Where `m_thread` is: before `Pop`, in it, before it runs a task, and past its loop. -/
inductive LogPhase
  | popping
  | waiting
  | running (task : LogTask)
  | done
  deriving DecidableEq

/-- Where the destructor is: it was not called, it is in `Push`, called by the thread, or before `join`,
or it has returned. -/
inductive LogControl
  | alive
  | pushing (thread : ℕ)
  | joining
  | destroyed
  deriving DecidableEq

/-- The class; the thread 0 of its queue is `m_thread`.  `mFout` is what was written to the file. -/
structure Logger where
  mWq : WaitableQueue (List LogTask) LogTask
  mThread : LogPhase
  mFout : List Char
  control : LogControl

/-- What can happen: a thread logs, or calls the destructor; `m_thread` pops, or runs its task; the
destructor has joined it; or something happens in the queue. -/
inductive LoggerAction
  | log (thread : ℕ) (severity : Severity) (stringToLog : List Char) (time : ℤ)
  | destroy (thread : ℕ) (time : ℤ)
  | pop
  | run
  | join
  | queue (a : QueueAction LogTask)

/-- The task that `m_thread` has popped, and not run. -/
def LogPhase.task : LogPhase → Option LogTask
  | .running task => some task
  | _ => none

namespace Logger

/-- After the constructor, with `n` other threads. -/
def start (n : ℕ) : Logger :=
  { mWq := .start [] (n + 1), mThread := .popping, mFout := headline, control := .alive }

/-- A thread calls a member function of the queue. -/
def call (s : Logger) (i : ℕ) (call : QueueCall LogTask) : Option (Logger × List (QueueEvent LogTask)) :=
  (s.mWq.step (.queue LogTask) (.call i call)).map fun (mWq, out) => ({ s with mWq }, out)

/-- What `m_thread` and the destructor do when their call returns. -/
def observe (s : Logger) : List (QueueEvent LogTask) → Logger
  | [.returned i _ result] =>
      if i = 0 then
        match result.output with
        | some task => { s with mThread := .running task }
        | none => s
      else if s.control = .pushing i then { s with control := .joining }
      else s
  | _ => s

/-- The transitions. -/
def step (putTime : ℤ → List Char) (s : Logger) :
    LoggerAction → Option (Logger × List (QueueEvent LogTask))
  | .log i severity stringToLog time =>
      if i = 0 ∨ s.control = .destroyed then none
      else s.call i (.push ⟨stringToLog, severity, time, false⟩)
  | .destroy i time =>
      if i = 0 ∨ s.control ≠ .alive then none
      else { s with control := .pushing i }.call i (.push ⟨logEnd, .info, time, true⟩)
  | .pop => if s.mThread = .popping then { s with mThread := .waiting }.call 0 .pop else none
  | .run =>
      match s.mThread with
      | .running task => some ({ s with
          mFout := s.mFout ++ task.line putTime
          mThread := if task.stop then .done else .popping }, [])
      | _ => none
  | .join =>
      if s.control = .joining ∧ s.mThread = .done then some ({ s with control := .destroyed }, [])
      else none
  | .queue (.call _ _) => none
  | .queue a => (s.mWq.step (.queue LogTask) a).map fun (mWq, out) =>
      ({ s with mWq }.observe out, out)

/-! ### What each step does -/

/-- The steps of the logger. -/
inductive Steps (putTime : ℤ → List Char) (s : Logger) :
    Logger → List (QueueEvent LogTask) → Prop
  | push (i : ℕ) (task : LogTask) (control : LogControl) (mWq : WaitableQueue (List LogTask) LogTask)
      (out : List (QueueEvent LogTask)) (hi : i ≠ 0)
      (hcontrol : control = s.control ∧ s.control ≠ .destroyed ∨
        control = .pushing i ∧ task.stop = true)
      (hstep : s.mWq.step (.queue LogTask) (.call i (.push task)) = some (mWq, out)) :
      Steps putTime s { s with mWq, control } out
  | pop (mWq : WaitableQueue (List LogTask) LogTask) (out : List (QueueEvent LogTask))
      (hthread : s.mThread = .popping)
      (hstep : s.mWq.step (.queue LogTask) (.call 0 .pop) = some (mWq, out)) :
      Steps putTime s { s with mWq, mThread := .waiting } out
  | run (task : LogTask) (hthread : s.mThread = .running task) :
      Steps putTime s { s with
        mFout := s.mFout ++ task.line putTime
        mThread := if task.stop then .done else .popping } []
  | join (hcontrol : s.control = .joining) (hthread : s.mThread = .done) :
      Steps putTime s { s with control := .destroyed } []
  | queue (a : QueueAction LogTask) (mWq : WaitableQueue (List LogTask) LogTask)
      (out : List (QueueEvent LogTask)) (ha : ∀ i call, a ≠ .call i call)
      (hstep : s.mWq.step (.queue LogTask) a = some (mWq, out)) :
      Steps putTime s ({ s with mWq }.observe out) out

variable {putTime : ℤ → List Char} {s t : Logger} {out : List (QueueEvent LogTask)}

theorem call_eq_some {i : ℕ} {call : QueueCall LogTask} (h : s.call i call = some (t, out)) :
    ∃ mWq, s.mWq.step (.queue LogTask) (.call i call) = some (mWq, out) ∧ t = { s with mWq } := by
  obtain ⟨⟨mWq, out'⟩, hstep, heq⟩ := Option.map_eq_some_iff.1 h
  cases heq
  exact ⟨mWq, hstep, rfl⟩

theorem step_cases {a : LoggerAction} (h : s.step putTime a = some (t, out)) :
    Steps putTime s t out := by
  cases a with
  | log i severity stringToLog time =>
      simp only [step, Option.ite_none_left_eq_some, not_or] at h
      obtain ⟨⟨hi, hcontrol⟩, hcall⟩ := h
      obtain ⟨mWq, hstep, rfl⟩ := call_eq_some hcall
      exact .push i _ s.control mWq out hi (.inl ⟨rfl, hcontrol⟩) hstep
  | destroy i time =>
      simp only [step, Option.ite_none_left_eq_some, not_or] at h
      obtain ⟨⟨hi, -⟩, hcall⟩ := h
      obtain ⟨mWq, hstep, rfl⟩ := call_eq_some hcall
      exact .push i _ _ mWq out hi (.inr ⟨rfl, rfl⟩) hstep
  | pop =>
      simp only [step, Option.ite_none_right_eq_some] at h
      obtain ⟨hthread, hcall⟩ := h
      obtain ⟨mWq, hstep, rfl⟩ := call_eq_some hcall
      exact .pop mWq out hthread hstep
  | run =>
      simp only [step] at h
      split at h
      · cases h
        exact .run _ ‹_›
      · cases h
  | join =>
      simp only [step, Option.ite_none_right_eq_some] at h
      obtain ⟨⟨hcontrol, hthread⟩, heq⟩ := h
      cases heq
      exact .join hcontrol hthread
  | queue a =>
      have hqueue : (∀ i call, a ≠ .call i call) →
          (s.mWq.step (.queue LogTask) a).map (fun (mWq, out) => ({ s with mWq }.observe out, out)) =
            some (t, out) → Steps putTime s t out := by
        intro ha hmap
        obtain ⟨⟨mWq, out'⟩, hstep, heq⟩ := Option.map_eq_some_iff.1 hmap
        cases heq
        exact .queue a mWq out ha hstep
      cases a with
      | call i call => cases h
      | advance i => exact hqueue (by simp) h
      | notifyOne i woken => exact hqueue (by simp) h
      | wake i => exact hqueue (by simp) h
      | expire i => exact hqueue (by simp) h
      | ret i => exact hqueue (by simp) h

/-! ### The queue of the logger -/

theorem observe_mWq (s : Logger) (out : List (QueueEvent LogTask)) : (s.observe out).mWq = s.mWq := by
  unfold observe
  split
  · split
    · split <;> rfl
    · split <;> rfl
  · rfl

/-- The `Pop` of `m_thread` returns. -/
theorem observe_zero (s : Logger) (op : QueueCall LogTask) (result : QueueResult LogTask) :
    s.observe [.returned 0 op result] =
      { s with mThread := (result.output.map LogPhase.running).getD s.mThread } := by
  simp only [observe, if_true]
  cases result.output <;> rfl

/-- A `Push` returns. -/
theorem observe_of_ne (s : Logger) {i : ℕ} (hi : i ≠ 0) (op : QueueCall LogTask)
    (result : QueueResult LogTask) :
    s.observe [.returned i op result] =
      { s with control := if s.control = .pushing i then .joining else s.control } := by
  simp only [observe, if_neg hi]
  split <;> rfl

/-- A step of the logger is one of its queue, or none. -/
theorem forward_mWq (putTime : ℤ → List Char) :
    Simulation.Forward (step putTime) (fun _ => True) (WaitableQueue.step (.queue LogTask))
      (fun s u => u = s.mWq) fun e => [e] := by
  rintro s u a t out rfl - hstep
  rw [List.flatMap_singleton']
  cases step_cases hstep with
  | push i task control mWq out hi hcontrol hcall => exact ⟨_, mWq, Simulation.run_step hcall, rfl⟩
  | pop mWq out hthread hcall => exact ⟨_, mWq, Simulation.run_step hcall, rfl⟩
  | run task hthread => exact ⟨[], s.mWq, rfl, rfl⟩
  | join hcontrol hthread => exact ⟨[], s.mWq, rfl, rfl⟩
  | queue a mWq out ha hqueue =>
      exact ⟨_, mWq, Simulation.run_step hqueue, (observe_mWq { s with mWq } out).symm⟩

/-- A run of the logger is a run of its queue, with the same calls and returns. -/
theorem exists_queue_run {n : ℕ} {actions : List LoggerAction}
    {history : List (QueueEvent LogTask)}
    (hrun : run (logged (step putTime)) (start n, []) actions = some (s, history)) :
    ∃ as, run (logged (WaitableQueue.step (.queue LogTask))) (.start [] (n + 1), []) as =
      some (s.mWq, history) := by
  obtain ⟨as, u, hqueue, rfl⟩ := (forward_mWq putTime).run rfl (fun _ _ => trivial) hrun
  rw [List.flatMap_singleton'] at hqueue
  exact ⟨as, hqueue⟩

/-! ### The file -/

/-- `m_thread` pops, and every other thread pushes. -/
def InRole (i : ℕ) (op : QueueCall LogTask) : Prop :=
  if i = 0 then op = .pop else ∃ task, op = .push task

theorem inRole_push {i : ℕ} (hi : i ≠ 0) (task : LogTask) : InRole i (.push task) := by
  rw [InRole, if_neg hi]
  exact ⟨task, rfl⟩

theorem InRole.push {i : ℕ} {op : QueueCall LogTask} (h : InRole i op) (hi : i ≠ 0) :
    ∃ task, op = .push task := by
  rwa [InRole, if_neg hi] at h

def Roles (history : List (QueueEvent LogTask)) : Prop :=
  ∀ i op, .called i op ∈ history → InRole i op

/-- What was popped is what was written, and the task at hand; the loop ends with the task of the
destructor. -/
structure Written (putTime : ℤ → List Char) (s : Logger) (history : List (QueueEvent LogTask))
    (tasks : List LogTask) : Prop where
  file : s.mFout = headline ++ tasks.flatMap (·.line putTime)
  popped : outputs (ofThread 0 (completed history)) = tasks ++ s.mThread.task.toList
  loop : s.mThread ≠ .done → ∀ task ∈ tasks, task.stop = false
  last : s.mThread = .done → ∃ before stop, tasks = before ++ [stop] ∧ stop.stop = true ∧
    ∀ task ∈ before, task.stop = false
  outside : s.mThread ≠ .waiting → s.mWq.threads[0]? = some .idle
  joined : s.control = .destroyed → s.mThread = .done
  roles : Roles history

theorem written_start (n : ℕ) : (start n).Written putTime [] [] where
  file := by rw [List.flatMap_nil, List.append_nil, start]
  popped := rfl
  loop _ task htask := absurd htask List.not_mem_nil
  last h := by cases h
  outside _ := rfl
  joined h := by cases h
  roles _ _ h := absurd h List.not_mem_nil

variable {history : List (QueueEvent LogTask)} {tasks : List LogTask}

/-- A thread calls, in its role. -/
theorem Roles.cons (h : Roles history) {i : ℕ} {op : QueueCall LogTask}
    (hop : InRole i op) :
    Roles (.called i op :: history) := by
  intro j op' hmem
  rcases List.mem_cons.1 hmem with heq | hmem
  · cases heq
    exact hop
  · exact h j op' hmem

theorem Roles.returned (h : Roles history) (i : ℕ) (op : QueueCall LogTask)
    (result : QueueResult LogTask) : Roles (.returned i op result :: history) := by
  intro j op' hmem
  rcases List.mem_cons.1 hmem with heq | hmem
  · cases heq
  · exact h j op' hmem

/-- Another thread calls `Push`. -/
theorem Written.push (h : s.Written putTime history tasks) {i : ℕ} (hi : i ≠ 0) {task : LogTask}
    {mWq : WaitableQueue (List LogTask) LogTask} {control : LogControl}
    (hcontrol : control = s.control ∧ s.control ≠ .destroyed ∨
      control = .pushing i ∧ task.stop = true)
    (hstep : s.mWq.step (.queue LogTask) (.call i (.push task)) = some (mWq, out)) :
    Written putTime { s with mWq, control } (out ++ history) tasks := by
  have hsteps := WaitableQueue.step_cases hstep
  have hidle := fun hne => hsteps.idle (h.outside hne) fun call heq => hi (by cases heq; rfl)
  have halive : control ≠ .destroyed := by
    rcases hcontrol with ⟨rfl, hne⟩ | ⟨rfl, -⟩
    · exact hne
    · exact LogControl.noConfusion
  cases hsteps with
  | call i call hcall =>
      exact ⟨h.file, h.popped, h.loop, h.last, hidle, fun hdestroyed => absurd hdestroyed halive,
        h.roles.cons (inRole_push hi task)⟩

/-- `m_thread` calls `Pop`. -/
theorem Written.pop (h : s.Written putTime history tasks) (hthread : s.mThread = .popping)
    {mWq : WaitableQueue (List LogTask) LogTask}
    (hstep : s.mWq.step (.queue LogTask) (.call 0 .pop) = some (mWq, out)) :
    Written putTime { s with mWq, mThread := .waiting } (out ++ history) tasks := by
  have hpopped := h.popped
  have hloop := h.loop (by rw [hthread]; exact LogPhase.noConfusion)
  rw [hthread] at hpopped
  cases WaitableQueue.step_cases hstep with
  | call i call hcall =>
      exact ⟨h.file, hpopped, fun _ => hloop, (fun hdone => by cases hdone), fun hne => absurd rfl hne,
        (fun hdestroyed => by cases hthread.symm.trans (h.joined hdestroyed)), h.roles.cons rfl⟩

/-- `m_thread` writes the line of its task. -/
theorem Written.run (h : s.Written putTime history tasks) {task : LogTask}
    (hthread : s.mThread = .running task) :
    Written putTime { s with
      mFout := s.mFout ++ task.line putTime
      mThread := if task.stop then .done else .popping } history (tasks ++ [task]) := by
  have hpopped := h.popped
  have hloop := h.loop (by rw [hthread]; exact LogPhase.noConfusion)
  have hidle := h.outside (by rw [hthread]; exact LogPhase.noConfusion)
  have hjoined : s.control ≠ .destroyed := fun hdestroyed => by
    cases hthread.symm.trans (h.joined hdestroyed)
  have hfile : s.mFout ++ task.line putTime =
      headline ++ (tasks ++ [task]).flatMap (·.line putTime) := by
    rw [h.file, List.flatMap_append, List.append_assoc, List.flatMap_singleton]
  rw [hthread] at hpopped
  cases hstop : task.stop with
  | true =>
      exact ⟨hfile, hpopped.trans (List.append_nil _).symm, fun hne => absurd rfl hne,
        fun _ => ⟨tasks, task, rfl, hstop, hloop⟩, fun _ => hidle, fun _ => rfl, h.roles⟩
  | false =>
      refine ⟨hfile, hpopped.trans (List.append_nil _).symm, fun _ => ?_, (fun hdone => by cases hdone),
        fun _ => hidle, fun hdestroyed => absurd hdestroyed hjoined, h.roles⟩
      exact List.forall_mem_append.2 ⟨hloop, List.forall_mem_singleton.2 hstop⟩

/-- The `Pop` of `m_thread` returns, and it has its task. -/
theorem Written.pop_returns (h : s.Written putTime history tasks) {call : QueueCall LogTask}
    {result : QueueResult LogTask} (hi : s.mWq.threads[0]? = some (.returning call result)) :
    Written putTime (observe { s with
      mWq := { s.mWq with threads := s.mWq.threads.set 0 .idle } } [.returned 0 call result])
        (.returned 0 call result :: history) tasks := by
  have hwaiting : s.mThread = .waiting := by
    by_contra hne
    cases hi.symm.trans (h.outside hne)
  have hpopped : outputs (ofThread 0 (completed (.returned 0 call result :: history))) =
      tasks ++ result.output.toList := by
    rw [completed, ofThread_cons_self, outputs, h.popped, hwaiting]
    exact congrArg (· ++ _) (List.append_nil tasks)
  have hloop := h.loop (by rw [hwaiting]; exact LogPhase.noConfusion)
  obtain ⟨hlt, -⟩ := List.getElem?_eq_some_iff.1 hi
  have hidle : (s.mWq.threads.set 0 .idle)[0]? = some .idle := List.getElem?_set_self hlt
  have hroles := h.roles.returned 0 call result
  rw [observe_zero]
  cases houtput : result.output with
  | none =>
      rw [houtput] at hpopped
      refine ⟨h.file, ?_, fun _ => hloop, h.last, fun _ => hidle, h.joined, hroles⟩
      exact hpopped.trans (by rw [Option.map_none, Option.getD_none, hwaiting]; rfl)
  | some task =>
      rw [houtput] at hpopped
      exact ⟨h.file, hpopped, fun _ => hloop, (fun hdone => by cases hdone), fun _ => hidle,
        (fun hdestroyed => by cases hwaiting.symm.trans (h.joined hdestroyed)), hroles⟩

/-- A `Push` returns. -/
theorem Written.push_returns (h : s.Written putTime history tasks) {i : ℕ} (hzero : i ≠ 0)
    {call : QueueCall LogTask} {result : QueueResult LogTask} :
    Written putTime (observe { s with
      mWq := { s.mWq with threads := s.mWq.threads.set i .idle } } [.returned i call result])
        (.returned i call result :: history) tasks := by
  have hpopped : outputs (ofThread 0 (completed (.returned i call result :: history))) =
      tasks ++ s.mThread.task.toList := by
    rw [completed, ofThread_cons_of_ne hzero, h.popped]
  have hidle : s.mThread ≠ .waiting → (s.mWq.threads.set i .idle)[0]? = some .idle := by
    intro hne
    rw [List.getElem?_set_ne hzero, h.outside hne]
  have hcontrol : (if s.control = .pushing i then LogControl.joining else s.control) = .destroyed →
      s.control = .destroyed := by
    intro hdestroyed
    split at hdestroyed
    · cases hdestroyed
    · exact hdestroyed
  rw [observe_of_ne _ hzero]
  exact ⟨h.file, hpopped, h.loop, h.last, hidle, fun hdestroyed => h.joined (hcontrol hdestroyed),
    h.roles.returned i call result⟩

/-- Something happens in the queue. -/
theorem Written.queue (h : s.Written putTime history tasks) {a : QueueAction LogTask}
    {mWq : WaitableQueue (List LogTask) LogTask} (ha : ∀ i call, a ≠ .call i call)
    (hstep : s.mWq.step (.queue LogTask) a = some (mWq, out)) :
    Written putTime ({ s with mWq }.observe out) (out ++ history) tasks := by
  have hsteps := WaitableQueue.step_cases hstep
  have hidle := fun hne => hsteps.idle (h.outside hne) (ha 0)
  have hquiet : Written putTime { s with mWq } history tasks :=
    ⟨h.file, h.popped, h.loop, h.last, hidle, h.joined, h.roles⟩
  cases hsteps with
  | call i call hi => exact absurd rfl (ha i call)
  | ret i call result hi =>
      by_cases hzero : i = 0
      · subst hzero
        exact h.pop_returns hi
      · exact h.push_returns hzero
  | _ => exact hquiet

/-- Every step keeps what was written. -/
theorem Written.step (h : s.Written putTime history tasks) (hstep : Steps putTime s t out) :
    ∃ tasks', t.Written putTime (out ++ history) tasks' := by
  cases hstep with
  | push i task control mWq out hi hcontrol hcall => exact ⟨tasks, h.push hi hcontrol hcall⟩
  | pop mWq out hthread hcall => exact ⟨tasks, h.pop hthread hcall⟩
  | run task hthread => exact ⟨_, h.run hthread⟩
  | join hcontrol hthread =>
      exact ⟨tasks, h.file, h.popped, h.loop, h.last, h.outside, fun _ => hthread, h.roles⟩
  | queue a mWq out ha hqueue => exact ⟨tasks, h.queue ha hqueue⟩

theorem written_of_run {n : ℕ} {actions : List LoggerAction}
    (hrun : run (logged (Logger.step putTime)) (start n, []) actions = some (s, history)) :
    ∃ tasks, s.Written putTime history tasks := by
  refine invariant (I := fun s history => ∃ tasks, s.Written putTime history tasks) ?_
    ⟨[], written_start n⟩ hrun
  rintro s a t out history ⟨tasks, h⟩ hstep
  exact h.step (step_cases hstep)

end Logger

/-! ### The order of the lines -/

/-- What all threads have popped, if only one pops. -/
theorem outputs_ofThread {i : ℕ} {order : List (Done (QueueCall LogTask) (QueueResult LogTask))}
    (h : ∀ x ∈ order, x.1 ≠ i → x.2.2.output = none) :
    outputs (ofThread i order) = outputs order := by
  induction order with
  | nil => rfl
  | cons x earlier ih =>
      obtain ⟨hx, hearlier⟩ := List.forall_mem_cons.1 h
      obtain ⟨j, op, result⟩ := x
      by_cases hj : j = i
      · subst hj
        rw [ofThread_cons_self, outputs, outputs, ih hearlier]
      · rw [ofThread_cons_of_ne hj, outputs, ih hearlier, hx hj]
        exact (List.append_nil _).symm

theorem outputs_append (later earlier : List (Done (QueueCall LogTask) (QueueResult LogTask))) :
    outputs (later ++ earlier) = outputs earlier ++ outputs later := by
  induction later with
  | nil => exact (List.append_nil _).symm
  | cons x later ih =>
      obtain ⟨j, op, result⟩ := x
      rw [List.cons_append, outputs, ih, outputs, List.append_assoc]

/-- The order of the queue: first what was written, then the task at hand, and what is still queued. -/
theorem exists_log_order {putTime : ℤ → List Char} {n : ℕ} {actions : List LoggerAction} {s : Logger}
    {history : List (QueueEvent LogTask)} {tasks : List LogTask}
    (hrun : run (logged (Logger.step putTime)) (.start n, []) actions = some (s, history))
    (hwritten : s.Written putTime history tasks) :
    ∃ order, (∀ i, ofThread i order = s.mWq.atomic.toReturn i ++ ofThread i (completed history)) ∧
      tasks ++ (s.mThread.task.toList ++ (outputs (s.mWq.atomic.toReturn 0) ++ s.mWq.mQueue)) =
        inputs order := by
  obtain ⟨as, hqueue⟩ := Logger.exists_queue_run hrun
  obtain ⟨bs, hatomic⟩ := exists_atomic_run hqueue
  obtain ⟨order, hseq, horder⟩ := exists_order hatomic
  -- only `m_thread` has popped
  have hothers : ∀ x ∈ order, x.1 ≠ 0 → x.2.2.output = none := by
    rintro ⟨i, op, result⟩ hx hne
    obtain ⟨task, rfl⟩ := (hwritten.roles i op (called_of_run hatomic horder _ hx)).push hne
    obtain ⟨way, u, v, happly⟩ := hseq.exists_apply _ hx
    cases atomicQueue_cases happly with
    | push item => rfl
    | pop item hcall => cases hcall
    | nothing hcall hresult => exact hresult
  have hfifo := fifo_of_sequential hseq
  rw [← outputs_ofThread hothers, horder 0, outputs_append, hwritten.popped, List.nil_append,
    List.append_assoc, List.append_assoc] at hfifo
  exact ⟨order, horder, hfifo⟩

/-- **The log is in one order.** In every run of the logger with any number of threads, the calls of its
queue that have taken effect can be put in one order, which is that of each thread, so that the file
holds the headline and the lines of the first tasks that were pushed in that order, each of them once.
While the thread of the logger is in its loop none of these is the task of the destructor; after the
loop, and so when the destructor has returned, that task is the last of them. -/
theorem log_written {putTime : ℤ → List Char} {n : ℕ} {actions : List LoggerAction} {s : Logger}
    {history : List (QueueEvent LogTask)}
    (hrun : run (logged (Logger.step putTime)) (.start n, []) actions = some (s, history)) :
    ∃ order tasks, (∀ i, ofThread i order = s.mWq.atomic.toReturn i ++
        ofThread i (completed history)) ∧ tasks <+: inputs order ∧
      s.mFout = headline ++ tasks.flatMap (·.line putTime) ∧
      (s.mThread ≠ .done → ∀ task ∈ tasks, task.stop = false) ∧
      (s.mThread = .done → ∃ before last, tasks = before ++ [last] ∧ last.stop = true ∧
        ∀ task ∈ before, task.stop = false) ∧
      (s.control = .destroyed → s.mThread = .done) := by
  obtain ⟨tasks, hwritten⟩ := Logger.written_of_run hrun
  obtain ⟨order, horder, hfifo⟩ := exists_log_order hrun hwritten
  exact ⟨order, tasks, horder, ⟨_, hfifo⟩, hwritten.file, hwritten.loop, hwritten.last,
    hwritten.joined⟩

/-- Times are not written out here. -/
def noTime (_ : ℤ) : List Char := []

/-- A line of another thread. -/
def lineTask : LogTask := ⟨['a'], .info, 5, false⟩

/-- The task of the destructor. -/
def stopTask : LogTask := ⟨logEnd, .info, 6, true⟩

/-- The other thread logs while `m_thread` is in `Pop`, and calls the destructor. -/
def logCalls : List LoggerAction :=
  [.log 1 .info ['a'] 5, .pop, .queue (.advance 1), .queue (.advance 1), .queue (.advance 1),
    .queue (.notifyOne 1 none), .queue (.ret 1), .destroy 1 6]

/-- `m_thread` pops the line and writes it. -/
def logLine : List LoggerAction :=
  [.queue (.advance 0), .queue (.advance 0), .queue (.advance 0), .queue (.advance 0),
    .queue (.advance 0), .queue (.ret 0), .run, .pop]

/-- The destructor pushes its task, and joins `m_thread`, which has written it. -/
def logStop : List LoggerAction :=
  [.queue (.advance 1), .queue (.advance 1), .queue (.advance 1), .queue (.notifyOne 1 none),
    .queue (.ret 1), .queue (.advance 0), .queue (.advance 0), .queue (.advance 0),
    .queue (.advance 0), .queue (.advance 0), .queue (.ret 0), .run, .join]

/-- The other thread in the `Push` of the destructor. -/
def stopping (tasks : List LogTask) (mFout : List Char) : Logger :=
  ⟨⟨[.popLocking .none, .pushLocking stopTask], tasks, false⟩, .waiting, mFout, .pushing 1⟩

def callsPast : List (QueueEvent LogTask) :=
  [.called 1 (.push stopTask), .returned 1 (.push lineTask) .pushed, .called 0 .pop,
    .called 1 (.push lineTask)]

theorem run_logCalls (text : List Char) :
    run (logged (Logger.step noTime)) (⟨.start [] 2, .popping, text, .alive⟩, []) logCalls =
      some (stopping [lineTask] text, callsPast) := rfl

theorem run_logLine (text : List Char) (past : List (QueueEvent LogTask)) :
    run (logged (Logger.step noTime)) (stopping [lineTask] text, past) logLine =
      some (stopping [] (text ++ lineTask.line noTime),
        .called 0 .pop :: .returned 0 .pop (.popped lineTask) :: past) := rfl

theorem run_logStop (text : List Char) (past : List (QueueEvent LogTask)) :
    run (logged (Logger.step noTime)) (stopping [] text, past) logStop =
      some (⟨⟨[.idle, .idle], [], false⟩, .done, text ++ stopTask.line noTime, .destroyed⟩,
        .returned 0 .pop (.popped stopTask) :: .returned 1 (.push stopTask) .pushed :: past) := rfl

def stopPast : List (QueueEvent LogTask) :=
  .returned 0 .pop (.popped stopTask) :: .returned 1 (.push stopTask) .pushed :: .called 0 .pop ::
    .returned 0 .pop (.popped lineTask) :: callsPast

/-- The destructor has returned. -/
def stopped : Logger :=
  ⟨⟨[.idle, .idle], [], false⟩, .done, headline ++ lineTask.line noTime ++ stopTask.line noTime,
    .destroyed⟩

theorem run_logLater : run (logged (Logger.step noTime)) (stopping [lineTask] headline, callsPast)
    (logLine ++ logStop) = some (stopped, stopPast) := by
  rw [run_append, run_logLine, Option.bind_some, run_logStop]
  rfl

theorem run_logRun : run (logged (Logger.step noTime)) (.start 1, [])
    (logCalls ++ (logLine ++ logStop)) = some (stopped, stopPast) := by
  have hcalls : run (logged (Logger.step noTime)) (.start 1, []) logCalls =
      some (stopping [lineTask] headline, callsPast) := run_logCalls headline
  rw [run_append, hcalls, Option.bind_some, run_logLater]

theorem log_written_logRun : ∃ (order : List (Done (QueueCall LogTask) (QueueResult LogTask)))
    (tasks : List LogTask), tasks <+: inputs order ∧
      headline ++ lineTask.line noTime ++ stopTask.line noTime =
        headline ++ tasks.flatMap (·.line noTime) ∧
      ∃ before last, tasks = before ++ [last] ∧ last.stop = true ∧
        ∀ task ∈ before, task.stop = false := by
  obtain ⟨order, tasks, -, htasks, hfile, -, hlast, -⟩ := log_written run_logRun
  exact ⟨order, tasks, htasks, hfile, hlast rfl⟩

end IotDrive
