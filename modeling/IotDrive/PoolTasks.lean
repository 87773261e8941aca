/-
What the thread pool does with the tasks of its users.

`AddTask` queues a task and the worker that pops it runs it.  Workers that are started, stopped, parked
and let go do not lose a task, and none is run twice.  Kill pills have the highest priority, so that the
destructor drops the tasks that are queued behind its pills.

Main definitions:

* `PoolEvent`, `ThreadPool.stepTasks` — what is seen of the tasks;
* `ThreadPool.Accounted` — where the tasks are that were added;
* `ThreadPool.stepsLeft` — how many steps the threads take when no task is added.

Main results:

* `ThreadPool.Accounted.step` — every step moves a task from one place to the next, or none;
* `pool_conserves_tasks` — **each task is queued, run or finished once**, and started in the order of
  the priorities;
* `pool_finishes_tasks` — **all tasks are finished**, if the pool is not paused.
-/

import IotDrive.Library.History
import IotDrive.PoolPopulation
import Mathlib.Data.Finset.Max

set_option relaxedAutoImplicit false
set_option autoImplicit false

namespace IotDrive

open History Transition

/-! ### Tasks of the users -/

/-- What is seen of them: a worker starts a task when it pops it. -/
inductive PoolEvent (τ : Type)
  | added (task : τ) (priority : Priority)
  | started (worker : ℕ) (task : τ) (priority : Priority)
  | finished (worker : ℕ) (task : τ)
  deriving DecidableEq

section Places

variable {τ : Type}

def PoolEvent.addedTask : PoolEvent τ → Option (τ × Priority)
  | .added task priority => some (task, priority)
  | _ => none

def PoolEvent.startedTask : PoolEvent τ → Option (τ × Priority)
  | .started _ task priority => some (task, priority)
  | _ => none

def PoolEvent.finishedTask : PoolEvent τ → Option τ
  | .finished _ task => some task
  | _ => none

def PoolTask.userTask : PoolTask τ → Option (τ × Priority)
  | .user task priority => some (task, priority)
  | _ => none

def WorkerPhase.runningTask : WorkerPhase τ → Option τ
  | .running task => some task
  | _ => none

def addedTasks (history : List (PoolEvent τ)) : List (τ × Priority) :=
  history.filterMap PoolEvent.addedTask

def startedTasks (history : List (PoolEvent τ)) : List (τ × Priority) :=
  history.filterMap PoolEvent.startedTask

def finishedTasks (history : List (PoolEvent τ)) : List τ :=
  history.filterMap PoolEvent.finishedTask

/-- A task is started when every task of a higher priority that was added before has been started. -/
def PriorityOrder [DecidableEq τ] (past : List (PoolEvent τ)) : PoolEvent τ → Prop
  | .started _ task priority => ∀ other, (PoolTask.user task priority).priority <
      (PoolTask.user other.1 other.2).priority →
        (addedTasks past).count other = (startedTasks past).count other
  | _ => True

namespace ThreadPool

def queuedTasks (s : ThreadPool τ) : List (τ × Priority) := s.mTasksPq.filterMap PoolTask.userTask

def runningTasks (s : ThreadPool τ) : List τ := s.mThreadArr.filterMap WorkerPhase.runningTask

/-- What is seen of a step. -/
def events (s : ThreadPool τ) : PoolAction τ → List (PoolEvent τ)
  | .addTask task priority => [.added task priority]
  | .pop worker (.user task priority) => [.started worker task priority]
  | .work worker =>
      match s.mThreadArr[worker]? with
      | some (.running task) => [.finished worker task]
      | _ => []
  | _ => []

/-- The transitions, with what is seen of the tasks. -/
def stepTasks [DecidableEq τ] (s : ThreadPool τ) (a : PoolAction τ) :
    Option (ThreadPool τ × List (PoolEvent τ)) :=
  (s.step a).map fun t => (t, s.events a)

/-- A task that was added is queued or has been started; one that was started is run by a worker, or
finished. -/
structure Accounted (s : ThreadPool τ) (history : List (PoolEvent τ)) : Prop where
  queued : (addedTasks history).Perm (startedTasks history ++ s.queuedTasks)
  running : ((startedTasks history).map Prod.fst).Perm (finishedTasks history ++ s.runningTasks)

theorem accounted_start (numThreads : ℕ) : (start numThreads : ThreadPool τ).Accounted [] where
  queued := List.Perm.nil
  running := by
    have hnone : (start numThreads : ThreadPool τ).runningTasks = [] := by
      refine List.filterMap_eq_nil_iff.2 fun phase hphase => ?_
      rw [List.eq_of_mem_replicate hphase]
      rfl
    rw [hnone]
    exact List.Perm.nil

variable {s t : ThreadPool τ} {history : List (PoolEvent τ)}

/-- A step that moves no task. -/
theorem Accounted.keep (h : s.Accounted history) (hqueue : s.queuedTasks.Perm t.queuedTasks)
    (hrunning : s.runningTasks.Perm t.runningTasks) : t.Accounted history :=
  ⟨h.queued.trans (hqueue.append_left _), h.running.trans (hrunning.append_left _)⟩

/-- A worker moves to another phase. -/
theorem runningTasks_set {worker : ℕ} {a : WorkerPhase τ} (hworker : s.mThreadArr[worker]? = some a)
    (b : WorkerPhase τ) (ht : t.mThreadArr = s.mThreadArr.set worker b) :
    (a.runningTask.toList ++ t.runningTasks).Perm (b.runningTask.toList ++ s.runningTasks) := by
  rw [runningTasks, ht]
  exact Census.filterMap_move WorkerPhase.runningTask hworker b

theorem queuedTasks_adminAddTask (s : ThreadPool τ) (task : PoolTask τ) :
    (s.adminAddTask task).queuedTasks = s.queuedTasks ++ task.userTask.toList := by
  rw [queuedTasks, adminAddTask, List.filterMap_append]
  cases task <;> rfl

theorem runningTasks_notifyAll (s : ThreadPool τ) : s.notifyAll.runningTasks = s.runningTasks := by
  rw [runningTasks, notifyAll, List.filterMap_map]
  refine List.filterMap_congr fun phase _ => ?_
  cases phase <;> rfl

theorem runningTasks_startThread (s : ThreadPool τ) : s.startThread.runningTasks = s.runningTasks := by
  rw [runningTasks, startThread, List.filterMap_append]
  exact List.append_nil _

/-- The controlling thread moves no task. -/
theorem Accounted.controlStep (h : s.Accounted history) (hsteps : s.ControlSteps t) :
    t.Accounted history := by
  have hpush : ∀ {task : PoolTask τ} (u : ThreadPool τ), task.userTask = none →
      u.mTasksPq = (s.adminAddTask task).mTasksPq → u.mThreadArr = s.mThreadArr →
      u.Accounted history := by
    intro task u htask hqueue harr
    have hqueued := s.queuedTasks_adminAddTask task
    rw [htask, Option.toList_none, List.append_nil] at hqueued
    refine h.keep (.of_eq (hqueued.symm.trans ?_)) (.of_eq ?_)
    · exact congrArg (List.filterMap PoolTask.userTask) hqueue.symm
    · exact congrArg (List.filterMap WorkerPhase.runningTask) harr.symm
  cases hsteps with
  | startThread hcontrol hi => exact h.keep (.refl _) (.of_eq s.runningTasks_startThread.symm)
  | notify hcontrol => exact h.keep (.refl _) (.of_eq s.runningTasks_notifyAll.symm)
  | pushPill hcontrol hi => exact hpush _ rfl rfl rfl
  | pushPause hcontrol hi => exact hpush _ rfl rfl rfl
  | pushLastPill hcontrol hi => exact hpush _ rfl rfl rfl
  | _ => exact h.keep (.refl _) (.refl _)

/-- A worker that pops a task of a user starts it. -/
theorem Accounted.start (h : s.Accounted history) {worker : ℕ} {task : τ} {priority : Priority}
    (hqueue : s.queuedTasks.Perm ((task, priority) :: t.queuedTasks))
    (hrunning : t.runningTasks.Perm (task :: s.runningTasks)) :
    t.Accounted (.started worker task priority :: history) where
  queued := (h.queued.trans (hqueue.append_left _)).trans List.perm_middle
  running := by
    have hmore : ((startedTasks history).map Prod.fst).Perm (finishedTasks history ++ s.runningTasks) :=
      h.running
    exact ((hmore.cons task).trans List.perm_middle.symm).trans (hrunning.symm.append_left _)

variable [DecidableEq τ]

/-- What is left in the queue. -/
theorem queuedTasks_erase {task : PoolTask τ} (htask : task ∈ s.mTasksPq)
    (ht : t.mTasksPq = s.mTasksPq.erase task) :
    s.queuedTasks.Perm (task.userTask.toList ++ t.queuedTasks) := by
  have herase := (List.perm_cons_erase htask).filterMap PoolTask.userTask
  rw [← ht] at herase
  cases task <;> exact herase

/-- Every step moves a task from one place to the next, or none. -/
theorem Accounted.step (h : s.Accounted history) {a : PoolAction τ} (hstep : s.step a = some t) :
    t.Accounted (s.events a ++ history) := by
  cases step_cases hstep with
  | addTask task priority =>
      refine ⟨?_, h.running⟩
      rw [queuedTasks_adminAddTask, ← List.append_assoc]
      exact (h.queued.cons (task, priority)).trans (List.perm_append_singleton _ _).symm
  | setNumThreads num hcontrol => exact h.keep (.refl _) (.refl _)
  | pause hcontrol => exact h.keep (.refl _) (.refl _)
  | resume hcontrol => exact h.keep (.refl _) (.refl _)
  | destroy hcontrol => exact h.keep (.refl _) (.refl _)
  | control hsteps => exact h.controlStep hsteps
  | @pop worker task hworker hyields =>
      have hqueue := queuedTasks_erase (t := ⟨s.mThreadArr.set worker task.phase,
        s.mTasksPq.erase task, s.mThreadNum, s.mResume, s.mPauseReady, s.mMutex, s.control⟩)
        hyields.1 rfl
      have hrunning := runningTasks_set (t := ⟨s.mThreadArr.set worker task.phase,
        s.mTasksPq.erase task, s.mThreadNum, s.mResume, s.mPauseReady, s.mMutex, s.control⟩)
        hworker task.phase rfl
      cases task with
      | user task priority => exact h.start hqueue hrunning
      | pauseTask => exact h.keep hqueue hrunning.symm
      | killPill => exact h.keep hqueue hrunning.symm
  | timeout hworker => exact h.keep (.refl _) (.refl _)
  | @work worker a b u hworker hsteps =>
      obtain ⟨hqueue, -, -, -⟩ := hsteps.frame
      have hrunning := runningTasks_set (t := { u with mThreadArr := s.mThreadArr.set worker b })
        hworker b rfl
      have hqueued : s.queuedTasks.Perm
          (queuedTasks { u with mThreadArr := s.mThreadArr.set worker b }) := by
        rw [queuedTasks, queuedTasks, hqueue]
      cases hsteps with
      | finish task =>
          -- the one step of a worker that is seen
          simp only [events, hworker]
          refine ⟨h.queued.trans (hqueued.append_left _), ?_⟩
          exact (h.running.trans (hrunning.symm.append_left _)).trans List.perm_middle
      | _ =>
          simp only [events, hworker]
          exact h.keep hqueued hrunning.symm
  | wake hworker => exact h.keep (.refl _) (runningTasks_set hworker .waking rfl).symm

/-! ### The order of the priorities -/

/-- A task that is popped has the highest priority of those in the queue. -/
theorem Accounted.priorityOrder (h : s.Accounted history) (hevery : Every PriorityOrder history)
    {a : PoolAction τ} (hstep : s.step a = some t) : Every PriorityOrder (s.events a ++ history) := by
  cases step_cases hstep with
  | addTask task priority => exact ⟨trivial, hevery⟩
  | @pop worker task hworker hyields =>
      cases task with
      | user task priority =>
          refine ⟨fun other hlt => ?_, hevery⟩
          have hnot : other ∉ s.queuedTasks := by
            intro hmem
            obtain ⟨queued, hqueued, heq⟩ := List.mem_filterMap.1 hmem
            have hle := hyields.2 queued hqueued
            cases queued with
            | user task' priority' =>
                cases heq
                exact absurd hlt (Nat.not_lt.2 hle)
            | pauseTask => cases heq
            | killPill => cases heq
          have hcount := h.queued.count_eq other
          rwa [List.count_append, List.count_eq_zero_of_not_mem hnot, Nat.add_zero] at hcount
      | pauseTask => exact hevery
      | killPill => exact hevery
  | work hworker hsteps =>
      simp only [events, hworker]
      cases hsteps with
      | finish task => exact ⟨trivial, hevery⟩
      | _ => exact hevery
  | _ => exact hevery

/-! ### The end of the pool -/

/-- Past the destructor all workers have stopped. -/
def Ended (s : ThreadPool τ) : Prop :=
  s.control = .destroyed → ∀ phase ∈ s.mThreadArr, phase.alive = false

theorem Ended.step (h : s.Ended) {a : PoolAction τ} (hstep : s.step a = some t) : t.Ended := by
  have hlives : ∀ {worker : ℕ} {phase : WorkerPhase τ}, s.mThreadArr[worker]? = some phase →
      phase.alive = true → s.control ≠ .destroyed := by
    intro worker phase hworker halive hdestroyed
    have hstopped := h hdestroyed phase (List.mem_of_getElem? hworker)
    cases hstopped.symm.trans halive
  cases step_cases hstep with
  | addTask task priority => exact h
  | control hsteps =>
      cases hsteps with
      | join hcontrol hstopped =>
          intro _ phase hphase
          have hmatches := hstopped phase hphase
          cases phase <;> first | rfl | cases hmatches
      | _ => nofun
  | pop hworker hyields => exact fun hdestroyed => absurd hdestroyed (hlives hworker rfl)
  | timeout hworker => exact h
  | work hworker hsteps =>
      intro hdestroyed
      rw [hsteps.frame.2.1] at hdestroyed
      exact absurd hdestroyed (hlives hworker hsteps.alive.1)
  | wake hworker => exact fun hdestroyed => absurd hdestroyed (hlives hworker rfl)
  | _ => nofun

/-- The destructor has queued its pills: no task is started any more. -/
structure Dropping (s : ThreadPool τ) (before history : List (PoolEvent τ)) : Prop where
  balanced : s.Balanced
  queued : s.control.pillsQueued = true
  started : startedTasks history = startedTasks before

theorem Dropping.step {before : List (PoolEvent τ)} (h : s.Dropping before history)
    {a : PoolAction τ} (hstep : s.step a = some t) : t.Dropping before (s.events a ++ history) := by
  have hbalanced := h.balanced.step hstep
  have hidle : s.control ≠ .idle := by
    intro hidle
    have hqueued := h.queued
    rw [hidle] at hqueued
    cases hqueued
  cases step_cases hstep with
  | addTask task priority => exact ⟨hbalanced, h.queued, h.started⟩
  | setNumThreads num hcontrol => exact absurd hcontrol hidle
  | pause hcontrol => exact absurd hcontrol hidle
  | resume hcontrol => exact absurd hcontrol hidle
  | destroy hcontrol => exact absurd hcontrol hidle
  | control hsteps =>
      have hqueued := h.queued
      cases hsteps with
      | join hcontrol hstopped => exact ⟨hbalanced, rfl, h.started⟩
      | _ => simp [Control.pillsQueued, *] at hqueued
  | @pop worker task hworker hyields =>
      cases hyields.eq_killPill (h.balanced.mem_killPill h.queued hworker rfl)
      exact ⟨hbalanced, h.queued, h.started⟩
  | timeout hworker => exact ⟨hbalanced, h.queued, h.started⟩
  | work hworker hsteps =>
      refine ⟨hbalanced, (congrArg Control.pillsQueued hsteps.frame.2.1).trans h.queued, ?_⟩
      simp only [events, hworker]
      cases hsteps <;> exact h.started
  | wake hworker => exact ⟨hbalanced, h.queued, h.started⟩

/-- A step with its events is a step of the pool. -/
theorem stepTasks_eq_some {a : PoolAction τ} {out : List (PoolEvent τ)} :
    s.stepTasks a = some (t, out) ↔ s.step a = some t ∧ out = s.events a := by
  rw [stepTasks, Option.map_eq_some_iff]
  constructor
  · rintro ⟨u, hu, heq⟩
    cases heq
    exact ⟨hu, rfl⟩
  · rintro ⟨hstep, rfl⟩
    exact ⟨t, hstep, rfl⟩

/-- The invariants of all runs. -/
structure TaskInvariant (s : ThreadPool τ) (history : List (PoolEvent τ)) : Prop where
  accounted : s.Accounted history
  order : Every PriorityOrder history
  ended : s.Ended
  balanced : s.Balanced

theorem taskInvariant_of_run {numThreads : ℕ} {actions : List (PoolAction τ)}
    (hrun : run (logged stepTasks) (start numThreads, []) actions = some (s, history)) :
    s.TaskInvariant history := by
  refine invariant (I := TaskInvariant) (fun s a t out history h hstep => ?_) ?_ hrun
  · obtain ⟨hpool, rfl⟩ := stepTasks_eq_some.1 hstep
    exact ⟨h.accounted.step hpool, h.accounted.priorityOrder h.order hpool, h.ended.step hpool,
      h.balanced.step hpool⟩
  · exact ⟨accounted_start numThreads, trivial, nofun, balanced_start numThreads⟩

end ThreadPool

end Places

/-! ### The number of steps -/

/-- A step of a thread; a worker that pops none in its second only tries again. -/
def PoolAction.isOwn {τ : Type} : PoolAction τ → Bool
  | .control | .pop _ _ | .work _ => true
  | _ => false

/-- What is left of a call, with two steps for each pill that it queues. -/
def Control.stepsLeft (mThreadNum : ℕ) : Control → ℕ
  | .growing num i => num - i + 3 * (mThreadNum - num) + 2
  | .shrinking num i => 3 * (i - num) + 1
  | .destroying i => 3 * (mThreadNum - i) + 2
  | .joining | .resumeNotifying => 1
  | _ => 0

namespace ThreadPool

variable {τ : Type} {s t : ThreadPool τ}

/-- The steps that are left when no task is added: two for each that is queued, one for each that is
run, and those of the controlling thread. -/
def stepsLeft (s : ThreadPool τ) : ℕ :=
  2 * s.mTasksPq.length + s.runningTasks.length + s.control.stepsLeft s.mThreadNum

/-- `Pause` has not been called. -/
structure NeverPaused (s : ThreadPool τ) : Prop where
  unpaused : s.Unpaused
  counting : s.control ≠ .pauseCounting

/-- The controlling thread goes on, and queues `k` tasks. -/
theorem stepsLeft_lt_of_control {k : ℕ} (hqueue : t.mTasksPq.length = s.mTasksPq.length + k)
    (hrunning : t.runningTasks = s.runningTasks)
    (hleft : t.control.stepsLeft t.mThreadNum + 2 * k < s.control.stepsLeft s.mThreadNum) :
    t.stepsLeft < s.stepsLeft := by
  unfold stepsLeft
  rw [hrunning, hqueue]
  omega

theorem NeverPaused.stepsLeft_controlStep (h : s.NeverPaused) (hsteps : s.ControlSteps t) :
    t.stepsLeft < s.stepsLeft := by
  obtain ⟨hwaiting, hstoring, hpushing⟩ := h.unpaused.control
  cases hsteps with
  | startThread hcontrol hi =>
      refine stepsLeft_lt_of_control (k := 0) rfl s.runningTasks_startThread ?_
      simp only [hcontrol, Control.stepsLeft, startThread]
      omega
  | started hcontrol hi =>
      refine stepsLeft_lt_of_control (k := 0) rfl rfl ?_
      simp only [hcontrol, Control.stepsLeft]
      omega
  | pushPill hcontrol hi =>
      refine stepsLeft_lt_of_control (k := 1) List.length_append rfl ?_
      simp only [hcontrol, Control.stepsLeft]
      omega
  | sized hcontrol hi =>
      refine stepsLeft_lt_of_control (k := 0) rfl rfl ?_
      simp only [hcontrol, Control.stepsLeft]
      omega
  | notify hcontrol =>
      refine stepsLeft_lt_of_control (k := 0) rfl s.runningTasks_notifyAll ?_
      simp only [hcontrol, Control.stepsLeft]
      omega
  | pushLastPill hcontrol hi =>
      refine stepsLeft_lt_of_control (k := 1) List.length_append rfl ?_
      simp only [hcontrol, Control.stepsLeft, adminAddTask]
      omega
  | pillsPushed hcontrol hi =>
      refine stepsLeft_lt_of_control (k := 0) rfl rfl ?_
      simp only [hcontrol, Control.stepsLeft]
      omega
  | join hcontrol hstopped =>
      refine stepsLeft_lt_of_control (k := 0) rfl rfl ?_
      simp only [hcontrol, Control.stepsLeft]
      omega
  | noneReady hcontrol hready => exact absurd hcontrol hwaiting
  | store hcontrol => exact absurd hcontrol hstoring
  | pushPause hcontrol hi => exact absurd hcontrol (hpushing _)
  | pausesPushed hcontrol hi => exact absurd hcontrol (hpushing _)
  | paused hcontrol hready => exact absurd hcontrol h.counting

variable [DecidableEq τ]

theorem NeverPaused.step (h : s.NeverPaused) {a : PoolAction τ} (ha : a ≠ .pause)
    (hstep : s.step a = some t) : t.NeverPaused := by
  refine ⟨h.unpaused.step hstep ha, ?_⟩
  cases step_cases hstep with
  | addTask task priority => exact h.counting
  | pause hcontrol => exact absurd rfl ha
  | control hsteps =>
      cases hsteps with
      | pausesPushed hcontrol hi => exact absurd hcontrol (h.unpaused.control.2.2 _)
      | _ => nofun
  | pop hworker hyields => exact h.counting
  | timeout hworker => exact h.counting
  | work hworker hsteps =>
      dsimp only
      rw [hsteps.frame.2.1]
      exact h.counting
  | wake hworker => exact h.counting
  | _ => nofun

/-- Every step of a thread is one less. -/
theorem NeverPaused.stepsLeft_lt (h : s.NeverPaused) {a : PoolAction τ} (ha : a.isOwn = true)
    (hstep : s.step a = some t) : t.stepsLeft < s.stepsLeft := by
  cases step_cases hstep with
  | control hsteps => exact h.stepsLeft_controlStep hsteps
  | @pop worker task hworker hyields =>
      have hlength := List.length_erase_of_mem hyields.1
      have hpos := List.length_pos_of_mem hyields.1
      have hrunning := (runningTasks_set (t := ⟨s.mThreadArr.set worker task.phase,
        s.mTasksPq.erase task, s.mThreadNum, s.mResume, s.mPauseReady, s.mMutex, s.control⟩)
        hworker task.phase rfl).length_eq
      have hone : task.phase.runningTask.toList.length ≤ 1 := by
        cases task.phase.runningTask <;> simp
      have hpopping : (WorkerPhase.popping : WorkerPhase τ).runningTask = none := rfl
      rw [List.length_append, List.length_append, hpopping, Option.toList_none,
        List.length_nil] at hrunning
      unfold stepsLeft
      dsimp only
      omega
  | @work worker a b u hworker hsteps =>
      have hfree := h.unpaused.free _ (List.mem_of_getElem? hworker)
      cases hsteps with
      | finish task =>
          have hrunning := (runningTasks_set (t := { s with
            mThreadArr := s.mThreadArr.set worker .popping }) hworker .popping rfl).length_eq
          rw [List.length_append, List.length_append] at hrunning
          unfold stepsLeft
          dsimp only [WorkerPhase.runningTask, Option.toList_none, Option.toList_some,
            List.length_nil, List.length_singleton] at hrunning ⊢
          omega
      | _ => rcases hfree with hfree | ⟨task, hfree⟩ | hfree <;> cases hfree
  | _ => cases ha

/-! ### Where no thread can go on -/

/-- If a worker is at its pop the queue is empty. -/
theorem queue_empty_of_stuck (hstuck : ∀ a : PoolAction τ, a.isOwn = true → s.step a = none)
    (hpopping : .popping ∈ s.mThreadArr) : s.mTasksPq = [] := by
  obtain ⟨worker, hworker⟩ := List.getElem?_of_mem hpopping
  by_contra hqueue
  obtain ⟨first, hfirst⟩ := List.exists_mem_of_ne_nil _ hqueue
  -- a task of the highest priority can be popped
  obtain ⟨task, htask, hmax⟩ := Finset.exists_max_image s.mTasksPq.toFinset PoolTask.priority
    ⟨first, List.mem_toFinset.2 hfirst⟩
  have hyields : s.Yields task :=
    ⟨List.mem_toFinset.1 htask, fun other hother => hmax other (List.mem_toFinset.2 hother)⟩
  have hpop := hstuck (.pop worker task) rfl
  simp [ThreadPool.step, hworker, hyields] at hpop

/-- No worker runs a task, and if one is at its pop the queue is empty. -/
theorem NeverPaused.worked_off (h : s.NeverPaused)
    (hstuck : ∀ a : PoolAction τ, a.isOwn = true → s.step a = none) :
    s.runningTasks = [] ∧ (.popping ∈ s.mThreadArr → s.mTasksPq = []) := by
  refine ⟨List.filterMap_eq_nil_iff.2 fun phase hphase => ?_, queue_empty_of_stuck hstuck⟩
  rcases h.unpaused.free phase hphase with rfl | ⟨task, rfl⟩ | rfl
  · rfl
  · obtain ⟨worker, hworker⟩ := List.getElem?_of_mem hphase
    have hwork := hstuck (.work worker) rfl
    simp [ThreadPool.step, hworker, workStep] at hwork
  · rfl

/-- The controlling thread is in no call. -/
theorem NeverPaused.control_of_stuck (h : s.NeverPaused) (hbalanced : s.Balanced)
    (hstuck : ∀ a : PoolAction τ, a.isOwn = true → s.step a = none) :
    s.control = .idle ∨ s.control = .destroyed := by
  obtain ⟨hwaiting, hstoring, hpushing⟩ := h.unpaused.control
  have hnext : s.controlStep = none := hstuck .control rfl
  cases hcontrol : s.control with
  | idle => exact .inl rfl
  | destroyed => exact .inr rfl
  | growing num i =>
      simp only [controlStep, hcontrol] at hnext
      split at hnext <;> cases hnext
  | shrinking num i =>
      simp only [controlStep, hcontrol] at hnext
      split at hnext <;> cases hnext
  | resumeNotifying => simp [controlStep, hcontrol] at hnext
  | destroying i =>
      simp only [controlStep, hcontrol] at hnext
      split at hnext <;> cases hnext
  | joining =>
      simp only [controlStep, hcontrol, ite_eq_right_iff, reduceCtorEq, imp_false] at hnext
      refine absurd (fun phase hphase => ?_) hnext
      obtain ⟨hrunning, hempty⟩ := h.worked_off hstuck
      rcases h.unpaused.free phase hphase with rfl | ⟨task, rfl⟩ | rfl
      · -- there is a pill for it
        obtain ⟨worker, hworker⟩ := List.getElem?_of_mem hphase
        have hpill := hbalanced.mem_killPill (by rw [hcontrol]; rfl) hworker rfl
        rw [hempty hphase] at hpill
        cases hpill
      · have hnone := List.filterMap_eq_nil_iff.1 hrunning _ hphase
        cases hnone
      · rfl
  | pauseWaiting => exact absurd hcontrol hwaiting
  | pauseStoring => exact absurd hcontrol hstoring
  | pausePushing i => exact absurd hcontrol (hpushing i)
  | pauseCounting => exact absurd hcontrol h.counting

end ThreadPool

/-! ### The results -/

section Results

open ThreadPool

variable {τ : Type} [DecidableEq τ] {numThreads : ℕ} {actions : List (PoolAction τ)}
  {s t : ThreadPool τ} {history later : List (PoolEvent τ)}

/-- **No task is lost or run twice.** In every run, with every sequence of calls and every interleaving
with the workers, the tasks that were added are those that were started and those in the queue, and the
tasks that were started are those that are finished and those that a worker runs.  No task is started
before another of a higher priority that was added before.  When the destructor has queued its pills no
task is started any more, and when it has returned none is run. -/
theorem pool_conserves_tasks
    (hrun : run (logged stepTasks) (start numThreads, []) actions = some (s, history)) :
    (addedTasks history).Perm (startedTasks history ++ s.queuedTasks) ∧
      ((startedTasks history).map Prod.fst).Perm (finishedTasks history ++ s.runningTasks) ∧
      Every PriorityOrder history ∧
      (s.control.pillsQueued = true → ∀ rest t later,
        run (logged stepTasks) (s, history) rest = some (t, later) →
          startedTasks later = startedTasks history) ∧
      (s.control = .destroyed → s.runningTasks = []) := by
  have h := taskInvariant_of_run hrun
  refine ⟨h.accounted.queued, h.accounted.running, h.order, ?_, ?_⟩
  · intro hqueued rest t later hrest
    have hdropping : t.Dropping history later := by
      refine invariant (I := fun t later => t.Dropping history later) ?_ ⟨h.balanced, hqueued, rfl⟩
        hrest
      intro u a v out past hu hstep
      obtain ⟨hpool, rfl⟩ := stepTasks_eq_some.1 hstep
      exact hu.step hpool
    exact hdropping.started
  · intro hdestroyed
    refine List.filterMap_eq_nil_iff.2 fun phase hphase => ?_
    have hstopped := h.ended hdestroyed phase hphase
    cases phase <;> first | rfl | cases hstopped

/-- A task is dropped: it is added when the destructor has queued its pills. -/
def droppedRun : List (PoolAction ℕ) :=
  [.addTask 7 .low, .addTask 9 .high, .pop 0 (.user 9 .high), .work 0, .pop 1 (.user 7 .low),
    .destroy, .control, .control, .control, .addTask 8 .normal, .pop 0 .killPill, .work 1,
    .pop 1 .killPill, .control]

def droppedPast : List (PoolEvent ℕ) :=
  [.finished 1 7, .added 8 .normal, .started 1 7 .low, .finished 0 9, .started 0 9 .high,
    .added 9 .high, .added 7 .low]

theorem run_droppedRun : run (logged stepTasks) (start 2, []) droppedRun =
    some (⟨[.stopped, .stopped], [.user 8 .normal], 2, false, 0, false, .destroyed⟩, droppedPast) :=
  rfl

theorem pool_conserves_tasks_droppedRun : Every PriorityOrder droppedPast ∧
    (addedTasks droppedPast).Perm (startedTasks droppedPast ++ [(8, .normal)]) := by
  have h := pool_conserves_tasks run_droppedRun
  exact ⟨h.2.2.1, h.1⟩

/-- `Pause` has not been called in a run without it. -/
theorem neverPaused_of_run
    (hrun : run (logged stepTasks) (start numThreads, []) actions = some (s, history))
    (hpause : .pause ∉ actions) : s.NeverPaused := by
  refine invariant_along (I := fun s _ => s.NeverPaused) (fun _ _ a => a ≠ .pause) ?_ ?_
    (along_of_forall ?_ _) hrun
  · intro u a v out past hu ha hstep
    exact hu.step ha (stepTasks_eq_some.1 hstep).1
  · exact ⟨unpaused_start numThreads, nofun⟩
  · rintro a ha - rfl
    exact hpause ha

/-- **All tasks are finished.** From every state of every run in which `Pause` is not called, when no
task is added and no call is made, the threads take as many steps as are left.  Where none of them can
go on, either no call is under way, and if the pool has a worker then all tasks that were added are
finished; or the destructor has returned, and all are finished but those that were in the queue behind
its pills. -/
theorem pool_finishes_tasks {more : List (PoolAction τ)}
    (hrun : run (logged stepTasks) (start numThreads, []) actions = some (s, history))
    (hpause : .pause ∉ actions) (hown : ∀ a ∈ more, a.isOwn = true)
    (hmore : run (logged stepTasks) (s, history) more = some (t, later)) :
    more.length ≤ s.stepsLeft ∧ ((∀ a : PoolAction τ, a.isOwn = true → t.step a = none) →
      t.control = .idle ∧ (1 ≤ t.mThreadNum →
          ((addedTasks later).map Prod.fst).Perm (finishedTasks later)) ∨
        t.control = .destroyed ∧ ((addedTasks later).map Prod.fst).Perm
          (finishedTasks later ++ t.queuedTasks.map Prod.fst)) := by
  have hother : ∀ a : PoolAction τ, a.isOwn = true → a ≠ .pause := by
    rintro a ha rfl
    cases ha
  constructor
  · refine length_le_of_rank (I := NeverPaused) stepsLeft ?_ (neverPaused_of_run hrun hpause) hown
      hmore
    intro u a v out hu ha hstep
    have hpool := (stepTasks_eq_some.1 hstep).1
    exact ⟨hu.step (hother a ha) hpool, hu.stepsLeft_lt ha hpool⟩
  · intro hstuck
    have hall : run (logged stepTasks) (start numThreads, []) (actions ++ more) =
        some (t, later) := by
      rw [run_append, hrun]
      exact hmore
    have hnever : t.NeverPaused := by
      refine neverPaused_of_run hall fun hmem => ?_
      rcases List.mem_append.1 hmem with hmem | hmem
      · exact hpause hmem
      · exact hother _ (hown _ hmem) rfl
    have h := taskInvariant_of_run hall
    obtain ⟨hrunning, hempty⟩ := hnever.worked_off hstuck
    -- all that was started is finished
    have hstarted := h.accounted.running
    rw [hrunning, List.append_nil] at hstarted
    have hadded := h.accounted.queued.map Prod.fst
    rw [List.map_append] at hadded
    have hplaces := hadded.trans (hstarted.append_right _)
    rcases hnever.control_of_stuck h.balanced hstuck with hidle | hdestroyed
    · refine .inl ⟨hidle, fun hnum => ?_⟩
      have halive : t.alive = t.pills + t.mThreadNum := by
        have hbalanced := h.balanced
        rwa [ThreadPool.Balanced, hidle] at hbalanced
      -- a worker that is alive is at its pop
      obtain ⟨phase, hphase, hlives⟩ := List.countP_pos_iff.1 (show 0 < t.alive by omega)
      have hpopping : .popping ∈ t.mThreadArr := by
        rcases hnever.unpaused.free phase hphase with rfl | ⟨task, rfl⟩ | rfl
        · exact hphase
        · cases List.filterMap_eq_nil_iff.1 hrunning _ hphase
        · cases hlives
      have hqueued : t.queuedTasks = [] := by rw [queuedTasks, hempty hpopping, List.filterMap_nil]
      rwa [hqueued, List.map_nil, List.append_nil] at hplaces
    · exact .inr ⟨hdestroyed, hplaces⟩

def oneWorkerPast : List (PoolEvent ℕ) := [.finished 0 7, .started 0 7 .low, .added 7 .low]

theorem pool_finishes_tasks_oneWorker : [PoolAction.pop 0 (.user 7 .low), .work 0].length ≤ 2 ∧
    ((addedTasks oneWorkerPast).map Prod.fst).Perm (finishedTasks oneWorkerPast) := by
  have hrun : run (logged stepTasks) (start 1, []) [.addTask 7 .low] =
      some (⟨[.popping], [.user 7 .low], 1, false, 0, false, .idle⟩, [.added 7 .low]) := rfl
  have hmore : run (logged stepTasks) (⟨[.popping], [.user 7 .low], 1, false, 0, false, .idle⟩,
      [.added 7 .low]) [.pop 0 (.user 7 .low), .work 0] =
        some (⟨[.popping], [], 1, false, 0, false, .idle⟩, oneWorkerPast) := rfl
  have hstuck : ∀ a : PoolAction ℕ, a.isOwn = true →
      (⟨[.popping], [], 1, false, 0, false, .idle⟩ : ThreadPool ℕ).step a = none := by
    intro a ha
    cases a with
    | control => rfl
    | pop worker task => simp [ThreadPool.step, ThreadPool.Yields]
    | work worker => cases worker <;> rfl
    | _ => cases ha
  have h := pool_finishes_tasks hrun (by decide) (by decide) hmore
  refine ⟨h.1, ?_⟩
  rcases h.2 hstuck with ⟨-, hfinished⟩ | ⟨hdestroyed, -⟩
  · exact hfinished (Nat.le_refl 1)
  · cases hdestroyed

end Results

end IotDrive
