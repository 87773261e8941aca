/-
The thread pool of `threadpool.hpp` and `threadpool.cpp`.

Workers pop tasks from a priority queue until they pop a kill pill.  `SetNumThreads` starts workers
or queues pills, `Pause` queues a task for each worker that parks it, and `Resume` lets the parked
workers go.  The member functions run on one controlling thread, except that any thread may call
`AddTask`; each step below is one access of the code to what the threads share.  `m_resume` and
`m_pause_ready` are plain variables; the accesses are taken to be atomic and in the order of the
program.

Main definitions:

* `PoolTask` — what is queued, with its priority;
* `WorkerPhase`, `Control` — where a worker and the controlling thread are;
* `ThreadPool.step` — what can happen.

Main results:

* `ThreadPool.step_cases` — what each step needs and does.
-/

import IotDrive.Library.Census
import IotDrive.Library.Transition

set_option relaxedAutoImplicit false
set_option autoImplicit false

namespace IotDrive

/-! ### Tasks -/

/-- `ThreadPool::Priority`. -/
inductive Priority
  | low | normal | high
  deriving DecidableEq

/-- `ADMIN`. -/
def admin : ℕ := 3

/-- `ADMIN_STOP`. -/
def adminStop : ℕ := 4

/-- What `m_tasks_pq` holds.  Only `Pause` queues tasks with `ADMIN`, and only `SetNumThreads` and
the destructor queue tasks with `ADMIN_STOP`. -/
inductive PoolTask (τ : Type)
  | user (task : τ) (priority : Priority)
  | pauseTask
  | killPill
  deriving DecidableEq

/-- The second component of the pair that is queued. -/
def PoolTask.priority {τ : Type} : PoolTask τ → ℕ
  | .user _ .low => 0
  | .user _ .normal => 1
  | .user _ .high => 2
  | .pauseTask => admin
  | .killPill => adminStop

/-! ### Threads -/

/-- Where a worker is: before `Pop` in the loop of `ThreadFunc`; in a task of a user; then inside of
`PauseTask`, before each of its accesses: the lock, `++m_pause_ready`, the test of the predicate,
blocking on the condition variable, blocked, taking the lock again after it was woken,
`--m_pause_ready`, and the release of the lock; and past a kill pill. -/
inductive WorkerPhase (τ : Type)
  | popping
  | running (task : τ)
  | locking
  | counting
  | testing
  | blocking
  | blocked
  | waking
  | leaving
  | unlocking
  | stopped
  deriving DecidableEq

/-- What a worker does with the task it has popped.  After a pill the loop ends. -/
def PoolTask.phase {τ : Type} : PoolTask τ → WorkerPhase τ
  | .user task _ => .running task
  | .pauseTask => .locking
  | .killPill => .stopped

/-- Where the controlling thread is: outside of the pool; in one of the loops of `SetNumThreads`;
in `Pause`, before its four statements; in `Resume`, after the store; in the destructor; and past
it. -/
inductive Control
  | idle
  | growing (num i : ℕ)
  | shrinking (num i : ℕ)
  | pauseWaiting
  | pauseStoring
  | pausePushing (i : ℕ)
  | pauseCounting
  | resumeNotifying
  | destroying (i : ℕ)
  | joining
  | destroyed
  deriving DecidableEq

/-- The class, its workers and the controlling thread.  `mMutex` says whether a worker holds
`m_mutex`. -/
structure ThreadPool (τ : Type) where
  mThreadArr : List (WorkerPhase τ)
  mTasksPq : List (PoolTask τ)
  mThreadNum : ℕ
  mResume : Bool
  mPauseReady : ℕ
  mMutex : Bool
  control : Control
  deriving DecidableEq

/-- What can happen: a member function is called, the controlling thread goes on with the one it is
in, a worker pops a task, pops none in its second, goes on, or is woken for no reason. -/
inductive PoolAction (τ : Type)
  | addTask (task : τ) (priority : Priority)
  | setNumThreads (num : ℕ)
  | pause
  | resume
  | destroy
  | control
  | pop (worker : ℕ) (task : PoolTask τ)
  | timeout (worker : ℕ)
  | work (worker : ℕ)
  | wake (worker : ℕ)
  deriving DecidableEq

namespace ThreadPool

variable {τ : Type}

/-- The pool after its constructor. -/
def start (numThreads : ℕ) : ThreadPool τ :=
  { mThreadArr := List.replicate numThreads .popping, mTasksPq := [], mThreadNum := numThreads,
    mResume := false, mPauseReady := 0, mMutex := false, control := .idle }

def adminAddTask (s : ThreadPool τ) (task : PoolTask τ) : ThreadPool τ :=
  { s with mTasksPq := s.mTasksPq ++ [task] }

/-- `ThreadFunc` on a new thread. -/
def startThread (s : ThreadPool τ) : ThreadPool τ :=
  { s with mThreadArr := s.mThreadArr ++ [.popping] }

/-- `m_cd.notify_all()`. -/
def notifyAll (s : ThreadPool τ) : ThreadPool τ :=
  { s with mThreadArr := s.mThreadArr.map fun
      | .blocked => .waking
      | phase => phase }

/-- A member function is called. -/
def call (s : ThreadPool τ) (control : Control) : Option (ThreadPool τ) :=
  if s.control = .idle then some { s with control } else none

/-- The next step of the controlling thread. -/
def controlStep (s : ThreadPool τ) : Option (ThreadPool τ) :=
  match s.control with
  | .idle | .destroyed => none
  -- `SetNumThreads`
  | .growing num i =>
      if i < num then some { s.startThread with control := .growing num (i + 1) }
      else some { s with control := .shrinking num s.mThreadNum }
  | .shrinking num i =>
      if num < i then some { s.adminAddTask .killPill with control := .shrinking num (i - 1) }
      else some { s with mThreadNum := num, control := .idle }
  -- `Pause`
  | .pauseWaiting => if s.mPauseReady = 0 then some { s with control := .pauseStoring } else none
  | .pauseStoring => some { s with mResume := false, control := .pausePushing 0 }
  | .pausePushing i =>
      if i < s.mThreadNum then
        some { s.adminAddTask .pauseTask with control := .pausePushing (i + 1) }
      else some { s with control := .pauseCounting }
  | .pauseCounting =>
      if s.mThreadNum ≤ s.mPauseReady then some { s with control := .idle } else none
  -- `Resume`
  | .resumeNotifying => some { s.notifyAll with control := .idle }
  -- the destructor
  | .destroying i =>
      if i < s.mThreadNum then
        some { s.adminAddTask .killPill with control := .destroying (i + 1) }
      else some { s with control := .joining }
  | .joining =>
      if ∀ phase ∈ s.mThreadArr, phase matches .stopped then some { s with control := .destroyed }
      else none

/-- The next step of a worker that is past its `Pop`. -/
def workStep (s : ThreadPool τ) : WorkerPhase τ → Option (ThreadPool τ × WorkerPhase τ)
  | .popping | .blocked | .stopped => none
  | .running _ => some (s, .popping)
  | .locking => if s.mMutex then none else some ({ s with mMutex := true }, .counting)
  | .counting => some ({ s with mPauseReady := s.mPauseReady + 1 }, .testing)
  | .testing => some (s, if s.mResume then .leaving else .blocking)
  | .blocking => some ({ s with mMutex := false }, .blocked)
  | .waking => if s.mMutex then none else some ({ s with mMutex := true }, .testing)
  | .leaving => some ({ s with mPauseReady := s.mPauseReady - 1 }, .unlocking)
  | .unlocking => some ({ s with mMutex := false }, .popping)

/-! ### What each thread can do -/

/-- What a step of a worker needs, and does to the shared state: `WorkSteps s a s' b` is a step from
phase `a` to phase `b`. -/
inductive WorkSteps (s : ThreadPool τ) : WorkerPhase τ → ThreadPool τ → WorkerPhase τ → Prop
  | finish (task : τ) : WorkSteps s (.running task) s .popping
  | lock (hmutex : s.mMutex = false) :
      WorkSteps s .locking { s with mMutex := true } .counting
  | count : WorkSteps s .counting { s with mPauseReady := s.mPauseReady + 1 } .testing
  | pass (hresume : s.mResume = true) : WorkSteps s .testing s .leaving
  | fail (hresume : s.mResume = false) : WorkSteps s .testing s .blocking
  | block : WorkSteps s .blocking { s with mMutex := false } .blocked
  | relock (hmutex : s.mMutex = false) :
      WorkSteps s .waking { s with mMutex := true } .testing
  | discount : WorkSteps s .leaving { s with mPauseReady := s.mPauseReady - 1 } .unlocking
  | unlock : WorkSteps s .unlocking { s with mMutex := false } .popping

/-- The steps of the controlling thread. -/
inductive ControlSteps (s : ThreadPool τ) : ThreadPool τ → Prop
  | startThread {num i : ℕ} (hcontrol : s.control = .growing num i) (hi : i < num) :
      ControlSteps s { s.startThread with control := .growing num (i + 1) }
  | started {num i : ℕ} (hcontrol : s.control = .growing num i) (hi : num ≤ i) :
      ControlSteps s { s with control := .shrinking num s.mThreadNum }
  | pushPill {num i : ℕ} (hcontrol : s.control = .shrinking num i) (hi : num < i) :
      ControlSteps s { s.adminAddTask .killPill with control := .shrinking num (i - 1) }
  | sized {num i : ℕ} (hcontrol : s.control = .shrinking num i) (hi : i ≤ num) :
      ControlSteps s { s with mThreadNum := num, control := .idle }
  | noneReady (hcontrol : s.control = .pauseWaiting) (hready : s.mPauseReady = 0) :
      ControlSteps s { s with control := .pauseStoring }
  | store (hcontrol : s.control = .pauseStoring) :
      ControlSteps s { s with mResume := false, control := .pausePushing 0 }
  | pushPause {i : ℕ} (hcontrol : s.control = .pausePushing i) (hi : i < s.mThreadNum) :
      ControlSteps s { s.adminAddTask .pauseTask with control := .pausePushing (i + 1) }
  | pausesPushed {i : ℕ} (hcontrol : s.control = .pausePushing i) (hi : s.mThreadNum ≤ i) :
      ControlSteps s { s with control := .pauseCounting }
  | paused (hcontrol : s.control = .pauseCounting) (hready : s.mThreadNum ≤ s.mPauseReady) :
      ControlSteps s { s with control := .idle }
  | notify (hcontrol : s.control = .resumeNotifying) :
      ControlSteps s { s.notifyAll with control := .idle }
  | pushLastPill {i : ℕ} (hcontrol : s.control = .destroying i) (hi : i < s.mThreadNum) :
      ControlSteps s { s.adminAddTask .killPill with control := .destroying (i + 1) }
  | pillsPushed {i : ℕ} (hcontrol : s.control = .destroying i) (hi : s.mThreadNum ≤ i) :
      ControlSteps s { s with control := .joining }
  | join (hcontrol : s.control = .joining)
      (hstopped : ∀ phase ∈ s.mThreadArr, phase matches .stopped) :
      ControlSteps s { s with control := .destroyed }

variable {s t : ThreadPool τ}

/-- The workers of the pool are moved by their own steps only. -/
theorem workStep_cases {a b : WorkerPhase τ} (h : s.workStep a = some (t, b)) :
    s.WorkSteps a t b ∧ t.mThreadArr = s.mThreadArr := by
  cases a with
  | popping => cases h
  | running task =>
      cases h
      exact ⟨.finish task, rfl⟩
  | locking =>
      simp only [workStep, Option.ite_none_left_eq_some] at h
      obtain ⟨hmutex, heq⟩ := h
      cases heq
      exact ⟨.lock (by simpa using hmutex), rfl⟩
  | counting =>
      cases h
      exact ⟨.count, rfl⟩
  | testing =>
      cases hresume : s.mResume with
      | true =>
          simp only [workStep, hresume, if_true] at h
          cases h
          exact ⟨.pass hresume, rfl⟩
      | false =>
          simp only [workStep, hresume, Bool.false_eq_true, if_false] at h
          cases h
          exact ⟨.fail hresume, rfl⟩
  | blocking =>
      cases h
      exact ⟨.block, rfl⟩
  | blocked => cases h
  | waking =>
      simp only [workStep, Option.ite_none_left_eq_some] at h
      obtain ⟨hmutex, heq⟩ := h
      cases heq
      exact ⟨.relock (by simpa using hmutex), rfl⟩
  | leaving =>
      cases h
      exact ⟨.discount, rfl⟩
  | unlocking =>
      cases h
      exact ⟨.unlock, rfl⟩
  | stopped => cases h

/-- A worker that is past its pop leaves the queue and the controlling thread alone. -/
theorem WorkSteps.frame {a b : WorkerPhase τ} (h : s.WorkSteps a t b) :
    t.mTasksPq = s.mTasksPq ∧ t.control = s.control ∧ t.mThreadNum = s.mThreadNum ∧
      t.mResume = s.mResume := by
  cases h <;> exact ⟨rfl, rfl, rfl, rfl⟩

theorem controlStep_cases (h : s.controlStep = some t) : s.ControlSteps t := by
  unfold controlStep at h
  split at h
  · cases h
  · cases h
  · rename_i num i hcontrol
    split at h
    · cases h
      exact .startThread hcontrol ‹_›
    · cases h
      exact .started hcontrol (Nat.le_of_not_lt ‹_›)
  · rename_i num i hcontrol
    split at h
    · cases h
      exact .pushPill hcontrol ‹_›
    · cases h
      exact .sized hcontrol (Nat.le_of_not_lt ‹_›)
  · rename_i hcontrol
    split at h
    · cases h
      exact .noneReady hcontrol ‹_›
    · cases h
  · rename_i hcontrol
    cases h
    exact .store hcontrol
  · rename_i i hcontrol
    split at h
    · cases h
      exact .pushPause hcontrol ‹_›
    · cases h
      exact .pausesPushed hcontrol (Nat.le_of_not_lt ‹_›)
  · rename_i hcontrol
    split at h
    · cases h
      exact .paused hcontrol ‹_›
    · cases h
  · rename_i hcontrol
    cases h
    exact .notify hcontrol
  · rename_i i hcontrol
    split at h
    · cases h
      exact .pushLastPill hcontrol ‹_›
    · cases h
      exact .pillsPushed hcontrol (Nat.le_of_not_lt ‹_›)
  · rename_i hcontrol
    split at h
    · cases h
      exact .join hcontrol ‹_›
    · cases h

theorem call_cases {control : Control} (h : s.call control = some t) :
    s.control = .idle ∧ t = { s with control } := by
  simp only [call, Option.ite_none_right_eq_some, Option.some.injEq] at h
  exact ⟨h.1, h.2.symm⟩

/-! ### The pool -/

variable [DecidableEq τ]

/-- `Pop` yields one of the tasks of highest priority. -/
def Yields (s : ThreadPool τ) (task : PoolTask τ) : Prop :=
  task ∈ s.mTasksPq ∧ ∀ other ∈ s.mTasksPq, other.priority ≤ task.priority

instance (s : ThreadPool τ) (task : PoolTask τ) : Decidable (s.Yields task) := instDecidableAnd

/-- The transitions. -/
def step (s : ThreadPool τ) : PoolAction τ → Option (ThreadPool τ)
  | .addTask task priority => some (s.adminAddTask (.user task priority))
  | .setNumThreads num => s.call (.growing num s.mThreadNum)
  | .pause => s.call .pauseWaiting
  | .resume => { s with mResume := true }.call .resumeNotifying
  | .destroy => s.call (.destroying 0)
  | .control => s.controlStep
  | .pop worker task =>
      if s.mThreadArr[worker]? = some .popping ∧ s.Yields task then
        some { s with
          mThreadArr := s.mThreadArr.set worker task.phase
          mTasksPq := s.mTasksPq.erase task }
      else none
  | .timeout worker => if s.mThreadArr[worker]? = some .popping then some s else none
  | .work worker =>
      s.mThreadArr[worker]?.bind fun phase =>
        (s.workStep phase).map fun (s, phase) =>
          { s with mThreadArr := s.mThreadArr.set worker phase }
  | .wake worker =>
      if s.mThreadArr[worker]? = some .blocked then
        some { s with mThreadArr := s.mThreadArr.set worker .waking }
      else none

/-- The steps of the pool. -/
inductive Steps (s : ThreadPool τ) : PoolAction τ → ThreadPool τ → Prop
  | addTask (task : τ) (priority : Priority) :
      Steps s (.addTask task priority) (s.adminAddTask (.user task priority))
  | setNumThreads (num : ℕ) (hcontrol : s.control = .idle) :
      Steps s (.setNumThreads num) { s with control := .growing num s.mThreadNum }
  | pause (hcontrol : s.control = .idle) : Steps s .pause { s with control := .pauseWaiting }
  | resume (hcontrol : s.control = .idle) :
      Steps s .resume { s with mResume := true, control := .resumeNotifying }
  | destroy (hcontrol : s.control = .idle) : Steps s .destroy { s with control := .destroying 0 }
  | control {t : ThreadPool τ} (hsteps : s.ControlSteps t) : Steps s .control t
  | pop {worker : ℕ} {task : PoolTask τ} (hworker : s.mThreadArr[worker]? = some .popping)
      (hyields : s.Yields task) :
      Steps s (.pop worker task) { s with
        mThreadArr := s.mThreadArr.set worker task.phase
        mTasksPq := s.mTasksPq.erase task }
  | timeout {worker : ℕ} (hworker : s.mThreadArr[worker]? = some .popping) :
      Steps s (.timeout worker) s
  | work {worker : ℕ} {a b : WorkerPhase τ} {t : ThreadPool τ}
      (hworker : s.mThreadArr[worker]? = some a) (hsteps : s.WorkSteps a t b) :
      Steps s (.work worker) { t with mThreadArr := s.mThreadArr.set worker b }
  | wake {worker : ℕ} (hworker : s.mThreadArr[worker]? = some .blocked) :
      Steps s (.wake worker) { s with mThreadArr := s.mThreadArr.set worker .waking }

/-- A step is one of these. -/
theorem step_cases {a : PoolAction τ} (h : s.step a = some t) : s.Steps a t := by
  cases a with
  | addTask task priority =>
      cases h
      exact .addTask task priority
  | setNumThreads num =>
      obtain ⟨hcontrol, rfl⟩ := call_cases h
      exact .setNumThreads num hcontrol
  | pause =>
      obtain ⟨hcontrol, rfl⟩ := call_cases h
      exact .pause hcontrol
  | resume =>
      obtain ⟨hcontrol, rfl⟩ := call_cases h
      exact .resume hcontrol
  | destroy =>
      obtain ⟨hcontrol, rfl⟩ := call_cases h
      exact .destroy hcontrol
  | control => exact .control (controlStep_cases h)
  | pop worker task =>
      simp only [step, Option.ite_none_right_eq_some] at h
      obtain ⟨⟨hworker, hyields⟩, heq⟩ := h
      cases heq
      exact .pop hworker hyields
  | timeout worker =>
      simp only [step, Option.ite_none_right_eq_some] at h
      obtain ⟨hworker, heq⟩ := h
      cases heq
      exact .timeout hworker
  | work worker =>
      obtain ⟨phase, hworker, hmap⟩ := Option.bind_eq_some_iff.1 h
      obtain ⟨⟨t', phase'⟩, hwork, rfl⟩ := Option.map_eq_some_iff.1 hmap
      obtain ⟨hsteps, harr⟩ := workStep_cases hwork
      dsimp only
      rw [harr]
      exact .work hworker hsteps
  | wake worker =>
      simp only [step, Option.ite_none_right_eq_some] at h
      obtain ⟨hworker, heq⟩ := h
      cases heq
      exact .wake hworker

end ThreadPool

end IotDrive
