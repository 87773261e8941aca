/-
When `Pause` returns.

`Pause` waits twice in a loop: until `m_pause_ready` is zero, and until it is `m_thread_num`.  The second
loop always ends, since pills and pause tasks are enough for all workers.  The first one does not if a
worker is blocked in `PauseTask`: the pool is still paused, or `Resume` has missed the worker.

Main definitions:

* `ThreadPool.Held` — `m_mutex` is with a worker that can go on;
* `ThreadPool.pauseRank` — the steps that are left while `Pause` is under way.

Main results:

* `ThreadPool.Held.step` — every step keeps the mutex with such a worker;
* `ThreadPool.pauseRank_lt` — every step of a thread is one less;
* `pause_returns` — **`Pause` returns**, unless it waits for a worker that is blocked.
-/

import IotDrive.PoolPause
import IotDrive.PoolTasks
import Mathlib.Algebra.BigOperators.Group.List.Basic

set_option relaxedAutoImplicit false
set_option autoImplicit false

namespace IotDrive

open Transition

/-! ### The mutex -/

/-- The worker has `m_mutex`. -/
def WorkerPhase.holds {τ : Type} : WorkerPhase τ → Bool
  | .counting | .testing | .blocking | .leaving | .unlocking => true
  | _ => false

namespace ThreadPool

variable {τ : Type} {s t : ThreadPool τ}

/-- The mutex is taken exactly if a worker has it, and only one has. -/
def Held (s : ThreadPool τ) : Prop :=
  s.mThreadArr.countP WorkerPhase.holds = s.mMutex.toNat

theorem held_start (numThreads : ℕ) : (start numThreads : ThreadPool τ).Held :=
  List.countP_replicate.trans (if_neg nofun)

/-- A worker moves, and takes or releases the mutex with it. -/
theorem Held.set {worker : ℕ} {a b : WorkerPhase τ} (h : s.Held)
    (hworker : s.mThreadArr[worker]? = some a) {mutex : Bool}
    (hmutex : mutex.toNat + a.holds.toNat = s.mMutex.toNat + b.holds.toNat) :
    (s.mThreadArr.set worker b).countP WorkerPhase.holds = mutex.toNat := by
  have hmove := Census.countP_move WorkerPhase.holds hworker b
  unfold Held at h
  omega

theorem Held.work (h : s.Held) {worker : ℕ} {a b : WorkerPhase τ}
    (hworker : s.mThreadArr[worker]? = some a) (hsteps : s.WorkSteps a t b) :
    (s.mThreadArr.set worker b).countP WorkerPhase.holds = t.mMutex.toNat := by
  refine h.set hworker ?_
  -- a worker that releases the mutex has it
  have hmine : a.holds = true → s.mMutex = true := by
    intro ha
    have hpos := List.countP_pos_iff.2 ⟨a, List.mem_of_getElem? hworker, ha⟩
    rw [h] at hpos
    cases hmutex : s.mMutex with
    | true => rfl
    | false =>
        rw [hmutex] at hpos
        cases hpos
  cases hsteps with
  | lock hmutex => rw [hmutex]; rfl
  | relock hmutex => rw [hmutex]; rfl
  | block => rw [hmine rfl]; rfl
  | unlock => rw [hmine rfl]; rfl
  | _ => rfl

variable [DecidableEq τ]

/-- Every step keeps the mutex with a worker. -/
theorem Held.step (h : s.Held) {a : PoolAction τ} (hstep : s.step a = some t) : t.Held := by
  cases step_cases hstep with
  | control hsteps =>
      cases hsteps with
      | startThread hcontrol hi => exact (Census.countP_join _ _ _).trans h
      | notify hcontrol =>
          refine (Census.countP_map ?_).trans h
          intro phase
          cases phase <;> rfl
      | _ => exact h
  | @pop worker task hworker hyields =>
      refine h.set hworker ?_
      cases task <;> rfl
  | work hworker hsteps =>
      have hwork := h.work hworker hsteps
      exact hwork
  | wake hworker => exact h.set hworker rfl
  | _ => exact h

/-! ### Where no thread can go on -/

/-- Every worker is at its pop, blocked or has stopped. -/
theorem Held.waits_of_stuck (h : s.Held)
    (hstuck : ∀ a : PoolAction τ, a.isOwn = true → s.step a = none) {phase : WorkerPhase τ}
    (hphase : phase ∈ s.mThreadArr) : phase = .popping ∨ phase = .blocked ∨ phase = .stopped := by
  have hnone : ∀ phase ∈ s.mThreadArr, s.workStep phase = none := by
    intro phase hphase
    obtain ⟨worker, hworker⟩ := List.getElem?_of_mem hphase
    have hwork := hstuck (.work worker) rfl
    simpa [ThreadPool.step, hworker] using hwork
  -- whoever has the mutex could go on, so it is free
  have hfree : s.mMutex = false := by
    cases hmutex : s.mMutex with
    | false => rfl
    | true =>
        have hpos : 0 < s.mThreadArr.countP WorkerPhase.holds := by
          rw [h, hmutex]
          exact Nat.one_pos
        obtain ⟨holder, hholder, hholds⟩ := List.countP_pos_iff.1 hpos
        have hgo := hnone holder hholder
        cases holder with
        | counting | testing | blocking | leaving | unlocking => cases hgo
        | _ => cases hholds
  have hgo := hnone phase hphase
  cases phase with
  | popping => exact .inl rfl
  | blocked => exact .inr (.inl rfl)
  | stopped => exact .inr (.inr rfl)
  | locking => simp [workStep, hfree] at hgo
  | waking => simp [workStep, hfree] at hgo
  | _ => cases hgo


end ThreadPool

/-- The controlling thread is in `Pause`. -/
def Control.pausing : Control → Bool
  | .pauseWaiting | .pauseStoring | .pausePushing _ | .pauseCounting => true
  | _ => false

namespace ThreadPool

variable {τ : Type} [DecidableEq τ] {s t : ThreadPool τ}

/-- Where no thread can go on, `Pause` waits for a worker that is blocked. -/
theorem Held.pause_of_stuck (h : s.Held) (hbalanced : s.Balanced) (hrounds : s.Rounds)
    (hstuck : ∀ a : PoolAction τ, a.isOwn = true → s.step a = none)
    (hpausing : s.control.pausing = true) :
    s.control = .pauseWaiting ∧ .blocked ∈ s.mThreadArr := by
  have hnext : s.controlStep = none := hstuck .control rfl
  have hwaits := fun phase (hphase : phase ∈ s.mThreadArr) => h.waits_of_stuck hstuck hphase
  have hready := hrounds.ready
  cases hcontrol : s.control with
  | pauseWaiting =>
      refine ⟨rfl, ?_⟩
      simp only [controlStep, hcontrol, ite_eq_right_iff, reduceCtorEq, imp_false] at hnext
      -- a worker that is counted is blocked
      obtain ⟨phase, hphase, hcounted⟩ := List.countP_pos_iff.1 (show 0 < s.counted by omega)
      rcases hwaits phase hphase with rfl | rfl | rfl
      · cases hcounted
      · exact hphase
      · cases hcounted
  | pauseStoring => simp [controlStep, hcontrol] at hnext
  | pausePushing i =>
      simp only [controlStep, hcontrol] at hnext
      split at hnext <;> cases hnext
  | pauseCounting =>
      exfalso
      simp only [controlStep, hcontrol, ite_eq_right_iff, reduceCtorEq, imp_false] at hnext
      have hround := hrounds.round
      simp only [Round, hcontrol] at hround
      obtain ⟨-, hsum, -⟩ := hround
      have halive : s.alive = s.pills + s.mThreadNum := by
        rwa [ThreadPool.Balanced, hcontrol] at hbalanced
      have hentering : s.entering = 0 := by
        refine List.countP_eq_zero.2 fun phase hphase => ?_
        rcases hwaits phase hphase with rfl | rfl | rfl <;> exact Bool.false_ne_true
      -- there are pause tasks left, so that no worker is at its pop
      have hpopping : .popping ∉ s.mThreadArr := by
        intro hpopping
        have hpauses : s.pauses = 0 := by
          rw [pauses, queue_empty_of_stuck hstuck hpopping]
          rfl
        omega
      have hle : s.alive ≤ s.counted := by
        refine List.countP_mono_left fun phase hphase hlives => ?_
        rcases hwaits phase hphase with rfl | rfl | rfl
        · exact absurd hphase hpopping
        · rfl
        · cases hlives
      omega
  | _ => rw [hcontrol] at hpausing; cases hpausing

/-! ### The number of steps -/

end ThreadPool

/-- The steps of a worker, up to where it pops, blocks or stops. -/
def WorkerPhase.stepsLeft {τ : Type} : WorkerPhase τ → ℕ
  | .popping | .blocked | .stopped => 0
  | .running _ | .blocking | .unlocking => 1
  | .leaving => 2
  | .testing => 3
  | .counting | .waking => 4
  | .locking => 5

/-- The steps of the worker that pops the task. -/
def PoolTask.stepsLeft {τ : Type} : PoolTask τ → ℕ
  | .user _ _ => 2
  | .pauseTask => 6
  | .killPill => 1

/-- What is left of `Pause`, with the steps for each task that it queues. -/
def Control.pauseLeft (mThreadNum : ℕ) : Control → ℕ
  | .pauseWaiting => 7 * mThreadNum + 4
  | .pauseStoring => 7 * mThreadNum + 3
  | .pausePushing i => 7 * (mThreadNum - i) + 2
  | .pauseCounting => 1
  | _ => 0

namespace ThreadPool

variable {τ : Type} {s t : ThreadPool τ}

/-- The steps that are left when no member function but `Pause` is under way. -/
def pauseRank (s : ThreadPool τ) : ℕ :=
  (s.mTasksPq.map PoolTask.stepsLeft).sum + (s.mThreadArr.map WorkerPhase.stepsLeft).sum +
    s.control.pauseLeft s.mThreadNum

theorem pauseRank_le (s : ThreadPool τ) : s.pauseRank ≤
    6 * s.mTasksPq.length + 5 * s.mThreadArr.length + 7 * s.mThreadNum + 4 := by
  have hqueue : (s.mTasksPq.map PoolTask.stepsLeft).sum ≤ 6 * s.mTasksPq.length :=
    Census.sum_le (fun task => by cases task <;> simp [PoolTask.stepsLeft]) _
  have hworkers : (s.mThreadArr.map WorkerPhase.stepsLeft).sum ≤ 5 * s.mThreadArr.length :=
    Census.sum_le (fun phase => by cases phase <;> simp [WorkerPhase.stepsLeft]) _
  have hcontrol : s.control.pauseLeft s.mThreadNum ≤ 7 * s.mThreadNum + 4 := by
    cases s.control <;> simp only [Control.pauseLeft] <;> omega
  unfold pauseRank
  omega

/-- No member function but `Pause` is under way. -/
def OnlyPause (s : ThreadPool τ) : Prop := s.control = .idle ∨ s.control.pausing = true

theorem stepsLeft_phase (task : PoolTask τ) : task.phase.stepsLeft < task.stepsLeft := by
  cases task <;> simp [PoolTask.phase, PoolTask.stepsLeft, WorkerPhase.stepsLeft]

/-- A step of a worker is one less for it. -/
theorem WorkSteps.stepsLeft_lt {a b : WorkerPhase τ} (h : s.WorkSteps a t b) :
    b.stepsLeft < a.stepsLeft := by
  cases h <;> simp [WorkerPhase.stepsLeft]

/-- A step of the controlling thread is one less for it, also if it queues a task. -/
theorem OnlyPause.controlStep (h : s.OnlyPause) (hsteps : s.ControlSteps t) :
    t.OnlyPause ∧ t.pauseRank < s.pauseRank := by
  unfold pauseRank
  cases hsteps with
  | noneReady hcontrol hready =>
      rw [hcontrol]
      exact ⟨.inr rfl, Nat.add_lt_add_left (Nat.lt_succ_self _) _⟩
  | store hcontrol =>
      rw [hcontrol]
      exact ⟨.inr rfl, Nat.add_lt_add_left (Nat.lt_succ_self _) _⟩
  | pushPause hcontrol hi =>
      refine ⟨.inr rfl, ?_⟩
      rw [hcontrol]
      simp only [adminAddTask, List.map_append, List.sum_append, List.map_cons, List.map_nil,
        List.sum_singleton, PoolTask.stepsLeft, Control.pauseLeft]
      omega
  | pausesPushed hcontrol hi =>
      refine ⟨.inr rfl, Nat.add_lt_add_left ?_ _⟩
      rw [hcontrol]
      simp only [Control.pauseLeft]
      omega
  | paused hcontrol hready =>
      rw [hcontrol]
      exact ⟨.inl rfl, Nat.add_lt_add_left Nat.one_pos _⟩
  | startThread hcontrol | started hcontrol | pushPill hcontrol | sized hcontrol | notify hcontrol
  | pushLastPill hcontrol | pillsPushed hcontrol | join hcontrol =>
      rcases h with h | h <;> rw [hcontrol] at h <;> cases h

variable [DecidableEq τ]

/-- Every step of a thread is one less. -/
theorem OnlyPause.step (h : s.OnlyPause) {a : PoolAction τ} (ha : a.isOwn = true)
    (hstep : s.step a = some t) : t.OnlyPause ∧ t.pauseRank < s.pauseRank := by
  cases step_cases hstep with
  | control hsteps => exact h.controlStep hsteps
  | @pop worker task hworker hyields =>
      refine ⟨h, ?_⟩
      have hqueue := List.sum_map_erase PoolTask.stepsLeft hyields.1
      have hmove := Census.sum_move WorkerPhase.stepsLeft hworker task.phase
      have hless := stepsLeft_phase task
      simp only [pauseRank]
      omega
  | @work worker a b u hworker hsteps =>
      obtain ⟨hqueue, hcontrol, hnum, -⟩ := hsteps.frame
      have hmove := Census.sum_move WorkerPhase.stepsLeft hworker b
      have hless := hsteps.stepsLeft_lt
      refine ⟨?_, ?_⟩
      · unfold OnlyPause
        rw [hcontrol]
        exact h
      · simp only [pauseRank, hqueue, hcontrol, hnum]
        omega
  | _ => cases ha

end ThreadPool

/-! ### `Pause` -/

open ThreadPool

variable {τ : Type} [DecidableEq τ]

/-- **`Pause` returns.** From every state of every run of a pool of at least one worker in which `Pause`
is under way, when no task is added and nothing else is called, the threads take a bounded number of
steps.  Where none of them can go on `Pause` has returned, or it waits for `m_pause_ready` to be zero
and a worker is blocked in `PauseTask`. -/
theorem pause_returns {numThreads : ℕ} (hsize : 0 < numThreads) {actions more : List (PoolAction τ)}
    (hsizes : ∀ num, .setNumThreads num ∈ actions → 0 < num) {s t : ThreadPool τ}
    (hrun : run step (start numThreads) actions = some s) (hpausing : s.control.pausing = true)
    (hown : ∀ a ∈ more, a.isOwn = true) (hmore : run step s more = some t) :
    more.length ≤ 6 * s.mTasksPq.length + 5 * s.mThreadArr.length + 7 * s.mThreadNum + 4 ∧
      ((∀ a : PoolAction τ, a.isOwn = true → t.step a = none) →
        t.control = .idle ∨ t.control = .pauseWaiting ∧ .blocked ∈ t.mThreadArr) := by
  have hfall : ∀ (u : ThreadPool τ) a v, u.OnlyPause → a.isOwn = true → u.step a = some v →
      v.OnlyPause ∧ v.pauseRank < u.pauseRank := fun u a v hu ha hstep => hu.step ha hstep
  constructor
  · have hlength := length_le_of_rank pauseRank hfall (.inr hpausing) hown hmore
    have hrank := s.pauseRank_le
    omega
  · intro hstuck
    have hall : run step (start numThreads) (actions ++ more) = some t := by
      rw [run_append, hrun]
      exact hmore
    have hnum : ∀ a ∈ actions ++ more, ∀ num, a = .setNumThreads num → 0 < num := by
      rintro a ha num rfl
      rcases List.mem_append.1 ha with ha | ha
      · exact hsizes num ha
      · cases hown _ ha
    have honly : t.OnlyPause := by
      refine run_invariant_along OnlyPause (C := fun _ a => a.isOwn = true) ?_ (.inr hpausing)
        (along_of_forall (fun a ha _ => hown a ha) _) hmore
      exact fun u a v hu ha hstep => (hfall u a v hu ha hstep).1
    rcases honly with hidle | hpausing
    · exact .inl hidle
    · have hheld : t.Held := run_invariant Held (fun _ _ _ h hstep => h.step hstep)
        (held_start numThreads) hall
      have hbalanced : t.Balanced := run_invariant ThreadPool.Balanced
        (fun _ _ _ h hstep => h.step hstep) (balanced_start numThreads) hall
      have hrounds : t.Rounds := run_invariant_along Rounds
        (fun _ _ _ h ha hstep => h.step ha hstep) (rounds_start hsize)
        (along_of_forall (fun a ha _ => hnum a ha) _) hall
      exact .inr (hheld.pause_of_stuck hbalanced hrounds hstuck hpausing)

/-- `Pause` after the pool was made larger: both workers take a pause task. -/
def pauseAfterGrowth : List (PoolAction ℕ) :=
  [.control, .control, .control, .control, .control, .pop 0 .pauseTask, .work 0, .work 0, .work 0,
    .work 0, .pop 1 .pauseTask, .work 1, .work 1, .work 1, .work 1, .control]

/-- Two workers are parked. -/
def pausedPool : ThreadPool ℕ := ⟨[.blocked, .blocked], [], 2, false, 2, false, .idle⟩

theorem pause_returns_pauseAfterGrowth : pauseAfterGrowth.length ≤ 28 ∧
    (pausedPool.control = .idle ∨ pausedPool.control = .pauseWaiting ∧
      .blocked ∈ pausedPool.mThreadArr) := by
  have hrun : run step (start 1 : ThreadPool ℕ)
      [.setNumThreads 2, .control, .control, .control, .pause] =
        some ⟨[.popping, .popping], [], 2, false, 0, false, .pauseWaiting⟩ := rfl
  have hmore : run step ⟨[.popping, .popping], [], 2, false, 0, false, .pauseWaiting⟩
      pauseAfterGrowth = some pausedPool := rfl
  have hstuck : ∀ a : PoolAction ℕ, a.isOwn = true → pausedPool.step a = none := by
    intro a ha
    cases a with
    | control => rfl
    | pop worker task => simp [ThreadPool.step, ThreadPool.Yields, pausedPool]
    | work worker =>
        rcases worker with _ | _ | worker
        · rfl
        · rfl
        · rfl
    | _ => cases ha
  have h := pause_returns (by decide : 0 < 1) (by simp) hrun rfl (by decide) hmore
  exact ⟨h.1, h.2 hstuck⟩

end IotDrive
