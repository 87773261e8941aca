/-
What `Pause` guarantees when it returns.

`Pause` waits until no worker is inside of `PauseTask`, queues a task for each worker, and waits
until as many workers have counted themselves.  Pills go before pause tasks, so the first pause
task that is popped finds none left; and a worker that has taken a pause task takes no other before
`Resume`.  The pause tasks of a round therefore go to different workers, and to all that are alive.

Main definitions:

* `ThreadPool.pauses`, `ThreadPool.entering`, `ThreadPool.counted`, `ThreadPool.leavers` — the pause
  tasks in the queue, and the workers inside of `PauseTask`, before, within and at the end of their
  count;
* `ThreadPool.Round` — where the pause tasks of a round are, for each place of `Pause`.

Main results:

* `ThreadPool.Rounds.step` — every step preserves the invariant;
* `ThreadPool.parked_run` — a parked worker stays parked until `Resume`;
* `pause_parks_every_worker` — **what holds when `Pause` returns**.
-/

import IotDrive.PoolPopulation

set_option relaxedAutoImplicit false
set_option autoImplicit false

namespace IotDrive

namespace WorkerPhase

variable {τ : Type}

/-- The worker has popped a pause task and has not counted itself. -/
def entering : WorkerPhase τ → Bool
  | .locking | .counting => true
  | _ => false

/-- `m_pause_ready` counts the worker. -/
def counted : WorkerPhase τ → Bool
  | .testing | .blocking | .blocked | .waking | .leaving => true
  | _ => false

/-- The worker has found `m_resume` true, and is about to uncount itself. -/
def isLeaving : WorkerPhase τ → Bool
  | .leaving => true
  | _ => false

/-- The worker is inside of `PauseTask` and has not found `m_resume` true. -/
def parked : WorkerPhase τ → Bool
  | .testing | .blocking | .blocked | .waking => true
  | _ => false

theorem parked_of_counted (phase : WorkerPhase τ) (h : phase.counted = true)
    (hstay : phase.isLeaving = false) : phase.parked = true := by
  cases phase <;> simp [counted, isLeaving, parked] at h hstay ⊢

end WorkerPhase

namespace ThreadPool

variable {τ : Type} {s t : ThreadPool τ}

/-! ### Parked workers -/

/-- A step of a worker keeps it parked while `m_resume` is false. -/
theorem WorkSteps.parked {a b : WorkerPhase τ} (h : s.WorkSteps a t b) (hresume : s.mResume = false)
    (ha : a.parked = true) : b.parked = true := by
  cases h with
  | pass htrue =>
      rw [hresume] at htrue
      cases htrue
  | fail _ => rfl
  | block => rfl
  | relock _ => rfl
  | _ => cases ha

/-! ### Workers inside of `PauseTask` -/

/-- The workers that are about to count themselves. -/
def entering (s : ThreadPool τ) : ℕ := s.mThreadArr.countP WorkerPhase.entering

/-- The workers that `m_pause_ready` counts. -/
def counted (s : ThreadPool τ) : ℕ := s.mThreadArr.countP WorkerPhase.counted

/-- The workers that are about to uncount themselves. -/
def leavers (s : ThreadPool τ) : ℕ := s.mThreadArr.countP WorkerPhase.isLeaving

theorem leavers_le_counted (s : ThreadPool τ) : s.leavers ≤ s.counted := by
  refine List.countP_mono_left ?_
  intro phase _
  cases phase <;> simp [WorkerPhase.isLeaving, WorkerPhase.counted]

/-- A new worker is outside of `PauseTask`. -/
theorem inside_startThread (s : ThreadPool τ) : s.startThread.entering = s.entering ∧
    s.startThread.counted = s.counted ∧ s.startThread.leavers = s.leavers :=
  ⟨Census.countP_join WorkerPhase.entering s.mThreadArr .popping,
    Census.countP_join WorkerPhase.counted s.mThreadArr .popping,
    Census.countP_join WorkerPhase.isLeaving s.mThreadArr .popping⟩

/-- Waking the blocked workers leaves them inside. -/
theorem inside_notifyAll (s : ThreadPool τ) : s.notifyAll.entering = s.entering ∧
    s.notifyAll.counted = s.counted ∧ s.notifyAll.leavers = s.leavers := by
  refine ⟨Census.countP_map ?_, Census.countP_map ?_, Census.countP_map ?_⟩
  all_goals
    intro phase
    cases phase <;> rfl

/-- A worker moves from phase `a` to phase `b`. -/
theorem inside_set {worker : ℕ} {a : WorkerPhase τ} (hworker : s.mThreadArr[worker]? = some a)
    (b : WorkerPhase τ) (ht : t.mThreadArr = s.mThreadArr.set worker b) :
    t.entering + a.entering.toNat = s.entering + b.entering.toNat ∧
      t.counted + a.counted.toNat = s.counted + b.counted.toNat ∧
      t.leavers + a.isLeaving.toNat = s.leavers + b.isLeaving.toNat := by
  unfold entering counted leavers
  rw [ht]
  exact ⟨Census.countP_move _ hworker b, Census.countP_move _ hworker b,
    Census.countP_move _ hworker b⟩

variable [DecidableEq τ]

/-- Before `Resume` a parked worker stays parked. -/
theorem parked_step {a : PoolAction τ} (hstep : s.step a = some t) (ha : a ≠ .resume)
    (hresume : s.mResume = false) {worker : ℕ} {phase : WorkerPhase τ}
    (hworker : s.mThreadArr[worker]? = some phase) (hparked : phase.parked = true) :
    t.mResume = false ∧ ∃ phase', t.mThreadArr[worker]? = some phase' ∧ phase'.parked = true := by
  -- another worker moves, or this one from a phase to another
  have hset : ∀ (other : ℕ) (a b : WorkerPhase τ), s.mThreadArr[other]? = some a →
      (a.parked = true → b.parked = true) →
      ∃ phase', (s.mThreadArr.set other b)[worker]? = some phase' ∧ phase'.parked = true := by
    intro other a b hother hab
    rw [List.getElem?_set]
    split
    · rename_i heq
      subst heq
      rw [hworker] at hother
      cases hother
      exact ⟨b, if_pos (List.getElem?_eq_some_iff.1 hworker).1, hab hparked⟩
    · exact ⟨phase, hworker, hparked⟩
  cases step_cases hstep with
  | resume hcontrol => exact absurd rfl ha
  | control hsteps =>
      cases hsteps with
      | startThread hcontrol hi =>
          refine ⟨hresume, phase, ?_, hparked⟩
          exact (List.getElem?_append_left (List.getElem?_eq_some_iff.1 hworker).1).trans hworker
      | notify hcontrol =>
          refine ⟨hresume, _, (List.getElem?_map ..).trans (congrArg _ hworker), ?_⟩
          cases phase <;> exact hparked
      | store hcontrol => exact ⟨rfl, phase, hworker, hparked⟩
      | _ => exact ⟨hresume, phase, hworker, hparked⟩
  | pop hother hyields => exact ⟨hresume, hset _ _ _ hother nofun⟩
  | work hother hsteps =>
      obtain ⟨-, -, -, hsame⟩ := hsteps.frame
      exact ⟨hsame.trans hresume, hset _ _ _ hother (hsteps.parked hresume)⟩
  | wake hother => exact ⟨hresume, hset _ _ _ hother fun _ => rfl⟩
  | _ => exact ⟨hresume, phase, hworker, hparked⟩

/-- In a run without `Resume` a parked worker stays parked. -/
theorem parked_run {actions : List (PoolAction τ)} (hrun : Transition.run step s actions = some t)
    (hactions : .resume ∉ actions) (hresume : s.mResume = false) {worker : ℕ}
    {phase : WorkerPhase τ} (hworker : s.mThreadArr[worker]? = some phase)
    (hparked : phase.parked = true) :
    ∃ phase', t.mThreadArr[worker]? = some phase' ∧ phase'.parked = true := by
  -- induction on the actions
  induction actions generalizing s phase with
  | nil =>
      cases hrun
      exact ⟨phase, hworker, hparked⟩
  | cons a rest ih =>
      obtain ⟨s', hstep, hrest⟩ := Transition.run_cons_eq_some.1 hrun
      obtain ⟨ha, hactions⟩ := not_or.1 (List.mem_cons.not.1 hactions)
      obtain ⟨hresume', phase', hworker', hparked'⟩ :=
        parked_step hstep (Ne.symm ha) hresume hworker hparked
      exact ih hrest hactions hresume' hworker' hparked'

/-! ### Rounds -/

/-- The pause tasks in the queue. -/
def pauses (s : ThreadPool τ) : ℕ := s.mTasksPq.count .pauseTask

/-- Where the pause tasks are.  Between two rounds there is none; during a round each of them is
queued or with a worker of its own, and once a worker has one there are no pills. -/
def Round (s : ThreadPool τ) : Prop :=
  match s.control with
  | .pauseStoring => s.pauses = 0 ∧ s.entering = 0 ∧ s.counted = 0
  | .pausePushing i => i ≤ s.mThreadNum ∧ s.mResume = false ∧
      s.pauses + s.entering + s.counted = i ∧ (0 < s.entering + s.counted → s.pills = 0)
  | .pauseCounting => s.mResume = false ∧
      s.pauses + s.entering + s.counted = s.mThreadNum ∧ (0 < s.entering + s.counted → s.pills = 0)
  | _ => s.pauses = 0 ∧ s.entering = 0

/-- The size of the pool is at least one, and `SetNumThreads` does not make it less. -/
def Sized (s : ThreadPool τ) : Prop :=
  0 < s.mThreadNum ∧ match s.control with
    | .growing num _ | .shrinking num _ => 0 < num
    | _ => True

/-- The invariant. -/
structure Rounds (s : ThreadPool τ) : Prop where
  ready : s.mPauseReady = s.counted
  leavers : s.mResume = false → s.leavers = 0
  sized : s.Sized
  round : s.Round

theorem rounds_start {numThreads : ℕ} (hsize : 0 < numThreads) :
    (start numThreads : ThreadPool τ).Rounds where
  ready := (List.countP_replicate.trans (if_neg nofun)).symm
  leavers _ := List.countP_replicate.trans (if_neg nofun)
  sized := ⟨hsize, trivial⟩
  round := ⟨rfl, List.countP_replicate.trans (if_neg nofun)⟩

theorem pauses_adminAddTask (s : ThreadPool τ) (task : PoolTask τ) :
    (s.adminAddTask task).pauses = s.pauses + [task].count .pauseTask :=
  List.count_append

/-- The steps of the controlling thread. -/
theorem Rounds.controlStep (h : s.Rounds) (hsteps : s.ControlSteps t) : t.Rounds := by
  have hpill := s.pauses_adminAddTask .killPill
  have hpause := s.pauses_adminAddTask .pauseTask
  obtain ⟨hready, hleavers, ⟨hsize, htarget⟩, hround⟩ := h
  simp only [List.count_singleton, beq_iff_eq, reduceCtorEq, if_false, if_true] at hpill hpause
  cases hsteps with
  | startThread hcontrol hi =>
      obtain ⟨hentering, hcounted, hleave⟩ := s.inside_startThread
      simp only [Round, hcontrol] at hround htarget
      exact ⟨hready.trans hcounted.symm, fun hresume => hleave.trans (hleavers hresume),
        ⟨hsize, htarget⟩, hround.1, hentering.trans hround.2⟩
  | started hcontrol hi =>
      simp only [Round, hcontrol] at hround htarget
      exact ⟨hready, hleavers, ⟨hsize, htarget⟩, hround⟩
  | pushPill hcontrol hi =>
      simp only [Round, hcontrol] at hround htarget
      exact ⟨hready, hleavers, ⟨hsize, htarget⟩, hpill.trans hround.1, hround.2⟩
  | sized hcontrol hi =>
      simp only [Round, hcontrol] at hround htarget
      exact ⟨hready, hleavers, ⟨htarget, trivial⟩, hround⟩
  | noneReady hcontrol hzero =>
      simp only [Round, hcontrol] at hround
      exact ⟨hready, hleavers, ⟨hsize, trivial⟩, hround.1, hround.2, hready.symm.trans hzero⟩
  | store hcontrol =>
      simp only [Round, hcontrol] at hround
      obtain ⟨hpauses, hentering, hcounted⟩ := hround
      have hle := s.leavers_le_counted
      refine ⟨hready, fun _ => ?_, ⟨hsize, trivial⟩, Nat.zero_le _, rfl, ?_, ?_⟩
      · change s.leavers = 0
        omega
      · change s.pauses + s.entering + s.counted = 0
        omega
      · change 0 < s.entering + s.counted → _
        omega
  | pushPause hcontrol hi =>
      simp only [Round, hcontrol] at hround
      obtain ⟨hle, hresume, hsum, hpills⟩ := hround
      refine ⟨hready, hleavers, ⟨hsize, trivial⟩, hi, hresume, ?_, ?_⟩
      · change (s.adminAddTask .pauseTask).pauses + s.entering + s.counted = _
        omega
      · intro hinside
        have hpush := s.pills_adminAddTask .pauseTask
        exact hpush.trans (hpills hinside)
  | pausesPushed hcontrol hi =>
      simp only [Round, hcontrol] at hround
      obtain ⟨hle, hresume, hsum, hpills⟩ := hround
      exact ⟨hready, hleavers, ⟨hsize, trivial⟩, hresume, hsum.trans (Nat.le_antisymm hle hi), hpills⟩
  | paused hcontrol hall =>
      simp only [Round, hcontrol] at hround
      obtain ⟨hresume, hsum, hpills⟩ := hround
      refine ⟨hready, hleavers, ⟨hsize, trivial⟩, ?_⟩
      change s.pauses = 0 ∧ s.entering = 0
      omega
  | notify hcontrol =>
      obtain ⟨hentering, hcounted, hleave⟩ := s.inside_notifyAll
      simp only [Round, hcontrol] at hround
      exact ⟨hready.trans hcounted.symm, fun hresume => hleave.trans (hleavers hresume),
        ⟨hsize, trivial⟩, hround.1, hentering.trans hround.2⟩
  | pushLastPill hcontrol hi =>
      simp only [Round, hcontrol] at hround
      exact ⟨hready, hleavers, ⟨hsize, trivial⟩, hpill.trans hround.1, hround.2⟩
  | pillsPushed hcontrol hi =>
      simp only [Round, hcontrol] at hround
      exact ⟨hready, hleavers, ⟨hsize, trivial⟩, hround⟩
  | join hcontrol hstopped =>
      simp only [Round, hcontrol] at hround
      exact ⟨hready, hleavers, ⟨hsize, trivial⟩, hround⟩

/-- A step that leaves the controlling thread where it is keeps the round, if it takes no worker out
of the count and lets in none while there are pills. -/
theorem Round.congr (h : s.Round) (hcontrol : t.control = s.control)
    (hnum : t.mThreadNum = s.mThreadNum) (hresume : t.mResume = s.mResume)
    (hsum : t.pauses + t.entering + t.counted = s.pauses + s.entering + s.counted)
    (hout : s.pauses + s.entering = 0 → t.pauses + t.entering = 0)
    (hpills : 0 < t.entering + t.counted → 0 < s.entering + s.counted ∨ t.pills = 0)
    (hle : t.pills ≤ s.pills) : t.Round := by
  unfold Round at h ⊢
  rw [hcontrol, hnum, hresume]
  cases hs : s.control with
  | pauseStoring =>
      simp only [hs] at h ⊢
      omega
  | pausePushing i =>
      simp only [hs] at h ⊢
      obtain ⟨hi, hfalse, hsame, hnone⟩ := h
      exact ⟨hi, hfalse, by omega, by omega⟩
  | pauseCounting =>
      simp only [hs] at h ⊢
      obtain ⟨hfalse, hsame, hnone⟩ := h
      exact ⟨hfalse, by omega, by omega⟩
  | _ =>
      simp only [hs] at h ⊢
      omega

omit [DecidableEq τ] in
theorem Sized.congr (h : s.Sized) (hcontrol : t.control = s.control)
    (hnum : t.mThreadNum = s.mThreadNum) : t.Sized := by
  unfold Sized
  rw [hcontrol, hnum]
  exact h

/-- Off the queue, a pause task is with a worker that is about to count itself. -/
theorem pauses_erase {task : PoolTask τ} (htask : task ∈ s.mTasksPq) :
    (s.mTasksPq.erase task).count .pauseTask + task.phase.entering.toNat = s.pauses := by
  unfold pauses
  by_cases hpause : task = .pauseTask
  · subst hpause
    have herase := List.count_erase_self (a := (.pauseTask : PoolTask τ)) (l := s.mTasksPq)
    have hpos := List.count_pos_iff.2 htask
    have hphase : (PoolTask.pauseTask : PoolTask τ).phase.entering.toNat = 1 := rfl
    omega
  · have herase := List.count_erase_of_ne (l := s.mTasksPq) (Ne.symm hpause)
    have hphase : task.phase.entering.toNat = 0 := by
      cases task with
      | user task priority => rfl
      | pauseTask => exact absurd rfl hpause
      | killPill => rfl
    omega

/-- A worker pops a task. -/
theorem Rounds.pop (h : s.Rounds) {worker : ℕ} {task : PoolTask τ}
    (hworker : s.mThreadArr[worker]? = some .popping) (hyields : s.Yields task) :
    Rounds { s with
      mThreadArr := s.mThreadArr.set worker task.phase
      mTasksPq := s.mTasksPq.erase task } := by
  have hpauses := pauses_erase hyields.1
  generalize ht : ({ s with
      mThreadArr := s.mThreadArr.set worker task.phase
      mTasksPq := s.mTasksPq.erase task } : ThreadPool τ) = t
  have harr : t.mThreadArr = s.mThreadArr.set worker task.phase := by rw [← ht]
  have hqueue : t.mTasksPq = s.mTasksPq.erase task := by rw [← ht]
  have hcontrol : t.control = s.control := by rw [← ht]
  have hnum : t.mThreadNum = s.mThreadNum := by rw [← ht]
  have hresume : t.mResume = s.mResume := by rw [← ht]
  have hready : t.mPauseReady = s.mPauseReady := by rw [← ht]
  clear ht
  rw [← hqueue] at hpauses
  change t.pauses + _ = s.pauses at hpauses
  obtain ⟨hentering, hcounted, hleave⟩ := inside_set hworker task.phase harr
  have hphase : task.phase.counted = false ∧ task.phase.isLeaving = false := by
    cases task <;> exact ⟨rfl, rfl⟩
  have hpopping : (.popping : WorkerPhase τ).entering = false ∧
      (.popping : WorkerPhase τ).counted = false ∧ (.popping : WorkerPhase τ).isLeaving = false :=
    ⟨rfl, rfl, rfl⟩
  simp only [hphase, hpopping, Bool.toNat_false] at hentering hcounted hleave
  have hready' := h.ready
  have hpills : t.pills ≤ s.pills := by
    rw [pills, hqueue]
    exact List.erase_sublist.count_le _
  -- a pause task is popped only when there are no pills
  have hnone : 0 < task.phase.entering.toNat → s.pills = 0 := by
    intro hpause
    refine List.count_eq_zero.2 fun hmem => ?_
    cases hyields.eq_killPill hmem
    exact absurd hpause (Nat.lt_irrefl 0)
  refine ⟨by omega, ?_, h.sized.congr hcontrol hnum,
    h.round.congr hcontrol hnum hresume ?_ ?_ ?_ hpills⟩
  · rw [hresume]
    intro hfalse
    have hzero := h.leavers hfalse
    omega
  · omega
  · omega
  · omega

/-- A worker that has found `m_resume` true uncounts itself, and there is no round. -/
theorem Rounds.discount (h : s.Rounds) {worker : ℕ}
    (hworker : s.mThreadArr[worker]? = some .leaving)
    (harr : t.mThreadArr = s.mThreadArr.set worker .unlocking) (hqueue : t.mTasksPq = s.mTasksPq)
    (hcontrol : t.control = s.control) (hnum : t.mThreadNum = s.mThreadNum)
    (hresume : t.mResume = s.mResume) (hready : t.mPauseReady = s.mPauseReady - 1) : t.Rounds := by
  obtain ⟨hentering, hcounted, hleave⟩ := inside_set hworker .unlocking harr
  simp only [WorkerPhase.entering, WorkerPhase.counted, WorkerPhase.isLeaving,
    Bool.toNat_false, Bool.toNat_true] at hentering hcounted hleave
  have hpauses : t.pauses = s.pauses := by rw [pauses, pauses, hqueue]
  have hready' := h.ready
  have hle := s.leavers_le_counted
  have htrue : s.mResume = true := by
    by_contra hfalse
    have hzero := h.leavers (by simpa using hfalse)
    omega
  refine ⟨by omega, ?_, h.sized.congr hcontrol hnum, ?_⟩
  · rw [hresume, htrue]
    rintro ⟨⟩
  · have hround := h.round
    unfold Round at hround ⊢
    rw [hcontrol]
    cases hs : s.control with
    | pauseStoring =>
        simp only [hs] at hround
        omega
    | pausePushing i =>
        simp only [hs, htrue, Bool.true_eq_false, false_and, and_false] at hround
    | pauseCounting =>
        simp only [hs, htrue, Bool.true_eq_false, false_and] at hround
    | _ =>
        simp only [hs] at hround ⊢
        omega

/-- A worker that is past its pop goes on. -/
theorem Rounds.work (h : s.Rounds) {worker : ℕ} {a b : WorkerPhase τ}
    (hworker : s.mThreadArr[worker]? = some a) (hsteps : s.WorkSteps a t b) :
    Rounds { t with mThreadArr := s.mThreadArr.set worker b } := by
  by_cases hleaving : a.isLeaving = true
  · cases hsteps with
    | discount => exact h.discount hworker rfl rfl rfl rfl rfl rfl
    | _ => cases hleaving
  -- in any other step it is inside of `PauseTask` once, and counts itself once
  · have hinside : b.entering.toNat + b.counted.toNat = a.entering.toNat + a.counted.toNat ∧
        b.entering.toNat ≤ a.entering.toNat ∧
        t.mPauseReady + a.counted.toNat = s.mPauseReady + b.counted.toNat := by
      cases hsteps with
      | discount => exact absurd rfl hleaving
      | _ => simp [WorkerPhase.entering, WorkerPhase.counted]
    have hstay : s.mResume = false → b.isLeaving = false := by
      intro hfalse
      cases hsteps with
      | pass htrue =>
          rw [hfalse] at htrue
          cases htrue
      | _ => rfl
    obtain ⟨hsame, hle, hcount⟩ := hinside
    obtain ⟨hqueue, hcontrol, hnum, hresume⟩ := hsteps.frame
    obtain ⟨hentering, hcounted, hleave⟩ :=
      inside_set (t := { t with mThreadArr := s.mThreadArr.set worker b }) hworker b rfl
    have hready := h.ready
    have hpauses : t.pauses = s.pauses := by rw [pauses, pauses, hqueue]
    have hpills : t.pills = s.pills := by rw [pills, pills, hqueue]
    generalize hu : ({ t with mThreadArr := s.mThreadArr.set worker b } : ThreadPool τ) = u
      at hentering hcounted hleave ⊢
    replace hpauses : u.pauses = s.pauses := by rw [← hpauses, ← hu]; rfl
    replace hpills : u.pills = s.pills := by rw [← hpills, ← hu]; rfl
    replace hcontrol : u.control = s.control := by rw [← hcontrol, ← hu]
    replace hnum : u.mThreadNum = s.mThreadNum := by rw [← hnum, ← hu]
    replace hresume : u.mResume = s.mResume := by rw [← hresume, ← hu]
    have hready' : u.mPauseReady = t.mPauseReady := by rw [← hu]
    refine ⟨by omega, ?_, h.sized.congr hcontrol hnum,
      h.round.congr hcontrol hnum hresume ?_ ?_ ?_ ?_⟩
    · intro hfalse
      rw [hresume] at hfalse
      have hzero := h.leavers hfalse
      rw [hstay hfalse, Bool.toNat_false] at hleave
      omega
    · omega
    · omega
    · omega
    · omega

/-- Every step keeps the invariant. -/
theorem Rounds.step (h : s.Rounds) {a : PoolAction τ} (ha : ∀ num, a = .setNumThreads num → 0 < num)
    (hstep : s.step a = some t) : t.Rounds := by
  cases step_cases hstep with
  | addTask task priority =>
      have hpauses := s.pauses_adminAddTask (.user task priority)
      have hpills := s.pills_adminAddTask (.user task priority)
      simp only [List.count_singleton, beq_iff_eq, reduceCtorEq, if_false] at hpauses hpills
      refine ⟨h.ready, h.leavers, h.sized, h.round.congr rfl rfl rfl ?_ ?_ Or.inl ?_⟩
      · rw [hpauses]
        rfl
      · rw [hpauses]
        exact id
      · rw [hpills]
        exact Nat.le_refl _
  | setNumThreads num hcontrol =>
      have hround := h.round
      simp only [Round, hcontrol] at hround
      exact ⟨h.ready, h.leavers, ⟨h.sized.1, ha num rfl⟩, hround⟩
  | pause hcontrol =>
      have hround := h.round
      simp only [Round, hcontrol] at hround
      exact ⟨h.ready, h.leavers, ⟨h.sized.1, trivial⟩, hround⟩
  | resume hcontrol =>
      have hround := h.round
      simp only [Round, hcontrol] at hround
      exact ⟨h.ready, by rintro ⟨⟩, ⟨h.sized.1, trivial⟩, hround⟩
  | destroy hcontrol =>
      have hround := h.round
      simp only [Round, hcontrol] at hround
      exact ⟨h.ready, h.leavers, ⟨h.sized.1, trivial⟩, hround⟩
  | control hsteps => exact h.controlStep hsteps
  | pop hworker hyields => exact h.pop hworker hyields
  | timeout hworker => exact h
  | work hworker hsteps => exact h.work hworker hsteps
  | @wake worker hworker =>
      obtain ⟨hentering, hcounted, hleave⟩ := inside_set
        (t := { s with mThreadArr := s.mThreadArr.set worker .waking }) hworker .waking rfl
      simp only [WorkerPhase.entering, WorkerPhase.counted, WorkerPhase.isLeaving,
        Bool.toNat_false, Bool.toNat_true, Nat.add_zero, Nat.add_right_cancel_iff]
        at hentering hcounted hleave
      refine ⟨h.ready.trans hcounted.symm, fun hfalse => hleave.trans (h.leavers hfalse), h.sized,
        h.round.congr rfl rfl rfl ?_ ?_ ?_ (Nat.le_refl _)⟩
      · rw [hentering, hcounted]
        rfl
      · rw [hentering]
        exact id
      · rw [hentering, hcounted]
        exact Or.inl

end ThreadPool

/-! ### The result -/

open ThreadPool

variable {τ : Type} [DecidableEq τ]

/-- **What holds when `Pause` returns.** In every run of a pool whose size is never set to zero, at
the moment a call of `Pause` returns: there are `m_thread_num` workers that have not popped a kill
pill; all of them are inside of `PauseTask` and stay there in any run without `Resume`; and the
queue holds neither pause tasks nor kill pills. -/
theorem pause_parks_every_worker {numThreads : ℕ} (hsize : 0 < numThreads)
    (actions : List (PoolAction τ)) (hsizes : ∀ num, .setNumThreads num ∈ actions → 0 < num)
    {s t : ThreadPool τ} (hrun : Transition.run step (start numThreads) actions = some s)
    (hpause : s.control = .pauseCounting) (hreturn : s.step .control = some t) :
    t.alive = t.mThreadNum ∧
      (∀ (worker : ℕ) (phase : WorkerPhase τ), t.mThreadArr[worker]? = some phase →
        phase.alive = true → phase.parked = true ∧ ∀ rest u, .resume ∉ rest → Transition.run step t rest = some u →
          ∃ phase', u.mThreadArr[worker]? = some phase' ∧ phase'.parked = true) ∧
      t.pauses = 0 ∧ t.pills = 0 := by
  have hbalanced : s.Balanced := Transition.run_invariant ThreadPool.Balanced
    (fun _ _ _ h hstep => h.step hstep) (balanced_start numThreads) hrun
  have halong : Transition.Along step (fun _ a => ∀ num, a = .setNumThreads num → 0 < num)
      (start numThreads) actions := by
    refine Transition.along_of_forall ?_ _
    rintro a ha - num rfl
    exact hsizes num ha
  have hrounds : s.Rounds := Transition.run_invariant_along Rounds
    (fun _ _ _ h ha hstep => h.step ha hstep) (rounds_start hsize) halong hrun
  have ht : s.mThreadNum ≤ s.mPauseReady ∧ t = { s with control := .idle } := by
    simp only [step, controlStep, hpause, Option.ite_none_right_eq_some, Option.some.injEq] at hreturn
    exact ⟨hreturn.1, hreturn.2.symm⟩
  obtain ⟨hall, rfl⟩ := ht
  have hround := hrounds.round
  simp only [Round, hpause] at hround
  simp only [ThreadPool.Balanced, hpause] at hbalanced
  obtain ⟨hresume, hsum, hnone⟩ := hround
  have hready := hrounds.ready
  have hpos := hrounds.sized.1
  have hpills : s.pills = 0 := hnone (by omega)
  refine ⟨?_, ?_, ?_, hpills⟩
  · change s.alive = s.mThreadNum
    omega
  · intro worker phase hworker halive
    have hcounted : phase.counted = true := by
      refine Census.mem_of_le ?_ ?_ (List.mem_of_getElem? hworker) halive
      · intro a ha
        cases a <;> first | rfl | cases ha
      · change s.alive ≤ s.counted
        omega
    have hstay : phase.isLeaving = false := by
      have hzero := hrounds.leavers hresume
      have hnot := List.countP_eq_zero.1 hzero phase (List.mem_of_getElem? hworker)
      simpa using hnot
    have hparked := phase.parked_of_counted hcounted hstay
    refine ⟨hparked, ?_⟩
    intro rest u hrest hrun
    exact parked_run hrun hrest hresume hworker hparked
  · change s.pauses = 0
    omega

/-- `Pause` after the pool was made smaller and larger again, with the pill still queued: one of the two
first workers takes the pill, and the other one and the new one take the pause tasks. -/
def pauseAfterResize : List (PoolAction ℕ) :=
  [.setNumThreads 1, .control, .control, .control, .setNumThreads 2, .control, .control, .control, .pause,
    .control, .control, .control, .control, .control, .pop 1 .killPill, .pop 0 .pauseTask, .work 0,
    .work 0, .work 0, .work 0, .pop 2 .pauseTask, .work 2, .work 2]

theorem pause_parks_every_worker_pauseAfterResize : ∃ s t,
    Transition.run step (start 2) pauseAfterResize = some s ∧ s.control = .pauseCounting ∧
      s.step .control = some t ∧ t.alive = 2 ∧ t.mThreadArr[2]? = some .testing ∧
      ∀ rest u, .resume ∉ rest → Transition.run step t rest = some u →
        ∃ phase, u.mThreadArr[2]? = some phase ∧ phase.parked = true := by
  refine ⟨_, _, rfl, rfl, rfl, rfl, rfl, ?_⟩
  have hsizes : ∀ num, .setNumThreads num ∈ pauseAfterResize → 0 < num := by
    intro num hnum
    simp [pauseAfterResize] at hnum
    omega
  have h := pause_parks_every_worker (by decide : 0 < 2) pauseAfterResize hsizes rfl rfl rfl
  exact (h.2.1 2 .testing rfl rfl).2

end IotDrive
