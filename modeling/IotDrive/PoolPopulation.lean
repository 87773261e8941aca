/-
How many workers the thread pool has.

A worker is alive until it pops a kill pill.  Outside of the loops that start workers and queue
pills, the workers alive are `m_thread_num` more than the pills that wait for them; so the pills
that the destructor queues are as many as the workers it joins.

Main definitions:

* `ThreadPool.alive`, `ThreadPool.pills` — the two numbers;
* `ThreadPool.Balanced` — the invariant, for each place of the controlling thread.

Main results:

* `ThreadPool.Balanced.step` — every step preserves the balance;
* `ThreadPool.gone_run` — a worker ends with the first pill it pops;
* `ThreadPool.exists_run_destroyed` — the destructor can return;
* `population_balanced` — **the population** of the pool, at every moment.
-/

import IotDrive.ThreadPool

set_option relaxedAutoImplicit false
set_option autoImplicit false

namespace IotDrive

/-- The worker has not popped a kill pill. -/
def WorkerPhase.alive {τ : Type} : WorkerPhase τ → Bool
  | .stopped => false
  | _ => true

/-- No `SetNumThreads` and no destructor is under way. -/
def Control.settled : Control → Bool
  | .growing _ _ | .shrinking _ _ | .destroying _ | .joining | .destroyed => false
  | _ => true

/-- The destructor has queued its pills. -/
def Control.pillsQueued : Control → Bool
  | .joining | .destroyed => true
  | _ => false

namespace ThreadPool

variable {τ : Type} {s t : ThreadPool τ}

/-! ### Workers that are alive -/

/-- The workers that have not popped a kill pill. -/
def alive (s : ThreadPool τ) : ℕ := s.mThreadArr.countP WorkerPhase.alive

@[simp] theorem alive_adminAddTask (s : ThreadPool τ) (task : PoolTask τ) :
    (s.adminAddTask task).alive = s.alive := rfl

theorem alive_startThread (s : ThreadPool τ) : s.startThread.alive = s.alive + 1 :=
  Census.countP_join WorkerPhase.alive s.mThreadArr .popping

theorem alive_notifyAll (s : ThreadPool τ) : s.notifyAll.alive = s.alive := by
  refine Census.countP_map ?_
  intro phase
  cases phase <;> rfl

/-- A worker that is past its pop does not become one that stopped. -/
theorem WorkSteps.alive {a b : WorkerPhase τ} (h : s.WorkSteps a t b) :
    a.alive = true ∧ b.alive = true := by
  cases h <;> exact ⟨rfl, rfl⟩

/-! ### The queue yields pills first -/

/-- Where there is a pill, `Pop` yields one. -/
theorem Yields.eq_killPill {task : PoolTask τ} (h : s.Yields task) (hpill : .killPill ∈ s.mTasksPq) :
    task = .killPill := by
  have hle := h.2 .killPill hpill
  cases task with
  | user task priority => cases priority <;> simp [PoolTask.priority, adminStop] at hle
  | pauseTask => simp [PoolTask.priority, admin, adminStop] at hle
  | killPill => rfl

theorem yields_killPill (h : .killPill ∈ s.mTasksPq) : s.Yields .killPill := by
  refine ⟨h, ?_⟩
  intro other _
  cases other with
  | user task priority => cases priority <;> simp [PoolTask.priority, adminStop]
  | pauseTask => simp [PoolTask.priority, admin, adminStop]
  | killPill => exact Nat.le_refl _

/-! ### The balance -/

variable [DecidableEq τ]

/-- The kill pills in the queue. -/
def pills (s : ThreadPool τ) : ℕ := s.mTasksPq.count .killPill

/-- How many workers are alive, for each place of the controlling thread.  Where `SetNumThreads` is
in one of its loops, `i` of them are to remain. -/
def Balanced (s : ThreadPool τ) : Prop :=
  match s.control with
  | .growing num i => s.mThreadNum ≤ i ∧ i ≤ max num s.mThreadNum ∧ s.alive = s.pills + i
  | .shrinking num i => s.alive = s.pills + max num i
  | .destroying i => i ≤ s.mThreadNum ∧ s.alive + i = s.pills + s.mThreadNum
  | .joining | .destroyed => s.alive = s.pills
  | _ => s.alive = s.pills + s.mThreadNum

theorem balanced_start (numThreads : ℕ) : (start numThreads : ThreadPool τ).Balanced := by
  have halive : (start numThreads : ThreadPool τ).alive = numThreads :=
    List.countP_replicate.trans (if_pos rfl)
  have hpills : (start numThreads : ThreadPool τ).pills = 0 := rfl
  change (start numThreads : ThreadPool τ).alive = (start numThreads : ThreadPool τ).pills + numThreads
  rw [halive, hpills, Nat.zero_add]

/-- A step that changes both numbers alike, and leaves the controlling thread where it is, keeps the
balance. -/
theorem Balanced.congr (h : s.Balanced) (hcontrol : t.control = s.control)
    (hnum : t.mThreadNum = s.mThreadNum) (hbalance : t.alive + s.pills = s.alive + t.pills) :
    t.Balanced := by
  unfold Balanced at h ⊢
  rw [hcontrol, hnum]
  cases hs : s.control <;> simp only [hs] at h ⊢ <;> omega

theorem pills_adminAddTask (s : ThreadPool τ) (task : PoolTask τ) :
    (s.adminAddTask task).pills = s.pills + [task].count .killPill :=
  List.count_append

/-- The steps of the controlling thread keep the balance. -/
theorem Balanced.controlStep (h : s.Balanced) (hsteps : s.ControlSteps t) : t.Balanced := by
  have hpill := s.pills_adminAddTask .killPill
  have hpause := s.pills_adminAddTask .pauseTask
  have hstart := s.alive_startThread
  have hnotify := s.alive_notifyAll
  simp only [List.count_singleton_self] at hpill
  simp only [List.count_singleton, beq_iff_eq, reduceCtorEq, if_false] at hpause
  cases hsteps with
  | startThread hcontrol hi =>
      simp only [Balanced, hcontrol] at h ⊢
      change _ ∧ _ ∧ s.startThread.alive = s.pills + _
      exact ⟨Nat.le_succ_of_le h.1, by omega, by omega⟩
  | started hcontrol hi =>
      simp only [Balanced, hcontrol] at h ⊢
      change s.alive = s.pills + _
      omega
  | pushPill hcontrol hi =>
      simp only [Balanced, hcontrol] at h ⊢
      change s.alive = (s.adminAddTask .killPill).pills + _
      omega
  | sized hcontrol hi =>
      simp only [Balanced, hcontrol] at h ⊢
      change s.alive = s.pills + _
      omega
  | noneReady hcontrol hready =>
      simp only [Balanced, hcontrol] at h ⊢
      exact h
  | store hcontrol =>
      simp only [Balanced, hcontrol] at h ⊢
      exact h
  | pushPause hcontrol hi =>
      simp only [Balanced, hcontrol] at h ⊢
      change s.alive = (s.adminAddTask .pauseTask).pills + s.mThreadNum
      omega
  | pausesPushed hcontrol hi =>
      simp only [Balanced, hcontrol] at h ⊢
      exact h
  | paused hcontrol hready =>
      simp only [Balanced, hcontrol] at h ⊢
      exact h
  | notify hcontrol =>
      simp only [Balanced, hcontrol] at h ⊢
      exact hnotify.trans h
  | pushLastPill hcontrol hi =>
      simp only [Balanced, hcontrol] at h ⊢
      change _ ∧ s.alive + _ = (s.adminAddTask .killPill).pills + s.mThreadNum
      exact ⟨hi, by omega⟩
  | pillsPushed hcontrol hi =>
      simp only [Balanced, hcontrol] at h ⊢
      change s.alive = s.pills
      omega
  | join hcontrol hstopped =>
      simp only [Balanced, hcontrol] at h ⊢
      exact h

/-- A worker that pops a task stops if it is a pill, and takes the pill off the queue then. -/
theorem balance_pop {worker : ℕ} {task : PoolTask τ}
    (hworker : s.mThreadArr[worker]? = some .popping) (htask : task ∈ s.mTasksPq) :
    (s.mThreadArr.set worker task.phase).countP WorkerPhase.alive + s.pills =
      s.alive + (s.mTasksPq.erase task).count .killPill := by
  have hmove := Census.countP_move WorkerPhase.alive hworker task.phase
  have hpopping : (WorkerPhase.popping : WorkerPhase τ).alive.toNat = 1 := rfl
  rw [hpopping] at hmove
  unfold alive pills
  by_cases hpill : task = .killPill
  · subst hpill
    have herase := List.count_erase_self (a := (.killPill : PoolTask τ)) (l := s.mTasksPq)
    have hpos := List.count_pos_iff.2 htask
    have hphase : (PoolTask.killPill : PoolTask τ).phase.alive.toNat = 0 := rfl
    omega
  · have herase := List.count_erase_of_ne (l := s.mTasksPq) (Ne.symm hpill)
    have hphase : task.phase.alive.toNat = 1 := by
      cases task with
      | user task priority => rfl
      | pauseTask => rfl
      | killPill => exact absurd rfl hpill
    omega

/-- Every step keeps the balance. -/
theorem Balanced.step (h : s.Balanced) {a : PoolAction τ} (hstep : s.step a = some t) :
    t.Balanced := by
  cases step_cases hstep with
  | addTask task priority =>
      refine h.congr rfl rfl ?_
      rw [pills_adminAddTask]
      simp
  | setNumThreads num hcontrol =>
      simp only [Balanced, hcontrol] at h ⊢
      exact ⟨Nat.le_refl _, by omega, h⟩
  | pause hcontrol =>
      simp only [Balanced, hcontrol] at h ⊢
      exact h
  | resume hcontrol =>
      simp only [Balanced, hcontrol] at h ⊢
      exact h
  | destroy hcontrol =>
      simp only [Balanced, hcontrol] at h ⊢
      exact ⟨Nat.zero_le _, h⟩
  | control hsteps => exact h.controlStep hsteps
  | pop hworker hyields => exact h.congr rfl rfl (balance_pop hworker hyields.1)
  | timeout hworker => exact h
  | @work worker a b t' hworker hsteps =>
      obtain ⟨ha, hb⟩ := hsteps.alive
      have hmove := Census.countP_move WorkerPhase.alive hworker b
      rw [ha, hb] at hmove
      obtain ⟨hqueue, hcontrol, hnum, -⟩ := hsteps.frame
      refine h.congr hcontrol hnum ?_
      simp only [alive, pills, hqueue]
      omega
  | wake hworker =>
      have hmove := Census.countP_move WorkerPhase.alive hworker .waking
      simp only [WorkerPhase.alive] at hmove
      refine h.congr rfl rfl ?_
      simp only [alive, pills]
      omega

/-! ### Pills -/

/-- While a worker is alive after the destructor has queued its pills, there is a pill. -/
theorem Balanced.mem_killPill (h : s.Balanced) (hqueued : s.control.pillsQueued = true) {worker : ℕ}
    {phase : WorkerPhase τ} (hworker : s.mThreadArr[worker]? = some phase)
    (halive : phase.alive = true) : .killPill ∈ s.mTasksPq := by
  have hbalance : s.alive = s.pills := by
    unfold Balanced at h
    cases hs : s.control <;> simp only [hs, Control.pillsQueued, Bool.false_eq_true] at h hqueued
    · exact h
    · exact h
  have hpos : 0 < s.alive :=
    List.countP_pos_iff.2 ⟨phase, List.mem_of_getElem? hworker, halive⟩
  rw [hbalance] at hpos
  exact List.count_pos_iff.1 hpos

/-- One if the worker has stopped. -/
def gone (s : ThreadPool τ) (worker : ℕ) : ℕ :=
  if s.mThreadArr[worker]? = some .stopped then 1 else 0

theorem gone_congr (h : t.mThreadArr = s.mThreadArr) (worker : ℕ) :
    t.gone worker = s.gone worker := by
  rw [gone, h, gone]

/-- A worker that moves between phases other than `stopped` has not stopped. -/
theorem gone_set {worker : ℕ} {a b : WorkerPhase τ} (hworker : s.mThreadArr[worker]? = some a)
    (ha : a ≠ .stopped) (ht : t.mThreadArr = s.mThreadArr.set worker b) (other : ℕ) :
    t.gone other = s.gone other + if other = worker ∧ b = .stopped then 1 else 0 := by
  have hlt : worker < s.mThreadArr.length := (List.getElem?_eq_some_iff.1 hworker).1
  unfold gone
  rw [ht, List.getElem?_set]
  by_cases hother : worker = other
  · subst hother
    rw [hworker]
    simp [hlt, ha]
  · simp [hother, Ne.symm hother]

/-- A new worker has not stopped. -/
theorem gone_startThread (s : ThreadPool τ) (worker : ℕ) :
    s.startThread.gone worker = s.gone worker := by
  unfold gone startThread
  rw [List.getElem?_append]
  split
  · rfl
  · rename_i hge
    rw [List.getElem?_eq_none (Nat.le_of_not_lt hge), List.getElem?_singleton]
    split <;> rfl

/-- Waking workers makes none of them stop. -/
theorem gone_notifyAll (s : ThreadPool τ) (worker : ℕ) :
    s.notifyAll.gone worker = s.gone worker := by
  unfold gone notifyAll
  rw [List.getElem?_map]
  refine if_congr ?_ rfl rfl
  cases s.mThreadArr[worker]? with
  | none => simp
  | some phase => cases phase <;> simp

/-- A step makes a worker stop exactly if the worker pops a pill. -/
theorem gone_step {a : PoolAction τ} (hstep : s.step a = some t) (worker : ℕ) :
    t.gone worker = s.gone worker + [a].count (.pop worker .killPill) := by
  have hkeep : ∀ (b : PoolAction τ) (u : ThreadPool τ), (∀ worker task, b ≠ .pop worker task) →
      u.gone worker = s.gone worker →
      u.gone worker = s.gone worker + [b].count (.pop worker .killPill) := by
    intro b u hb hu
    rw [hu, List.count_singleton, if_neg]
    · rfl
    · simpa using hb worker .killPill
  cases step_cases hstep with
  | addTask task priority => exact hkeep _ _ nofun (gone_congr rfl worker)
  | setNumThreads num hcontrol => exact hkeep _ _ nofun (gone_congr rfl worker)
  | pause hcontrol => exact hkeep _ _ nofun (gone_congr rfl worker)
  | resume hcontrol => exact hkeep _ _ nofun (gone_congr rfl worker)
  | destroy hcontrol => exact hkeep _ _ nofun (gone_congr rfl worker)
  | control hsteps =>
      refine hkeep _ _ nofun ?_
      cases hsteps with
      | startThread hcontrol hi => exact s.gone_startThread worker
      | notify hcontrol => exact s.gone_notifyAll worker
      | _ => exact gone_congr rfl worker
  | @pop worker' task hworker hyields =>
      have hphase : task.phase = .stopped ↔ task = .killPill := by
        cases task <;> simp [PoolTask.phase]
      rw [gone_set hworker nofun rfl worker]
      rw [List.count_singleton]
      refine congrArg _ (if_congr ?_ rfl rfl)
      rw [beq_iff_eq, PoolAction.pop.injEq, hphase, eq_comm]
  | timeout hworker => simp
  | work hworker hsteps =>
      obtain ⟨ha, hb⟩ := hsteps.alive
      rw [gone_set hworker (by rintro rfl; cases ha) rfl worker, if_neg]
      · simp
      · rintro ⟨-, rfl⟩
        cases hb
  | wake hworker =>
      rw [gone_set hworker nofun rfl worker]
      simp

/-- In a run a worker pops as many pills as it stops times. -/
theorem gone_run {actions : List (PoolAction τ)} (hrun : Transition.run step s actions = some t)
    (worker : ℕ) : t.gone worker = s.gone worker + actions.count (.pop worker .killPill) := by
  -- induction on the actions
  induction actions generalizing s with
  | nil =>
      cases hrun
      rfl
  | cons a rest ih =>
      obtain ⟨s', hstep, hrest⟩ := Transition.run_cons_eq_some.1 hrun
      have hcount : ([a] ++ rest).count (.pop worker .killPill) =
          [a].count (.pop worker .killPill) + rest.count (.pop worker .killPill) :=
        List.count_append
      rw [List.singleton_append] at hcount
      rw [ih hrest, gone_step hstep, hcount, Nat.add_assoc]

/-! ### The destructor -/

/-- The worker is not inside of `PauseTask`. -/
def Free (phase : WorkerPhase τ) : Prop :=
  phase = .popping ∨ (∃ task, phase = .running task) ∨ phase = .stopped

/-- No worker is inside of `PauseTask` nor will be, until `Pause` is called. -/
structure Unpaused (s : ThreadPool τ) : Prop where
  free : ∀ phase ∈ s.mThreadArr, Free phase
  queue : .pauseTask ∉ s.mTasksPq
  control : s.control ≠ .pauseWaiting ∧ s.control ≠ .pauseStoring ∧
    ∀ i, s.control ≠ .pausePushing i

omit [DecidableEq τ] in
theorem unpaused_start (numThreads : ℕ) : (start numThreads : ThreadPool τ).Unpaused := by
  refine ⟨?_, List.not_mem_nil, by simp [start]⟩
  intro phase hphase
  exact Or.inl (List.eq_of_mem_replicate hphase)

omit [DecidableEq τ] in
theorem free_set (h : ∀ phase ∈ s.mThreadArr, Free phase) (worker : ℕ) {b : WorkerPhase τ}
    (hb : Free b) : ∀ phase ∈ s.mThreadArr.set worker b, Free phase := by
  intro phase hphase
  rcases List.mem_or_eq_of_mem_set hphase with hphase | rfl
  · exact h phase hphase
  · exact hb

omit [DecidableEq τ] in
theorem Unpaused.push (h : s.Unpaused) {task : PoolTask τ} (htask : .pauseTask ≠ task) :
    .pauseTask ∉ s.mTasksPq ++ [task] := by
  intro hmem
  rcases List.mem_append.1 hmem with hmem | hmem
  · exact h.queue hmem
  · exact htask (List.mem_singleton.1 hmem)

omit [DecidableEq τ] in
/-- The steps of the controlling thread, in another call than one of `Pause`. -/
theorem Unpaused.controlStep (h : s.Unpaused) (hsteps : s.ControlSteps t) : t.Unpaused := by
  obtain ⟨hwaiting, hstoring, hpushing⟩ := h.control
  cases hsteps with
  | startThread hcontrol hi =>
      refine ⟨?_, h.queue, by simp⟩
      intro phase hphase
      rcases List.mem_append.1 hphase with hphase | hphase
      · exact h.free phase hphase
      · exact Or.inl (List.mem_singleton.1 hphase)
  | started hcontrol hi => exact ⟨h.free, h.queue, by simp⟩
  | pushPill hcontrol hi => exact ⟨h.free, h.push (by simp), by simp⟩
  | sized hcontrol hi => exact ⟨h.free, h.queue, by simp⟩
  | noneReady hcontrol hready => exact absurd hcontrol hwaiting
  | store hcontrol => exact absurd hcontrol hstoring
  | pushPause hcontrol hi => exact absurd hcontrol (hpushing _)
  | pausesPushed hcontrol hi => exact absurd hcontrol (hpushing _)
  | paused hcontrol hready => exact ⟨h.free, h.queue, by simp⟩
  | notify hcontrol =>
      refine ⟨?_, h.queue, by simp⟩
      intro phase hphase
      obtain ⟨phase', hphase', rfl⟩ := List.mem_map.1 hphase
      have hfree := h.free phase' hphase'
      rcases hfree with rfl | ⟨task, rfl⟩ | rfl
      · exact Or.inl rfl
      · exact Or.inr (Or.inl ⟨task, rfl⟩)
      · exact Or.inr (Or.inr rfl)
  | pushLastPill hcontrol hi => exact ⟨h.free, h.push (by simp), by simp⟩
  | pillsPushed hcontrol hi => exact ⟨h.free, h.queue, by simp⟩
  | join hcontrol hstopped => exact ⟨h.free, h.queue, by simp⟩

/-- A step other than a call of `Pause`. -/
theorem Unpaused.step (h : s.Unpaused) {a : PoolAction τ} (hstep : s.step a = some t)
    (ha : a ≠ .pause) : t.Unpaused := by
  cases step_cases hstep with
  | addTask task priority => exact ⟨h.free, h.push (by simp), h.control⟩
  | setNumThreads num hcontrol => exact ⟨h.free, h.queue, by simp⟩
  | pause hcontrol => exact absurd rfl ha
  | resume hcontrol => exact ⟨h.free, h.queue, by simp⟩
  | destroy hcontrol => exact ⟨h.free, h.queue, by simp⟩
  | control hsteps => exact h.controlStep hsteps
  | @pop worker task hworker hyields =>
      refine ⟨free_set h.free worker ?_, ?_, h.control⟩
      · cases task with
        | user task priority => exact Or.inr (Or.inl ⟨task, rfl⟩)
        | pauseTask => exact absurd hyields.1 h.queue
        | killPill => exact Or.inr (Or.inr rfl)
      · exact fun hmem => h.queue (List.mem_of_mem_erase hmem)
  | timeout hworker => exact h
  | work hworker hsteps =>
      obtain ⟨hqueue, hcontrol, -, -⟩ := hsteps.frame
      have hfree := h.free _ (List.mem_of_getElem? hworker)
      refine ⟨free_set h.free _ ?_, ?_, ?_⟩
      · cases hsteps with
        | finish task => exact Or.inl rfl
        | _ => rcases hfree with hfree | ⟨task, hfree⟩ | hfree <;> cases hfree
      · rw [hqueue]
        exact h.queue
      · rw [hcontrol]
        exact h.control
  | wake hworker =>
      have hfree := h.free _ (List.mem_of_getElem? hworker)
      rcases hfree with hfree | ⟨task, hfree⟩ | hfree <;> cases hfree

/-- After the destructor has queued its pills, a worker at its pop can leave. -/
theorem Balanced.step_pop (h : s.Balanced) (hqueued : s.control.pillsQueued = true) {worker : ℕ}
    (hworker : s.mThreadArr[worker]? = some .popping) :
    ∃ t, s.step (.pop worker .killPill) = some t ∧ t.control = s.control ∧
      t.alive + 1 = s.alive := by
  have hyields : s.Yields .killPill := yields_killPill (h.mem_killPill hqueued hworker rfl)
  refine ⟨_, if_pos ⟨hworker, hyields⟩, rfl, ?_⟩
  exact Census.countP_move WorkerPhase.alive hworker .stopped

/-- If no worker is inside of `PauseTask` after the destructor has queued its pills, then all
workers can leave. -/
theorem exists_run_stopped (h : s.Unpaused) (hbalanced : s.Balanced) (hjoin : s.control = .joining) :
    ∃ actions t, Transition.run step s actions = some t ∧ t.control = .joining ∧ t.alive = 0 := by
  have hleave : ∀ (s : ThreadPool τ) (worker : ℕ), s.Unpaused → s.Balanced →
      s.control = .joining → s.mThreadArr[worker]? = some .popping →
      ∃ t, s.step (.pop worker .killPill) = some t ∧ t.Unpaused ∧ t.Balanced ∧
        t.control = .joining ∧ t.alive + 1 = s.alive := by
    intro s worker h hbalanced hjoin hworker
    obtain ⟨t, hstep, hcontrol, halive⟩ := hbalanced.step_pop (by rw [hjoin]; rfl) hworker
    exact ⟨t, hstep, h.step hstep (by simp), hbalanced.step hstep, hcontrol.trans hjoin, halive⟩
  -- induction on the workers that are alive; one of them ends its task, if it has one, and leaves
  induction hn : s.alive generalizing s with
  | zero => exact ⟨[], s, rfl, hjoin, hn⟩
  | succ n ih =>
      obtain ⟨phase, hphase, halive⟩ := List.countP_pos_iff.1 (hn ▸ Nat.succ_pos n : 0 < s.alive)
      obtain ⟨worker, hlt, hget⟩ := List.getElem_of_mem hphase
      have hworker : s.mThreadArr[worker]? = some phase := List.getElem?_eq_some_iff.2 ⟨hlt, hget⟩
      rcases h.free phase hphase with rfl | ⟨task, rfl⟩ | rfl
      · obtain ⟨t, hstep, ht, hbalanced, hjoin, halive⟩ := hleave s worker h hbalanced hjoin hworker
        obtain ⟨actions, u, hrun, hu⟩ := ih ht hbalanced hjoin (by omega)
        exact ⟨.pop worker .killPill :: actions, u,
          Transition.run_cons_eq_some.2 ⟨t, hstep, hrun⟩, hu⟩
      · have hfinish : s.step (.work worker) =
            some { s with mThreadArr := s.mThreadArr.set worker .popping } := by
          rw [step, hworker]
          rfl
        have hpopping : (s.mThreadArr.set worker .popping)[worker]? = some .popping :=
          List.getElem?_set_self hlt
        have hmove := Census.countP_move WorkerPhase.alive hworker .popping
        obtain ⟨t, hstep, ht, hbalanced, hjoin, halive⟩ := hleave _ worker (h.step hfinish (by simp))
          (hbalanced.step hfinish) hjoin hpopping
        have hsame : (s.mThreadArr.set worker .popping).countP WorkerPhase.alive = n + 1 :=
          (Nat.add_right_cancel hmove).trans hn
        obtain ⟨actions, u, hrun, hu⟩ := ih ht hbalanced hjoin (Nat.succ.inj (halive.trans hsame))
        refine ⟨.work worker :: .pop worker .killPill :: actions, u, ?_, hu⟩
        refine Transition.run_cons_eq_some.2 ⟨_, hfinish, ?_⟩
        exact Transition.run_cons_eq_some.2 ⟨t, hstep, hrun⟩
      · cases halive

/-- The destructor can return. -/
theorem exists_run_destroyed (h : s.Unpaused) (hbalanced : s.Balanced)
    (hjoin : s.control = .joining) : ∃ actions t, Transition.run step s actions = some t ∧
      t.control = .destroyed := by
  obtain ⟨actions, t, hrun, hcontrol, halive⟩ := exists_run_stopped h hbalanced hjoin
  have hstopped : ∀ phase ∈ t.mThreadArr, phase matches .stopped := by
    intro phase hphase
    have hnot := List.countP_eq_zero.1 halive phase hphase
    cases phase <;> first | rfl | exact absurd rfl hnot
  have hlast : t.step .control = some { t with control := .destroyed } := by
    simp only [step, controlStep, hcontrol]
    exact if_pos hstopped
  refine ⟨actions ++ [.control], { t with control := .destroyed }, ?_, rfl⟩
  rw [Transition.run_append, hrun]
  exact Transition.run_cons_eq_some.2 ⟨_, hlast, rfl⟩

end ThreadPool

/-! ### The result -/

open ThreadPool

variable {τ : Type} [DecidableEq τ]

/-- **The population of the pool.** In every run, for every size of the pool, every sequence of
calls and every interleaving with the workers:

* outside of `SetNumThreads` and the destructor, the workers that have not popped a kill pill are
  `m_thread_num` more than the pills in the queue;
* after the destructor has queued its pills, there are as many as workers that have popped none; a
  worker at its pop can take one and takes nothing else; in any run from there a worker that had
  popped none pops one exactly if it stops; and if `Pause` was not called, the destructor can
  return. -/
theorem population_balanced (numThreads : ℕ) (actions : List (PoolAction τ)) {s : ThreadPool τ}
    (hrun : Transition.run step (start numThreads) actions = some s) :
    (s.control.settled = true → s.alive = s.pills + s.mThreadNum) ∧
      (s.control.pillsQueued = true → s.alive = s.pills ∧
        (∀ worker, s.mThreadArr[worker]? = some .popping →
          (∃ t, s.step (.pop worker .killPill) = some t) ∧
            ∀ task t, s.step (.pop worker task) = some t → task = .killPill) ∧
        ∀ rest t, Transition.run step s rest = some t → ∀ (worker : ℕ) (phase : WorkerPhase τ),
          s.mThreadArr[worker]? = some phase → phase.alive = true →
          rest.count (.pop worker .killPill) = t.gone worker) ∧
      (.pause ∉ actions → s.control = .joining → ∃ rest t, Transition.run step s rest = some t ∧
        t.control = .destroyed) := by
  have hbalanced : s.Balanced := Transition.run_invariant ThreadPool.Balanced
    (fun _ _ _ h hstep => h.step hstep) (balanced_start numThreads) hrun
  refine ⟨?_, ?_, ?_⟩
  · intro hsettled
    unfold ThreadPool.Balanced at hbalanced
    cases hs : s.control <;> simp only [hs, Control.settled, Bool.false_eq_true] at hbalanced hsettled
    all_goals exact hbalanced
  · intro hqueued
    refine ⟨?_, ?_, ?_⟩
    · unfold ThreadPool.Balanced at hbalanced
      cases hs : s.control <;>
        simp only [hs, Control.pillsQueued, Bool.false_eq_true] at hbalanced hqueued
      all_goals exact hbalanced
    · intro worker hworker
      obtain ⟨t, hstep, -⟩ := hbalanced.step_pop hqueued hworker
      refine ⟨⟨t, hstep⟩, ?_⟩
      intro task u hpop
      simp only [step, Option.ite_none_right_eq_some] at hpop
      exact hpop.1.2.eq_killPill (hbalanced.mem_killPill hqueued hworker rfl)
    · intro rest t hrest worker phase hworker halive
      have hgone := gone_run hrest worker
      have hnot : s.gone worker = 0 := by
        rw [gone, hworker, if_neg]
        rintro heq
        cases heq
        cases halive
      omega
  · intro hpause hjoin
    have halong : Transition.Along step (fun _ a => a ≠ .pause) (start numThreads) actions := by
      refine Transition.along_of_forall ?_ _
      rintro a ha - rfl
      exact hpause ha
    have hunpaused : s.Unpaused := Transition.run_invariant_along Unpaused
      (fun _ _ _ h ha hstep => h.step hstep ha) (unpaused_start numThreads) halong hrun
    exact exists_run_destroyed hunpaused hbalanced hjoin

/-- Two workers, one of which pops a pill that `SetNumThreads` has queued; the destructor then
queues the other one. -/
def shrinkAndDestroy : List (PoolAction ℕ) :=
  [.setNumThreads 1, .control, .control, .control, .addTask 7 .low, .pop 1 .killPill, .destroy,
    .control, .control]

theorem population_balanced_shrinkAndDestroy : ∃ s,
    Transition.run step (start 2) shrinkAndDestroy = some s ∧ s.control = .joining ∧
      s.alive = 1 ∧ s.pills = 1 ∧ ∃ rest t, Transition.run step s rest = some t ∧
        t.control = .destroyed := by
  refine ⟨_, rfl, rfl, rfl, ?_⟩
  have h := population_balanced 2 shrinkAndDestroy rfl
  exact ⟨(h.2.1 rfl).1.symm, h.2.2 (by decide) rfl⟩

end IotDrive
