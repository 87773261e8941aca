/-
Which workers `Resume` lets go.

`Resume` stores `m_resume` and notifies without `m_mutex`, so both can fall between the test of the
predicate by a worker and its wait.  The worker holds the mutex there, but it is not on the waiting
list yet.  `WaitableQueue::Push` has its store under the mutex of its waiters.

Main definitions:

* `ThreadPool.Stranded` — a worker waits for a `Resume` that is over;
* `ThreadPool.NotifiesAll` — no worker is between its test and its wait when `Resume` notifies;
* `ThreadPool.Awake` — the invariant.

Main results:

* `ThreadPool.Awake.step_iff` — a step keeps the invariant exactly under the condition;
* `ThreadPool.awake_iff` — what the invariant means;
* `resume_strands_no_worker` — **when no worker is stranded** in a run.
-/

import IotDrive.ThreadPool

set_option relaxedAutoImplicit false
set_option autoImplicit false

namespace IotDrive

/-- The worker has found `m_resume` false, and has not been woken since. -/
def WorkerPhase.stalled {τ : Type} : WorkerPhase τ → Bool
  | .blocking | .blocked => true
  | _ => false

namespace ThreadPool

variable {τ : Type} {s t : ThreadPool τ}

/-- `m_resume` is true, `Resume` has no notification to make, and a worker is blocked. -/
def Stranded (s : ThreadPool τ) : Prop :=
  s.mResume = true ∧ s.control ≠ .resumeNotifying ∧ .blocked ∈ s.mThreadArr

/-- When `Resume` notifies, all workers that will wait are waiting. -/
def NotifiesAll (s : ThreadPool τ) (a : PoolAction τ) : Prop :=
  a = .control → s.control = .resumeNotifying → .blocking ∉ s.mThreadArr

/-- Between the two statements of `Resume` the store has been made. -/
def Stored (s : ThreadPool τ) : Prop := s.control = .resumeNotifying → s.mResume = true

/-- After `Resume` no worker is stalled. -/
structure Awake (s : ThreadPool τ) : Prop where
  stored : s.Stored
  notStalled : s.mResume = true → s.control ≠ .resumeNotifying →
    ∀ phase ∈ s.mThreadArr, phase.stalled = false

theorem awake_start (numThreads : ℕ) : (start numThreads : ThreadPool τ).Awake := by
  constructor
  · rintro ⟨⟩
  · rintro ⟨⟩

theorem Awake.not_stranded (h : s.Awake) : ¬s.Stranded := by
  rintro ⟨hresume, hcontrol, hblocked⟩
  cases h.notStalled hresume hcontrol _ hblocked

/-! ### Steps -/

/-- A step that stalls no worker, and neither stores nor notifies in `Resume`. -/
theorem Awake.of_frame (h : s.Awake) (hstored : t.Stored)
    (hcontrol : t.control ≠ .resumeNotifying → s.control ≠ .resumeNotifying)
    (hresume : t.mResume = true → s.mResume = true)
    (harr : ∀ phase ∈ t.mThreadArr, phase ∈ s.mThreadArr ∨ phase.stalled = false) : t.Awake := by
  refine ⟨hstored, ?_⟩
  intro htrue hidle phase hphase
  rcases harr phase hphase with hold | hnew
  · exact h.notStalled (hresume htrue) (hcontrol hidle) phase hold
  · exact hnew

theorem Awake.call (h : s.Awake) {control : Control} (hidle : s.control = .idle)
    (hstored : Stored { s with control }) : Awake { s with control } := by
  refine h.of_frame hstored (fun _ => ?_) id fun _ => .inl
  rw [hidle]
  rintro ⟨⟩

/-- The notification wakes the workers that are blocked, and no other. -/
theorem stalled_notifyAll (s : ThreadPool τ) :
    (∀ phase ∈ s.notifyAll.mThreadArr, phase.stalled = false) ↔ .blocking ∉ s.mThreadArr := by
  simp only [notifyAll, List.forall_mem_map]
  constructor
  · intro h hblocking
    cases h .blocking hblocking
  · intro h phase hphase
    cases phase with
    | blocking => exact absurd hphase h
    | _ => rfl

/-- The controlling thread notifies, or its step keeps the invariant. -/
theorem ControlSteps.awake_or_notify (h : s.Awake) (hsteps : s.ControlSteps t) :
    s.control = .resumeNotifying ∧ t = { s.notifyAll with control := .idle } ∨
      s.control ≠ .resumeNotifying ∧ t.Awake := by
  cases hsteps with
  | notify hcontrol => exact .inl ⟨hcontrol, rfl⟩
  | startThread hcontrol hi =>
      have hother : s.control ≠ .resumeNotifying := by simp [hcontrol]
      refine .inr ⟨hother, h.of_frame (by rintro ⟨⟩) (fun _ => hother) id ?_⟩
      intro phase hphase
      rcases List.mem_append.1 hphase with hold | hnew
      · exact .inl hold
      · rw [List.mem_singleton.1 hnew]
        exact .inr rfl
  | store hcontrol =>
      have hother : s.control ≠ .resumeNotifying := by simp [hcontrol]
      refine .inr ⟨hother, h.of_frame (by rintro ⟨⟩) (fun _ => hother) ?_ fun _ => .inl⟩
      rintro ⟨⟩
  | _ =>
      have hother : s.control ≠ .resumeNotifying := by simp [*]
      exact .inr ⟨hother, h.of_frame (by rintro ⟨⟩) (fun _ => hother) id fun _ => .inl⟩

/-- A worker that moves keeps the invariant: it stalls on `m_resume` false only. -/
theorem Awake.work (h : s.Awake) {worker : ℕ} {a b : WorkerPhase τ} (ht : s.WorkSteps a t b)
    (hworker : s.mThreadArr[worker]? = some a) :
    Awake { t with mThreadArr := s.mThreadArr.set worker b } := by
  obtain ⟨-, hcontrol, -, hresume⟩ := ht.frame
  have hstored : t.Stored := fun hnotifying =>
    hresume.trans (h.stored (hcontrol.symm.trans hnotifying))
  refine ⟨hstored, ?_⟩
  intro htrue hidle phase hphase
  have htrue' : s.mResume = true := hresume.symm.trans htrue
  have hidle' : s.control ≠ .resumeNotifying := hcontrol ▸ hidle
  rcases List.mem_or_eq_of_mem_set hphase with hold | rfl
  · exact h.notStalled htrue' hidle' phase hold
  · cases ht with
    | fail hfalse =>
        rw [htrue'] at hfalse
        cases hfalse
    | block => cases h.notStalled htrue' hidle' .blocking (List.mem_of_getElem? hworker)
    | _ => rfl

variable [DecidableEq τ]

instance (s : ThreadPool τ) (a : PoolAction τ) : Decidable (s.NotifiesAll a) :=
  inferInstanceAs (Decidable (_ → _ → _ ∉ s.mThreadArr))

theorem Stored.step (h : s.Stored) {a : PoolAction τ} (hstep : s.step a = some t) : t.Stored := by
  cases step_cases hstep with
  | resume hcontrol => exact fun _ => rfl
  | control hsteps => cases hsteps <;> rintro ⟨⟩
  | work hworker hsteps =>
      obtain ⟨-, hcontrol, -, hresume⟩ := hsteps.frame
      intro hnotifying
      exact hresume.trans (h (hcontrol.symm.trans hnotifying))
  | setNumThreads num hcontrol => rintro ⟨⟩
  | pause hcontrol => rintro ⟨⟩
  | destroy hcontrol => rintro ⟨⟩
  | _ => exact h

/-- A step keeps the invariant, except that of `Resume` when it misses a worker. -/
theorem Awake.step_iff (h : s.Awake) {a : PoolAction τ} (hstep : s.step a = some t) :
    t.Awake ↔ s.NotifiesAll a := by
  have hstored : t.Stored := h.stored.step hstep
  cases step_cases hstep with
  | control hsteps =>
      rcases hsteps.awake_or_notify h with ⟨hnotifying, rfl⟩ | ⟨hother, ht⟩
      · have hall : s.NotifiesAll .control ↔ .blocking ∉ s.mThreadArr :=
          ⟨fun hall => hall rfl hnotifying, fun hnone _ _ => hnone⟩
        rw [hall, ← stalled_notifyAll]
        constructor
        · intro ht
          exact ht.notStalled (h.stored hnotifying) (by rintro ⟨⟩)
        · intro hphases
          exact ⟨hstored, fun _ _ => hphases⟩
      · exact iff_of_true ht fun _ hnotifying => absurd hnotifying hother
  | resume hcontrol =>
      refine iff_of_true ⟨hstored, ?_⟩ (by rintro ⟨⟩)
      intro _ hidle
      exact absurd rfl hidle
  | work hworker hsteps => exact iff_of_true (h.work hsteps hworker) (by rintro ⟨⟩)
  | @pop worker task hworker hyields =>
      refine iff_of_true (h.of_frame hstored id id ?_) (by rintro ⟨⟩)
      intro phase hphase
      rcases List.mem_or_eq_of_mem_set hphase with hold | rfl
      · exact .inl hold
      · cases task <;> exact .inr rfl
  | wake hworker =>
      refine iff_of_true (h.of_frame hstored id id ?_) (by rintro ⟨⟩)
      intro phase hphase
      rcases List.mem_or_eq_of_mem_set hphase with hold | rfl
      · exact .inl hold
      · exact .inr rfl
  | setNumThreads num hcontrol => exact iff_of_true (h.call hcontrol hstored) (by rintro ⟨⟩)
  | pause hcontrol => exact iff_of_true (h.call hcontrol hstored) (by rintro ⟨⟩)
  | destroy hcontrol => exact iff_of_true (h.call hcontrol hstored) (by rintro ⟨⟩)
  | addTask task priority => exact iff_of_true (h.of_frame hstored id id fun _ => .inl) (by rintro ⟨⟩)
  | timeout hworker => exact iff_of_true h (by rintro ⟨⟩)

/-- No worker is stranded after a step from a state with the invariant. -/
theorem Awake.not_stranded_step (h : s.Awake) {a : PoolAction τ} (hstep : s.step a = some t) :
    ¬t.Stranded := by
  by_cases hall : s.NotifiesAll a
  · exact ((h.step_iff hstep).2 hall).not_stranded
  · simp only [NotifiesAll, not_forall] at hall
    obtain ⟨rfl, hnotifying, -⟩ := hall
    simp only [step, controlStep, hnotifying] at hstep
    cases hstep
    rintro ⟨-, -, hblocked⟩
    obtain ⟨phase, -, hphase⟩ := List.mem_map.1 hblocked
    cases phase <;> cases hphase

/-- The invariant says that no worker is stranded, and that none can be stranded by one step. -/
theorem awake_iff (hstored : s.Stored) :
    s.Awake ↔ ¬s.Stranded ∧ ∀ a t, s.step a = some t → ¬t.Stranded := by
  constructor
  · intro h
    exact ⟨h.not_stranded, fun a t hstep => h.not_stranded_step hstep⟩
  · rintro ⟨hnow, hnext⟩
    refine ⟨hstored, ?_⟩
    intro hresume hcontrol phase hphase
    cases phase with
    | blocked => exact absurd ⟨hresume, hcontrol, hphase⟩ hnow
    | blocking =>
        -- the worker blocks next
        obtain ⟨worker, hworker⟩ := List.mem_iff_getElem?.1 hphase
        have hstep : s.step (.work worker) = some { s with
            mMutex := false, mThreadArr := s.mThreadArr.set worker .blocked } := by
          simp only [step, hworker, Option.bind_some, workStep, Option.map_some]
        have hlt := (List.getElem?_eq_some_iff.1 hworker).1
        exact absurd ⟨hresume, hcontrol, List.mem_set hlt _⟩ (hnext _ _ hstep)
    | _ => rfl

end ThreadPool

/-! ### The result -/

open ThreadPool

variable {τ : Type} [DecidableEq τ]

/-- **When no worker is stranded.** In a run of a pool of any size, no state that is reached has a
stranded worker, and none that is one step away, exactly when no worker is between its test and its
wait at any of the notifications that `Resume` makes. -/
theorem resume_strands_no_worker {numThreads : ℕ} {actions : List (PoolAction τ)}
    {s : ThreadPool τ} (hrun : Transition.run step (start numThreads) actions = some s) :
    (∀ pre t, pre <+: actions → Transition.run step (start numThreads) pre = some t →
      ¬t.Stranded ∧ ∀ a u, t.step a = some u → ¬u.Stranded) ↔
      Transition.Along step NotifiesAll (start numThreads) actions := by
  rw [← Transition.prefixes_iff_along (fun _ _ _ h hstep => h.step_iff hstep)
    (awake_start numThreads) hrun]
  refine forall_congr' fun pre => forall_congr' fun t => forall_congr' fun _ => ?_
  refine forall_congr' fun hpre => ?_
  have hstored : t.Stored := Transition.run_invariant Stored
    (fun _ _ _ h hstep => h.step hstep) (awake_start numThreads).stored hpre
  exact (awake_iff hstored).symm

/-- A pool of one worker is paused: the worker has found `m_resume` false. -/
def pauseOne : List (PoolAction ℕ) :=
  [.pause, .control, .control, .control, .control, .pop 0 .pauseTask, .work 0, .work 0, .work 0,
    .control]

/-- The worker waits before `Resume` is called, and leaves `PauseTask`. -/
def resumeOne : List (PoolAction ℕ) :=
  pauseOne ++ [.work 0, .resume, .control, .work 0, .work 0, .work 0, .work 0]

theorem resume_strands_no_worker_resumeOne :
    ∃ s, Transition.run step (start 1) resumeOne = some s ∧ s.mThreadArr = [.popping] ∧
      ∀ pre t, pre <+: resumeOne → Transition.run step (start 1) pre = some t → ¬t.Stranded := by
  have hrun : (Transition.run step (start 1) resumeOne).isSome := rfl
  obtain ⟨s, hs⟩ := Option.isSome_iff_exists.1 hrun
  have halong : Transition.Along step NotifiesAll (start 1) resumeOne := by decide
  refine ⟨s, hs, ?_, ?_⟩
  · cases hs
    rfl
  · intro pre t hpre ht
    exact ((resume_strands_no_worker hs).2 halong pre t hpre ht).1

/-- `Resume` runs while the worker is between its test and its wait. -/
theorem resume_misses_worker :
    ¬∀ (numThreads : ℕ) (actions : List (PoolAction ℕ)) (s : ThreadPool ℕ),
      Transition.run step (start numThreads) actions = some s → ¬s.Stranded := by
  intro h
  have hmissed := h 1 (pauseOne ++ [.resume, .control, .work 0]) _ rfl
  exact hmissed ⟨rfl, by rintro ⟨⟩, List.mem_singleton_self _⟩

end IotDrive
