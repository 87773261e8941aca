/-
What holds of every run of the scheduler.

No task is lost, and each one that `ThreadFunc` takes has a least deadline; no task is stranded
without a timer, an expiry or a call of `AddTask` that will attend to it; but a task can be
executed early, since `AddTask` arms the timer again also for a current task that has expired.

Main definitions:

* `SchedulerSystem.Conserved` — the tasks that were added are those taken and those in the queue;
* `DeadlineOf` — the deadline that a call of `AddTask` computes;
* `SchedulerSystem.Attended` — what there is for a current task;
* `Due` — an execution at or after the deadline;
* `SchedulerSystem.Arms` — the calls of `SetTime` that arm the timer for a task still to expire.

Main results:

* `tasks_conserved` — **conservation and order**;
* `current_attended` — **no stranded task**;
* `every_execution_due` — **no early execution** in the runs in which every call of `SetTime` by
  `AddTask` finds a current task and no expiry unhandled;
* `early_execution` — a run in which a task is executed early.
-/

import IotDrive.Scheduler
import Mathlib.Data.Multiset.AddSub

set_option relaxedAutoImplicit false
set_option autoImplicit false

namespace IotDrive

open History

variable {τ : Type}

/-! ### Conservation and order -/

/-- The tasks that were added so far. -/
def addedItems (history : List (SchedulerEvent τ)) : List (Item τ) :=
  history.filterMap fun
    | .added item => some item
    | _ => none

/-- The items that the calls of `AddTask` so far have made, each at its time and for its delay. -/
def madeItems (history : List (SchedulerEvent τ)) : List (Item τ) :=
  history.filterMap fun
    | .called task now miliSecDelta => some (.make task now miliSecDelta)
    | _ => none

/-- The tasks that `ThreadFunc` has taken so far. -/
def takenItems (history : List (SchedulerEvent τ)) : List (Item τ) :=
  history.filterMap fun
    | .taken item => some item
    | _ => none

/-- The deadline of a call of `AddTask`: the milliseconds at its time and the delay are added as
`long long`s, and the sum is split into seconds and nanoseconds. -/
def DeadlineOf (now miliSecDelta : ℕ) (d : Deadline) : Prop :=
  d.tvSec = (longLong (now / 1000000 + miliSecDelta)).tdiv 1000 ∧
    d.tvNsec = (longLong (now / 1000000 + miliSecDelta)).tmod 1000 * 1000000

/-- Without an overflow the deadline lies the delay after the millisecond of the call. -/
theorem DeadlineOf.ns_eq {now miliSecDelta : ℕ} {d : Deadline} (h : DeadlineOf now miliSecDelta d)
    (hlt : now / 1000000 + miliSecDelta < 2 ^ 63) :
    d.ns = (now / 1000000 + miliSecDelta : ℕ) * 1000000 := by
  have hd : d = .ofMilliseconds (longLong (now / 1000000 + miliSecDelta)) := Deadline.ext h.1 h.2
  have hcast : ((now / 1000000 + miliSecDelta : ℕ) : ℤ) = now / 1000000 + miliSecDelta := by omega
  rw [hd, Deadline.ns_ofMilliseconds, longLong_of_lt (by omega) (by omega), hcast]

theorem exists_call_of_mem {history : List (SchedulerEvent τ)} {item : Item τ}
    (h : item ∈ madeItems history) : ∃ now miliSecDelta,
      .called item.task now miliSecDelta ∈ history ∧ DeadlineOf now miliSecDelta item.deadline := by
  obtain ⟨e, he, heq⟩ := List.mem_filterMap.1 h
  cases e with
  | called task now miliSecDelta =>
      cases heq
      exact ⟨now, miliSecDelta, he, rfl, rfl⟩
  | _ => cases heq

/-- Every item that was made has been added or waits for the lock. -/
def Made (computed : List (Item τ)) (history : List (SchedulerEvent τ)) : Prop :=
  (madeItems history).Perm (addedItems history ++ computed)

theorem made_start (now : ℕ) : Made (SchedulerSystem.start now : SchedulerSystem τ).computed [] :=
  List.Perm.refl _

section Conservation

variable [DecidableEq τ]

/-- The tasks that were added and not yet taken. -/
def outstanding (history : List (SchedulerEvent τ)) : Multiset (Item τ) :=
  (addedItems history : Multiset (Item τ)) - takenItems history

/-- A task that is taken has a least deadline among those added and not yet taken. -/
def TakesLeast (past : List (SchedulerEvent τ)) : SchedulerEvent τ → Prop
  | .taken item => ∀ other ∈ outstanding past, item.deadline.ns ≤ other.deadline.ns
  | _ => True

namespace SchedulerSystem

variable {s t : SchedulerSystem τ} {history out : List (SchedulerEvent τ)}
  {a : SchedulerAction τ}

/-- The tasks that were added are those taken and those in the queue, and its head is least. -/
structure Conserved (queue : HeadedQueue (Item τ)) (history : List (SchedulerEvent τ)) : Prop where
  items : (addedItems history).Perm (takenItems history ++ queue.items)
  ordered : queue.Ordered Scheduler.key
  least : Every TakesLeast history

theorem conserved_start (now : ℕ) :
    Conserved (start now : SchedulerSystem τ).scheduler.queue [] := by
  refine ⟨List.Perm.refl _, ⟨fun _ => rfl, ?_⟩, trivial⟩
  intro h hhead
  cases hhead

/-- What is outstanding is what waits. -/
theorem Conserved.outstanding_eq {queue : HeadedQueue (Item τ)} (h : Conserved queue history) :
    outstanding history = (queue.items : Multiset (Item τ)) := by
  have hitems : (addedItems history : Multiset (Item τ)) =
      takenItems history + queue.items := by
    rw [Multiset.coe_add]
    exact Multiset.coe_eq_coe.2 h.items
  rw [outstanding, hitems, Multiset.add_comm, Multiset.add_sub_cancel_right]

theorem Conserved.runs (h : Conserved s.scheduler.queue history) (hruns : Runs s t out) :
    Conserved t.scheduler.queue (out ++ history) := by
  cases hruns with
  | idle _ => exact h
  | @takes i scheduler hhead htakes _ =>
      refine ⟨?_, htakes.ordered, ?_, h.least⟩
      · have htaken : takenItems (.taken i :: history) = i :: takenItems history := rfl
        have hadded : addedItems (.taken i :: history) = addedItems history := rfl
        rw [List.singleton_append, htaken, hadded]
        exact h.items.trans ((htakes.items.append_left _).trans List.perm_middle)
      · intro other hother
        have hwaiting : other ∈ outstanding history := hother
        rw [h.outstanding_eq, Multiset.mem_coe] at hwaiting
        exact h.ordered.le htakes hwaiting

theorem made_step (h : Made s.computed history) (hstep : s.step a = some (t, out)) :
    Made t.computed (out ++ history) := by
  have hruns : ∀ {s t : SchedulerSystem τ} {out : List (SchedulerEvent τ)}, Runs s t out →
      Made s.computed history → Made t.computed (out ++ history) := by
    intro s t out hruns h
    cases hruns with
    | idle _ => exact h
    | takes _ _ _ => exact h
  cases step_cases hstep with
  | pass _ => exact h
  | setTime _ => exact h
  | expire _ _ => exact h
  | execute _ => exact h
  | threadFuncAgain hthread => exact hruns hthread h
  | threadFunc _ hthread => exact hruns hthread h
  | compute task miliSecDelta => exact (h.cons _).trans List.perm_middle.symm
  | @addTask item hitem =>
      have hcomputed := (List.perm_cons_erase hitem).append_left (addedItems history)
      exact h.trans (hcomputed.trans List.perm_middle)

/-- Every step conserves the tasks. -/
theorem Conserved.step (h : Conserved s.scheduler.queue history)
    (hstep : s.step a = some (t, out)) : Conserved t.scheduler.queue (out ++ history) := by
  cases step_cases hstep with
  | pass _ => exact h
  | compute _ _ => exact ⟨h.items, h.ordered, trivial, h.least⟩
  | setTime _ => exact h
  | expire _ _ => exact h
  | execute _ => exact ⟨h.items, h.ordered, trivial, h.least⟩
  | threadFuncAgain hruns => exact h.runs hruns
  | threadFunc _ hruns => exact Conserved.runs (s := { s with expiries := s.expiries - 1 }) h hruns
  | @addTask item _ =>
      have hadded : addedItems (.added item :: history) = item :: addedItems history := rfl
      have htaken : takenItems (.added item :: history) = takenItems history := rfl
      dsimp only
      rw [Scheduler.queue_addTask]
      refine ⟨?_, h.ordered.insert item, trivial, h.least⟩
      have hinsert := s.scheduler.queue.items_insert Scheduler.key item
      rw [List.singleton_append, hadded, htaken]
      exact (h.items.cons item).trans (List.perm_middle.symm.trans (hinsert.symm.append_left _))

theorem made_of_run {now : ℕ} {actions : List (SchedulerAction τ)}
    (hrun : Transition.run (logged step) (start now, []) actions = some (s, history)) :
    Made s.computed history :=
  History.invariant (I := fun s history => Made s.computed history)
    (fun _ _ _ _ _ h hstep => made_step h hstep) (made_start now) hrun

theorem conserved_of_run {now : ℕ} {actions : List (SchedulerAction τ)}
    (hrun : Transition.run (logged step) (start now, []) actions = some (s, history)) :
    Conserved s.scheduler.queue history :=
  History.invariant (I := fun s history => Conserved s.scheduler.queue history)
    (fun _ _ _ _ _ h hstep => h.step hstep) (conserved_start now) hrun

end SchedulerSystem

/-- **Conservation and order.** In every run, the tasks added so far are those taken for execution
together with the current task and the contents of the queue; without a current task the queue is
empty; and every task that was taken had a least deadline among the tasks then outstanding.  The
tasks added are those that the calls of `AddTask` have made, but for the calls that wait for the lock, and
each has the deadline of its call. -/
theorem tasks_conserved (now : ℕ) (actions : List (SchedulerAction τ)) {s : SchedulerSystem τ}
    {history : List (SchedulerEvent τ)}
    (hrun : Transition.run (logged SchedulerSystem.step) (SchedulerSystem.start now, []) actions =
      some (s, history)) :
    (addedItems history : Multiset (Item τ)) = (takenItems history : Multiset (Item τ)) +
        ((s.scheduler.queue.head.toList : Multiset (Item τ)) + (s.scheduler.mWq : Multiset _)) ∧
      (s.scheduler.mCurrentTask.1 = none → s.scheduler.mWq = []) ∧
      Every TakesLeast history ∧
      (madeItems history : Multiset (Item τ)) = (addedItems history : Multiset (Item τ)) +
        (s.computed : Multiset (Item τ)) ∧
      ∀ item ∈ addedItems history, ∃ now miliSecDelta,
        .called item.task now miliSecDelta ∈ history ∧
        DeadlineOf now miliSecDelta item.deadline ∧
        (now / 1000000 + miliSecDelta < 2 ^ 63 →
          item.deadline.ns = (now / 1000000 + miliSecDelta : ℕ) * 1000000) := by
  have h := SchedulerSystem.conserved_of_run hrun
  have hmade := SchedulerSystem.made_of_run hrun
  refine ⟨?_, fun hnone => h.ordered.empty ?_, h.least, ?_, ?_⟩
  · rw [Multiset.coe_add, Multiset.coe_add]
    exact Multiset.coe_eq_coe.2 h.items
  · rw [Scheduler.queue, hnone]
    rfl
  · rw [Multiset.coe_add]
    exact Multiset.coe_eq_coe.2 hmade
  · intro item hitem
    have hin : item ∈ madeItems history := hmade.symm.subset (List.mem_append_left _ hitem)
    obtain ⟨now, miliSecDelta, hcalled, hdeadline⟩ := exists_call_of_mem hin
    exact ⟨now, miliSecDelta, hcalled, hdeadline, hdeadline.ns_eq⟩

/-- A task for 5 ms and two for 3 ms, of which the one added last is taken first. -/
def tieRun : List (SchedulerAction ℕ) :=
  [.compute 1 5, .addTask (.make 1 0 5), .setTime, .compute 2 3, .compute 3 3,
    .addTask (.make 2 0 3), .addTask (.make 3 0 3), .setTime, .pass 3000000, .expire,
    .threadFunc (some (.make 2 0 3)), .threadFuncAgain (some (.make 1 0 5))]

theorem tasks_conserved_tie : ∃ s history,
    Transition.run (logged SchedulerSystem.step) (SchedulerSystem.start 0, []) tieRun =
        some (s, history) ∧
      takenItems history = [.make 2 0 3, .make 3 0 3] ∧ Every TakesLeast history ∧
      ∃ now miliSecDelta, .called 1 now miliSecDelta ∈ history ∧
        DeadlineOf now miliSecDelta (Item.make 1 0 5).deadline ∧
        (now / 1000000 + miliSecDelta < 2 ^ 63 →
          (Item.make 1 0 5).deadline.ns = (now / 1000000 + miliSecDelta : ℕ) * 1000000) := by
  refine ⟨_, _, rfl, rfl, ?_⟩
  have hconserved := tasks_conserved 0 tieRun rfl
  have hcall := hconserved.2.2.2.2 (.make 1 0 5) (List.mem_of_getLast? rfl)
  exact ⟨hconserved.2.2.1, hcall⟩

end Conservation

/-! ### No stranded task -/

namespace SchedulerSystem

variable {s t : SchedulerSystem τ} {history out : List (SchedulerEvent τ)}
  {a : SchedulerAction τ}

/-- If there is a current task, then the timer is armed for it, or an expiry has not been handled,
or a call of `AddTask` still has to arm the timer. -/
def Attended (s : SchedulerSystem τ) : Prop :=
  ∀ i, s.scheduler.queue.head = some i →
    s.scheduler.timer = some i.deadline ∨ 0 < s.expiries ∨ 0 < s.adders

/-- A run of `ThreadFunc` that finds a current task leaves the timer armed for the next one. -/
theorem Runs.attended (hruns : Runs s t out) : t.Attended := by
  intro j hj
  cases hruns with
  | idle hhead =>
      rw [hhead] at hj
      cases hj
  | @takes i scheduler _ _ htimer =>
      dsimp only at hj ⊢
      rcases htimer with ⟨hnone, -⟩ | ⟨j', hj', htimer⟩
      · rw [hnone] at hj
        cases hj
      · rw [hj'] at hj
        cases hj
        exact Or.inl htimer

theorem Attended.step [DecidableEq τ] (h : s.Attended) (hstep : s.step a = some (t, out)) :
    t.Attended := by
  cases step_cases hstep with
  | pass _ => exact h
  | compute _ _ => exact h
  | execute _ => exact h
  | threadFunc _ hruns => exact hruns.attended
  | threadFuncAgain hruns => exact hruns.attended
  | addTask _ => exact fun _ _ => Or.inr (Or.inr (Nat.succ_pos _))
  | expire _ _ => exact fun _ _ => Or.inr (Or.inl (Nat.succ_pos _))
  | setTime _ =>
      intro i hi
      left
      have hdeadline := s.scheduler.deadline_of_head hi
      rw [hdeadline]
      rfl

end SchedulerSystem

/-- **No stranded task.** In every reachable state with a task waiting there is a current task, and
the timer is armed with its deadline, or an expiry has not been handled yet, or a call of `AddTask`
has released the lock and not called `SetTime` yet. -/
theorem current_attended [DecidableEq τ] (now : ℕ) (actions : List (SchedulerAction τ))
    {s : SchedulerSystem τ} {history : List (SchedulerEvent τ)}
    (hrun : Transition.run (logged SchedulerSystem.step) (SchedulerSystem.start now, []) actions =
      some (s, history))
    (hwaiting : s.scheduler.mCurrentTask.1 ≠ none ∨ s.scheduler.mWq ≠ []) :
    s.scheduler.mCurrentTask.1 ≠ none ∧
      (s.scheduler.timer = some s.scheduler.mCurrentTask.2 ∨ 0 < s.expiries ∨ 0 < s.adders) := by
  have hordered := (SchedulerSystem.conserved_of_run hrun).ordered
  have hattended : s.Attended := History.invariant (I := fun s _ => s.Attended)
    (fun _ _ _ _ _ h hstep => h.step hstep) (fun _ hi => nomatch hi) hrun
  -- without a current task the queue is empty, so nothing waits
  cases htask : s.scheduler.mCurrentTask.1 with
  | none =>
      have hempty : s.scheduler.mWq = [] := hordered.empty (by rw [Scheduler.queue, htask]; rfl)
      rcases hwaiting with hcurrent | hwq
      · exact absurd htask hcurrent
      · exact absurd hempty hwq
  | some task =>
      exact ⟨nofun, hattended ⟨task, s.scheduler.mCurrentTask.2⟩
        (by rw [Scheduler.queue, htask]; rfl)⟩

/-- A task that was added, and is current, and whose timer has not been armed yet. -/
theorem current_attended_adding : ∃ s history,
    Transition.run (logged SchedulerSystem.step) (SchedulerSystem.start 0, [])
        [.compute 1 5, .addTask (.make 1 0 5)] = some (s, history) ∧
      s.scheduler.mCurrentTask.1 = some 1 ∧ s.scheduler.timer = none ∧ 0 < s.adders := by
  refine ⟨_, _, rfl, rfl, rfl, ?_⟩
  have hattended := current_attended 0 [.compute 1 5, .addTask (.make 1 0 5)] rfl
    (Or.inl (Option.some_ne_none 1))
  rcases hattended.2 with htimer | hexpiries | hadders
  · cases htimer
  · cases hexpiries
  · exact hadders

/-! ### No early execution -/

/-- An execution at or after the deadline. -/
def Due (_ : List (SchedulerEvent τ)) : SchedulerEvent τ → Prop
  | .executed item now => item.deadline.ns ≤ now
  | _ => True

namespace SchedulerSystem

variable {s t : SchedulerSystem τ} {history out : List (SchedulerEvent τ)}
  {a : SchedulerAction τ}

/-- The transitions when an expiry leads to exactly one run of `ThreadFunc`. -/
def stepOnce [DecidableEq τ] (s : SchedulerSystem τ) :
    SchedulerAction τ → Option (SchedulerSystem τ × List (SchedulerEvent τ))
  | .threadFuncAgain _ => none
  | a => s.step a

/-- A call of `SetTime` by `AddTask` finds a current task, and no expiry that is not handled. -/
def Arms (s : SchedulerSystem τ) : SchedulerAction τ → Prop
  | .setTime => s.expiries = 0 ∧ s.scheduler.mCurrentTask.1 ≠ none
  | _ => True

/-- At most one expiry is unhandled, and then the timer is not armed and the current task is due;
and the timer is only armed for a time at which the current task is due. -/
structure OnTime (s : SchedulerSystem τ) : Prop where
  taken : ∀ i ∈ s.taken, i.deadline.ns ≤ s.now
  armed : ∀ deadline, s.scheduler.timer = some deadline → s.expiries = 0 ∧
    ∃ i, s.scheduler.queue.head = some i ∧ i.deadline.ns ≤ deadline.ns
  expired : 0 < s.expiries → s.expiries = 1 ∧
    ∃ i, s.scheduler.queue.head = some i ∧ i.deadline.ns ≤ s.now

theorem onTime_start (now : ℕ) : (start now : SchedulerSystem τ).OnTime := by
  refine ⟨fun i hi => ?_, fun deadline harmed => ?_, fun hpos => ?_⟩
  · cases hi
  · cases harmed
  · cases hpos

/-- The only run of `ThreadFunc` for an expiry takes a task that is due. -/
theorem OnTime.runs (h : s.OnTime) (hexpiries : 0 < s.expiries)
    (hruns : Runs { s with expiries := s.expiries - 1 } t out) :
    t.OnTime ∧ Every Due out := by
  obtain ⟨hone, i, hi, hdue⟩ := h.expired hexpiries
  have hzero : s.expiries - 1 = 0 := by omega
  -- an armed timer would mean that no expiry is unhandled
  have hdisarmed : s.scheduler.timer = none := by
    cases htimer : s.scheduler.timer with
    | none => rfl
    | some deadline =>
        have hunhandled := (h.armed deadline htimer).1
        omega
  cases hruns with
  | idle hhead =>
      have hnone : s.scheduler.queue.head = none := hhead
      rw [hi] at hnone
      cases hnone
  | @takes j scheduler hhead htakes htimer =>
      have hj : s.scheduler.queue.head = some j := hhead
      rw [hi] at hj
      cases hj
      refine ⟨⟨?_, ?_, ?_⟩, trivial, trivial⟩
      · intro k hk
        rcases List.mem_cons.1 hk with rfl | hk
        · exact hdue
        · exact h.taken k hk
      · intro deadline harmed
        rcases htimer with ⟨-, hsame⟩ | ⟨k, hk, htimer⟩
        · have hsame' : scheduler.timer = none := hsame.trans hdisarmed
          rw [hsame'] at harmed
          cases harmed
        · rw [htimer] at harmed
          cases harmed
          exact ⟨hzero, k, hk, le_rfl⟩
      · intro hpos
        have hpos' : 0 < s.expiries - 1 := hpos
        omega

/-- A step whose `SetTime` arms the timer for a task still to expire keeps the scheduler on time,
and executes no task early. -/
theorem OnTime.step [DecidableEq τ] (h : s.OnTime) (harms : s.Arms a)
    (hstep : s.stepOnce a = some (t, out)) : t.OnTime ∧ Every Due out := by
  have hstep' : s.step a = some (t, out) := by
    cases a with
    | threadFuncAgain next => cases hstep
    | _ => exact hstep
  cases step_cases hstep' with
  | threadFuncAgain _ => cases hstep
  | threadFunc hexpiries hruns => exact h.runs hexpiries hruns
  | compute _ _ => exact ⟨⟨h.taken, h.armed, h.expired⟩, trivial, trivial⟩
  | pass nanoseconds =>
      have hlater : (s.now : ℤ) ≤ (s.now + nanoseconds : ℕ) :=
        Int.ofNat_le.2 (Nat.le_add_right s.now nanoseconds)
      refine ⟨⟨fun i hi => (h.taken i hi).trans hlater, h.armed, ?_⟩, trivial⟩
      intro hpos
      obtain ⟨hone, i, hi, hdue⟩ := h.expired hpos
      exact ⟨hone, i, hi, hdue.trans hlater⟩
  | execute hitem =>
      exact ⟨⟨fun i hi => h.taken i (List.mem_of_mem_erase hi), h.armed, h.expired⟩,
        h.taken _ hitem, trivial⟩
  | @addTask item _ =>
      -- the current task can only be replaced by one that is due at least as early
      obtain ⟨i, hi, hle⟩ := s.scheduler.head_addTask item
      refine ⟨⟨h.taken, ?_, ?_⟩, trivial, trivial⟩
      · intro deadline harmed
        obtain ⟨hzero, j, hj, hdue⟩ := h.armed deadline
          ((s.scheduler.timer_addTask item).symm.trans harmed)
        exact ⟨hzero, i, hi, (hle j hj).trans hdue⟩
      · intro hpos
        obtain ⟨hone, j, hj, hdue⟩ := h.expired hpos
        exact ⟨hone, i, hi, (hle j hj).trans hdue⟩
  | expire htimer hdue =>
      rename_i deadline
      obtain ⟨hzero, i, hi, hle⟩ := h.armed deadline htimer
      refine ⟨⟨h.taken, ?_, fun _ => ⟨?_, i, hi, hle.trans hdue⟩⟩, trivial⟩
      · intro _ harmed
        cases harmed
      · exact congrArg (· + 1) hzero
  | setTime _ =>
      obtain ⟨hzero, hcurrent⟩ := harms
      refine ⟨⟨h.taken, ?_, h.expired⟩, trivial⟩
      intro deadline harmed
      cases harmed
      cases htask : s.scheduler.mCurrentTask.1 with
      | none => exact absurd htask hcurrent
      | some task =>
          refine ⟨hzero, ⟨task, s.scheduler.mCurrentTask.2⟩, ?_, le_rfl⟩
          rw [Scheduler.queue_setTime, Scheduler.queue, htask]
          rfl

instance (s : SchedulerSystem τ) : ∀ a, Decidable (s.Arms a)
  | .setTime =>
      have : Decidable (s.scheduler.mCurrentTask.1 ≠ none) :=
        match s.scheduler.mCurrentTask.1 with
        | none => isFalse fun h => h rfl
        | some _ => isTrue nofun
      inferInstanceAs (Decidable (s.expiries = 0 ∧ s.scheduler.mCurrentTask.1 ≠ none))
  | .pass _ | .compute _ _ | .addTask _ | .expire | .threadFunc _ | .threadFuncAgain _
  | .execute _ => isTrue trivial

end SchedulerSystem

/-- **No early execution.** In every run in which each call of `SetTime` by `AddTask` finds a
current task and no unhandled expiry, every task is executed at or after its deadline. -/
theorem every_execution_due [DecidableEq τ] (now : ℕ) (actions : List (SchedulerAction τ))
    {s : SchedulerSystem τ} {history : List (SchedulerEvent τ)}
    (harms : Transition.Along (logged SchedulerSystem.stepOnce)
      (fun s a => s.1.Arms a) (SchedulerSystem.start now, []) actions)
    (hrun : Transition.run (logged SchedulerSystem.stepOnce) (SchedulerSystem.start now, [])
      actions = some (s, history)) : Every Due history := by
  have hstart : (SchedulerSystem.start now : SchedulerSystem τ).OnTime ∧
      Every Due ([] : List (SchedulerEvent τ)) :=
    ⟨SchedulerSystem.onTime_start now, trivial⟩
  have hinv : s.OnTime ∧ Every Due history := by
    refine History.invariant_along (I := fun s history => s.OnTime ∧ Every Due history)
      (fun s _ a => s.Arms a) ?_ hstart harms hrun
    rintro s a t out history ⟨honTime, hevery⟩ harms hstep
    obtain ⟨honTime', hout⟩ := honTime.step harms hstep
    exact ⟨honTime', hout.append (fun _ _ _ h => h) hevery⟩
  exact hinv.2

/-- A task that is added, expires and is executed. -/
def singleRun : List (SchedulerAction ℕ) :=
  [.compute 1 5, .addTask (.make 1 0 5), .setTime, .pass 5000000, .expire, .threadFunc none,
    .execute (.make 1 0 5)]

theorem every_execution_due_singleRun : ∃ s history,
    Transition.run (logged SchedulerSystem.stepOnce) (SchedulerSystem.start 0, []) singleRun =
        some (s, history) ∧
      takenItems history = [.make 1 0 5] ∧ Every Due history := by
  refine ⟨_, _, rfl, rfl, ?_⟩
  have hdue := every_execution_due 0 singleRun (by decide) rfl
  exact hdue

/-- A task with a deadline of 10 ms and one with a deadline of 100 ms.  The second call of `SetTime`
comes when the first deadline has expired, and so the timer expires twice. -/
def earlyRun : List (SchedulerAction ℕ) :=
  [.compute 1 10, .addTask (.make 1 0 10), .setTime, .compute 2 100, .addTask (.make 2 0 100),
    .pass 10000000, .expire, .setTime, .expire, .threadFunc (some (.make 2 0 100)),
    .threadFunc none, .execute (.make 2 0 100)]

/-- The second task is executed at 10 ms. -/
theorem early_execution : ∃ s history,
    Transition.run (logged SchedulerSystem.stepOnce) (SchedulerSystem.start 0, []) earlyRun =
      some (s, .executed (.make 2 0 100) 10000000 :: history) ∧
    ¬ Every Due (.executed (.make 2 0 100) 10000000 :: history) := by
  have hlate : ¬ (Item.make 2 0 100).deadline.ns ≤ 10000000 := by decide
  exact ⟨_, _, rfl, fun h => hlate h.1⟩

end IotDrive
