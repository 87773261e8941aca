/-
The scheduler of `scheduler.hpp` and `scheduler.cpp`.

The task with the earliest deadline is kept in `m_currentTask`, the others wait in the priority
queue `m_wq`, and one timer is armed for the current task.  `AddTask` changes both under the lock
and arms the timer after it has released the lock; `ThreadFunc`, which an expiry of the timer
starts on a thread of its own, takes the current task and arms the timer under the lock.  Arming the
timer is taken to succeed.

Main definitions:

* `Deadline`, `Item` — an absolute time in seconds and nanoseconds, and a task with its deadline;
* `Scheduler` — the data of the class; `Scheduler.addTask`, `Scheduler.setTime` and
  `Scheduler.threadFunc` — its functions, each up to where it lets go of the lock;
* `SchedulerSystem` — the scheduler with the clock, the timer and the threads under way;
* `SchedulerSystem.step` — what can happen in it.

Main results:

* `Scheduler.queue_addTask`, `Scheduler.threadFunc_cases` — the functions are those of a queue with
  its head kept apart;
* `SchedulerSystem.step_cases` — what each transition needs and does.
-/

import IotDrive.Library.HeadedQueue
import IotDrive.Library.History
import Mathlib.Algebra.Order.Group.Int
import Mathlib.Algebra.Order.Group.Nat

set_option relaxedAutoImplicit false
set_option autoImplicit false

namespace IotDrive

/-! ### Deadlines -/

/-- A `long long`; a sum that overflows wraps around. -/
def longLong (x : ℤ) : ℤ := (BitVec.ofInt 64 x).toInt

/-- A sum that does not overflow is exact. -/
theorem longLong_of_lt {x : ℤ} (h : 0 ≤ x) (hlt : x < 2 ^ 63) : longLong x = x := by
  rw [longLong, BitVec.toInt_ofInt]
  exact Int.bmod_eq_of_le (by omega) (by omega)

/-- `itimerspec::it_value`, an absolute time.  Both numbers have the sign of the milliseconds that
they are made from.  The clock stands past the epoch, so this is never the zero that disarms a
timer. -/
@[ext] structure Deadline where
  tvSec : ℤ
  tvNsec : ℤ
  signs : 0 ≤ tvSec ∧ 0 ≤ tvNsec ∧ tvNsec < 1000000000 ∨
    tvSec ≤ 0 ∧ tvNsec ≤ 0 ∧ -1000000000 < tvNsec
  deriving DecidableEq

/-- The deadline that lies `totalMilliseconds` after the epoch; the division rounds to zero. -/
def Deadline.ofMilliseconds (totalMilliseconds : ℤ) : Deadline where
  tvSec := totalMilliseconds.tdiv 1000
  tvNsec := totalMilliseconds.tmod 1000 * 1000000
  signs := by
    have hlt := Int.tmod_lt_of_pos totalMilliseconds (show (0 : ℤ) < 1000 by decide)
    have hgt := Int.lt_tmod_of_pos totalMilliseconds (show (0 : ℤ) < 1000 by decide)
    rcases le_total 0 totalMilliseconds with h | h
    · have hsec := Int.tdiv_nonneg h (show (0 : ℤ) ≤ 1000 by decide)
      have hnsec := Int.tmod_nonneg 1000 h
      omega
    · have hneg : 0 ≤ -totalMilliseconds := by omega
      have hsec := Int.tdiv_nonneg hneg (show (0 : ℤ) ≤ 1000 by decide)
      have hnsec := Int.tmod_nonneg 1000 hneg
      rw [Int.neg_tdiv] at hsec
      rw [Int.neg_tmod] at hnsec
      omega

/-- The nanoseconds from the epoch to the deadline. -/
def Deadline.ns (d : Deadline) : ℤ := d.tvSec * 1000000000 + d.tvNsec

/-- `B_SEC_BIG(a, b) || (B_SEC_EQUAL(a, b) && B_NSEC_BIG(a, b))`. -/
def Deadline.Before (a b : Deadline) : Prop :=
  a.tvSec < b.tvSec ∨ a.tvSec = b.tvSec ∧ a.tvNsec < b.tvNsec

instance (a b : Deadline) : Decidable (a.Before b) := instDecidableOr

/-- The comparison of the seconds and then of the nanoseconds is that of the times. -/
theorem Deadline.before_iff (a b : Deadline) : a.Before b ↔ a.ns < b.ns := by
  have ha := a.signs
  have hb := b.signs
  simp only [Before, ns]
  constructor
  · rintro (hsec | ⟨hsec, hnsec⟩) <;> omega
  · intro h
    by_cases hsec : a.tvSec < b.tvSec
    · exact Or.inl hsec
    · exact Or.inr ⟨by omega, by omega⟩

/-- Splitting into seconds and nanoseconds loses nothing. -/
@[simp] theorem Deadline.ns_ofMilliseconds (totalMilliseconds : ℤ) :
    (ofMilliseconds totalMilliseconds).ns = totalMilliseconds * 1000000 := by
  have hsplit := Int.mul_tdiv_add_tmod totalMilliseconds 1000
  simp only [ns, ofMilliseconds]
  omega

/-- `Scheduler::Item`. -/
structure Item (τ : Type) where
  task : τ
  deadline : Deadline
  deriving DecidableEq

/-- The item that `AddTask` makes at the time `now`, in nanoseconds, for a delay in milliseconds. -/
def Item.make {τ : Type} (task : τ) (now miliSecDelta : ℕ) : Item τ where
  task
  deadline := .ofMilliseconds (longLong (now / 1000000 + miliSecDelta))

/-! ### The class -/

/-- `m_currentTask`, whose second component stays when the first one becomes null; `m_wq`; and what
the timer is armed for. -/
structure Scheduler (τ : Type) where
  mCurrentTask : Option τ × Deadline
  mWq : List (Item τ)
  timer : Option Deadline

namespace Scheduler

variable {τ : Type} {s t : Scheduler τ}

/-- A scheduler without tasks; the deadline in `m_currentTask` is zero. -/
def start : Scheduler τ := { mCurrentTask := (none, .ofMilliseconds 0), mWq := [], timer := none }

/-- `Scheduler::SetTime`. -/
def setTime (s : Scheduler τ) : Scheduler τ := { s with timer := some s.mCurrentTask.2 }

/-- `Scheduler::AddTask` while it holds the lock. -/
def addTask (s : Scheduler τ) (newItem : Item τ) : Scheduler τ :=
  match s.mCurrentTask with
  | (none, _) => { s with mCurrentTask := (some newItem.task, newItem.deadline) }
  | (some task, deadline) =>
      if deadline.Before newItem.deadline then { s with mWq := newItem :: s.mWq }
      else
        { s with
          mCurrentTask := (some newItem.task, newItem.deadline)
          mWq := { task, deadline } :: s.mWq }

/-- `Scheduler::ThreadFunc` up to where it releases the lock: the task to execute, if there is one.
`next` is what `Pop` returns, an item that is least among those in the queue. -/
def threadFunc [DecidableEq τ] (s : Scheduler τ) (next : Option (Item τ)) :
    Option (Scheduler τ × Option (Item τ)) :=
  match s.mCurrentTask.1, next with
  | none, _ => some (s, none)
  | some task, none =>
      if s.mWq = [] then
        some ({ s with mCurrentTask := (none, s.mCurrentTask.2) },
          some { task, deadline := s.mCurrentTask.2 })
      else none
  | some task, some next =>
      if next ∈ s.mWq ∧ ∀ other ∈ s.mWq, ¬ other.deadline.Before next.deadline then
        some (setTime { s with
            mCurrentTask := (some next.task, next.deadline)
            mWq := s.mWq.erase next },
          some { task, deadline := s.mCurrentTask.2 })
      else none

/-! ### The queue behind it -/

/-- The key of an item. -/
def key (i : Item τ) : ℤ := i.deadline.ns

/-- The current task and the others. -/
def queue (s : Scheduler τ) : HeadedQueue (Item τ) where
  head := s.mCurrentTask.1.map fun task => { task, deadline := s.mCurrentTask.2 }
  rest := s.mWq

theorem deadline_of_head {i : Item τ} (h : s.queue.head = some i) :
    i.deadline = s.mCurrentTask.2 := by
  obtain ⟨task, -, rfl⟩ := Option.map_eq_some_iff.1 h
  rfl

/-- `AddTask` inserts into the queue. -/
theorem queue_addTask (s : Scheduler τ) (newItem : Item τ) :
    (s.addTask newItem).queue = s.queue.insert key newItem := by
  obtain ⟨⟨current, deadline⟩, wq, timer⟩ := s
  cases current with
  | none => rfl
  | some task =>
      by_cases hbefore : deadline.Before newItem.deadline
      · have hlt : key ⟨task, deadline⟩ < key newItem := (Deadline.before_iff _ _).1 hbefore
        simp only [addTask, if_pos hbefore]
        exact (HeadedQueue.insert_of_lt wq hlt).symm
      · have hlt : ¬ key ⟨task, deadline⟩ < key newItem := fun hlt =>
          hbefore ((Deadline.before_iff _ _).2 hlt)
        simp only [addTask, if_neg hbefore]
        exact (HeadedQueue.insert_of_not_lt wq hlt).symm

/-- `AddTask` does not touch the timer while it holds the lock. -/
@[simp] theorem timer_addTask (s : Scheduler τ) (newItem : Item τ) :
    (s.addTask newItem).timer = s.timer := by
  unfold addTask
  split
  · rfl
  · split <;> rfl

/-- After `AddTask` there is a current task, and it is not later than the one before. -/
theorem head_addTask (s : Scheduler τ) (newItem : Item τ) :
    ∃ i, (s.addTask newItem).queue.head = some i ∧
      ∀ j, s.queue.head = some j → i.deadline.ns ≤ j.deadline.ns := by
  rw [queue_addTask]
  exact s.queue.head_insert key newItem

/-- `SetTime` only arms the timer. -/
@[simp] theorem queue_setTime (s : Scheduler τ) : s.setTime.queue = s.queue := rfl

/-- What `ThreadFunc` can do: nothing without a current task; or else it takes the current task off
the queue, and arms the timer for the new one if there is one. -/
theorem threadFunc_cases [DecidableEq τ] {next temp : Option (Item τ)}
    (h : s.threadFunc next = some (t, temp)) :
    (s.queue.head = none ∧ t = s ∧ temp = none) ∨
      ∃ i, temp = some i ∧ s.queue.head = some i ∧ s.queue.Takes key i t.queue ∧
        ((t.queue.head = none ∧ t.timer = s.timer) ∨
          ∃ j, t.queue.head = some j ∧ t.timer = some j.deadline) := by
  obtain ⟨⟨current, deadline⟩, wq, timer⟩ := s
  cases current with
  | none =>
      simp only [threadFunc, Option.some.injEq, Prod.mk.injEq] at h
      obtain ⟨rfl, rfl⟩ := h
      exact Or.inl ⟨rfl, rfl, rfl⟩
  | some task =>
      -- `next` is missing exactly if the queue is empty
      refine Or.inr ?_
      cases next with
      | none =>
          simp only [threadFunc, Option.ite_none_right_eq_some, Option.some.injEq,
            Prod.mk.injEq] at h
          obtain ⟨rfl, rfl, rfl⟩ := h
          exact ⟨_, rfl, rfl, .last rfl rfl, Or.inl ⟨rfl, rfl⟩⟩
      | some next =>
          simp only [threadFunc, Option.ite_none_right_eq_some, Option.some.injEq,
            Prod.mk.injEq] at h
          obtain ⟨⟨hmem, hleast⟩, rfl, rfl⟩ := h
          refine ⟨_, rfl, rfl, .promote rfl (List.perm_cons_erase hmem) ?_, Or.inr ⟨next, rfl, rfl⟩⟩
          intro z hz
          have hbefore := hleast z hz
          rw [Deadline.before_iff] at hbefore
          exact not_lt.1 hbefore

end Scheduler

/-! ### The scheduler at work -/

/-- The scheduler with the clock, in nanoseconds, and everything that is under way: the items that
`AddTask` has made and that wait for the lock, the number of calls of `AddTask` that have released
the lock and still have to call `SetTime`, the number of expiries that `ThreadFunc` has not handled
yet, and the tasks that `ThreadFunc` has taken and not executed yet. -/
structure SchedulerSystem (τ : Type) where
  scheduler : Scheduler τ
  now : ℕ
  computed : List (Item τ)
  adders : ℕ
  expiries : ℕ
  taken : List (Item τ)

/-- What can be observed. -/
inductive SchedulerEvent (τ : Type)
  | called (task : τ) (now miliSecDelta : ℕ)
  | added (item : Item τ)
  | taken (item : Item τ)
  | executed (item : Item τ) (now : ℕ)
  deriving DecidableEq

/-- What can happen.  `threadFuncAgain` is a run of `ThreadFunc` beyond the one that an expiry is
sure to lead to. -/
inductive SchedulerAction (τ : Type)
  | pass (nanoseconds : ℕ)
  | compute (task : τ) (miliSecDelta : ℕ)
  | addTask (item : Item τ)
  | setTime
  | expire
  | threadFunc (next : Option (Item τ))
  | threadFuncAgain (next : Option (Item τ))
  | execute (item : Item τ)
  deriving DecidableEq

namespace SchedulerSystem

variable {τ : Type} [DecidableEq τ]

def start (now : ℕ) : SchedulerSystem τ :=
  { scheduler := .start, now, computed := [], adders := 0, expiries := 0, taken := [] }

/-- A run of `ThreadFunc`, up to where it releases the lock. -/
def threadFunc (s : SchedulerSystem τ) (next : Option (Item τ)) :
    Option (SchedulerSystem τ × List (SchedulerEvent τ)) :=
  (s.scheduler.threadFunc next).map fun (scheduler, temp) =>
    ({ s with scheduler, taken := temp.toList ++ s.taken }, temp.toList.map .taken)

/-- The transitions: time passes, `AddTask` runs up to the lock, under the lock and from there on,
the timer expires, `ThreadFunc` runs, a task is executed. -/
def step (s : SchedulerSystem τ) :
    SchedulerAction τ → Option (SchedulerSystem τ × List (SchedulerEvent τ))
  | .pass nanoseconds => some ({ s with now := s.now + nanoseconds }, [])
  | .compute task miliSecDelta =>
      some ({ s with computed := .make task s.now miliSecDelta :: s.computed },
        [.called task s.now miliSecDelta])
  | .addTask item =>
      if item ∈ s.computed then
        some ({ s with
          scheduler := s.scheduler.addTask item
          computed := s.computed.erase item
          adders := s.adders + 1 }, [.added item])
      else none
  | .setTime =>
      if 0 < s.adders then
        some ({ s with scheduler := s.scheduler.setTime, adders := s.adders - 1 }, [])
      else none
  | .expire =>
      match s.scheduler.timer with
      | some deadline =>
          if deadline.ns ≤ s.now then
            some ({ s with
              scheduler := { s.scheduler with timer := none }
              expiries := s.expiries + 1 }, [])
          else none
      | none => none
  | .threadFunc next =>
      if 0 < s.expiries then { s with expiries := s.expiries - 1 }.threadFunc next else none
  | .threadFuncAgain next => s.threadFunc next
  | .execute item =>
      if item ∈ s.taken then
        some ({ s with taken := s.taken.erase item }, [.executed item s.now])
      else none

/-- A run of `ThreadFunc` as a relation: it finds no current task, or takes it. -/
inductive Runs (s : SchedulerSystem τ) :
    SchedulerSystem τ → List (SchedulerEvent τ) → Prop
  | idle (hhead : s.scheduler.queue.head = none) : Runs s s []
  | takes {i : Item τ} {scheduler : Scheduler τ} (hhead : s.scheduler.queue.head = some i)
      (htakes : s.scheduler.queue.Takes Scheduler.key i scheduler.queue)
      (htimer : (scheduler.queue.head = none ∧ scheduler.timer = s.scheduler.timer) ∨
        ∃ j, scheduler.queue.head = some j ∧ scheduler.timer = some j.deadline) :
      Runs s { s with scheduler, taken := i :: s.taken } [.taken i]

/-- The transitions as a relation, with what each of them needs. -/
inductive Steps (s : SchedulerSystem τ) :
    SchedulerAction τ → SchedulerSystem τ → List (SchedulerEvent τ) → Prop
  | pass (nanoseconds : ℕ) : Steps s (.pass nanoseconds) { s with now := s.now + nanoseconds } []
  | compute (task : τ) (miliSecDelta : ℕ) :
      Steps s (.compute task miliSecDelta)
        { s with computed := .make task s.now miliSecDelta :: s.computed }
        [.called task s.now miliSecDelta]
  | addTask {item : Item τ} (hitem : item ∈ s.computed) :
      Steps s (.addTask item) { s with
        scheduler := s.scheduler.addTask item
        computed := s.computed.erase item
        adders := s.adders + 1 } [.added item]
  | setTime (hadders : 0 < s.adders) :
      Steps s .setTime { s with scheduler := s.scheduler.setTime, adders := s.adders - 1 } []
  | expire {deadline : Deadline} (htimer : s.scheduler.timer = some deadline)
      (hdue : deadline.ns ≤ s.now) :
      Steps s .expire { s with
        scheduler := { s.scheduler with timer := none }
        expiries := s.expiries + 1 } []
  | threadFunc {next : Option (Item τ)} {t : SchedulerSystem τ} {out : List (SchedulerEvent τ)}
      (hexpiries : 0 < s.expiries) (hruns : Runs { s with expiries := s.expiries - 1 } t out) :
      Steps s (.threadFunc next) t out
  | threadFuncAgain {next : Option (Item τ)} {t : SchedulerSystem τ}
      {out : List (SchedulerEvent τ)} (hruns : Runs s t out) :
      Steps s (.threadFuncAgain next) t out
  | execute {item : Item τ} (hitem : item ∈ s.taken) :
      Steps s (.execute item) { s with taken := s.taken.erase item } [.executed item s.now]

theorem threadFunc_cases {s t : SchedulerSystem τ} {next : Option (Item τ)}
    {out : List (SchedulerEvent τ)} (h : s.threadFunc next = some (t, out)) : Runs s t out := by
  obtain ⟨⟨scheduler, temp⟩, hrun, heq⟩ := Option.map_eq_some_iff.1 h
  cases heq
  rcases Scheduler.threadFunc_cases hrun with ⟨hhead, rfl, rfl⟩ | ⟨i, rfl, hhead, htakes, htimer⟩
  · exact .idle hhead
  · exact .takes hhead htakes htimer

/-- A step is one of these. -/
theorem step_cases {s t : SchedulerSystem τ} {a : SchedulerAction τ}
    {out : List (SchedulerEvent τ)} (h : s.step a = some (t, out)) : Steps s a t out := by
  cases a with
  | pass nanoseconds =>
      cases h
      exact .pass nanoseconds
  | compute task miliSecDelta =>
      cases h
      exact .compute task miliSecDelta
  | addTask item =>
      simp only [step, Option.ite_none_right_eq_some] at h
      obtain ⟨hitem, heq⟩ := h
      cases heq
      exact .addTask hitem
  | setTime =>
      simp only [step, Option.ite_none_right_eq_some] at h
      obtain ⟨hadders, heq⟩ := h
      cases heq
      exact .setTime hadders
  | expire =>
      simp only [step] at h
      cases htimer : s.scheduler.timer with
      | none =>
          rw [htimer] at h
          cases h
      | some deadline =>
          rw [htimer] at h
          simp only [Option.ite_none_right_eq_some] at h
          obtain ⟨hdue, heq⟩ := h
          cases heq
          exact .expire htimer hdue
  | threadFunc next =>
      simp only [step, Option.ite_none_right_eq_some] at h
      exact .threadFunc h.1 (threadFunc_cases h.2)
  | threadFuncAgain next => exact .threadFuncAgain (threadFunc_cases h)
  | execute item =>
      simp only [step, Option.ite_none_right_eq_some] at h
      obtain ⟨hitem, heq⟩ := h
      cases heq
      exact .execute hitem

end SchedulerSystem

end IotDrive
