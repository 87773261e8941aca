/-
The order of the queue of the scheduler.

`Scheduler::Comparator` is the negation of the test with which `AddTask` decides whether the current
task is earlier than the new one.  The test is the order of the deadlines, so the comparator is its
converse where deadlines differ; where they are equal it is true both ways, which
`std::priority_queue` does not allow.

Main definitions:

* `TimedTask` — an item with any seconds and nanoseconds;
* `Scheduler.comparator`, `Scheduler.isEarlier` — the comparator and the test;
* `ComparatorValid` — what the queue and `AddTask` need of the comparator.

Main results:

* `Scheduler.comparator_iff`, `Scheduler.isEarlier_iff` — the orders behind the two;
* `Scheduler.isEarlier_ofItem`, `Scheduler.comparator_ofItem` — they are what `addTask` and
  `threadFunc` go by;
* `comparator_valid_iff` — **the comparator is valid** for items with different deadlines.
-/

import IotDrive.Scheduler
import Mathlib.Data.Prod.Lex
import Mathlib.Algebra.Order.Ring.Int

set_option relaxedAutoImplicit false
set_option autoImplicit false

namespace IotDrive

/-- `itimerspec::it_value`, with whatever is in its fields. -/
structure TimeSpec where
  tvSec : ℤ
  tvNsec : ℤ
  deriving DecidableEq

/-- `Scheduler::Item`: a task with its time. -/
structure TimedTask (τ : Type) where
  first : τ
  second : TimeSpec

namespace TimedTask

variable {τ : Type}

/-- `B_SEC_BIG`. -/
def secBig (a b : TimedTask τ) : Bool := a.second.tvSec < b.second.tvSec

/-- `B_SEC_EQUAL`. -/
def secEqual (a b : TimedTask τ) : Bool := a.second.tvSec = b.second.tvSec

/-- `B_NSEC_BIG`. -/
def nsecBig (a b : TimedTask τ) : Bool := a.second.tvNsec < b.second.tvNsec

/-- The deadline, by seconds and then by nanoseconds. -/
def key (a : TimedTask τ) : ℤ ×ₗ ℤ := toLex (a.second.tvSec, a.second.tvNsec)

theorem key_inj {a b : TimedTask τ} : a.key = b.key ↔ a.second = b.second := by
  obtain ⟨_, ⟨_, _⟩⟩ := a
  obtain ⟨_, ⟨_, _⟩⟩ := b
  simp [key]

/-- An item of the scheduler. -/
def ofItem (i : Item τ) : TimedTask τ := ⟨i.task, ⟨i.deadline.tvSec, i.deadline.tvNsec⟩⟩

end TimedTask

namespace Scheduler

variable {τ : Type}

/-- `Scheduler::Comparator`. -/
def comparator (a b : TimedTask τ) : Bool :=
  if a.secBig b || (a.secEqual b && a.nsecBig b) then false else true

/-- The test of `AddTask` on the current task and the new one. -/
def isEarlier (mCurrentTask newItem : TimedTask τ) : Bool :=
  mCurrentTask.secBig newItem || (mCurrentTask.secEqual newItem && mCurrentTask.nsecBig newItem)

theorem isEarlier_iff (a b : TimedTask τ) : isEarlier a b = true ↔ a.key < b.key := by
  rw [TimedTask.key, TimedTask.key, Prod.Lex.toLex_lt_toLex]
  simp [isEarlier, TimedTask.secBig, TimedTask.secEqual, TimedTask.nsecBig]

theorem comparator_eq_not (a b : TimedTask τ) : comparator a b = !isEarlier a b := by
  change (if isEarlier a b = true then false else true) = !isEarlier a b
  cases isEarlier a b <;> rfl

/-- The comparator is the converse of the order, with equality. -/
theorem comparator_iff (a b : TimedTask τ) : comparator a b = true ↔ b.key ≤ a.key := by
  rw [comparator_eq_not, Bool.not_eq_true', ← Bool.not_eq_true, isEarlier_iff, not_lt]

/-! ### In the model of the scheduler -/

/-- The branch that `addTask` takes. -/
theorem isEarlier_ofItem (i j : Item τ) :
    isEarlier (.ofItem i) (.ofItem j) = true ↔ i.deadline.Before j.deadline := by
  simp only [isEarlier, TimedTask.secBig, TimedTask.secEqual, TimedTask.nsecBig, Bool.or_eq_true,
    Bool.and_eq_true, decide_eq_true_eq]
  rfl

/-- The items that `threadFunc` may take off the queue: the comparator ranks all others below them or
level with them. -/
theorem comparator_ofItem (i j : Item τ) :
    comparator (.ofItem i) (.ofItem j) = true ↔ ¬i.deadline.Before j.deadline := by
  rw [comparator_eq_not, Bool.not_eq_true', ← Bool.not_eq_true, isEarlier_ofItem]

/-- For times that are normalised the order is that of the nanoseconds since the epoch. -/
theorem key_ofItem_lt (i j : Item τ) :
    (TimedTask.ofItem i).key < (TimedTask.ofItem j).key ↔ i.deadline.ns < j.deadline.ns := by
  rw [← isEarlier_iff, isEarlier_ofItem, Deadline.before_iff]

end Scheduler

/-! ### The result -/

open Scheduler

variable {τ : Type}

/-- What is asked of the comparator for the items `a`, `b` and `c`.  They may be the same: for an item
and itself, `asymm` says that the comparator is not true. -/
structure ComparatorValid (a b c : TimedTask τ) : Prop where
  asymm : ¬(comparator a b = true ∧ comparator b a = true)
  trans : comparator a b = true → comparator b c = true → comparator a c = true
  incomparable_trans : comparator a b = false → comparator b a = false →
    comparator b c = false → comparator c b = false → comparator a c = false ∧ comparator c a = false
  ranks : comparator a b = true ↔ b.key < a.key
  agrees : isEarlier a b = true ↔ comparator b a = true

/-- The comparator is valid for three items exactly when the first two have different deadlines. -/
theorem comparator_valid_iff (a b c : TimedTask τ) :
    ComparatorValid a b c ↔ a.second ≠ b.second := by
  rw [ne_eq, ← TimedTask.key_inj]
  constructor
  · rintro ⟨hasymm, -, -, -, -⟩ heq
    exact hasymm ⟨(comparator_iff a b).2 heq.ge, (comparator_iff b a).2 heq.le⟩
  · intro hne
    refine ⟨?_, ?_, ?_, ?_, ?_⟩
    · rw [comparator_iff, comparator_iff]
      rintro ⟨hba, hab⟩
      exact hne (le_antisymm hab hba)
    · rw [comparator_iff, comparator_iff, comparator_iff]
      exact fun hba hcb => hcb.trans hba
    · -- no two items are incomparable
      intro hab hba
      rw [comparator_eq_not, Bool.not_eq_false', isEarlier_iff] at hab hba
      exact absurd hba hab.not_gt
    · rw [comparator_iff]
      exact ⟨fun hle => lt_of_le_of_ne hle (Ne.symm hne), le_of_lt⟩
    · rw [isEarlier_iff, comparator_iff]
      exact ⟨le_of_lt, fun hle => lt_of_le_of_ne hle hne⟩

/-- Two tasks for the same millisecond are each below the other, and so is a task below itself. -/
theorem comparator_not_strict :
    ¬∀ a b c : TimedTask ℕ, ComparatorValid a b c := by
  intro h
  have hasymm := (h ⟨1, ⟨5, 7000000⟩⟩ ⟨2, ⟨5, 7000000⟩⟩ ⟨2, ⟨5, 7000000⟩⟩).asymm
  exact hasymm (by decide)

/-- The new task of the same millisecond becomes the current one, though it is not ranked above. -/
example : isEarlier (⟨1, ⟨5, 7000000⟩⟩ : TimedTask ℕ) ⟨2, ⟨5, 7000000⟩⟩ = false ∧
    comparator (⟨2, ⟨5, 7000000⟩⟩ : TimedTask ℕ) ⟨1, ⟨5, 7000000⟩⟩ = true := by decide

end IotDrive
