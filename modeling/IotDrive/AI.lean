/-
The pollers of `ai.cpp`.

An `AI` adds its task to the scheduler when it is constructed.  When the scheduler executes the
task, `AI::Perform` evaluates `m_func`; after `false` it adds the same task again, and after `true`
the object deletes itself.  What makes this safe is that the task of an object is in one place at a
time, all through the scheduler and the threads.

Main definitions:

* `AISystem` — the objects, with the scheduler at work under them;
* `AISystem.step` — construction, the steps of the scheduler, and the parts of `Perform`;
* `AISystem.occurrences` — in how many places the task of an object is.

Main results:

* `AISystem.Accounted.step` — the task of an object is in one place, of anything else in none;
* `pollers_performed_once_at_a_time` — **the pollers** are never used after they were deleted, nor
  by two threads at once.
-/

import IotDrive.Scheduler

set_option relaxedAutoImplicit false
set_option autoImplicit false

namespace IotDrive

open History

/-! ### The system -/

/-- The `AI` objects of a process: those that exist, those whose constructor has executed the locked
part of its `AddTask`, and those that deleted themselves; and what the threads that execute a task
are doing: one entry for each evaluation of `m_func`, and one for each `delete this` to come.  A
thread that adds its task again, or for the first time, is in the scheduler's `computed`. -/
structure AISystem (α : Type) where
  system : SchedulerSystem α
  objects : List α
  registered : List α
  evaluating : List α
  deleting : List α
  deleted : List α

/-- What can be observed: `m_func` of an object is entered, and returns. -/
inductive AIEvent (α : Type)
  | entered (ai : α)
  | returned (ai : α) (ret : Bool)
  deriving DecidableEq

inductive AIAction (α : Type)
  | construct (ai : α)
  | addTask (item : Item α)
  | pass (nanoseconds : ℕ)
  | setTime
  | expire
  | threadFunc (next : Option (Item α))
  | threadFuncAgain (next : Option (Item α))
  | perform (item : Item α)
  | returnFalse (ai : α)
  | returnTrue (ai : α)
  | delete (ai : α)
  deriving DecidableEq

namespace AISystem

variable {α : Type} [DecidableEq α]

def start (now : ℕ) : AISystem α :=
  { system := .start now, objects := [], registered := [], evaluating := [], deleting := [],
    deleted := [] }

/-- A step of the scheduler that no object takes part in. -/
def scheduler (s : AISystem α) (a : SchedulerAction α) : Option (AISystem α × List (AIEvent α)) :=
  (s.system.step a).map fun (system, _) => ({ s with system }, [])

/-- The transitions; `timeToCheck` is the field `m_timeToCheck` of each object.

The constructor and `Perform` make an item and wait for the lock of the scheduler, which is the
step `compute` of the scheduler, and then both execute the same locked part of `AddTask`. -/
def step (timeToCheck : α → ℕ) (s : AISystem α) :
    AIAction α → Option (AISystem α × List (AIEvent α))
  | .construct ai =>
      if ai ∉ s.objects ∧ ai ∉ s.deleted then
        (s.system.step (.compute ai (timeToCheck ai))).map fun (system, _) =>
          ({ s with system, objects := ai :: s.objects }, [])
      else none
  | .addTask item =>
      (s.system.step (.addTask item)).map fun (system, _) =>
        ({ s with system, registered := s.registered.insert item.task }, [])
  | .pass nanoseconds => s.scheduler (.pass nanoseconds)
  | .setTime => s.scheduler .setTime
  | .expire => s.scheduler .expire
  | .threadFunc next => s.scheduler (.threadFunc next)
  | .threadFuncAgain next => s.scheduler (.threadFuncAgain next)
  | .perform item =>
      (s.system.step (.execute item)).map fun (system, _) =>
        ({ s with system, evaluating := item.task :: s.evaluating }, [.entered item.task])
  | .returnFalse ai =>
      if ai ∈ s.evaluating then
        (s.system.step (.compute ai (timeToCheck ai))).map fun (system, _) =>
          ({ s with system, evaluating := s.evaluating.erase ai }, [.returned ai false])
      else none
  | .returnTrue ai =>
      if ai ∈ s.evaluating then
        some ({ s with evaluating := s.evaluating.erase ai, deleting := ai :: s.deleting },
          [.returned ai true])
      else none
  | .delete ai =>
      if ai ∈ s.deleting then
        some ({ s with
          deleting := s.deleting.erase ai
          objects := s.objects.erase ai
          deleted := ai :: s.deleted }, [])
      else none

/-! ### Where the tasks are -/

/-- How often the task of `ai` occurs in a list of items. -/
def countTask (ai : α) (items : List (Item α)) : ℕ := (items.map Item.task).count ai

/-- How often the task of `ai` occurs in the scheduler: as the current task, in the queue, and among
the tasks taken by `ThreadFunc` and not performed yet. -/
def scheduled (system : SchedulerSystem α) (ai : α) : ℕ :=
  countTask ai system.scheduler.queue.items + countTask ai system.taken

/-- In how many places the task of `ai` is: in the scheduler, with a thread that adds it, with one
that evaluates `m_func`, or with one that deletes the object. -/
def occurrences (s : AISystem α) (ai : α) : ℕ :=
  scheduled s.system ai + countTask ai s.system.computed + s.evaluating.count ai +
    s.deleting.count ai

theorem countTask_cons (ai : α) (i : Item α) (items : List (Item α)) :
    countTask ai (i :: items) = countTask ai items + [i.task].count ai := by
  simp only [countTask, List.map_cons, List.count_cons, List.count_nil, Nat.zero_add]

theorem countTask_perm (ai : α) {items items' : List (Item α)} (h : items.Perm items') :
    countTask ai items = countTask ai items' :=
  (h.map Item.task).count_eq ai

theorem countTask_erase (ai : α) {i : Item α} {items : List (Item α)} (h : i ∈ items) :
    countTask ai (items.erase i) + [i.task].count ai = countTask ai items := by
  rw [← countTask_cons, ← countTask_perm ai (List.perm_cons_erase h)]

theorem countTask_pos {i : Item α} {items : List (Item α)} (h : i ∈ items) :
    0 < countTask i.task items :=
  List.count_pos_iff.2 (List.mem_map_of_mem h)

theorem count_cons_eq (ai x : α) (xs : List α) :
    (x :: xs).count ai = xs.count ai + [x].count ai := by
  simp only [List.count_cons, List.count_nil, Nat.zero_add]

theorem count_erase_add (ai : α) {x : α} {xs : List α} (h : x ∈ xs) :
    (xs.erase x).count ai + [x].count ai = xs.count ai := by
  rw [← count_cons_eq, ← (List.perm_cons_erase h).count_eq ai]

/-! ### The steps of the scheduler -/

section Scheduler

variable {system system' : SchedulerSystem α} {out : List (SchedulerEvent α)}

/-- `ThreadFunc` moves the current task to the tasks it has taken. -/
theorem scheduled_of_runs (h : SchedulerSystem.Runs system system' out) (ai : α) :
    scheduled system' ai = scheduled system ai ∧ system'.computed = system.computed := by
  cases h with
  | idle _ => exact ⟨rfl, rfl⟩
  | @takes i scheduler _ htakes _ =>
      refine ⟨?_, rfl⟩
      have hitems := countTask_perm ai htakes.items
      rw [countTask_cons] at hitems
      simp only [scheduled, countTask_cons]
      omega

/-- Making an item only adds to the items that wait for the lock. -/
theorem step_compute {ai : α} {delay : ℕ}
    (h : system.step (.compute ai delay) = some (system', out)) :
    (∀ x, scheduled system' x = scheduled system x) ∧
      ∀ x, countTask x system'.computed = countTask x system.computed + [ai].count x := by
  cases h
  exact ⟨fun _ => rfl, fun x => countTask_cons x _ _⟩

/-- The locked part of `AddTask` moves an item into the queue. -/
theorem step_addTask {item : Item α} (h : system.step (.addTask item) = some (system', out)) :
    item ∈ system.computed ∧ ∀ x, scheduled system' x + countTask x system'.computed =
      scheduled system x + countTask x system.computed := by
  cases SchedulerSystem.step_cases h with
  | addTask hitem =>
      refine ⟨hitem, ?_⟩
      intro x
      have hinsert := countTask_perm x
        (system.scheduler.queue.items_insert Scheduler.key item)
      rw [countTask_cons, ← Scheduler.queue_addTask] at hinsert
      have herase := countTask_erase x hitem
      simp only [scheduled]
      omega

/-- Performing a task removes it from the tasks taken. -/
theorem step_execute {item : Item α} (h : system.step (.execute item) = some (system', out)) :
    item ∈ system.taken ∧ system'.computed = system.computed ∧
      ∀ x, scheduled system' x + [item.task].count x = scheduled system x := by
  cases SchedulerSystem.step_cases h with
  | execute hitem =>
      refine ⟨hitem, rfl, ?_⟩
      intro x
      have herase := countTask_erase x hitem
      simp only [scheduled]
      omega

end Scheduler

/-! ### One place at a time -/

/-- `m_func` of an object is not entered after it has returned true. -/
def NeverAgain (past : List (AIEvent α)) (e : AIEvent α) : Prop :=
  ∀ ai, e = .entered ai → .returned ai true ∉ past

/-- The task of every object that exists is in one place, and of no other; and an object whose
`m_func` has returned true is about to be deleted, or was. -/
structure Accounted (s : AISystem α) (history : List (AIEvent α)) : Prop where
  occurrences : ∀ ai, s.occurrences ai = s.objects.count ai
  once : ∀ ai, s.objects.count ai + s.deleted.count ai ≤ 1
  registered : ∀ ai ∈ s.registered, ai ∈ s.objects ∨ ai ∈ s.deleted
  returned : ∀ ai, .returned ai true ∈ history → ai ∈ s.deleting ∨ ai ∈ s.deleted
  never : Every NeverAgain history

variable {timeToCheck : α → ℕ} {s t : AISystem α} {history out : List (AIEvent α)}
  {a : AIAction α}

theorem accounted_start (now : ℕ) : Accounted (start now : AISystem α) [] :=
  ⟨fun _ => rfl, fun _ => Nat.zero_le 1, nofun, nofun, trivial⟩

/-- Once `m_func` has returned true, the task is neither in the scheduler nor with a thread that
adds it or evaluates `m_func`. -/
theorem Accounted.gone (h : s.Accounted history) {ai : α} (hret : .returned ai true ∈ history) :
    scheduled s.system ai = 0 ∧ countTask ai s.system.computed = 0 ∧
      s.evaluating.count ai = 0 := by
  have hoccurrences := h.occurrences ai
  have honce := h.once ai
  simp only [AISystem.occurrences] at hoccurrences
  rcases h.returned ai hret with hdeleting | hdeleted
  · have hpos := List.count_pos_iff.2 hdeleting
    omega
  · have hpos := List.count_pos_iff.2 hdeleted
    omega

/-- A step that leaves the objects alone, moves tasks inside of the scheduler only, and is not seen. -/
theorem Accounted.of_scheduler (h : s.Accounted history) {system : SchedulerSystem α}
    (hmoves : ∀ ai, scheduled system ai = scheduled s.system ai ∧
      system.computed = s.system.computed) : Accounted { s with system } history := by
  refine ⟨?_, h.once, h.registered, h.returned, h.never⟩
  intro ai
  obtain ⟨hscheduled, hcomputed⟩ := hmoves ai
  have hoccurrences := h.occurrences ai
  simp only [AISystem.occurrences, hscheduled, hcomputed] at hoccurrences ⊢
  exact hoccurrences

/-- A step of the scheduler alone. -/
theorem Accounted.scheduler {b : SchedulerAction α} (h : s.Accounted history)
    (hmoves : ∀ system events, s.system.step b = some (system, events) → ∀ ai,
      scheduled system ai = scheduled s.system ai ∧ system.computed = s.system.computed)
    (hstep : s.scheduler b = some (t, out)) : Accounted t (out ++ history) := by
  obtain ⟨⟨system, events⟩, hsystem, heq⟩ := Option.map_eq_some_iff.1 hstep
  cases heq
  exact h.of_scheduler (hmoves system events hsystem)

section Parts

variable {system : SchedulerSystem α} {events : List (SchedulerEvent α)}

/-- A new object brings its task. -/
theorem Accounted.construct (h : s.Accounted history) {ai : α} {delay : ℕ}
    (hobjects : ai ∉ s.objects) (hdeleted : ai ∉ s.deleted)
    (hsystem : s.system.step (.compute ai delay) = some (system, events)) :
    Accounted { s with system, objects := ai :: s.objects } history := by
  obtain ⟨hscheduled, hcomputed⟩ := step_compute hsystem
  refine ⟨?_, ?_, ?_, h.returned, h.never⟩
  · intro x
    have hoccurrences := h.occurrences x
    simp only [AISystem.occurrences] at hoccurrences ⊢
    rw [hscheduled, hcomputed, count_cons_eq x ai s.objects]
    omega
  -- the new object is neither among those that exist nor among the deleted
  · intro x
    have honce := h.once x
    by_cases hx : x = ai
    · subst hx
      have hzero := List.count_eq_zero_of_not_mem hobjects
      have hzero' := List.count_eq_zero_of_not_mem hdeleted
      simp only [List.count_cons_self]
      omega
    · simp only [List.count_cons_of_ne (Ne.symm hx)]
      exact honce
  · intro x hx
    rcases h.registered x hx with hx | hx
    · exact Or.inl (List.mem_cons_of_mem ai hx)
    · exact Or.inr hx

/-- An object whose task is somewhere exists. -/
theorem Accounted.mem_objects (h : s.Accounted history) {ai : α} (hpos : 0 < s.occurrences ai) :
    ai ∈ s.objects := by
  rw [h.occurrences ai] at hpos
  exact List.count_pos_iff.1 hpos

/-- The task goes from the thread that adds it to the scheduler. -/
theorem Accounted.addTask (h : s.Accounted history) {item : Item α}
    (hsystem : s.system.step (.addTask item) = some (system, events)) :
    Accounted { s with system, registered := s.registered.insert item.task } history := by
  obtain ⟨hitem, hmoves⟩ := step_addTask hsystem
  refine ⟨?_, h.once, ?_, h.returned, h.never⟩
  · intro x
    have hoccurrences := h.occurrences x
    have hmoved := hmoves x
    simp only [AISystem.occurrences] at hoccurrences ⊢
    omega
  · intro x hx
    rcases List.mem_insert_iff.1 hx with rfl | hx
    · have hpos := countTask_pos hitem
      refine Or.inl (h.mem_objects ?_)
      simp only [AISystem.occurrences]
      omega
    · exact h.registered x hx

/-- The task goes from the scheduler to the thread that performs it. -/
theorem Accounted.perform (h : s.Accounted history) {item : Item α}
    (hsystem : s.system.step (.execute item) = some (system, events)) :
    Accounted { s with system, evaluating := item.task :: s.evaluating }
      (.entered item.task :: history) := by
  obtain ⟨hitem, hcomputed, hscheduled⟩ := step_execute hsystem
  refine ⟨?_, h.once, h.registered, ?_, ?_, h.never⟩
  · intro x
    have hoccurrences := h.occurrences x
    have hmoved := hscheduled x
    simp only [AISystem.occurrences] at hoccurrences ⊢
    rw [hcomputed, count_cons_eq x item.task]
    omega
  · intro x hx
    exact h.returned x ((List.mem_cons.1 hx).resolve_left nofun)
  · intro x hx hret
    -- a task that is taken is somewhere, which the task of an object that is gone is not
    cases hx
    have hpos := countTask_pos hitem
    have hzero := (h.gone hret).1
    simp only [scheduled] at hzero
    omega

/-- After `false` the task goes to the thread that adds it again, which is the same thread. -/
theorem Accounted.returnFalse (h : s.Accounted history) {ai : α} {delay : ℕ}
    (hevaluating : ai ∈ s.evaluating)
    (hsystem : s.system.step (.compute ai delay) = some (system, events)) :
    Accounted { s with system, evaluating := s.evaluating.erase ai }
      (.returned ai false :: history) := by
  obtain ⟨hscheduled, hcomputed⟩ := step_compute hsystem
  refine ⟨?_, h.once, h.registered, ?_, nofun, h.never⟩
  · intro x
    have hoccurrences := h.occurrences x
    have herase := count_erase_add x hevaluating
    simp only [AISystem.occurrences] at hoccurrences ⊢
    rw [hscheduled, hcomputed]
    omega
  · intro x hx
    exact h.returned x ((List.mem_cons.1 hx).resolve_left nofun)

/-- After `true` the object is about to be deleted. -/
theorem Accounted.returnTrue (h : s.Accounted history) {ai : α} (hevaluating : ai ∈ s.evaluating) :
    Accounted { s with evaluating := s.evaluating.erase ai, deleting := ai :: s.deleting }
      (.returned ai true :: history) := by
  refine ⟨?_, h.once, h.registered, ?_, nofun, h.never⟩
  · intro x
    have hoccurrences := h.occurrences x
    have herase := count_erase_add x hevaluating
    simp only [AISystem.occurrences] at hoccurrences ⊢
    rw [count_cons_eq x ai]
    omega
  · intro x hx
    rcases List.mem_cons.1 hx with hx | hx
    · cases hx
      exact Or.inl List.mem_cons_self
    · rcases h.returned x hx with hdeleting | hdeleted
      · exact Or.inl (List.mem_cons_of_mem ai hdeleting)
      · exact Or.inr hdeleted

/-- What is in a list or was deleted still is when `ai` goes from the list to the deleted. -/
theorem mem_erase_or_mem_cons {ai x : α} {xs deleted : List α} (hx : x ∈ xs ∨ x ∈ deleted) :
    x ∈ xs.erase ai ∨ x ∈ ai :: deleted := by
  by_cases heq : x = ai
  · exact Or.inr (heq ▸ List.mem_cons_self)
  · exact hx.imp (List.mem_erase_of_ne heq).2 (List.mem_cons_of_mem ai)

/-- With the object its task is gone. -/
theorem Accounted.delete (h : s.Accounted history) {ai : α} (hdeleting : ai ∈ s.deleting) :
    Accounted { s with
      deleting := s.deleting.erase ai
      objects := s.objects.erase ai
      deleted := ai :: s.deleted } history := by
  -- its task is with the thread that deletes it, so it exists
  have hobject : ai ∈ s.objects := by
    have hpos := List.count_pos_iff.2 hdeleting
    refine h.mem_objects ?_
    simp only [AISystem.occurrences]
    omega
  refine ⟨?_, ?_, fun x hx => mem_erase_or_mem_cons (h.registered x hx),
    fun x hx => mem_erase_or_mem_cons (h.returned x hx), h.never⟩
  · intro x
    have hoccurrences := h.occurrences x
    have herase := count_erase_add x hdeleting
    have herase' := count_erase_add x hobject
    simp only [AISystem.occurrences] at hoccurrences ⊢
    omega
  · intro x
    have honce := h.once x
    have herase := count_erase_add x hobject
    dsimp only
    rw [count_cons_eq x ai]
    omega

end Parts

/-- Every step keeps the tasks accounted for. -/
theorem Accounted.step (h : s.Accounted history) (hstep : s.step timeToCheck a = some (t, out)) :
    Accounted t (out ++ history) := by
  cases a with
  | pass nanoseconds =>
      refine h.scheduler ?_ hstep
      intro system events hsystem ai
      cases SchedulerSystem.step_cases hsystem with
      | pass _ => exact ⟨rfl, rfl⟩
  | setTime =>
      refine h.scheduler ?_ hstep
      intro system events hsystem ai
      cases SchedulerSystem.step_cases hsystem with
      | setTime _ => exact ⟨rfl, rfl⟩
  | expire =>
      refine h.scheduler ?_ hstep
      intro system events hsystem ai
      cases SchedulerSystem.step_cases hsystem with
      | expire _ _ => exact ⟨rfl, rfl⟩
  | threadFunc next =>
      refine h.scheduler ?_ hstep
      intro system events hsystem ai
      cases SchedulerSystem.step_cases hsystem with
      | threadFunc _ hruns => exact scheduled_of_runs hruns ai
  | threadFuncAgain next =>
      refine h.scheduler ?_ hstep
      intro system events hsystem ai
      cases SchedulerSystem.step_cases hsystem with
      | threadFuncAgain hruns => exact scheduled_of_runs hruns ai
  | construct ai =>
      simp only [AISystem.step, Option.ite_none_right_eq_some, Option.map_eq_some_iff] at hstep
      obtain ⟨⟨hobjects, hdeleted⟩, ⟨system, events⟩, hsystem, heq⟩ := hstep
      cases heq
      exact h.construct hobjects hdeleted hsystem
  | addTask item =>
      simp only [AISystem.step, Option.map_eq_some_iff] at hstep
      obtain ⟨⟨system, events⟩, hsystem, heq⟩ := hstep
      cases heq
      exact h.addTask hsystem
  | perform item =>
      simp only [AISystem.step, Option.map_eq_some_iff] at hstep
      obtain ⟨⟨system, events⟩, hsystem, heq⟩ := hstep
      cases heq
      exact h.perform hsystem
  | returnFalse ai =>
      simp only [AISystem.step, Option.ite_none_right_eq_some, Option.map_eq_some_iff] at hstep
      obtain ⟨hevaluating, ⟨system, events⟩, hsystem, heq⟩ := hstep
      cases heq
      exact h.returnFalse hevaluating hsystem
  | returnTrue ai =>
      simp only [AISystem.step, Option.ite_none_right_eq_some] at hstep
      obtain ⟨hevaluating, heq⟩ := hstep
      cases heq
      exact h.returnTrue hevaluating
  | delete ai =>
      simp only [AISystem.step, Option.ite_none_right_eq_some] at hstep
      obtain ⟨hdeleting, heq⟩ := hstep
      cases heq
      exact h.delete hdeleting

end AISystem

/-- **The pollers.** In every run, the task of each object that was added to the scheduler and has
not deleted itself is in one place: it is the current task, in the queue, taken by `ThreadFunc` and
not performed yet, or with the thread that performs it.  Once `m_func` has returned true the task
is neither scheduled nor about to be, and `m_func` is never entered again.  No two threads evaluate
the `m_func` of one object at the same time. -/
theorem pollers_performed_once_at_a_time {α : Type} [DecidableEq α] (timeToCheck : α → ℕ) (now : ℕ)
    (actions : List (AIAction α)) {s : AISystem α} {history : List (AIEvent α)}
    (hrun : Transition.run (logged (AISystem.step timeToCheck)) (AISystem.start now, []) actions =
      some (s, history)) :
    (∀ ai ∈ s.registered, ai ∉ s.deleted → s.occurrences ai = 1) ∧
      (∀ ai, .returned ai true ∈ history → AISystem.scheduled s.system ai = 0 ∧
        AISystem.countTask ai s.system.computed = 0 ∧ s.evaluating.count ai = 0) ∧
      Every AISystem.NeverAgain history ∧
      ∀ ai, s.evaluating.count ai ≤ 1 := by
  have h : s.Accounted history := History.invariant (I := AISystem.Accounted)
    (fun _ _ _ _ _ h hstep => h.step hstep) (AISystem.accounted_start now) hrun
  refine ⟨?_, fun ai hret => h.gone hret, h.never, ?_⟩
  · intro ai hregistered hdeleted
    have hobject : ai ∈ s.objects := (h.registered ai hregistered).resolve_right hdeleted
    have hpos := List.count_pos_iff.2 hobject
    have honce := h.once ai
    rw [h.occurrences ai]
    omega
  · intro ai
    have hoccurrences := h.occurrences ai
    have honce := h.once ai
    simp only [AISystem.occurrences] at hoccurrences
    omega

/-- An object whose `m_func` has returned false; its task is with the thread that adds it again. -/
def pollAgainRun : List (AIAction ℕ) :=
  [.construct 1, .addTask (.make 1 0 5), .setTime, .pass 5000000, .expire, .threadFunc none,
    .perform (.make 1 0 5), .returnFalse 1]

theorem pollers_performed_once_at_a_time_pollAgainRun : ∃ s history,
    Transition.run (logged (AISystem.step fun _ => 5)) (AISystem.start 0, []) pollAgainRun =
        some (s, history) ∧
      s.registered = [1] ∧ s.occurrences 1 = 1 := by
  refine ⟨_, _, rfl, rfl, ?_⟩
  have h := pollers_performed_once_at_a_time (fun _ => 5) 0 pollAgainRun rfl
  exact h.1 1 List.mem_cons_self List.not_mem_nil

end IotDrive
