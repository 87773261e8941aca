/-
**Threads that share a state, and serial executions.**

Each thread of an index type is in a phase of its own; a step of a thread may change its phase and
the state that all threads share.  A run of all threads interleaves their steps.  A serial execution
is one in which each thread is executed completely before the next one starts.

Main definitions:

* `Threads` — the shared state and the phases;
* `Threads.step` — a step of one thread;
* `Threads.Alone` — steps of one thread with nothing in between;
* `Threads.serial` — threads executed one after another, with what each of them returns.

Main results:

* `Threads.serial_concat` — a serial execution with one more thread at its end;
* `Threads.serial_snd` — what a serial execution returns, read off what each thread has returned;
* `Threads.run_of_alone` — a thread alone is a run of all threads;
* `Threads.exists_run_serial` — serial executions are among the interleavings.
-/

import IotDrive.Library.Transition
import Mathlib.Data.List.Nodup
import Mathlib.Logic.Function.Basic
import Mathlib.Logic.Relation

set_option relaxedAutoImplicit false
set_option autoImplicit false

/-- Threads that share a state. -/
structure Threads (ι σ φ : Type*) where
  shared : σ
  phase : ι → φ

namespace Threads

variable {ι σ φ ρ : Type*}

/-- The threads in `order` are executed one after another. -/
def serial (execute : ι → σ → σ × ρ) (s : σ) : List ι → σ × List (ι × ρ)
  | [] => (s, [])
  | i :: order =>
      let (s', result) := execute i s
      let (t, results) := serial execute s' order
      (t, (i, result) :: results)

theorem serial_cons (execute : ι → σ → σ × ρ) (s : σ) (i : ι) (order : List ι) :
    serial execute s (i :: order) = ((serial execute (execute i s).1 order).1,
      (i, (execute i s).2) :: (serial execute (execute i s).1 order).2) := rfl

/-- Each thread returns once, in the order of the executions. -/
theorem serial_fst (execute : ι → σ → σ × ρ) (s : σ) (order : List ι) :
    (serial execute s order).2.map Prod.fst = order := by
  induction order generalizing s with
  | nil => rfl
  | cons i order ih => rw [serial_cons, List.map_cons, ih]

/-- What distinct threads have returned is the list of it. -/
theorem serial_snd {execute : ι → σ → σ × ρ} {s : σ} {order : List ι} (hnodup : order.Nodup)
    {result : ι → ρ} (hresult : ∀ i, (i, result i) ∈ (serial execute s order).2) :
    (serial execute s order).2 = order.map fun i => (i, result i) := by
  have hfst := serial_fst execute s order
  have hinj : ∀ x ∈ (serial execute s order).2, x = (x.1, result x.1) := fun x hx =>
    List.inj_on_of_nodup_map (f := Prod.fst) (by rwa [hfst]) hx (hresult x.1) rfl
  calc (serial execute s order).2
      = (serial execute s order).2.map fun x => (x.1, result x.1) :=
        (List.map_id _).symm.trans (List.map_congr_left hinj)
    _ = ((serial execute s order).2.map Prod.fst).map fun i => (i, result i) := by
        rw [List.map_map, Function.comp_def]
    _ = order.map fun i => (i, result i) := by rw [hfst]

/-- One more thread is executed at the end. -/
theorem serial_concat (execute : ι → σ → σ × ρ) (s : σ) (order : List ι) (i : ι) :
    serial execute s (order ++ [i]) = ((execute i (serial execute s order).1).1,
      (serial execute s order).2 ++ [(i, (execute i (serial execute s order).1).2)]) := by
  -- induction on the order, from any state
  induction order generalizing s with
  | nil => rfl
  | cons j order ih =>
      rw [List.cons_append, serial_cons, ih, serial_cons]
      rfl

variable [DecidableEq ι] {thread : ι → σ → φ → Option (σ × φ)} {s t : Threads ι σ φ} {i j : ι}

/-- A step of the thread `i`. -/
def step (thread : ι → σ → φ → Option (σ × φ)) (s : Threads ι σ φ) (i : ι) :
    Option (Threads ι σ φ) :=
  (thread i s.shared (s.phase i)).map fun (shared, phase) =>
    { shared, phase := Function.update s.phase i phase }

theorem step_eq_some : s.step thread i = some t ↔ ∃ shared p,
    thread i s.shared (s.phase i) = some (shared, p) ∧
      t = { shared, phase := Function.update s.phase i p } := by
  constructor
  · intro h
    obtain ⟨⟨shared, p⟩, hthread, rfl⟩ := Option.map_eq_some_iff.1 h
    exact ⟨shared, p, hthread, rfl⟩
  · rintro ⟨shared, p, hthread, rfl⟩
    rw [step, hthread]
    rfl

/-- A relation between the phases of the others survives a step of a thread, if it holds of the new
phase of that thread. -/
theorem forall_update {P : ι → φ → Prop} {phase : ι → φ} {p : φ} (hothers : ∀ j ≠ i, P j (phase j))
    (hself : P i p) (j : ι) : P j (Function.update phase i p j) := by
  by_cases hj : j = i
  · subst hj
    rw [Function.update_self]
    exact hself
  · rw [Function.update_of_ne hj]
    exact hothers j hj

/-- The thread `i` takes any number of steps alone. -/
def Alone (thread : ι → σ → φ → Option (σ × φ)) (i : ι) : σ × φ → σ × φ → Prop :=
  Relation.ReflTransGen fun a b => thread i a.1 a.2 = some b

/-- A thread that is alone takes part in a run of all threads. -/
theorem run_of_alone {a b : σ × φ} (h : Alone thread i a b) (phase : ι → φ) :
    ∃ actions, Transition.run (step thread) ⟨a.1, Function.update phase i a.2⟩ actions =
      some ⟨b.1, Function.update phase i b.2⟩ := by
  -- induction on the steps of the thread; each one goes to the end of the run
  induction h with
  | refl => exact ⟨[], rfl⟩
  | @tail b c _ hstep ih =>
      obtain ⟨actions, hrun⟩ := ih
      have hlast : step thread ⟨b.1, Function.update phase i b.2⟩ i =
          some ⟨c.1, Function.update phase i c.2⟩ := by
        refine step_eq_some.2 ⟨c.1, c.2, ?_, ?_⟩
        · dsimp only
          rw [Function.update_self]
          exact hstep
        · rw [Function.update_idem]
      refine ⟨actions ++ [i], ?_⟩
      rw [Transition.run_append, hrun]
      exact Transition.run_cons_eq_some.2 ⟨_, hlast, rfl⟩

/-- If each thread alone executes to its end, then a serial execution of threads that have not
started is one of the interleavings. -/
theorem exists_run_serial {execute : ι → σ → σ × ρ} {start : φ} {finish : ρ → φ}
    (halone : ∀ i s, Alone thread i (s, start) ((execute i s).1, finish (execute i s).2))
    {order : List ι} (hnodup : order.Nodup) (s : σ) (phase : ι → φ)
    (hstart : ∀ i ∈ order, phase i = start) :
    ∃ actions t, Transition.run (step thread) ⟨s, phase⟩ actions = some t ∧
      t.shared = (serial execute s order).1 ∧
      (∀ i r, (i, r) ∈ (serial execute s order).2 → t.phase i = finish r) ∧
      ∀ i, i ∉ order → t.phase i = phase i := by
  -- induction on the order: the first thread runs alone, and the others have not started after it
  induction order generalizing s phase with
  | nil => exact ⟨[], ⟨s, phase⟩, rfl, rfl, nofun, fun _ _ => rfl⟩
  | cons i order ih =>
      obtain ⟨hi, hnodup⟩ := List.nodup_cons.1 hnodup
      obtain ⟨first, hfirst⟩ := run_of_alone (halone i s) phase
      have hupdate : Function.update phase i start = phase := by
        rw [← hstart i List.mem_cons_self, Function.update_eq_self]
      dsimp only at hfirst
      rw [hupdate] at hfirst
      have hothers : ∀ j, j ≠ i →
          Function.update phase i (finish (execute i s).2) j = phase j :=
        fun j hj => Function.update_of_ne hj _ _
      have hstart' : ∀ j ∈ order,
          Function.update phase i (finish (execute i s).2) j = start := by
        intro j hj
        rw [hothers j fun hji => hi (hji ▸ hj)]
        exact hstart j (List.mem_cons_of_mem i hj)
      obtain ⟨rest, t, hrest, hshared, hresults, hkeep⟩ := ih hnodup _ _ hstart'
      refine ⟨first ++ rest, t, ?_, hshared, ?_, ?_⟩
      · rw [Transition.run_append, hfirst]
        exact hrest
      · intro j r hr
        rcases List.mem_cons.1 hr with heq | hr
        · cases heq
          rw [hkeep i hi, Function.update_self]
        · exact hresults j r hr
      · intro j hj
        obtain ⟨hji, hj⟩ := not_or.1 (List.mem_cons.not.1 hj)
        rw [hkeep j hj, hothers j hji]

end Threads
