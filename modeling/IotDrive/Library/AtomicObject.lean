/-
**Objects whose operations take effect at once.**

Threads call the operations of an object that they share.  Between the call of an operation and its
return there is one moment at which it takes effect, on the object as it is there.  An implementation
that is simulated by this machine, with the same calls and returns, is linearisable.

Main definitions:

* `AtomicObject` — what an operation does, in each of the ways it can go;
* `AtomicObject.step` — calls, effects and returns of the threads;
* `AtomicObject.Sequential` — operations one after another.

Main results:

* `AtomicObject.exists_order` — **the operations of a run in one order**: each of them does there what
  it did in the run, and each thread has its own operations in the order of its calls;
* `AtomicObject.order_perm` — when no call is in progress, these are the operations that returned;
* `AtomicObject.called_of_run` — what has taken effect was called;
* `AtomicObject.Sequential.conserved` — what all operations account for.
-/

import IotDrive.Library.History
import Mathlib.Algebra.BigOperators.Group.List.Basic
import Mathlib.Data.List.Count
import Mathlib.Data.List.Perm.Basic

set_option relaxedAutoImplicit false
set_option autoImplicit false

/-- An object in states of `σ`.  The operation `op` goes the way `way` if `apply` has a result: the
next state, and what is returned. -/
structure AtomicObject (σ κ χ ρ : Type*) where
  apply : κ → χ → σ → Option (σ × ρ)

namespace AtomicObject

variable {σ κ χ ρ : Type*}

/-- A thread is outside of the object; has called an operation that has not taken effect; or is to
return from one that has. -/
inductive Phase (κ ρ : Type*)
  | idle
  | pending (op : κ)
  | finished (op : κ) (result : ρ)

inductive Event (κ ρ : Type*)
  | called (thread : ℕ) (op : κ)
  | returned (thread : ℕ) (op : κ) (result : ρ)

inductive Action (κ χ : Type*)
  | call (thread : ℕ) (op : κ)
  | commit (thread : ℕ) (way : χ)
  | ret (thread : ℕ)

/-- The object and its threads. -/
structure State (σ κ ρ : Type*) where
  object : σ
  threads : List (Phase κ ρ)

/-- The threads are outside. -/
def State.start (object : σ) (n : ℕ) : State σ κ ρ := ⟨object, List.replicate n .idle⟩

def step (O : AtomicObject σ κ χ ρ) (s : State σ κ ρ) :
    Action κ χ → Option (State σ κ ρ × List (Event κ ρ))
  | .call i op =>
      match s.threads[i]? with
      | some .idle => some ({ s with threads := s.threads.set i (.pending op) }, [.called i op])
      | _ => none
  | .commit i way =>
      match s.threads[i]? with
      | some (.pending op) => (O.apply op way s.object).map fun (object, result) =>
          ({ object, threads := s.threads.set i (.finished op result) }, [])
      | _ => none
  | .ret i =>
      match s.threads[i]? with
      | some (.finished op result) =>
          some ({ s with threads := s.threads.set i .idle }, [.returned i op result])
      | _ => none

/-- What can happen. -/
inductive Steps (O : AtomicObject σ κ χ ρ) (s : State σ κ ρ) :
    State σ κ ρ → List (Event κ ρ) → Prop
  | call (i : ℕ) (op : κ) (h : s.threads[i]? = some .idle) :
      Steps O s { s with threads := s.threads.set i (.pending op) } [.called i op]
  | commit (i : ℕ) (op : κ) (way : χ) (object : σ) (result : ρ)
      (h : s.threads[i]? = some (.pending op)) (happly : O.apply op way s.object = some (object, result)) :
      Steps O s { object, threads := s.threads.set i (.finished op result) } []
  | ret (i : ℕ) (op : κ) (result : ρ) (h : s.threads[i]? = some (.finished op result)) :
      Steps O s { s with threads := s.threads.set i .idle } [.returned i op result]

section Machine

variable {O : AtomicObject σ κ χ ρ} {s t : State σ κ ρ} {a : Action κ χ} {out : List (Event κ ρ)}

theorem step_cases (h : O.step s a = some (t, out)) : O.Steps s t out := by
  cases a with
  | call i op =>
      simp only [step] at h
      split at h
      · cases h
        exact .call i op ‹_›
      · cases h
  | commit i way =>
      simp only [step] at h
      split at h
      · obtain ⟨⟨object, result⟩, happly, heq⟩ := Option.map_eq_some_iff.1 h
        cases heq
        exact .commit i _ way object result ‹_› happly
      · cases h
  | ret i =>
      simp only [step] at h
      split at h
      · cases h
        exact .ret i _ _ ‹_›
      · cases h

theorem step_call {i : ℕ} (h : s.threads[i]? = some .idle) (op : κ) :
    O.step s (.call i op) =
      some ({ s with threads := s.threads.set i (.pending op) }, [.called i op]) := by
  simp only [step, h]

theorem step_commit {i : ℕ} {op : κ} {way : χ} {object : σ} {result : ρ}
    (h : s.threads[i]? = some (.pending op)) (happly : O.apply op way s.object = some (object, result)) :
    O.step s (.commit i way) =
      some ({ object, threads := s.threads.set i (.finished op result) }, []) := by
  simp only [step, h, happly, Option.map_some]

theorem step_ret {i : ℕ} {op : κ} {result : ρ} (h : s.threads[i]? = some (.finished op result)) :
    O.step s (.ret i) =
      some ({ s with threads := s.threads.set i .idle }, [.returned i op result]) := by
  simp only [step, h]

end Machine

/-! ### One order -/

/-- An operation of a thread, with what it returned. -/
abbrev Done (κ ρ : Type*) := ℕ × κ × ρ

/-- The operations of `order`, the last of them first, lead from `s` to `t`, and return what they are
given with. -/
inductive Sequential (O : AtomicObject σ κ χ ρ) (s : σ) : List (Done κ ρ) → σ → Prop
  | nil : Sequential O s [] s
  | cons {order : List (Done κ ρ)} {t u : σ} {op : κ} {result : ρ} (i : ℕ) (way : χ)
      (h : Sequential O s order t) (happly : O.apply op way t = some (u, result)) :
      Sequential O s ((i, op, result) :: order) u

/-- What every operation accounts for, all of them do: `measure` changes by what came in with the
operation and what went out with its result. -/
theorem Sequential.conserved {O : AtomicObject σ κ χ ρ} {M : Type*} [AddCommMonoid M]
    (amount : σ → M) (input : κ → M) (output : κ → ρ → M)
    (happly : ∀ op way s t result, O.apply op way s = some (t, result) →
      amount t + output op result = amount s + input op) {s t : σ} {order : List (Done κ ρ)}
    (h : O.Sequential s order t) :
    amount t + (order.map fun x => output x.2.1 x.2.2).sum =
      amount s + (order.map fun x => input x.2.1).sum := by
  -- induction on the order; the last operation accounts for its own part
  induction h with
  | nil => rfl
  | @cons order t u op result i way _ hlast ih =>
      have hop := happly op way t u result hlast
      rw [List.map_cons, List.sum_cons, List.map_cons, List.sum_cons]
      calc amount u + (output op result + (order.map fun x => output x.2.1 x.2.2).sum)
          = amount t + input op + (order.map fun x => output x.2.1 x.2.2).sum := by
            rw [← add_assoc, hop]
        _ = amount t + (order.map fun x => output x.2.1 x.2.2).sum + input op := by
            rw [add_right_comm]
        _ = amount s + (input op + (order.map fun x => input x.2.1).sum) := by
            rw [ih, add_assoc, add_comm (input op)]

/-- Each of the operations was possible in some state. -/
theorem Sequential.exists_apply {O : AtomicObject σ κ χ ρ} {s t : σ} {order : List (Done κ ρ)}
    (h : O.Sequential s order t) :
    ∀ x ∈ order, ∃ way u v, O.apply x.2.1 way u = some (v, x.2.2) := by
  induction h with
  | nil => exact fun x hx => absurd hx List.not_mem_nil
  | cons i way _ happly ih => exact List.forall_mem_cons.2 ⟨⟨way, _, _, happly⟩, ih⟩

/-- The operations that have returned, the last of them first. -/
def completed : List (Event κ ρ) → List (Done κ ρ)
  | [] => []
  | .called _ _ :: past => completed past
  | .returned i op result :: past => (i, op, result) :: completed past

/-- What a thread is to return. -/
def Phase.toReturn (i : ℕ) : Phase κ ρ → List (Done κ ρ)
  | .finished op result => [(i, op, result)]
  | _ => []

/-- What the thread `i` is to return, if there is such a thread. -/
def State.toReturn (s : State σ κ ρ) (i : ℕ) : List (Done κ ρ) :=
  (s.threads[i]?.getD .idle).toReturn i

/-- Those of the operations that the thread `i` has called. -/
def ofThread (i : ℕ) (order : List (Done κ ρ)) : List (Done κ ρ) := order.filter (·.1 = i)

theorem ofThread_cons_self (i : ℕ) (x : κ × ρ) (order : List (Done κ ρ)) :
    ofThread i ((i, x) :: order) = (i, x) :: ofThread i order := by
  simp [ofThread]

theorem ofThread_cons_of_ne {i j : ℕ} (h : j ≠ i) (x : κ × ρ) (order : List (Done κ ρ)) :
    ofThread i ((j, x) :: order) = ofThread i order := by
  simp [ofThread, h]

/-- A thread changes its phase: the others are to return what they were. -/
theorem State.toReturn_set {object : σ} {threads : List (Phase κ ρ)} {i : ℕ} {old : Phase κ ρ}
    (h : threads[i]? = some old) (new : Phase κ ρ) (j : ℕ) :
    State.toReturn ⟨object, threads.set i new⟩ j =
      if i = j then new.toReturn i else State.toReturn ⟨object, threads⟩ j := by
  obtain ⟨hi, -⟩ := List.getElem?_eq_some_iff.1 h
  by_cases hij : i = j
  · subst hij
    simp [State.toReturn, hi]
  · simp [State.toReturn, hij]

/-- The order holds, of each thread, what it has returned, and what it is to return. -/
def Ordered (O : AtomicObject σ κ χ ρ) (start : σ) (s : State σ κ ρ) (history : List (Event κ ρ)) :
    Prop :=
  ∃ order, O.Sequential start order s.object ∧
    ∀ i, ofThread i order = s.toReturn i ++ ofThread i (completed history)

variable {O : AtomicObject σ κ χ ρ} {start : σ}

/-- Every step keeps the order; an operation is put at its end when it takes effect. -/
theorem Ordered.step {s t : State σ κ ρ} {history out : List (Event κ ρ)}
    (h : Ordered O start s history) (hstep : O.Steps s t out) : Ordered O start t (out ++ history) := by
  obtain ⟨order, hseq, hthreads⟩ := h
  cases hstep with
  | call i op hi =>
      refine ⟨order, hseq, fun j => ?_⟩
      rw [hthreads j, State.toReturn_set hi]
      split
      · subst i
        simp [State.toReturn, hi, completed, Phase.toReturn]
      · rfl
  | commit i op way object result hi happly =>
      refine ⟨(i, op, result) :: order, hseq.cons i way happly, fun j => ?_⟩
      rw [State.toReturn_set hi]
      split
      · subst i
        rw [ofThread_cons_self, hthreads j]
        simp [State.toReturn, hi, Phase.toReturn]
      · rw [ofThread_cons_of_ne ‹_›, hthreads j]
        rfl
  | ret i op result hi =>
      refine ⟨order, hseq, fun j => ?_⟩
      rw [hthreads j, State.toReturn_set hi, List.singleton_append, completed]
      split
      · subst i
        rw [ofThread_cons_self]
        simp [State.toReturn, hi, Phase.toReturn]
      · rw [ofThread_cons_of_ne ‹_›]

/-- **One order.** The operations of every run can be put in one order in which each of them does what
it did in the run, so that the last state of the object is that at the end of the order; and each
thread has called its own operations in that order. -/
theorem exists_order {n : ℕ} {actions : List (Action κ χ)} {t : State σ κ ρ}
    {history : List (Event κ ρ)}
    (hrun : Transition.run (History.logged O.step) (.start start n, []) actions = some (t, history)) :
    ∃ order, O.Sequential start order t.object ∧
      ∀ i, ofThread i order = t.toReturn i ++ ofThread i (completed history) := by
  have hidle : ∀ i, (State.start start n : State σ κ ρ).toReturn i = [] := by
    intro i
    rw [State.toReturn, State.start, List.getElem?_replicate]
    split <;> rfl
  refine History.invariant (I := Ordered O start) ?_ ⟨[], .nil, fun i => ?_⟩ hrun
  · intro s a t out h hI hstep
    exact hI.step (step_cases hstep)
  · rw [hidle]
    rfl

/-- Lists in which each thread has the same operations in the same order have the same operations. -/
theorem perm_of_ofThread {l l' : List (Done κ ρ)} (h : ∀ i, ofThread i l = ofThread i l') :
    l.Perm l' := by
  classical
  refine List.perm_iff_count.2 fun x => ?_
  have hcount : ∀ l : List (Done κ ρ), l.count x = (ofThread x.1 l).count x := by
    intro l
    rw [ofThread, List.count_filter]
    simp
  rw [hcount l, hcount l', h]

/-- When no call is in progress, the order consists of the operations that returned. -/
theorem order_perm {t : State σ κ ρ} {history : List (Event κ ρ)} {order : List (Done κ ρ)}
    (hidle : ∀ phase ∈ t.threads, phase = .idle)
    (h : ∀ i, ofThread i order = t.toReturn i ++ ofThread i (completed history)) :
    order.Perm (completed history) := by
  refine perm_of_ofThread fun i => ?_
  rw [h i, State.toReturn]
  cases hi : t.threads[i]? with
  | none => rfl
  | some phase =>
      rw [hidle phase (List.mem_of_getElem? hi)]
      rfl

/-! ### Calls -/

/-- The operation that a thread has called. -/
def Phase.op? : Phase κ ρ → Option κ
  | .idle => none
  | .pending op => some op
  | .finished op _ => some op

/-- What threads are at, and what they have returned from, they have called. -/
structure State.Called (s : State σ κ ρ) (history : List (Event κ ρ)) : Prop where
  current : ∀ i phase op, s.threads[i]? = some phase → phase.op? = some op → .called i op ∈ history
  past : ∀ i op result, (i, op, result) ∈ completed history → .called i op ∈ history

/-- A thread moves to an operation that it has called. -/
theorem State.Called.set {s : State σ κ ρ} {history : List (Event κ ρ)} (h : s.Called history) {i : ℕ}
    {a b : Phase κ ρ} (hi : s.threads[i]? = some a)
    (hb : ∀ op, b.op? = some op → .called i op ∈ history) (object : σ) :
    State.Called ⟨object, s.threads.set i b⟩ history := by
  refine ⟨?_, h.past⟩
  intro j phase op hj hop
  obtain ⟨hlt, -⟩ := List.getElem?_eq_some_iff.1 hi
  by_cases hij : i = j
  · subst hij
    rw [List.getElem?_set_self hlt] at hj
    cases hj
    exact hb op hop
  · rw [List.getElem?_set_ne hij] at hj
    exact h.current j phase op hj hop

theorem State.Called.cons {s : State σ κ ρ} {history : List (Event κ ρ)} (h : s.Called history)
    (e : Event κ ρ) (he : ∀ i op result, e = .returned i op result → .called i op ∈ history) :
    s.Called (e :: history) := by
  refine ⟨fun i phase op hi hop => List.mem_cons_of_mem e (h.current i phase op hi hop), ?_⟩
  intro i op result hmem
  cases e with
  | called j op' => exact List.mem_cons_of_mem _ (h.past i op result hmem)
  | returned j op' result' =>
      rcases List.mem_cons.1 hmem with heq | hmem
      · cases heq
        exact List.mem_cons_of_mem _ (he i op result rfl)
      · exact List.mem_cons_of_mem _ (h.past i op result hmem)

/-- Every step keeps it. -/
theorem State.Called.step {s t : State σ κ ρ} {history out : List (Event κ ρ)} (h : s.Called history)
    (hstep : O.Steps s t out) : t.Called (out ++ history) := by
  cases hstep with
  | call i op hi =>
      have hcons := h.cons (.called i op) fun j op' result heq => by cases heq
      refine hcons.set hi (fun op' hop => ?_) s.object
      cases hop
      exact List.mem_cons_self ..
  | commit i op way object result hi happly =>
      refine h.set hi (fun op' hop => ?_) object
      exact h.current i _ op' hi hop
  | ret i op result hi =>
      have hcons := h.cons (.returned i op result) fun j op' result' heq => by
        cases heq
        exact h.current i _ op hi rfl
      exact hcons.set hi (fun op' hop => by cases hop) s.object

/-- In every run, what has taken effect was called. -/
theorem called_of_run {n : ℕ} {actions : List (Action κ χ)} {t : State σ κ ρ}
    {history : List (Event κ ρ)} {order : List (Done κ ρ)}
    (hrun : Transition.run (History.logged O.step) (.start start n, []) actions = some (t, history))
    (horder : ∀ i, ofThread i order = t.toReturn i ++ ofThread i (completed history)) :
    ∀ x ∈ order, .called x.1 x.2.1 ∈ history := by
  have hstart : (State.start start n : State σ κ ρ).Called [] := by
    refine ⟨fun i phase op hi hop => ?_, fun i op result hmem => absurd hmem List.not_mem_nil⟩
    rw [List.eq_of_mem_replicate (List.mem_of_getElem? hi)] at hop
    cases hop
  have hcalled : t.Called history := by
    refine History.invariant (I := State.Called) (fun s a t out h hI hstep => ?_) hstart hrun
    exact hI.step (step_cases hstep)
  rintro ⟨i, op, result⟩ hx
  have hmem : (i, op, result) ∈ ofThread i order := List.mem_filter.2 ⟨hx, decide_eq_true rfl⟩
  rw [horder i] at hmem
  rcases List.mem_append.1 hmem with hreturn | hpast
  · -- the thread is about to return from it
    unfold State.toReturn at hreturn
    cases hi : t.threads[i]? with
    | none =>
        rw [hi] at hreturn
        cases hreturn
    | some phase =>
        rw [hi] at hreturn
        cases phase with
        | finished op' result' =>
            cases List.mem_singleton.1 hreturn
            exact hcalled.current i _ op hi rfl
        | _ => cases hreturn
  · exact hcalled.past i op result (List.mem_filter.1 hpast).1

end AtomicObject
