/-
A `WaitableQueue` behaves as if each call took effect at once.

A `Push` takes effect where it puts its item into the container, a `Pop` where it takes one out, or
where it finds the container empty after its time limit, or where it gives up waiting for the mutex.
With the mutex nothing that a thread has found in the container changes before it uses it.

Main definitions:

* `atomicQueue` — the calls as operations that take effect at once;
* `WaitableQueue.atomic` — a queue and its threads, seen so.

Main results:

* `Moves.atomic` — a step leaves the view alone, or one call takes effect with it;
* `queue_atomic` — **every run is a run of the atomic queue**, with the same calls and returns;
* `queue_conserves` — **no item is lost or duplicated**;
* `queue_first_in_first_out` — with `std::queue`, items come out in the order in which they went in.
-/

import IotDrive.Library.Simulation
import IotDrive.WaitableQueue
import Mathlib.Algebra.Order.Group.Multiset

set_option relaxedAutoImplicit false
set_option autoImplicit false

namespace IotDrive

open AtomicObject History Transition

/-! ### The atomic queue -/

/-- What is left to chance: a `Pop` with a time limit can give up before it has the mutex. -/
inductive QueueWay
  | go | giveUp
  deriving DecidableEq

variable {σ α : Type}

/-- Take the item at the front, if there is one. -/
def Container.take (C : Container σ α) (s : σ) (result : α → QueueResult α) :
    Option (σ × QueueResult α) :=
  if C.empty s then none else (C.front s).map fun item => (C.pop s, result item)

/-- The calls as operations that take effect at once.  A `Pop` without a time limit has to wait for an
item. -/
def atomicQueue (C : Container σ α) : AtomicObject σ (QueueCall α) QueueWay (QueueResult α) where
  apply
    | .push item, _, s => some (C.push s item, .pushed)
    | .pop, _, s => C.take s .popped
    | .popTimed, .giveUp, s => some (s, .timed (-2) none)
    | .popTimed, .go, s =>
        if C.empty s then some (s, .timed (-1) none) else C.take s fun item => .timed 0 (some item)
    | .isEmpty, _, s => some (s, .empty (C.empty s))

/-- A `Pop` on a container that is not empty, with a time limit or without. -/
theorem atomicQueue_pop (C : Container σ α) {s : σ} {item : α} (limit : TimeLimit)
    (hempty : C.empty s = false) (hfront : C.front s = some item) :
    (atomicQueue C).apply limit.call .go s = some (C.pop s, limit.taken item) := by
  cases limit <;> simp [atomicQueue, Container.take, TimeLimit.call, TimeLimit.taken, hempty, hfront]

/-! ### The view -/

/-- Where the call of a thread is: before or after it takes effect. -/
def QueuePhase.view : QueuePhase α → AtomicObject.Phase (QueueCall α) (QueueResult α)
  | .idle => .idle
  | .pushLocking item | .pushing item => .pending (.push item)
  | .pushUnlocking item | .notifying item => .finished (.push item) .pushed
  | .popLocking limit | .testing limit | .blocking limit | .blocked limit | .waking limit
  | .reading limit | .removing limit _ => .pending limit.call
  | .emptyLocking | .emptyReading => .pending .isEmpty
  | .unlocking call result | .returning call result => .finished call result

theorem QueueCall.view_phase (call : QueueCall α) : call.phase.view = .pending call := by
  cases call <;> rfl

theorem set_view {threads : List (QueuePhase α)} {i : ℕ} {a : QueuePhase α}
    (hi : threads[i]? = some a) {b : QueuePhase α} (hview : b.view = a.view) :
    (threads.set i b).map QueuePhase.view = threads.map QueuePhase.view := by
  obtain ⟨hlt, rfl⟩ := List.getElem?_eq_some_iff.1 hi
  rw [List.map_set, hview, ← List.getElem_map QueuePhase.view (h := by simpa using hlt),
    List.set_getElem_self]

theorem view_of_getElem? {threads : List (QueuePhase α)} {i : ℕ} {a : QueuePhase α}
    (hi : threads[i]? = some a) : (threads.map QueuePhase.view)[i]? = some a.view := by
  rw [List.getElem?_map, hi]
  rfl

namespace WaitableQueue

variable {C : Container σ α} {s t : WaitableQueue σ α}

/-- The queue, with its threads before or after the moment of their calls. -/
def atomic (s : WaitableQueue σ α) : State σ (QueueCall α) (QueueResult α) :=
  ⟨s.mQueue, s.threads.map QueuePhase.view⟩

/-- A thread changes its phase, and the container may change with it. -/
theorem atomic_set (i : ℕ) (b : QueuePhase α) (mQueue : σ) (mMutex : Bool) :
    WaitableQueue.atomic ⟨s.threads.set i b, mQueue, mMutex⟩ =
      ⟨mQueue, s.atomic.threads.set i b.view⟩ := by
  rw [WaitableQueue.atomic, List.map_set]
  rfl

/-- The change is not seen. -/
theorem atomic_set_of_view {i : ℕ} {a : QueuePhase α} (hi : s.threads[i]? = some a)
    (b : QueuePhase α) (hview : b.view = a.view) (mMutex : Bool) :
    WaitableQueue.atomic ⟨s.threads.set i b, s.mQueue, mMutex⟩ = s.atomic := by
  rw [WaitableQueue.atomic, set_view hi hview]
  rfl

/-- A thread goes on in its call: nothing is seen of it, or the call takes effect. -/
theorem Moves.atomic {a b : QueuePhase α} (h : Moves C s a t b) (ha : a.Knows C s.mQueue) :
    (b.view = a.view ∧ t.mQueue = s.mQueue) ∨ ∃ op way result, a.view = .pending op ∧
      b.view = .finished op result ∧
        (atomicQueue C).apply op way s.mQueue = some (t.mQueue, result) := by
  cases h with
  | push item => exact .inr ⟨.push item, .go, .pushed, rfl, rfl, rfl⟩
  | nothing hempty =>
      refine .inr ⟨.popTimed, .go, .timed (-1) none, rfl, rfl, ?_⟩
      simp [atomicQueue, hempty]
  | pop limit item =>
      exact .inr ⟨limit.call, .go, limit.taken item, rfl, rfl, atomicQueue_pop C limit ha.1 ha.2⟩
  | empty => exact .inr ⟨.isEmpty, .go, .empty (C.empty s.mQueue), rfl, rfl, rfl⟩
  | _ => exact .inl ⟨rfl, rfl⟩

/-- A time limit passes: nothing is seen of it, or the thread gives up. -/
theorem Expires.atomic {a b : QueuePhase α} (h : Expires a b) (mQueue : σ) :
    b.view = a.view ∨ ∃ op way result, a.view = .pending op ∧ b.view = .finished op result ∧
      (atomicQueue C).apply op way mQueue = some (mQueue, result) := by
  cases h with
  | giveUp => exact .inr ⟨.popTimed, .giveUp, .timed (-2) none, rfl, rfl, rfl⟩
  | stop => exact .inl rfl
  | late => exact .inl rfl

/-- A run of no steps, when nothing is seen of a step. -/
theorem run_of_atomic_eq (h : t.atomic = s.atomic) :
    ∃ bs, run (logged (atomicQueue C).step) (s.atomic, []) bs = some (t.atomic, []) :=
  ⟨[], by rw [h]; rfl⟩

/-- A run of one step, when a call takes effect. -/
theorem run_of_commit {i : ℕ} {a b : QueuePhase α} (hi : s.threads[i]? = some a)
    {op : QueueCall α} {way : QueueWay} {result : QueueResult α} {mQueue : σ} {mMutex : Bool}
    (ha : a.view = .pending op) (hb : b.view = .finished op result)
    (happly : (atomicQueue C).apply op way s.mQueue = some (mQueue, result)) :
    ∃ bs, run (logged (atomicQueue C).step) (s.atomic, []) bs =
      some (WaitableQueue.atomic ⟨s.threads.set i b, mQueue, mMutex⟩, []) := by
  have hcommit := step_commit (s := s.atomic) (i := i) ((view_of_getElem? hi).trans (by rw [ha]))
    happly
  refine ⟨[.commit i way], ?_⟩
  rw [Simulation.run_step hcommit, atomic_set, hb]

/-- **Every step is matched** by a step of the atomic queue, or by none. -/
theorem exists_run_atomic (h : s.Guarded C) {a : QueueAction α} {out : List (QueueEvent α)}
    (hstep : Steps C s a t out) :
    ∃ bs, run (logged (atomicQueue C).step) (s.atomic, []) bs = some (t.atomic, out) := by
  cases hstep with
  | call i call hi =>
      refine ⟨[.call i call], ?_⟩
      rw [Simulation.run_step (step_call (s := s.atomic) (view_of_getElem? hi) call), atomic_set,
        QueueCall.view_phase]
      rfl
  | @advance i a b t hi hmove =>
      rcases hmove.atomic (h.knows a (List.mem_of_getElem? hi)) with
        ⟨hview, hqueue⟩ | ⟨op, way, result, ha, hb, happly⟩
      · apply run_of_atomic_eq
        rw [hqueue]
        exact atomic_set_of_view hi _ hview _
      · exact run_of_commit hi ha hb happly
  | notifyNone i item hi hnone =>
      exact run_of_atomic_eq (atomic_set_of_view hi (.returning (.push item) .pushed) rfl _)
  | notifyOne i j item limit hi hj =>
      apply run_of_atomic_eq
      rw [← atomic_set_of_view hi (.returning (.push item) .pushed) rfl s.mMutex]
      exact atomic_set_of_view (s := ⟨s.threads.set i _, s.mQueue, s.mMutex⟩)
        (getElem?_set_of_blocked hi hj _) (.waking limit) rfl _
  | wake i limit hi =>
      exact run_of_atomic_eq (atomic_set_of_view hi (.waking limit) rfl _)
  | @expire i a b hi hexpires =>
      rcases hexpires.atomic (C := C) s.mQueue with hview | ⟨op, way, result, ha, hb, happly⟩
      · exact run_of_atomic_eq (atomic_set_of_view hi _ hview _)
      · exact run_of_commit hi ha hb happly
  | ret i call result hi =>
      refine ⟨[.ret i], ?_⟩
      rw [Simulation.run_step (step_ret (s := s.atomic) (view_of_getElem? hi)), atomic_set]
      rfl

/-- The queue is simulated by the atomic queue. -/
theorem forward_atomic (C : Container σ α) :
    Simulation.Forward (step C) (fun _ => True) (atomicQueue C).step
      (fun s u => s.Guarded C ∧ u = s.atomic) fun e => [e] := by
  rintro s u a t out ⟨hguarded, rfl⟩ - hstep
  obtain ⟨bs, hrun⟩ := exists_run_atomic hguarded (step_cases hstep)
  refine ⟨bs, t.atomic, ?_, hguarded.step (step_cases hstep), rfl⟩
  rw [hrun, List.flatMap_singleton']

/-- Threads that have not called. -/
theorem atomic_start (mQueue : σ) (n : ℕ) :
    (start mQueue n : WaitableQueue σ α).atomic = .start mQueue n := by
  rw [WaitableQueue.atomic, start, List.map_replicate]
  rfl

end WaitableQueue

/-! ### Runs -/

/-- The item that comes in with a call. -/
def QueueCall.input : QueueCall α → Option α
  | .push item => some item
  | _ => none

/-- The item that goes out with a result. -/
def QueueResult.output : QueueResult α → Option α
  | .popped item => some item
  | .timed _ item => item
  | _ => none

@[simp] theorem QueueCall.input_push (item : α) : (QueueCall.push item).input = some item := rfl

@[simp] theorem QueueResult.output_pushed : (QueueResult.pushed : QueueResult α).output = none := rfl

theorem Container.take_eq_some {C : Container σ α} {s t : σ} {result : α → QueueResult α}
    {r : QueueResult α} (h : C.take s result = some (t, r)) :
    ∃ item, C.front s = some item ∧ t = C.pop s ∧ r = result item := by
  simp only [take, Option.ite_none_left_eq_some] at h
  obtain ⟨-, hmap⟩ := h
  obtain ⟨item, hfront, heq⟩ := Option.map_eq_some_iff.1 hmap
  cases heq
  exact ⟨item, hfront, rfl, rfl⟩

/-- What a call does to the container: an item comes in, one goes out, or nothing happens. -/
inductive QueueEffect (C : Container σ α) (s : σ) : QueueCall α → QueueResult α → σ → Prop
  | push (item : α) : QueueEffect C s (.push item) .pushed (C.push s item)
  | pop {call : QueueCall α} {result : QueueResult α} (item : α) (hcall : call.input = none)
      (hresult : result.output = some item) (hfront : C.front s = some item) :
      QueueEffect C s call result (C.pop s)
  | nothing {call : QueueCall α} {result : QueueResult α} (hcall : call.input = none)
      (hresult : result.output = none) : QueueEffect C s call result s

theorem atomicQueue_cases {C : Container σ α} {op : QueueCall α} {way : QueueWay} {s t : σ}
    {result : QueueResult α} (h : (atomicQueue C).apply op way s = some (t, result)) :
    QueueEffect C s op result t := by
  have htake : ∀ {f : α → QueueResult α}, (∀ item, (f item).output = some item) →
      op.input = none → C.take s f = some (t, result) → QueueEffect C s op result t := by
    intro f hf hop htake
    obtain ⟨item, hfront, rfl, rfl⟩ := Container.take_eq_some htake
    exact .pop item hop (hf item) hfront
  cases op with
  | push item =>
      cases h
      exact .push item
  | pop => exact htake (fun _ => rfl) rfl h
  | popTimed =>
      cases way with
      | giveUp =>
          cases h
          exact .nothing rfl rfl
      | go =>
          simp only [atomicQueue] at h
          split at h
          · cases h
            exact .nothing rfl rfl
          · exact htake (fun _ => rfl) rfl h
  | isEmpty =>
      cases h
      exact .nothing rfl rfl

/-- An item that comes in is one more, and one that goes out one less. -/
theorem QueueEffect.items {C : Container σ α} {s t : σ} {op : QueueCall α} {result : QueueResult α}
    (h : QueueEffect C s op result t) :
    C.items t + (result.output.toList : Multiset α) = C.items s + (op.input.toList : Multiset α) := by
  have hnone : ((none : Option α).toList : Multiset α) = 0 := rfl
  have hsome : ∀ item : α, ((some item).toList : Multiset α) = {item} := fun _ => rfl
  cases h with
  | push item =>
      rw [QueueResult.output_pushed, QueueCall.input_push, hnone, hsome, add_zero, C.items_push,
        ← Multiset.singleton_add, add_comm]
  | pop item hcall hresult hfront =>
      rw [hcall, hresult, hnone, hsome, add_zero, C.items_pop s item hfront,
        ← Multiset.singleton_add, add_comm]
  | nothing hcall hresult => rw [hcall, hresult]

/-- The items that came in, in the order of the calls; the last of them is the first of the list. -/
def inputs : List (Done (QueueCall α) (QueueResult α)) → List α
  | [] => []
  | (_, op, _) :: earlier => inputs earlier ++ op.input.toList

/-- The items that went out. -/
def outputs : List (Done (QueueCall α) (QueueResult α)) → List α
  | [] => []
  | (_, _, result) :: earlier => outputs earlier ++ result.output.toList

theorem coe_inputs (order : List (Done (QueueCall α) (QueueResult α))) :
    (order.map fun x => (x.2.1.input.toList : Multiset α)).sum = (inputs order : Multiset α) := by
  induction order with
  | nil => rfl
  | cons x earlier ih =>
      rw [List.map_cons, List.sum_cons, ih, inputs, ← Multiset.coe_add, add_comm]

theorem coe_outputs (order : List (Done (QueueCall α) (QueueResult α))) :
    (order.map fun x => (x.2.2.output.toList : Multiset α)).sum = (outputs order : Multiset α) := by
  induction order with
  | nil => rfl
  | cons x earlier ih =>
      rw [List.map_cons, List.sum_cons, ih, outputs, ← Multiset.coe_add, add_comm]

/-- Calls in one order: what came out and what is left are what came in. -/
theorem items_of_sequential {C : Container σ α} {s t : σ}
    {order : List (Done (QueueCall α) (QueueResult α))}
    (h : (atomicQueue C).Sequential s order t) :
    C.items t + (outputs order : Multiset α) = C.items s + (inputs order : Multiset α) := by
  have hall := h.conserved C.items (fun op => (op.input.toList : Multiset α))
    (fun _ result => (result.output.toList : Multiset α))
    fun op way s t result happly => (atomicQueue_cases happly).items
  rw [coe_inputs, coe_outputs] at hall
  exact hall

/-- With `std::queue`, also in the same order. -/
theorem fifo_of_sequential {s t : List α} {order : List (Done (QueueCall α) (QueueResult α))}
    (h : (atomicQueue (Container.queue α)).Sequential s order t) :
    outputs order ++ t = s ++ inputs order := by
  induction h with
  | nil => exact (List.append_nil s).symm
  | @cons order u v op result i way _ happly ih =>
      rw [outputs, inputs, ← List.append_assoc s, ← ih]
      cases atomicQueue_cases happly with
      | push item =>
          rw [List.append_assoc, List.append_assoc]
          rfl
      | pop item hcall hresult hfront =>
          obtain ⟨rest, rfl⟩ : ∃ rest, u = item :: rest := by
            cases u with
            | nil => cases hfront
            | cons y rest =>
                cases hfront
                exact ⟨rest, rfl⟩
          rw [hcall, hresult, List.append_assoc, List.append_assoc]
          exact congrArg _ (List.append_nil _).symm
      | nothing hcall hresult =>
          rw [hcall, hresult, List.append_assoc, List.append_assoc]
          exact congrArg _ (List.append_nil _).symm

section Runs

variable {C : Container σ α} {mQueue : σ} {n : ℕ} {actions : List (QueueAction α)}
  {t : WaitableQueue σ α} {history : List (QueueEvent α)}

/-- The run of the atomic queue that matches a run. -/
theorem exists_atomic_run
    (hrun : run (logged (WaitableQueue.step C)) (.start mQueue n, []) actions = some (t, history)) :
    ∃ as, run (logged (atomicQueue C).step) (.start mQueue n, []) as = some (t.atomic, history) := by
  obtain ⟨as, u, hatomic, -, rfl⟩ := (WaitableQueue.forward_atomic C).run
    ⟨WaitableQueue.guarded_start C mQueue n, rfl⟩ (fun _ _ => trivial) hrun
  rw [WaitableQueue.atomic_start, List.flatMap_singleton'] at hatomic
  exact ⟨as, hatomic⟩

/-- **Every run is atomic.** In every run, whatever the threads do, the calls return what they return in
a run of the atomic queue with the same calls and returns, and the container is the same. -/
theorem queue_atomic
    (hrun : run (logged (WaitableQueue.step C)) (.start mQueue n, []) actions = some (t, history)) :
    ∃ as u, run (logged (atomicQueue C).step) (.start mQueue n, []) as = some (u, history) ∧
      u.object = t.mQueue := by
  obtain ⟨as, hatomic⟩ := exists_atomic_run hrun
  exact ⟨as, _, hatomic, rfl⟩

/-- **No item is lost or duplicated.** When no call is in progress, the items that were popped and those
that are left are those that were pushed, and those that were there at the start. -/
theorem queue_conserves
    (hrun : run (logged (WaitableQueue.step C)) (.start mQueue n, []) actions = some (t, history))
    (hidle : ∀ phase ∈ t.threads, phase = .idle) :
    C.items t.mQueue + (outputs (completed history) : Multiset α) =
      C.items mQueue + (inputs (completed history) : Multiset α) := by
  obtain ⟨as, hatomic⟩ := exists_atomic_run hrun
  obtain ⟨order, hseq, hthreads⟩ := exists_order hatomic
  have hviews : ∀ phase ∈ t.atomic.threads, phase = .idle := by
    intro phase hphase
    obtain ⟨phase', hphase', rfl⟩ := List.mem_map.1 hphase
    rw [hidle phase' hphase']
    rfl
  have hperm := order_perm hviews hthreads
  have hall := items_of_sequential hseq
  rw [← coe_inputs, ← coe_outputs, (hperm.map _).sum_eq, (hperm.map _).sum_eq, coe_inputs,
    coe_outputs] at hall
  exact hall

end Runs

/-- **First in, first out.** With `std::queue`, the calls of every run that have taken effect can be put
in one order, which is that of each thread, so that the items that went out, with those that are left
behind them, are the items that came in, in the same order. -/
theorem queue_first_in_first_out {n : ℕ} {actions : List (QueueAction α)}
    {t : WaitableQueue (List α) α} {history : List (QueueEvent α)}
    (hrun : run (logged (WaitableQueue.step (Container.queue α))) (.start [] n, []) actions =
      some (t, history)) :
    ∃ order, (∀ i, ofThread i order = t.atomic.toReturn i ++ ofThread i (completed history)) ∧
      outputs order ++ t.mQueue = inputs order := by
  obtain ⟨as, hatomic⟩ := exists_atomic_run hrun
  obtain ⟨order, hseq, hthreads⟩ := exists_order hatomic
  exact ⟨order, hthreads, fifo_of_sequential hseq⟩

/-- A `Pop` waits for the item of a `Push`, and the notification hands it over. -/
def handover : List (QueueAction ℕ) :=
  [.call 0 .pop, .advance 0, .advance 0, .call 1 (.push 7), .advance 0, .advance 1, .advance 1,
    .advance 1, .notifyOne 1 (some 0), .advance 0, .advance 0, .advance 0, .ret 1, .advance 0,
    .advance 0, .ret 0]

theorem run_handover :
    run (logged (WaitableQueue.step (.queue ℕ))) (.start [] 2, []) handover =
      some (⟨[.idle, .idle], [], false⟩, [.returned 0 .pop (.popped 7),
        .returned 1 (.push 7) .pushed, .called 1 (.push 7), .called 0 .pop]) := rfl

theorem queue_atomic_handover :
    ∃ as u, run (logged (atomicQueue (.queue ℕ)).step) (.start [] 2, []) as =
        some (u, [.returned 0 .pop (.popped 7), .returned 1 (.push 7) .pushed, .called 1 (.push 7),
          .called 0 .pop]) ∧
      u.object = [] :=
  queue_atomic run_handover

/-- A `Pop` takes the item 3 that was there at the start while a `Push` waits for the mutex. -/
def exchange : List (QueueAction ℕ) :=
  [.call 0 .pop, .call 1 (.push 7), .advance 0, .advance 0, .advance 0, .advance 0, .advance 0,
    .advance 1, .advance 1, .advance 1, .notifyOne 1 none, .ret 0, .ret 1]

def exchangePast : List (QueueEvent ℕ) :=
  [.returned 1 (.push 7) .pushed, .returned 0 .pop (.popped 3), .called 1 (.push 7), .called 0 .pop]

theorem queue_conserves_exchange :
    (Container.queue ℕ).items [7] + (outputs (completed exchangePast) : Multiset ℕ) =
      (Container.queue ℕ).items [3] + (inputs (completed exchangePast) : Multiset ℕ) := by
  have hrun : run (logged (WaitableQueue.step (.queue ℕ))) (.start [3] 2, []) exchange =
      some (⟨[.idle, .idle], [7], false⟩, exchangePast) := rfl
  exact queue_conserves hrun (by decide)

theorem queue_first_in_first_out_handover :
    ∃ order : List (Done (QueueCall ℕ) (QueueResult ℕ)), outputs order = inputs order ∧
      ofThread 0 order = [(0, .pop, .popped 7)] := by
  obtain ⟨order, hthreads, hfifo⟩ := queue_first_in_first_out run_handover
  rw [List.append_nil] at hfifo
  exact ⟨order, hfifo, hthreads 0⟩

end IotDrive
