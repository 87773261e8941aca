/-
The queue of `priority_queue.hpp`, under the hands of any number of threads.

`Push` stores an item under the mutex and notifies one waiter after it has released it.  `Pop` waits
on the condition variable until the container is not empty; with a time limit it can fail to get the
mutex, and it can find nothing in time.  Each step below is one access to what the threads share:
taking or releasing the mutex, blocking on the condition variable, a notification, an operation of
the container.

Main definitions:

* `Container` — what a `WaitableQueue` takes for its `Q`, with the laws that it relies on;
* `QueuePhase` — where a thread is in its call;
* `WaitableQueue.step` — what can happen.

Main results:

* `WaitableQueue.step_cases` — what each step needs and does;
* `WaitableQueue.Guarded.step` — the mutex has one holder at most, and what a holder has found in the
  container is still so.
-/

import IotDrive.Library.AtomicObject
import IotDrive.Library.Mutex
import Mathlib.Data.Multiset.AddSub

set_option relaxedAutoImplicit false
set_option autoImplicit false

namespace IotDrive

/-! ### Containers -/

/-- The operations of a container, with the items that are in it.  The front of an empty container is
not defined, and taking it away neither. -/
structure Container (σ α : Type) where
  empty : σ → Bool
  front : σ → Option α
  push : σ → α → σ
  pop : σ → σ
  items : σ → Multiset α
  items_of_empty : ∀ s, empty s = true → items s = 0
  items_push : ∀ s x, items (push s x) = x ::ₘ items s
  exists_front : ∀ s, empty s = false → ∃ x, front s = some x
  items_pop : ∀ s x, front s = some x → items s = x ::ₘ items (pop s)

/-- `std::queue`. -/
def Container.queue (α : Type) : Container (List α) α where
  empty s := s.isEmpty
  front s := s.head?
  push s x := s ++ [x]
  pop s := s.tail
  items s := s
  items_of_empty s h := by
    rw [List.isEmpty_iff.1 h]
    rfl
  items_push s x := Multiset.coe_eq_coe.2 (List.perm_append_singleton x s)
  exists_front s h := by
    cases s with
    | nil => cases h
    | cons x s => exact ⟨x, rfl⟩
  items_pop s x h := by
    cases s with
    | nil => cases h
    | cons y s =>
        cases h
        rfl

namespace Container

variable {σ α : Type} (C : Container σ α)

theorem empty_of_items {s : σ} (h : C.items s = 0) : C.empty s = true := by
  by_contra hne
  obtain ⟨x, hx⟩ := C.exists_front s (Bool.not_eq_true _ ▸ hne)
  have hpop := C.items_pop s x hx
  rw [h] at hpop
  exact Multiset.zero_ne_cons hpop

theorem card_push (s : σ) (x : α) : (C.items (C.push s x)).card = (C.items s).card + 1 := by
  rw [C.items_push, Multiset.card_cons]

theorem card_pop {s : σ} {x : α} (h : C.front s = some x) :
    (C.items s).card = (C.items (C.pop s)).card + 1 := by
  rw [C.items_pop s x h, Multiset.card_cons]

end Container

/-! ### Calls -/

/-- The member functions; `popTimed` is the one with a time limit. -/
inductive QueueCall (α : Type)
  | push (item : α)
  | pop
  | popTimed
  | isEmpty
  deriving DecidableEq

/-- What they return.  `Pop` with a time limit returns a code, and stores an item with the code 0. -/
inductive QueueResult (α : Type)
  | pushed
  | popped (item : α)
  | timed (ret : ℤ) (item : Option α)
  | empty (b : Bool)
  deriving DecidableEq

/-- The time limit of a `Pop`: there is none, it is ahead, or it was found to have passed. -/
inductive TimeLimit
  | none | ahead | passed
  deriving DecidableEq

def TimeLimit.call {α : Type} : TimeLimit → QueueCall α
  | .none => .pop
  | _ => .popTimed

/-- What a `Pop` returns that has taken an item. -/
def TimeLimit.taken {α : Type} (item : α) : TimeLimit → QueueResult α
  | .none => .popped item
  | _ => .timed 0 (some item)

/-- Where a thread is: outside; in `Push`, before the lock, `push`, the release and `notify_one`; in
`Pop`, before the lock, the test of the predicate, blocking, blocked, before it has the mutex back,
before `front` and before `pop`; in `IsEmpty`, before the lock and before `empty`; in these two, before
the release; and before it returns. -/
inductive QueuePhase (α : Type)
  | idle
  | pushLocking (item : α)
  | pushing (item : α)
  | pushUnlocking (item : α)
  | notifying (item : α)
  | popLocking (limit : TimeLimit)
  | testing (limit : TimeLimit)
  | blocking (limit : TimeLimit)
  | blocked (limit : TimeLimit)
  | waking (limit : TimeLimit)
  | reading (limit : TimeLimit)
  | removing (limit : TimeLimit) (item : α)
  | emptyLocking
  | emptyReading
  | unlocking (call : QueueCall α) (result : QueueResult α)
  | returning (call : QueueCall α) (result : QueueResult α)
  deriving DecidableEq

/-- The thread waits for a notification. -/
def QueuePhase.isBlocked {α : Type} : QueuePhase α → Bool
  | .blocked _ => true
  | _ => false

/-- Where a call starts. -/
def QueueCall.phase {α : Type} : QueueCall α → QueuePhase α
  | .push item => .pushLocking item
  | .pop => .popLocking .none
  | .popTimed => .popLocking .ahead
  | .isEmpty => .emptyLocking

/-- The class, and the threads that use it.  `mMutex` says whether a thread holds `m_mutex`. -/
structure WaitableQueue (σ α : Type) where
  threads : List (QueuePhase α)
  mQueue : σ
  mMutex : Bool

/-- What can happen: a thread calls, goes on in its call, notifies one that is blocked, or none, is
woken for no reason, finds that its time limit has passed, or returns. -/
inductive QueueAction (α : Type)
  | call (thread : ℕ) (call : QueueCall α)
  | advance (thread : ℕ)
  | notifyOne (thread : ℕ) (woken : Option ℕ)
  | wake (thread : ℕ)
  | expire (thread : ℕ)
  | ret (thread : ℕ)

/-- What is seen of a queue from outside. -/
abbrev QueueEvent (α : Type) := AtomicObject.Event (QueueCall α) (QueueResult α)

namespace WaitableQueue

variable {σ α : Type}

/-- An empty queue, and threads that have not called. -/
def start (mQueue : σ) (n : ℕ) : WaitableQueue σ α :=
  { threads := List.replicate n .idle, mQueue, mMutex := false }

/-- The next step of a thread in its call. -/
def next (C : Container σ α) (s : WaitableQueue σ α) :
    QueuePhase α → Option (WaitableQueue σ α × QueuePhase α)
  | .idle | .notifying _ | .blocked _ | .returning _ _ => none
  -- `Push`
  | .pushLocking item => if s.mMutex then none else some ({ s with mMutex := true }, .pushing item)
  | .pushing item => some ({ s with mQueue := C.push s.mQueue item }, .pushUnlocking item)
  | .pushUnlocking item => some ({ s with mMutex := false }, .notifying item)
  -- `Pop`
  | .popLocking limit =>
      if s.mMutex then none else some ({ s with mMutex := true }, .testing limit)
  | .testing limit =>
      if C.empty s.mQueue then
        match limit with
        | .passed => some (s, .unlocking .popTimed (.timed (-1) none))
        | _ => some (s, .blocking limit)
      else some (s, .reading limit)
  | .blocking limit => some ({ s with mMutex := false }, .blocked limit)
  | .waking limit =>
      if s.mMutex then none else some ({ s with mMutex := true }, .testing limit)
  | .reading limit => (C.front s.mQueue).map fun item => (s, .removing limit item)
  | .removing limit item =>
      some ({ s with mQueue := C.pop s.mQueue },
        .unlocking limit.call (limit.taken item))
  -- `IsEmpty`
  | .emptyLocking => if s.mMutex then none else some ({ s with mMutex := true }, .emptyReading)
  | .emptyReading => some (s, .unlocking .isEmpty (.empty (C.empty s.mQueue)))
  -- the lock goes out of scope
  | .unlocking call result => some ({ s with mMutex := false }, .returning call result)

/-- The time limit of the thread has passed: it gives up waiting for the mutex, or stops waiting for
an item. -/
def expired : QueuePhase α → Option (QueuePhase α)
  | .popLocking .ahead => some (.returning .popTimed (.timed (-2) none))
  | .blocked .ahead => some (.waking .passed)
  | .waking .ahead => some (.waking .passed)
  | _ => none

/-- The transitions. -/
def step (C : Container σ α) (s : WaitableQueue σ α) :
    QueueAction α → Option (WaitableQueue σ α × List (QueueEvent α))
  | .call i call =>
      match s.threads[i]? with
      | some .idle => some ({ s with threads := s.threads.set i call.phase }, [.called i call])
      | _ => none
  | .advance i =>
      s.threads[i]?.bind fun phase =>
        (s.next C phase).map fun (s, phase) => ({ s with threads := s.threads.set i phase }, [])
  | .notifyOne i woken =>
      match s.threads[i]? with
      | some (.notifying item) =>
          let threads := s.threads.set i (.returning (.push item) .pushed)
          match woken with
          | none =>
              if s.threads.any QueuePhase.isBlocked then none else some ({ s with threads }, [])
          | some j =>
              match s.threads[j]? with
              | some (.blocked limit) =>
                  some ({ s with threads := threads.set j (.waking limit) }, [])
              | _ => none
      | _ => none
  | .wake i =>
      match s.threads[i]? with
      | some (.blocked limit) =>
          some ({ s with threads := s.threads.set i (.waking limit) }, [])
      | _ => none
  | .expire i =>
      s.threads[i]?.bind fun phase =>
        (expired phase).map fun phase => ({ s with threads := s.threads.set i phase }, [])
  | .ret i =>
      match s.threads[i]? with
      | some (.returning call result) =>
          some ({ s with threads := s.threads.set i .idle }, [.returned i call result])
      | _ => none

/-! ### What each step does -/

/-- What the next step of a thread needs, and does to what is shared: `Moves C s a t b` is a step from
phase `a` to phase `b`. -/
inductive Moves (C : Container σ α) (s : WaitableQueue σ α) :
    QueuePhase α → WaitableQueue σ α → QueuePhase α → Prop
  | lockPush (item : α) (hmutex : s.mMutex = false) :
      Moves C s (.pushLocking item) { s with mMutex := true } (.pushing item)
  | push (item : α) :
      Moves C s (.pushing item) { s with mQueue := C.push s.mQueue item } (.pushUnlocking item)
  | unlockPush (item : α) :
      Moves C s (.pushUnlocking item) { s with mMutex := false } (.notifying item)
  | lockPop (limit : TimeLimit) (hmutex : s.mMutex = false) :
      Moves C s (.popLocking limit) { s with mMutex := true } (.testing limit)
  | nothing (hempty : C.empty s.mQueue = true) :
      Moves C s (.testing .passed) s (.unlocking .popTimed (.timed (-1) none))
  | wait (limit : TimeLimit) (hlimit : limit ≠ .passed) (hempty : C.empty s.mQueue = true) :
      Moves C s (.testing limit) s (.blocking limit)
  | find (limit : TimeLimit) (hempty : C.empty s.mQueue = false) :
      Moves C s (.testing limit) s (.reading limit)
  | block (limit : TimeLimit) :
      Moves C s (.blocking limit) { s with mMutex := false } (.blocked limit)
  | relock (limit : TimeLimit) (hmutex : s.mMutex = false) :
      Moves C s (.waking limit) { s with mMutex := true } (.testing limit)
  | front (limit : TimeLimit) (item : α) (hfront : C.front s.mQueue = some item) :
      Moves C s (.reading limit) s (.removing limit item)
  | pop (limit : TimeLimit) (item : α) :
      Moves C s (.removing limit item) { s with mQueue := C.pop s.mQueue }
        (.unlocking limit.call (limit.taken item))
  | lockEmpty (hmutex : s.mMutex = false) :
      Moves C s .emptyLocking { s with mMutex := true } .emptyReading
  | empty :
      Moves C s .emptyReading s (.unlocking .isEmpty (.empty (C.empty s.mQueue)))
  | unlock (call : QueueCall α) (result : QueueResult α) :
      Moves C s (.unlocking call result) { s with mMutex := false } (.returning call result)

variable {C : Container σ α} {s t : WaitableQueue σ α}

theorem next_cases {a b : QueuePhase α} (h : s.next C a = some (t, b)) : Moves C s a t b := by
  cases a with
  | idle => cases h
  | pushLocking item =>
      simp only [next, Option.ite_none_left_eq_some] at h
      obtain ⟨hmutex, heq⟩ := h
      cases heq
      exact .lockPush item (by simpa using hmutex)
  | pushing item =>
      cases h
      exact .push item
  | pushUnlocking item =>
      cases h
      exact .unlockPush item
  | notifying item => cases h
  | popLocking limit =>
      simp only [next, Option.ite_none_left_eq_some] at h
      obtain ⟨hmutex, heq⟩ := h
      cases heq
      exact .lockPop limit (by simpa using hmutex)
  | testing limit =>
      simp only [next] at h
      split at h
      · split at h
        · cases h
          exact .nothing ‹_›
        · cases h
          exact .wait limit ‹_› ‹_›
      · cases h
        exact .find limit (Bool.eq_false_iff.2 ‹_›)
  | blocking limit =>
      cases h
      exact .block limit
  | blocked limit => cases h
  | waking limit =>
      simp only [next, Option.ite_none_left_eq_some] at h
      obtain ⟨hmutex, heq⟩ := h
      cases heq
      exact .relock limit (by simpa using hmutex)
  | reading limit =>
      obtain ⟨item, hfront, heq⟩ := Option.map_eq_some_iff.1 h
      cases heq
      exact .front limit item hfront
  | removing limit item =>
      cases h
      exact .pop limit item
  | emptyLocking =>
      simp only [next, Option.ite_none_left_eq_some] at h
      obtain ⟨hmutex, heq⟩ := h
      cases heq
      exact .lockEmpty (by simpa using hmutex)
  | emptyReading =>
      cases h
      exact .empty
  | unlocking call result =>
      cases h
      exact .unlock call result
  | returning call result => cases h

theorem Moves.threads_eq {a b : QueuePhase α} (h : Moves C s a t b) : t.threads = s.threads := by
  cases h <;> rfl

/-- What a thread does when its time limit passes. -/
inductive Expires : QueuePhase α → QueuePhase α → Prop
  | giveUp : Expires (.popLocking .ahead) (.returning .popTimed (.timed (-2) none))
  | stop : Expires (.blocked .ahead) (.waking .passed)
  | late : Expires (.waking .ahead) (.waking .passed)

theorem expired_cases {a b : QueuePhase α} (h : expired a = some b) : Expires a b := by
  unfold expired at h
  split at h
  · cases h
    exact .giveUp
  · cases h
    exact .stop
  · cases h
    exact .late
  · cases h

/-- The steps of the queue. -/
inductive Steps (C : Container σ α) (s : WaitableQueue σ α) :
    QueueAction α → WaitableQueue σ α → List (QueueEvent α) → Prop
  | call (i : ℕ) (call : QueueCall α) (hi : s.threads[i]? = some .idle) :
      Steps C s (.call i call) { s with threads := s.threads.set i call.phase } [.called i call]
  | advance (i : ℕ) {a b : QueuePhase α} {t : WaitableQueue σ α} (hi : s.threads[i]? = some a)
      (hmove : Moves C s a t b) :
      Steps C s (.advance i) { t with threads := s.threads.set i b } []
  | notifyNone (i : ℕ) (item : α) (hi : s.threads[i]? = some (.notifying item))
      (hnone : ∀ phase ∈ s.threads, phase.isBlocked = false) :
      Steps C s (.notifyOne i none)
        { s with threads := s.threads.set i (.returning (.push item) .pushed) } []
  | notifyOne (i j : ℕ) (item : α) (limit : TimeLimit)
      (hi : s.threads[i]? = some (.notifying item)) (hj : s.threads[j]? = some (.blocked limit)) :
      Steps C s (.notifyOne i (some j)) { s with
        threads := (s.threads.set i (.returning (.push item) .pushed)).set j (.waking limit) } []
  | wake (i : ℕ) (limit : TimeLimit) (hi : s.threads[i]? = some (.blocked limit)) :
      Steps C s (.wake i) { s with threads := s.threads.set i (.waking limit) } []
  | expire (i : ℕ) {a b : QueuePhase α} (hi : s.threads[i]? = some a) (hexpires : Expires a b) :
      Steps C s (.expire i) { s with threads := s.threads.set i b } []
  | ret (i : ℕ) (call : QueueCall α) (result : QueueResult α)
      (hi : s.threads[i]? = some (.returning call result)) :
      Steps C s (.ret i) { s with threads := s.threads.set i .idle } [.returned i call result]

/-- A step is one of these. -/
theorem step_cases {a : QueueAction α} {out : List (QueueEvent α)}
    (h : s.step C a = some (t, out)) : Steps C s a t out := by
  cases a with
  | call i call =>
      simp only [step] at h
      split at h
      · cases h
        exact .call i call ‹_›
      · cases h
  | advance i =>
      obtain ⟨phase, hi, hmap⟩ := Option.bind_eq_some_iff.1 h
      obtain ⟨⟨u, b⟩, hnext, heq⟩ := Option.map_eq_some_iff.1 hmap
      cases heq
      have hmove := next_cases hnext
      rw [hmove.threads_eq]
      exact .advance i hi hmove
  | notifyOne i woken =>
      simp only [step] at h
      split at h
      · split at h
        · simp only [Option.ite_none_left_eq_some] at h
          obtain ⟨hany, heq⟩ := h
          cases heq
          exact .notifyNone i _ ‹_› (by simpa using hany)
        · split at h
          · cases h
            exact .notifyOne i _ _ _ ‹_› ‹_›
          · cases h
      · cases h
  | wake i =>
      simp only [step] at h
      split at h
      · cases h
        exact .wake i _ ‹_›
      · cases h
  | expire i =>
      obtain ⟨phase, hi, hmap⟩ := Option.bind_eq_some_iff.1 h
      obtain ⟨b, hexpired, heq⟩ := Option.map_eq_some_iff.1 hmap
      cases heq
      exact .expire i hi (expired_cases hexpired)
  | ret i =>
      simp only [step] at h
      split at h
      · cases h
        exact .ret i _ _ ‹_›
      · cases h

end WaitableQueue

/-! ### Mutual exclusion -/

/-- The thread holds the mutex. -/
def QueuePhase.holds {α : Type} : QueuePhase α → Bool
  | .pushing _ | .pushUnlocking _ | .testing _ | .blocking _ | .reading _ | .removing _ _
  | .emptyReading | .unlocking _ _ => true
  | _ => false

/-- What the thread has found in the container. -/
def QueuePhase.Knows {σ α : Type} (C : Container σ α) (mQueue : σ) : QueuePhase α → Prop
  | .blocking _ => C.empty mQueue = true
  | .reading _ => C.empty mQueue = false
  | .removing _ item => C.empty mQueue = false ∧ C.front mQueue = some item
  | _ => True

theorem QueuePhase.knows_of_not_holds {σ α : Type} (C : Container σ α) (mQueue : σ)
    {phase : QueuePhase α} (h : phase.holds = false) : phase.Knows C mQueue := by
  cases phase with
  | blocking limit => cases h
  | reading limit => cases h
  | removing limit item => cases h
  | _ => trivial

theorem QueueCall.holds_phase {α : Type} (call : QueueCall α) : call.phase.holds = false := by
  cases call <;> rfl

namespace WaitableQueue

variable {σ α : Type} {C : Container σ α} {s t : WaitableQueue σ α}

/-- The mutex has one holder at most, and what it has found is still so. -/
structure Guarded (C : Container σ α) (s : WaitableQueue σ α) : Prop where
  holders : Mutex.Held QueuePhase.holds s.threads s.mMutex
  knows : ∀ phase ∈ s.threads, phase.Knows C s.mQueue

theorem guarded_start (C : Container σ α) (mQueue : σ) (n : ℕ) : (start mQueue n).Guarded C := by
  constructor
  · exact Mutex.held_replicate rfl n
  · intro phase hphase
    rw [List.eq_of_mem_replicate hphase]
    trivial

/-- A thread that does not hold the mutex, before or after its step. -/
theorem Guarded.set (h : s.Guarded C) {i : ℕ} {a b : QueuePhase α} (hi : s.threads[i]? = some a)
    (ha : a.holds = false) (hb : b.holds = false) :
    Guarded C { s with threads := s.threads.set i b } := by
  constructor
  · exact h.holders.set hi ha hb
  · intro phase hphase
    rcases List.mem_or_eq_of_mem_set hphase with hold | rfl
    · exact h.knows phase hold
    · exact QueuePhase.knows_of_not_holds C _ hb

/-- The mutex changes hands as the phases say. -/
theorem Moves.held {a b : QueuePhase α} {threads : List (QueuePhase α)} {i : ℕ}
    (hmove : Moves C s a t b) (h : Mutex.Held QueuePhase.holds threads s.mMutex)
    (hi : threads[i]? = some a) : Mutex.Held QueuePhase.holds (threads.set i b) t.mMutex := by
  cases hmove with
  | lockPush item hmutex => exact h.lock hi rfl rfl hmutex
  | lockPop limit hmutex => exact h.lock hi rfl rfl hmutex
  | relock limit hmutex => exact h.lock hi rfl rfl hmutex
  | lockEmpty hmutex => exact h.lock hi rfl rfl hmutex
  | unlockPush item => exact h.unlock hi rfl rfl
  | block limit => exact h.unlock hi rfl rfl
  | unlock call result => exact h.unlock hi rfl rfl
  | _ => exact h.keep hi rfl rfl

/-- What a thread finds out with its step. -/
theorem Moves.knows {a b : QueuePhase α} (h : Moves C s a t b) (ha : a.Knows C s.mQueue) :
    b.Knows C t.mQueue := by
  cases h with
  | wait limit hlimit hempty => exact hempty
  | find limit hempty => exact hempty
  | front limit item hfront => exact ⟨ha, hfront⟩
  | _ => trivial

/-- Only the holder of the mutex changes the container. -/
theorem Moves.mQueue_eq {a b : QueuePhase α} (h : Moves C s a t b) :
    t.mQueue = s.mQueue ∨ a.holds = true := by
  cases h with
  | push item => exact .inr rfl
  | pop limit item => exact .inr rfl
  | _ => exact .inl rfl

/-- A thread that goes on in its call. -/
theorem Guarded.advance (h : s.Guarded C) {i : ℕ} {a b : QueuePhase α}
    (hi : s.threads[i]? = some a) (hmove : Moves C s a t b) :
    Guarded C { t with threads := s.threads.set i b } := by
  have hknows : b.Knows C t.mQueue := hmove.knows (h.knows a (List.mem_of_getElem? hi))
  refine ⟨hmove.held h.holders hi, ?_⟩
  rcases hmove.mQueue_eq with heq | ha
  · intro phase hphase
    rcases List.mem_or_eq_of_mem_set hphase with hold | rfl
    · rw [heq]
      exact h.knows phase hold
    · exact hknows
  · -- all others are without the mutex, and have found nothing out
    exact h.holders.others hi ha (fun _ _ => QueuePhase.knows_of_not_holds C _) hknows

theorem Expires.holds {a b : QueuePhase α} (h : Expires a b) :
    a.holds = false ∧ b.holds = false := by
  cases h <;> exact ⟨rfl, rfl⟩

/-- A thread that notifies is not the one that it wakes. -/
theorem getElem?_set_of_blocked {threads : List (QueuePhase α)} {i j : ℕ} {item : α}
    {limit : TimeLimit} (hi : threads[i]? = some (.notifying item))
    (hj : threads[j]? = some (.blocked limit)) (b : QueuePhase α) :
    (threads.set i b)[j]? = some (.blocked limit) := by
  have hij : i ≠ j := by
    rintro rfl
    cases hi.symm.trans hj
  rw [List.getElem?_set_ne hij, hj]

/-- Every step keeps the mutex, and what its holder knows. -/
theorem Guarded.step (h : s.Guarded C) {a : QueueAction α} {out : List (QueueEvent α)}
    (hstep : Steps C s a t out) : t.Guarded C := by
  cases hstep with
  | call i call hi => exact h.set hi rfl (QueueCall.holds_phase call)
  | advance i hi hmove => exact h.advance hi hmove
  | notifyNone i item hi hnone => exact h.set hi rfl rfl
  | notifyOne i j item limit hi hj =>
      exact (h.set hi rfl rfl).set (getElem?_set_of_blocked hi hj _) rfl rfl
  | wake i limit hi => exact h.set hi rfl rfl
  | expire i hi hexpires => exact h.set hi hexpires.holds.1 hexpires.holds.2
  | ret i call result hi => exact h.set hi rfl rfl

/-- A thread that is outside stays there until it calls. -/
theorem Steps.idle {a : QueueAction α} {out : List (QueueEvent α)} (h : Steps C s a t out) {k : ℕ}
    (hk : s.threads[k]? = some .idle) (hcall : ∀ call, a ≠ .call k call) :
    t.threads[k]? = some .idle := by
  have hset : ∀ {i : ℕ} {threads : List (QueuePhase α)} {phase : QueuePhase α}, i ≠ k →
      threads[k]? = some .idle → (threads.set i phase)[k]? = some .idle := by
    intro i threads phase hik hidle
    rw [List.getElem?_set_ne hik, hidle]
  cases h with
  | call i call hi =>
      refine hset ?_ hk
      rintro rfl
      exact hcall call rfl
  | advance i hi hmove =>
      refine hset ?_ hk
      rintro rfl
      cases hi.symm.trans hk
      cases hmove
  | notifyNone i item hi hnone =>
      refine hset ?_ hk
      rintro rfl
      cases hi.symm.trans hk
  | notifyOne i j item limit hi hj =>
      refine hset ?_ (hset ?_ hk)
      · rintro rfl
        cases hj.symm.trans hk
      · rintro rfl
        cases hi.symm.trans hk
  | wake i limit hi =>
      refine hset ?_ hk
      rintro rfl
      cases hi.symm.trans hk
  | expire i hi hexpires =>
      refine hset ?_ hk
      rintro rfl
      cases hi.symm.trans hk
      cases hexpires
  | ret i call result hi =>
      refine hset ?_ hk
      rintro rfl
      cases hi.symm.trans hk

end WaitableQueue

/-- The call that a thread is in. -/
def QueuePhase.call? {α : Type} : QueuePhase α → Option (QueueCall α)
  | .idle => none
  | .pushLocking item | .pushing item | .pushUnlocking item | .notifying item => some (.push item)
  | .popLocking limit | .testing limit | .blocking limit | .blocked limit | .waking limit
  | .reading limit | .removing limit _ => some limit.call
  | .emptyLocking | .emptyReading => some .isEmpty
  | .unlocking call _ | .returning call _ => some call

namespace WaitableQueue

variable {σ α : Type} {C : Container σ α} {s t : WaitableQueue σ α}

theorem Moves.call_eq {a b : QueuePhase α} (h : Moves C s a t b) : b.call? = a.call? := by
  cases h <;> rfl

theorem Expires.call_eq {a b : QueuePhase α} (h : Expires a b) : b.call? = a.call? := by
  cases h <;> rfl

/-- A thread stays in its call until it returns. -/
theorem Steps.call_eq {a : QueueAction α} {out : List (QueueEvent α)} (h : Steps C s a t out) {k : ℕ}
    {phase : QueuePhase α} {call : QueueCall α} (hk : s.threads[k]? = some phase)
    (hcall : phase.call? = some call) (hret : ∀ op result, .returned k op result ∉ out) :
    ∃ phase', t.threads[k]? = some phase' ∧ phase'.call? = some call := by
  have hset : ∀ {i : ℕ} {threads : List (QueuePhase α)} {a b p : QueuePhase α},
      threads[i]? = some a → threads[k]? = some p → p.call? = some call → b.call? = a.call? →
        ∃ p', (threads.set i b)[k]? = some p' ∧ p'.call? = some call := by
    intro i threads a b p hi hp hpcall hab
    by_cases hik : i = k
    · subst hik
      cases hi.symm.trans hp
      exact ⟨b, List.getElem?_set_self (List.getElem?_eq_some_iff.1 hi).1, hab.trans hpcall⟩
    · exact ⟨p, (List.getElem?_set_ne hik).trans hp, hpcall⟩
  cases h with
  | call i op hi =>
      have hik : i ≠ k := by
        rintro rfl
        cases hi.symm.trans hk
        cases hcall
      exact ⟨phase, (List.getElem?_set_ne hik).trans hk, hcall⟩
  | advance i hi hmove => exact hset hi hk hcall hmove.call_eq
  | notifyNone i item hi hnone => exact hset hi hk hcall rfl
  | notifyOne i j item limit hi hj =>
      obtain ⟨p, hp, hpcall⟩ := hset (b := .returning (.push item) .pushed) hi hk hcall rfl
      exact hset (getElem?_set_of_blocked hi hj _) hp hpcall rfl
  | wake i limit hi => exact hset hi hk hcall rfl
  | expire i hi hexpires => exact hset hi hk hcall hexpires.call_eq
  | ret i op result hi =>
      have hik : i ≠ k := by
        rintro rfl
        exact hret op result (List.mem_cons_self ..)
      exact ⟨phase, (List.getElem?_set_ne hik).trans hk, hcall⟩

end WaitableQueue

end IotDrive
