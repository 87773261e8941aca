/-
`Singleton<T>::GetInstance` of `singleton.hpp`, called by any number of threads.

A call that finds `m_supply_flag` set loads the pointer.  Any other goes through `Init`, which loads the
pointer, takes the mutex if it is null, loads it again, and constructs the object if it is still null.
The constructor can throw.  Each step below is one access to what the threads share, in the order of
the program, and the accesses are taken to be atomic: `m_supply_flag` is a plain variable, and the
loads and stores of `m_instance` are relaxed.

Main definitions:

* `InstancePhase` — where a thread is in its call;
* `Singleton.step` — what can happen;
* `OneInstance` — what an event says about the events before it.

Main results:

* `Singleton.Guarded.step` — the holder of the mutex is the only one that constructs;
* `one_instance` — **one object is constructed**, every call returns it, and it is registered for its
  destruction once;
* `getInstance_returns` — **every call returns**.
-/

import IotDrive.Library.History
import IotDrive.Library.Mutex

set_option relaxedAutoImplicit false
set_option autoImplicit false

namespace IotDrive

/-- What a call comes to: the pointer that it returns, or the exception of the constructor. -/
inductive InstanceResult
  | pointer (obj : Option ℕ)
  | exception
  deriving DecidableEq

/-- Where a thread is: outside; before it reads `m_supply_flag`; in `Supply`, before the load; in `Init`,
before the first load, before the lock, and before the second load; in the constructor of an object;
before the store of the pointer and that of the flag, before `atexit`, and before the release; and
before it returns. -/
inductive InstancePhase
  | idle
  | testing
  | supplying
  | loading
  | locking
  | reloading
  | constructing (obj : ℕ)
  | storing (obj : ℕ)
  | flagging (obj : ℕ)
  | registering (obj : ℕ)
  | unlocking (result : InstanceResult)
  | returning (result : InstanceResult)
  deriving DecidableEq

/-- The static members, and the threads; `allocated` numbers the objects. -/
structure Singleton where
  threads : List InstancePhase
  mSupplyFlag : Bool
  mInstance : Option ℕ
  mMutex : Bool
  allocated : ℕ

/-- What can happen: a thread calls, goes on, comes to the end of the constructor, which can throw, or
returns. -/
inductive InstanceAction
  | call (thread : ℕ)
  | advance (thread : ℕ)
  | construct (thread : ℕ) (throws : Bool)
  | ret (thread : ℕ)

/-- A step of a thread in its call. -/
def InstanceAction.isOwn : InstanceAction → Bool
  | .call _ => false
  | _ => true

/-- What is seen of it: an object is complete when its constructor has returned. -/
inductive InstanceEvent
  | called (thread : ℕ)
  | constructed (thread obj : ℕ)
  | registered (thread : ℕ)
  | returned (thread : ℕ) (result : InstanceResult)
  deriving DecidableEq

namespace Singleton

def start (n : ℕ) : Singleton :=
  { threads := List.replicate n .idle, mSupplyFlag := false, mInstance := none, mMutex := false,
    allocated := 0 }

/-- The next step of a thread that is not in the constructor. -/
def next (s : Singleton) (i : ℕ) :
    InstancePhase → Option (Singleton × InstancePhase × List InstanceEvent)
  | .idle | .constructing _ | .returning _ => none
  -- `GetInstance`
  | .testing => some (s, if s.mSupplyFlag then .supplying else .loading, [])
  -- `Supply`
  | .supplying => some (s, .returning (.pointer s.mInstance), [])
  -- `Init`
  | .loading =>
      match s.mInstance with
      | some obj => some (s, .returning (.pointer (some obj)), [])
      | none => some (s, .locking, [])
  | .locking => if s.mMutex then none else some ({ s with mMutex := true }, .reloading, [])
  | .reloading =>
      match s.mInstance with
      | some obj => some (s, .unlocking (.pointer (some obj)), [])
      | none => some ({ s with allocated := s.allocated + 1 }, .constructing s.allocated, [])
  | .storing obj => some ({ s with mInstance := some obj }, .flagging obj, [])
  | .flagging obj => some ({ s with mSupplyFlag := true }, .registering obj, [])
  | .registering obj => some (s, .unlocking (.pointer (some obj)), [.registered i])
  | .unlocking result => some ({ s with mMutex := false }, .returning result, [])

/-- The transitions. -/
def step (s : Singleton) : InstanceAction → Option (Singleton × List InstanceEvent)
  | .call i =>
      match s.threads[i]? with
      | some .idle => some ({ s with threads := s.threads.set i .testing }, [.called i])
      | _ => none
  | .advance i =>
      s.threads[i]?.bind fun phase =>
        (s.next i phase).map fun (s, phase, out) =>
          ({ s with threads := s.threads.set i phase }, out)
  | .construct i throws =>
      match s.threads[i]? with
      | some (.constructing obj) =>
          if throws then
            some ({ s with threads := s.threads.set i (.unlocking .exception) }, [])
          else some ({ s with threads := s.threads.set i (.storing obj) }, [.constructed i obj])
      | _ => none
  | .ret i =>
      match s.threads[i]? with
      | some (.returning result) =>
          some ({ s with threads := s.threads.set i .idle }, [.returned i result])
      | _ => none

/-! ### What each step does -/

/-- What the next step of the thread `i` needs and does. -/
inductive Moves (s : Singleton) (i : ℕ) :
    InstancePhase → Singleton → InstancePhase → List InstanceEvent → Prop
  | flagged (hflag : s.mSupplyFlag = true) : Moves s i .testing s .supplying []
  | notFlagged (hflag : s.mSupplyFlag = false) : Moves s i .testing s .loading []
  | supply : Moves s i .supplying s (.returning (.pointer s.mInstance)) []
  | load (obj : ℕ) (hobj : s.mInstance = some obj) :
      Moves s i .loading s (.returning (.pointer (some obj))) []
  | loadNull (hnull : s.mInstance = none) : Moves s i .loading s .locking []
  | lock (hmutex : s.mMutex = false) : Moves s i .locking { s with mMutex := true } .reloading []
  | reload (obj : ℕ) (hobj : s.mInstance = some obj) :
      Moves s i .reloading s (.unlocking (.pointer (some obj))) []
  | reloadNull (hnull : s.mInstance = none) :
      Moves s i .reloading { s with allocated := s.allocated + 1 } (.constructing s.allocated) []
  | throw (obj : ℕ) : Moves s i (.constructing obj) s (.unlocking .exception) []
  | construct (obj : ℕ) : Moves s i (.constructing obj) s (.storing obj) [.constructed i obj]
  | store (obj : ℕ) : Moves s i (.storing obj) { s with mInstance := some obj } (.flagging obj) []
  | flag (obj : ℕ) : Moves s i (.flagging obj) { s with mSupplyFlag := true } (.registering obj) []
  | register (obj : ℕ) :
      Moves s i (.registering obj) s (.unlocking (.pointer (some obj))) [.registered i]
  | unlock (result : InstanceResult) :
      Moves s i (.unlocking result) { s with mMutex := false } (.returning result) []
  | call : Moves s i .idle s .testing [.called i]
  | ret (result : InstanceResult) : Moves s i (.returning result) s .idle [.returned i result]

variable {s t : Singleton}

theorem next_cases {i : ℕ} {a b : InstancePhase} {out : List InstanceEvent}
    (h : s.next i a = some (t, b, out)) : Moves s i a t b out ∧ t.threads = s.threads := by
  cases a with
  | idle => cases h
  | testing =>
      simp only [next] at h
      cases hflag : s.mSupplyFlag with
      | true =>
          simp only [hflag, if_true] at h
          cases h
          exact ⟨.flagged hflag, rfl⟩
      | false =>
          simp only [hflag, Bool.false_eq_true, if_false] at h
          cases h
          exact ⟨.notFlagged hflag, rfl⟩
  | supplying =>
      cases h
      exact ⟨.supply, rfl⟩
  | loading =>
      simp only [next] at h
      split at h
      · cases h
        exact ⟨.load _ ‹_›, rfl⟩
      · cases h
        exact ⟨.loadNull ‹_›, rfl⟩
  | locking =>
      simp only [next, Option.ite_none_left_eq_some] at h
      obtain ⟨hmutex, heq⟩ := h
      cases heq
      exact ⟨.lock (by simpa using hmutex), rfl⟩
  | reloading =>
      simp only [next] at h
      split at h
      · cases h
        exact ⟨.reload _ ‹_›, rfl⟩
      · cases h
        exact ⟨.reloadNull ‹_›, rfl⟩
  | constructing obj => cases h
  | storing obj =>
      cases h
      exact ⟨.store obj, rfl⟩
  | flagging obj =>
      cases h
      exact ⟨.flag obj, rfl⟩
  | registering obj =>
      cases h
      exact ⟨.register obj, rfl⟩
  | unlocking result =>
      cases h
      exact ⟨.unlock result, rfl⟩
  | returning result => cases h

/-- Every step is one of a thread. -/
theorem step_cases {c : InstanceAction} {out : List InstanceEvent} (h : s.step c = some (t, out)) :
    ∃ i a b u, s.threads[i]? = some a ∧ (c.isOwn = true → a ≠ .idle) ∧ Moves s i a u b out ∧
      t = { u with threads := s.threads.set i b } := by
  cases c with
  | call i =>
      simp only [step] at h
      split at h
      · cases h
        exact ⟨i, _, _, s, ‹_›, (fun hown => by cases hown), .call, rfl⟩
      · cases h
  | advance i =>
      obtain ⟨a, hi, hmap⟩ := Option.bind_eq_some_iff.1 h
      obtain ⟨⟨u, b, out'⟩, hnext, heq⟩ := Option.map_eq_some_iff.1 hmap
      obtain ⟨hmove, hthreads⟩ := next_cases hnext
      cases heq
      refine ⟨i, a, b, u, hi, ?_, hmove, by rw [hthreads]⟩
      rintro - rfl
      cases hnext
  | construct i throws =>
      simp only [step] at h
      split at h
      · split at h
        · cases h
          exact ⟨i, _, _, s, ‹_›, (fun _ heq => by cases heq), .throw _, rfl⟩
        · cases h
          exact ⟨i, _, _, s, ‹_›, (fun _ heq => by cases heq), .construct _, rfl⟩
      · cases h
  | ret i =>
      simp only [step] at h
      split at h
      · cases h
        exact ⟨i, _, _, s, ‹_›, (fun _ heq => by cases heq), .ret _, rfl⟩
      · cases h

end Singleton

/-! ### One object -/

/-- The objects whose constructor has returned, the last of them first. -/
def built : List InstanceEvent → List ℕ
  | [] => []
  | .constructed _ obj :: past => obj :: built past
  | _ :: past => built past

/-- No object has been registered for its destruction. -/
def Unregistered (history : List InstanceEvent) : Prop := ∀ i, .registered i ∉ history

/-- An object is constructed when there is none, it is registered once, and a call that does not throw
returns the one that there is. -/
def OneInstance (past : List InstanceEvent) : InstanceEvent → Prop
  | .constructed _ _ => built past = []
  | .registered _ => Unregistered past
  | .returned _ (.pointer p) => ∃ obj, p = some obj ∧ built past = [obj]
  | _ => True

/-- The thread holds the mutex. -/
def InstancePhase.holds : InstancePhase → Bool
  | .reloading | .constructing _ | .storing _ | .flagging _ | .registering _ | .unlocking _ => true
  | _ => false

/-- What a thread has found, or done. -/
def InstancePhase.Knows (mInstance : Option ℕ) (history : List InstanceEvent) :
    InstancePhase → Prop
  | .supplying => mInstance ≠ none
  | .reloading => mInstance = none → built history = []
  | .constructing _ | .unlocking .exception => mInstance = none ∧ built history = []
  | .storing obj => mInstance = none ∧ built history = [obj]
  | .flagging obj | .registering obj => mInstance = some obj ∧ Unregistered history
  | .unlocking (.pointer p) | .returning (.pointer p) => mInstance = p ∧ p ≠ none
  | _ => True

namespace Singleton

open History Transition

/-- One thread at most is between the lock and its release, and the pointer is that of the one object. -/
structure Guarded (s : Singleton) (history : List InstanceEvent) : Prop where
  holders : Mutex.Held InstancePhase.holds s.threads s.mMutex
  knows : ∀ phase ∈ s.threads, phase.Knows s.mInstance history
  stored : ∀ obj, s.mInstance = some obj → built history = [obj]
  flagged : s.mSupplyFlag = true → s.mInstance ≠ none
  free : s.mMutex = false → s.mInstance = none → built history = []
  unregistered : s.mInstance = none → Unregistered history

theorem guarded_start (n : ℕ) : (start n).Guarded [] where
  holders := Mutex.held_replicate rfl n
  knows phase hphase := by
    rw [List.eq_of_mem_replicate hphase]
    trivial
  stored _ h := by cases h
  flagged h := by cases h
  free _ _ := rfl
  unregistered _ _ := List.not_mem_nil

variable {s t : Singleton} {i : ℕ} {a b : InstancePhase} {out history : List InstanceEvent}

/-- The mutex changes hands as the phases say. -/
theorem Moves.held {threads : List InstancePhase} (hmove : Moves s i a t b out)
    (h : Mutex.Held InstancePhase.holds threads s.mMutex) (hi : threads[i]? = some a) :
    Mutex.Held InstancePhase.holds (threads.set i b) t.mMutex := by
  cases hmove with
  | lock hmutex => exact h.lock hi rfl rfl hmutex
  | unlock result => exact h.unlock hi rfl rfl
  | flagged hflag => exact h.set hi rfl rfl
  | notFlagged hflag => exact h.set hi rfl rfl
  | supply => exact h.set hi rfl rfl
  | load obj hobj => exact h.set hi rfl rfl
  | loadNull hnull => exact h.set hi rfl rfl
  | call => exact h.set hi rfl rfl
  | ret result => exact h.set hi rfl rfl
  | _ => exact h.keep hi rfl rfl

/-- The events of a step that the object and its registration do not take part in. -/
theorem knows_congr {mInstance : Option ℕ} {history history' : List InstanceEvent}
    (hbuilt : built history' = built history)
    (hregistered : Unregistered history → Unregistered history') {phase : InstancePhase}
    (h : phase.Knows mInstance history) : phase.Knows mInstance history' := by
  cases phase with
  | reloading => exact fun hnull => hbuilt.trans (h hnull)
  | constructing obj => exact ⟨h.1, hbuilt.trans h.2⟩
  | storing obj => exact ⟨h.1, hbuilt.trans h.2⟩
  | flagging obj => exact ⟨h.1, hregistered h.2⟩
  | registering obj => exact ⟨h.1, hregistered h.2⟩
  | unlocking result =>
      cases result with
      | pointer p => exact h
      | exception => exact ⟨h.1, hbuilt.trans h.2⟩
  | returning result =>
      cases result with
      | pointer p => exact h
      | exception => trivial
  | supplying => exact h
  | _ => trivial

/-- A thread without the mutex knows of a pointer only that it is not null any more. -/
theorem knows_of_not_holds {mInstance mInstance' : Option ℕ} {history history' : List InstanceEvent}
    (hkeep : mInstance' = mInstance ∨ mInstance = none) {phase : InstancePhase}
    (hphase : phase.holds = false) (h : phase.Knows mInstance history) :
    phase.Knows mInstance' history' := by
  cases phase with
  | supplying =>
      rcases hkeep with rfl | hnull
      · exact h
      · exact absurd hnull h
  | returning result =>
      cases result with
      | pointer p =>
          rcases hkeep with rfl | hnull
          · exact h
          · exact absurd (h.1.symm.trans hnull) h.2
      | exception => trivial
  | reloading => cases hphase
  | constructing obj => cases hphase
  | storing obj => cases hphase
  | flagging obj => cases hphase
  | registering obj => cases hphase
  | unlocking result => cases hphase
  | _ => trivial

/-- What the thread knows after its step. -/
theorem Moves.knows (hmove : Moves s i a t b out) (h : s.Guarded history)
    (ha : a.Knows s.mInstance history) : b.Knows t.mInstance (out ++ history) := by
  cases hmove with
  | flagged hflag => exact h.flagged hflag
  | supply => exact ⟨rfl, ha⟩
  | load obj hobj => exact ⟨hobj, Option.some_ne_none obj⟩
  | lock hmutex => exact h.free hmutex
  | reload obj hobj => exact ⟨hobj, Option.some_ne_none obj⟩
  | reloadNull hnull => exact ⟨hnull, ha hnull⟩
  | throw obj => exact ha
  | construct obj => exact ⟨ha.1, congrArg _ ha.2⟩
  | store obj => exact ⟨rfl, h.unregistered ha.1⟩
  | flag obj => exact ha
  | register obj => exact ⟨ha.1, Option.some_ne_none obj⟩
  | unlock result =>
      cases result with
      | pointer p => exact ha
      | exception => trivial
  | _ => trivial

/-- Only the holder of the mutex constructs, stores and registers. -/
theorem Moves.frame (hmove : Moves s i a t b out) (ha : a.Knows s.mInstance history) :
    (t.mInstance = s.mInstance ∧ built (out ++ history) = built history ∧
        (Unregistered history → Unregistered (out ++ history))) ∨
      a.holds = true ∧ (t.mInstance = s.mInstance ∨ s.mInstance = none) := by
  have hquiet : ∀ e : InstanceEvent, (∀ j, e ≠ .registered j) →
      Unregistered history → Unregistered ([e] ++ history) := by
    intro e he h j hj
    rcases List.mem_cons.1 hj with heq | hj
    · exact he j heq.symm
    · exact h j hj
  cases hmove with
  | construct obj => exact .inr ⟨rfl, .inl rfl⟩
  | store obj => exact .inr ⟨rfl, .inr ha.1⟩
  | register obj => exact .inr ⟨rfl, .inl rfl⟩
  | call => exact .inl ⟨rfl, rfl, hquiet _ fun j h => by cases h⟩
  | ret result => exact .inl ⟨rfl, rfl, hquiet _ fun j h => by cases h⟩
  | _ => exact .inl ⟨rfl, rfl, id⟩

/-- What all threads know after the step of one of them. -/
theorem Guarded.knows_set (h : s.Guarded history) (hi : s.threads[i]? = some a)
    (hmove : Moves s i a t b out) :
    ∀ phase ∈ s.threads.set i b, phase.Knows t.mInstance (out ++ history) := by
  have ha := h.knows a (List.mem_of_getElem? hi)
  have hb := hmove.knows h ha
  rcases hmove.frame ha with ⟨hinstance, hbuilt, hregistered⟩ | ⟨hholds, hkeep⟩
  · intro phase hphase
    rcases List.mem_or_eq_of_mem_set hphase with hold | rfl
    · rw [hinstance]
      exact knows_congr hbuilt hregistered (h.knows phase hold)
    · exact hb
  · exact h.holders.others hi hholds
      (fun phase hphase hfree => knows_of_not_holds hkeep hfree (h.knows phase hphase)) hb

/-- The pointer after a step is that of the one object. -/
theorem Guarded.stored_of_moves (h : s.Guarded history) (hmove : Moves s i a t b out)
    (ha : a.Knows s.mInstance history) (obj : ℕ) (hobj : t.mInstance = some obj) :
    built (out ++ history) = [obj] := by
  cases hmove with
  | construct obj' =>
      rw [ha.1] at hobj
      cases hobj
  | store obj' =>
      cases hobj
      exact ha.2
  | _ => exact h.stored obj hobj

theorem Guarded.flagged_of_moves (h : s.Guarded history) (hmove : Moves s i a t b out)
    (ha : a.Knows s.mInstance history) (hflag : t.mSupplyFlag = true) : t.mInstance ≠ none := by
  cases hmove with
  | store obj => exact Option.some_ne_none obj
  | flag obj =>
      rw [ha.1]
      exact Option.some_ne_none obj
  | _ => exact h.flagged hflag

/-- Where the mutex is free and there is no pointer, there is no object. -/
theorem Guarded.free_of_moves (h : s.Guarded history) (hi : s.threads[i]? = some a)
    (hmove : Moves s i a t b out) (ha : a.Knows s.mInstance history) (hmutex : t.mMutex = false)
    (hnull : t.mInstance = none) : built (out ++ history) = [] := by
  have htaken : a.holds = true → s.mMutex ≠ false := by
    intro hholds hfree
    cases (h.holders.taken hi hholds).symm.trans hfree
  cases hmove with
  | lock hfree => cases hmutex
  | unlock result =>
      cases result with
      | pointer p => exact absurd (ha.1.symm.trans hnull) ha.2
      | exception => exact ha.2
  | construct obj => exact absurd hmutex (htaken rfl)
  | store obj => cases hnull
  | _ => exact h.free hmutex hnull

theorem Guarded.unregistered_of_moves (h : s.Guarded history) (hmove : Moves s i a t b out)
    (ha : a.Knows s.mInstance history) (hnull : t.mInstance = none) :
    Unregistered (out ++ history) := by
  have hkeep : ∀ e ∈ out, ∀ j, e ≠ .registered j := by
    intro e he j hj
    cases hmove with
    | register obj => cases ha.1.symm.trans hnull
    | construct obj => cases (List.mem_singleton.1 he).symm.trans hj
    | call => cases (List.mem_singleton.1 he).symm.trans hj
    | ret result => cases (List.mem_singleton.1 he).symm.trans hj
    | _ => cases he
  have hold : s.mInstance = none := by
    cases hmove with
    | store obj => cases hnull
    | _ => exact hnull
  intro j hj
  rcases List.mem_append.1 hj with hnew | hpast
  · exact hkeep _ hnew j rfl
  · exact h.unregistered hold j hpast

/-- Every step keeps the invariant, -/
theorem Guarded.step (h : s.Guarded history) (hi : s.threads[i]? = some a)
    (hmove : Moves s i a t b out) :
    Guarded { t with threads := s.threads.set i b } (out ++ history) := by
  have ha := h.knows a (List.mem_of_getElem? hi)
  have hknows := h.knows_set hi hmove
  have hfree := h.free_of_moves hi hmove ha
  have hstored := h.stored_of_moves hmove ha
  have hflagged := h.flagged_of_moves hmove ha
  have hunregistered := h.unregistered_of_moves hmove ha
  exact ⟨hmove.held h.holders hi, hknows, hstored, hflagged, hfree, hunregistered⟩

/-- and its events agree with those before. -/
theorem Guarded.oneInstance (h : s.Guarded history) (hmove : Moves s i a t b out)
    (ha : a.Knows s.mInstance history) (hevery : Every OneInstance history) :
    Every OneInstance (out ++ history) := by
  cases hmove with
  | construct obj => exact ⟨ha.2, hevery⟩
  | register obj => exact ⟨ha.2, hevery⟩
  | call => exact ⟨trivial, hevery⟩
  | ret result =>
      refine ⟨?_, hevery⟩
      cases result with
      | pointer p =>
          obtain ⟨obj, hobj⟩ := Option.ne_none_iff_exists'.1 ha.2
          exact ⟨obj, hobj, h.stored obj (ha.1.trans hobj)⟩
      | exception => trivial
  | _ => exact hevery

/-- The invariant, the events and the number of threads, in every run. -/
theorem invariants_of_run {n : ℕ} {actions : List InstanceAction}
    (hrun : run (logged step) (.start n, []) actions = some (s, history)) :
    s.Guarded history ∧ Every OneInstance history ∧ s.threads.length = n := by
  have hstart : Every OneInstance [] := trivial
  refine invariant (I := fun s history => s.Guarded history ∧ Every OneInstance history ∧
    s.threads.length = n) ?_ ⟨guarded_start n, hstart, List.length_replicate⟩ hrun
  rintro s c t out history ⟨hguarded, hevery, hlength⟩ hstep
  obtain ⟨i, a, b, u, hi, -, hmove, rfl⟩ := step_cases hstep
  have ha := hguarded.knows a (List.mem_of_getElem? hi)
  exact ⟨hguarded.step hi hmove, hguarded.oneInstance hmove ha hevery,
    (List.length_set ..).trans hlength⟩

end Singleton

open History Transition

/-- The objects of a part of the history. -/
theorem built_suffix {past history : List InstanceEvent} (h : past <:+ history) :
    built past <:+ built history := by
  obtain ⟨later, rfl⟩ := h
  induction later with
  | nil => exact List.suffix_refl _
  | cons e later ih =>
      cases e with
      | constructed i obj => exact ih.trans (List.suffix_cons obj _)
      | _ => exact ih

theorem length_built_le {history : List InstanceEvent} (h : Every OneInstance history) :
    (built history).length ≤ 1 := by
  induction history with
  | nil => exact Nat.zero_le _
  | cons e past ih =>
      cases e with
      | constructed i obj =>
          have hnone : built past = [] := h.1
          rw [built, hnone]
          exact Nat.le_refl 1
      | _ => exact ih h.2

/-- What a call returned is the one object of the whole history. -/
theorem built_of_returned {history : List InstanceEvent} (h : Every OneInstance history) {i : ℕ}
    {p : Option ℕ} (hreturned : .returned i (.pointer p) ∈ history) :
    ∃ obj, p = some obj ∧ built history = [obj] := by
  obtain ⟨past, hpast⟩ := exists_suffix hreturned
  obtain ⟨obj, hobj, hbuilt⟩ := h.of_suffix hpast
  refine ⟨obj, hobj, ?_⟩
  have hsuffix := built_suffix (tail_suffix hpast)
  rw [hbuilt] at hsuffix
  exact (hsuffix.eq_of_length_le (length_built_le h)).symm

/-- **One object.** In every run of any number of threads, one object is constructed at most, every call
that does not throw returns it, after its constructor has returned, and it is registered for its
destruction once at most. -/
theorem one_instance {n : ℕ} {actions : List InstanceAction} {s : Singleton}
    {history : List InstanceEvent}
    (hrun : run (logged Singleton.step) (.start n, []) actions = some (s, history)) :
    Every OneInstance history ∧ ∀ i j p q, .returned i (.pointer p) ∈ history →
      .returned j (.pointer q) ∈ history → p = q := by
  have hevery := (Singleton.invariants_of_run hrun).2.1
  refine ⟨hevery, fun i j p q hp hq => ?_⟩
  obtain ⟨obj, rfl, hobj⟩ := built_of_returned hevery hp
  obtain ⟨obj', rfl, hobj'⟩ := built_of_returned hevery hq
  cases hobj.symm.trans hobj'
  rfl

/-! ### Progress -/

/-- How many steps the thread takes until it has returned, at most. -/
def InstancePhase.rank : InstancePhase → ℕ
  | .idle => 0
  | .returning _ => 1
  | .supplying | .unlocking _ => 2
  | .registering _ => 3
  | .flagging _ => 4
  | .storing _ => 5
  | .constructing _ => 6
  | .reloading => 7
  | .locking => 8
  | .loading => 9
  | .testing => 10

namespace Singleton

variable {s t : Singleton}

def rank (s : Singleton) : ℕ := (s.threads.map InstancePhase.rank).sum

theorem rank_lt_of_step {c : InstanceAction} {out : List InstanceEvent} (hc : c.isOwn = true)
    (hstep : s.step c = some (t, out)) : t.rank < s.rank := by
  obtain ⟨i, a, b, u, hi, hidle, hmove, rfl⟩ := step_cases hstep
  have hsum := Census.sum_move InstancePhase.rank hi b
  have hlt : b.rank < a.rank := by
    cases hmove with
    | call => exact absurd rfl (hidle hc)
    | _ => exact Nat.lt_of_sub_pos (Nat.succ_pos _)
  unfold rank
  dsimp only
  omega

theorem rank_le (s : Singleton) : s.rank ≤ 10 * s.threads.length :=
  Census.sum_le (fun phase => by cases phase <;> simp [InstancePhase.rank]) s.threads

/-- A thread that holds the mutex goes on, in the constructor or outside of it. -/
theorem exists_step_of_holds {i : ℕ} {a : InstancePhase} (hi : s.threads[i]? = some a)
    (ha : a.holds = true) : ∃ c : InstanceAction, c.isOwn = true ∧ s.step c ≠ none := by
  cases a with
  | constructing obj =>
      refine ⟨.construct i false, rfl, ?_⟩
      simp [step, hi]
  | reloading =>
      refine ⟨.advance i, rfl, ?_⟩
      cases hinstance : s.mInstance <;> simp [step, hi, next, hinstance]
  | storing obj => exact ⟨.advance i, rfl, by simp [step, hi, next]⟩
  | flagging obj => exact ⟨.advance i, rfl, by simp [step, hi, next]⟩
  | registering obj => exact ⟨.advance i, rfl, by simp [step, hi, next]⟩
  | unlocking result => exact ⟨.advance i, rfl, by simp [step, hi, next]⟩
  | _ => cases ha

/-- When no thread can go on, all calls have returned. -/
theorem idle_of_stuck (hheld : Mutex.Held InstancePhase.holds s.threads s.mMutex)
    (hstuck : ∀ c : InstanceAction, c.isOwn = true → s.step c = none) :
    ∀ phase ∈ s.threads, phase = .idle := by
  have hholds : ∀ phase ∈ s.threads, phase.holds = false := by
    intro phase hphase
    obtain ⟨i, hi⟩ := List.getElem?_of_mem hphase
    refine Bool.eq_false_iff.2 fun hholds => ?_
    obtain ⟨c, hown, hc⟩ := exists_step_of_holds hi hholds
    exact hc (hstuck c hown)
  -- nobody holds the mutex, so nobody waits for it
  have hmutex : s.mMutex = false := hheld.of_forall hholds
  intro phase hphase
  have hfree := hholds phase hphase
  obtain ⟨i, hi⟩ := List.getElem?_of_mem hphase
  have hadvance := hstuck (.advance i) rfl
  simp only [step, hi, Option.bind_some, Option.map_eq_none_iff] at hadvance
  cases phase with
  | idle => rfl
  | loading => cases hinstance : s.mInstance <;> simp [next, hinstance] at hadvance
  | locking => simp [next, hmutex] at hadvance
  | returning result =>
      have hret := hstuck (.ret i) rfl
      simp [step, hi] at hret
  | testing => cases hadvance
  | supplying => cases hadvance
  | _ => cases hfree

end Singleton

/-- **Every call returns.** From every state of every run of `n` threads, when there are no other calls,
the threads take ten steps each at most, and where none of them can go on all calls have returned. -/
theorem getInstance_returns {n : ℕ} {actions more : List InstanceAction} {s t : Singleton}
    {history later : List InstanceEvent}
    (hrun : run (logged Singleton.step) (.start n, []) actions = some (s, history))
    (hown : ∀ c ∈ more, c.isOwn = true)
    (hmore : run (logged Singleton.step) (s, history) more = some (t, later)) :
    more.length ≤ 10 * n ∧ ((∀ c : InstanceAction, c.isOwn = true → t.step c = none) →
      ∀ phase ∈ t.threads, phase = .idle) := by
  constructor
  · have hfall : ∀ s c t out, True → c.isOwn = true → Singleton.step s c = some (t, out) →
        True ∧ t.rank < s.rank :=
      fun _ _ _ _ _ hc hstep => ⟨trivial, Singleton.rank_lt_of_step hc hstep⟩
    have hrank := s.rank_le
    rw [(Singleton.invariants_of_run hrun).2.2] at hrank
    exact Nat.le_trans (History.length_le_of_rank Singleton.rank hfall trivial hown hmore) hrank
  · have hall : run (logged Singleton.step) (.start n, []) (actions ++ more) = some (t, later) := by
      rw [run_append, hrun]
      exact hmore
    exact Singleton.idle_of_stuck (Singleton.invariants_of_run hall).1.holders

/-- Two threads call at once; the constructor throws for the one that has the mutex first. -/
def raceRun : List InstanceAction :=
  [.call 0, .call 1, .advance 0, .advance 1, .advance 0, .advance 1, .advance 0, .advance 0,
    .construct 0 true, .advance 0, .ret 0, .advance 1, .advance 1, .construct 1 false, .advance 1,
    .advance 1, .call 0, .advance 0, .advance 0, .ret 0]

def racePast : List InstanceEvent :=
  [.returned 0 (.pointer (some 1)), .called 0, .constructed 1 1, .returned 0 .exception, .called 1,
    .called 0]

theorem run_raceRun : run (logged Singleton.step) (.start 2, []) raceRun =
    some (⟨[.idle, .registering 1], true, some 1, true, 2⟩, racePast) := rfl

theorem one_instance_raceRun : Every OneInstance racePast := (one_instance run_raceRun).1

/-- Where the threads are when the second call has returned, too. -/
def afterRace : Singleton := ⟨[.idle, .idle], true, some 1, false, 2⟩

theorem afterRace_stuck (c : InstanceAction) (hc : c.isOwn = true) : afterRace.step c = none := by
  have hidle : ∀ i, afterRace.threads[i]? = some InstancePhase.idle ∨ afterRace.threads[i]? = none
    | 0 => Or.inl rfl
    | 1 => Or.inl rfl
    | _ + 2 => Or.inr rfl
  cases c with
  | call i => cases hc
  | advance i => rcases hidle i with h | h <;> simp [Singleton.step, Singleton.next, h]
  | construct i throws => rcases hidle i with h | h <;> simp [Singleton.step, h]
  | ret i => rcases hidle i with h | h <;> simp [Singleton.step, h]

theorem getInstance_returns_raceRun :
    [InstanceAction.advance 1, .advance 1, .ret 1].length ≤ 20 ∧
      ∀ phase ∈ afterRace.threads, phase = InstancePhase.idle := by
  have hmore : run (logged Singleton.step)
      (⟨[.idle, .registering 1], true, some 1, true, 2⟩, racePast) [.advance 1, .advance 1, .ret 1] =
        some (afterRace, .returned 1 (.pointer (some 1)) :: .registered 1 :: racePast) := rfl
  have hreturns := getInstance_returns run_raceRun (by decide) hmore
  exact ⟨hreturns.1, hreturns.2 afterRace_stuck⟩

end IotDrive
