/-
The listener of `reactor.cpp`, and what the event loop makes of its answer.

`FDListen::Listen` asks `select` about the registered descriptors, and returns the pairs of the
registered ones that it takes to be ready.  It looks for the descriptor of a pair in both sets that
`select` leaves, whatever the mode of the pair, and returns all pairs when `select` reports none.

Main definitions:

* `select` — the system call, for what is ready when it is made;
* `FDListen.listen` — the function of the code;
* `EventLoop` — `Reactor::Run` with handlers that may change the map;
* `Readiness.Clear` — what has to be ready for the answer to be right.

Main results:

* `FDListen.request_eq` — the sets that `select` is called with;
* `FDListen.listen_eq_iff` — when the answer is what `select` reports;
* `EventLoop.run_called` — the handlers that are called in a run;
* `listen_reports_ready` — **the answer is what is ready**, and whose handlers are called.
-/

import IotDrive.Reactor
import IotDrive.Library.Transition
import Mathlib.Data.Finset.Card

set_option relaxedAutoImplicit false
set_option autoImplicit false

namespace IotDrive

/-! ### `select` -/

abbrev FdSet := Finset ℤ

/-- `FD_SETSIZE`. -/
def fdSetsize : ℤ := 1024

/-- The sets have a bit for every descriptor. -/
def Selectable (fds : List ListenPair) : Prop :=
  ∀ pair ∈ fds, 0 ≤ pair.1 ∧ pair.1 < fdSetsize

/-- `FD_SET`, which is undefined for a descriptor that the set has no bit for. -/
def fdSet (fd : ℤ) (set : FdSet) : Option FdSet :=
  if 0 ≤ fd ∧ fd < fdSetsize then some (insert fd set) else none

/-- What a call of `select` finds: which descriptors are ready for what, or that it is interrupted
or fails otherwise.  A call that times out finds nothing ready. -/
abbrev Readiness := Option (ListenPair → Bool)

/-- `select` reports the pair, if it is asked about it. -/
def Readiness.reports : Readiness → ListenPair → Bool
  | none, _ => false
  | some ready, pair => ready pair

/-- What the answer takes for granted: something that is registered is ready, and a descriptor that is
registered for both modes is ready for both or for neither. -/
structure Readiness.Clear (readiness : Readiness) (fds : List ListenPair) : Prop where
  some_ready : fds = [] ∨ ∃ pair ∈ fds, readiness.reports pair
  both_modes : ∀ fd, (fd, Mode.read) ∈ fds → (fd, Mode.write) ∈ fds →
    readiness.reports (fd, .read) = readiness.reports (fd, .write)

/-- The value that `select` returns, and the sets that it leaves. -/
structure Selected where
  ret : ℤ
  fdR : FdSet
  fdW : FdSet

def select (readiness : Readiness) (nfds : ℤ) (fdR fdW : FdSet) : Selected :=
  match readiness with
  | none => ⟨-1, fdR, fdW⟩
  | some ready =>
      let r := fdR.filter fun fd => fd < nfds ∧ ready (fd, .read)
      let w := fdW.filter fun fd => fd < nfds ∧ ready (fd, .write)
      ⟨r.card + w.card, r, w⟩

/-! ### `Listen` -/

namespace FDListen

/-- The body of the first loop, on the two sets and `fd_max`. -/
def request (acc : FdSet × FdSet × ℤ) (pair : ListenPair) : Option (FdSet × FdSet × ℤ) := do
  let (fdR, fdW, fdMax) := acc
  let (fdR, fdW) ← match pair.2 with
    | .read => (fdSet pair.1 fdR).map fun set => (set, fdW)
    | .write => (fdSet pair.1 fdW).map fun set => (fdR, set)
  return (fdR, fdW, if fdMax < pair.1 then pair.1 else fdMax)

/-- `FDListen::Listen`. -/
def listen (readiness : Readiness) (fdVector : List ListenPair) : Option (List ListenPair) := do
  let (fdR, fdW, fdMax) ← fdVector.foldlM request (∅, ∅, 0)
  let selected := select readiness (fdMax + 1) fdR fdW
  if selected.ret ≤ 0 then return fdVector
  return fdVector.filter fun pair => pair.1 ∈ selected.fdR ∨ pair.1 ∈ selected.fdW

/-- A pair adds its descriptor to the set of its mode. -/
theorem request_cases {pair : ListenPair} (h : 0 ≤ pair.1 ∧ pair.1 < fdSetsize) (fdR fdW : FdSet)
    (fdMax : ℤ) :
    ∃ r w m, request (fdR, fdW, fdMax) pair = some (r, w, m) ∧
      (∀ fd, fd ∈ r ↔ fd ∈ fdR ∨ (fd, .read) = pair) ∧
      (∀ fd, fd ∈ w ↔ fd ∈ fdW ∨ (fd, .write) = pair) ∧ fdMax ≤ m ∧ pair.1 ≤ m := by
  obtain ⟨fd, mode⟩ := pair
  have hset : ∀ set, fdSet fd set = some (insert fd set) := fun set => if_pos h
  have hle : fdMax ≤ (if fdMax < fd then fd else fdMax) := by split <;> omega
  have hle' : fd ≤ (if fdMax < fd then fd else fdMax) := by split <;> omega
  cases mode with
  | read =>
      refine ⟨insert fd fdR, fdW, _, by simp [request, hset], ?_, ?_, hle, hle'⟩
      · intro fd'
        rw [Finset.mem_insert, or_comm]
        simp
      · simp
  | write =>
      refine ⟨fdR, insert fd fdW, _, by simp [request, hset], ?_, ?_, hle, hle'⟩
      · simp
      · intro fd'
        rw [Finset.mem_insert, or_comm]
        simp

/-- The sets hold the descriptors registered for their modes, and none is above `fd_max`. -/
theorem request_eq {fdVector : List ListenPair} (h : Selectable fdVector)
    (acc : FdSet × FdSet × ℤ) :
    ∃ fdR fdW fdMax, fdVector.foldlM request acc = some (fdR, fdW, fdMax) ∧
      (∀ fd, fd ∈ fdR ↔ fd ∈ acc.1 ∨ (fd, .read) ∈ fdVector) ∧
      (∀ fd, fd ∈ fdW ↔ fd ∈ acc.2.1 ∨ (fd, .write) ∈ fdVector) ∧
      acc.2.2 ≤ fdMax ∧ ∀ pair ∈ fdVector, pair.1 ≤ fdMax := by
  -- induction on the pairs to come
  induction fdVector generalizing acc with
  | nil => exact ⟨acc.1, acc.2.1, acc.2.2, rfl, by simp⟩
  | cons pair rest ih =>
      obtain ⟨hpair, hrest⟩ := List.forall_mem_cons.1 h
      obtain ⟨r, w, m, hrequest, hr, hw, hle, hle'⟩ := request_cases hpair acc.1 acc.2.1 acc.2.2
      obtain ⟨fdR, fdW, fdMax, hfold, hR, hW, hmax, hall⟩ := ih hrest (r, w, m)
      refine ⟨fdR, fdW, fdMax, ?_, ?_, ?_, hle.trans hmax, ?_⟩
      · rw [List.foldlM_cons, hrequest]
        exact hfold
      · intro fd
        rw [hR, hr, List.mem_cons, or_assoc]
      · intro fd
        rw [hW, hw, List.mem_cons, or_assoc]
      · exact List.forall_mem_cons.2 ⟨hle'.trans hmax, hall⟩

/-- The sets that `select` leaves, and whether it returns zero. -/
theorem select_eq (ready : ListenPair → Bool) {nfds : ℤ} {fdR fdW : FdSet}
    (hR : ∀ fd ∈ fdR, fd < nfds) (hW : ∀ fd ∈ fdW, fd < nfds) :
    ∃ ret r w, select (some ready) nfds fdR fdW = ⟨ret, r, w⟩ ∧
      (∀ fd, fd ∈ r ↔ fd ∈ fdR ∧ ready (fd, .read)) ∧
      (∀ fd, fd ∈ w ↔ fd ∈ fdW ∧ ready (fd, .write)) ∧ (ret ≤ 0 ↔ r = ∅ ∧ w = ∅) := by
  refine ⟨_, _, _, rfl, ?_, ?_, ?_⟩
  · intro fd
    rw [Finset.mem_filter]
    exact ⟨fun h => ⟨h.1, h.2.2⟩, fun h => ⟨h.1, hR fd h.1, h.2⟩⟩
  · intro fd
    rw [Finset.mem_filter]
    exact ⟨fun h => ⟨h.1, h.2.2⟩, fun h => ⟨h.1, hW fd h.1, h.2⟩⟩
  · rw [← Finset.card_eq_zero, ← Finset.card_eq_zero]
    omega

/-- The answer when `select` reports nothing, and when it reports something. -/
theorem listen_eq {readiness : Readiness} {fds : List ListenPair} (h : Selectable fds) :
    (¬(∃ pair ∈ fds, readiness.reports pair) → listen readiness fds = some fds) ∧
      ((∃ pair ∈ fds, readiness.reports pair) → listen readiness fds =
        some (fds.filter fun pair =>
          ((pair.1, Mode.read) ∈ fds ∧ readiness.reports (pair.1, .read)) ∨
            ((pair.1, Mode.write) ∈ fds ∧ readiness.reports (pair.1, .write)))) := by
  obtain ⟨fdR, fdW, fdMax, hfold, hr, hw, -, hmax⟩ := request_eq h (∅, ∅, 0)
  simp only [Finset.notMem_empty, false_or] at hr hw
  cases readiness with
  | none =>
      refine ⟨fun _ => ?_, ?_⟩
      · simp [listen, hfold, select]
      · rintro ⟨pair, -, hready⟩
        cases hready
  | some ready =>
      have hlt : ∀ pair ∈ fds, pair.1 < fdMax + 1 := fun pair hpair =>
        Int.lt_add_one_of_le (hmax pair hpair)
      obtain ⟨ret, r, w, hselect, hr', hw', hret⟩ := select_eq ready
        (fun fd hfd => hlt _ ((hr fd).1 hfd)) (fun fd hfd => hlt _ ((hw fd).1 hfd))
      simp only [hr, hw] at hr' hw'
      have hzero : ret ≤ 0 ↔ ¬∃ pair ∈ fds, ready pair := by
        rw [hret, Finset.eq_empty_iff_forall_notMem, Finset.eq_empty_iff_forall_notMem]
        simp only [hr', hw']
        constructor
        · rintro ⟨hread, hwrite⟩ ⟨⟨fd, mode⟩, hmem, hready⟩
          cases mode with
          | read => exact hread fd ⟨hmem, hready⟩
          | write => exact hwrite fd ⟨hmem, hready⟩
        · intro hnone
          exact ⟨fun fd hfd => hnone ⟨_, hfd⟩, fun fd hfd => hnone ⟨_, hfd⟩⟩
      have hlisten : listen (some ready) fds =
          if ret ≤ 0 then some fds
          else some (fds.filter fun pair => pair.1 ∈ r ∨ pair.1 ∈ w) := by
        simp only [listen, hfold, Option.bind_eq_bind, Option.bind_some, hselect]
        rfl
      constructor
      · intro hnone
        rw [hlisten, if_pos (hzero.2 hnone)]
      · intro hsome
        rw [hlisten, if_neg (mt hzero.1 (not_not_intro hsome))]
        simp only [hr', hw']
        rfl

/-- The answer is what `select` reports exactly when what is ready is clear. -/
theorem listen_eq_iff {readiness : Readiness} {fds : List ListenPair} (h : Selectable fds) :
    listen readiness fds = some (fds.filter readiness.reports) ↔ readiness.Clear fds := by
  by_cases hsome : ∃ pair ∈ fds, readiness.reports pair
  · rw [(listen_eq h).2 hsome, Option.some.injEq]
    constructor
    · intro hfilter
      refine ⟨.inr hsome, ?_⟩
      intro fd hread hwrite
      have hr := congrArg ((fd, Mode.read) ∈ ·) hfilter
      have hw := congrArg ((fd, Mode.write) ∈ ·) hfilter
      simp only [List.mem_filter, hread, hwrite, true_and, decide_eq_true_eq, eq_iff_iff] at hr hw
      exact Bool.eq_iff_iff.2 (hr.symm.trans hw)
    · intro hclear
      refine List.filter_congr ?_
      rintro ⟨fd, mode⟩ hmem
      -- the other mode of the descriptor does not count, or says the same
      rw [Bool.eq_iff_iff, decide_eq_true_eq]
      cases mode with
      | read =>
          refine ⟨?_, fun hready => .inl ⟨hmem, hready⟩⟩
          rintro (⟨-, hready⟩ | ⟨hwrite, hready⟩)
          · exact hready
          · exact (hclear.both_modes fd hmem hwrite).trans hready
      | write =>
          refine ⟨?_, fun hready => .inr ⟨hmem, hready⟩⟩
          rintro (⟨hread, hready⟩ | ⟨-, hready⟩)
          · exact (hclear.both_modes fd hread hmem).symm.trans hready
          · exact hready
  · have hnone : ∀ pair ∈ fds, ¬readiness.reports pair := fun pair hmem hready =>
      hsome ⟨pair, hmem, hready⟩
    rw [(listen_eq h).1 hsome, Option.some.injEq, List.filter_eq_nil_iff.2 hnone]
    constructor
    · intro hnil
      refine ⟨.inl hnil, ?_⟩
      intro fd hread
      rw [hnil] at hread
      cases hread
    · intro hclear
      exact hclear.some_ready.resolve_right hsome

/-- A descriptor that is registered for both modes, and ready for one. -/
example : listen (some fun pair => pair = (4, .read)) [(4, .read), (4, .write)] =
    some [(4, .read), (4, .write)] := by decide

end FDListen

/-! ### `Run` -/

/-- `Reactor::Run` with what its handlers may change: the map, in the order in which it is walked, and
whether the reactor is stopped. -/
structure EventLoop (ε σ : Type) where
  map : σ → List (ListenPair × Handler ε σ)
  isStopped : σ → Bool
  selectable : ∀ s, Selectable ((map s).map Prod.fst)

/-- The state of the loop: of the handlers, whether an exception has ended the loop, and the calls so
far, each with what `select` found before it. -/
structure EventLoop.State (σ : Type) where
  handlers : σ
  ended : Bool
  calls : List (ListenPair × Readiness)

namespace EventLoop

variable {ε σ : Type} (loop : EventLoop ε σ)

def keys (s : σ) : List ListenPair := (loop.map s).map Prod.fst

/-- The loop over the pairs that are returned: the handler of each that is registered at its turn. -/
def serve (readiness : Readiness) (e : ε) : List ListenPair → State σ → State σ
  | [], s => s
  | pair :: rest, s =>
      match (loop.map s.handlers).lookup pair with
      | none => serve readiness e rest s
      | some handler =>
          match handler e s.handlers with
          | (.ok _, t) => serve readiness e rest ⟨t, false, s.calls ++ [(pair, readiness)]⟩
          | (.error _, t) => ⟨t, true, s.calls ++ [(pair, readiness)]⟩

/-- One pass of the loop, for what `select` finds and what the handlers find. -/
def step (s : State σ) (round : Readiness × ε) : Option (State σ) :=
  if s.ended ∨ loop.isStopped s.handlers then none
  else (FDListen.listen round.1 (loop.keys s.handlers)).map fun vector =>
    loop.serve round.1 round.2 vector s

/-- Every handler called was ready. -/
def State.Called (s : State σ) : Prop := ∀ call ∈ s.calls, call.2.reports call.1

/-- What is ready is clear for the handlers that are registered. -/
def Clear (s : State σ) (round : Readiness × ε) : Prop := round.1.Clear (loop.keys s.handlers)

theorem called_serve {readiness : Readiness} {e : ε} {pairs : List ListenPair} {s : State σ}
    (h : s.Called) (hready : ∀ pair ∈ pairs, readiness.reports pair) :
    (loop.serve readiness e pairs s).Called := by
  induction pairs generalizing s with
  | nil => exact h
  | cons pair rest ih =>
      obtain ⟨hpair, hrest⟩ := List.forall_mem_cons.1 hready
      have hcalled : ∀ t ended, (⟨t, ended, s.calls ++ [(pair, readiness)]⟩ : State σ).Called :=
        fun _ _ => List.forall_mem_append.2 ⟨h, List.forall_mem_singleton.2 hpair⟩
      rw [serve]
      split
      · exact ih h hrest
      · split
        · exact ih (hcalled _ false) hrest
        · exact hcalled _ true

theorem called_step {s t : State σ} {round : Readiness × ε} (h : s.Called)
    (hclear : loop.Clear s round) (hstep : loop.step s round = some t) : t.Called := by
  have hlisten := (FDListen.listen_eq_iff (loop.selectable s.handlers)).2 hclear
  rw [step] at hstep
  split at hstep
  · cases hstep
  · rw [keys, hlisten, Option.map_some] at hstep
    cases hstep
    exact loop.called_serve h fun pair hpair => (List.mem_filter.1 hpair).2

/-- In a run whose rounds are all clear every handler called was ready. -/
theorem run_called {rounds : List (Readiness × ε)} {s t : State σ} (h : s.Called)
    (hclear : Transition.Along loop.step loop.Clear s rounds)
    (hrun : Transition.run loop.step s rounds = some t) : t.Called :=
  Transition.run_invariant_along State.Called
    (fun _ _ _ h hclear hstep => loop.called_step h hclear hstep) h hclear hrun

end EventLoop

/-- `Listen` returns what `select` reports exactly when what is ready is clear, and in a run whose
rounds are all clear every handler that is called was ready. -/
theorem listen_reports_ready {ε σ : Type} (loop : EventLoop ε σ) :
    (∀ readiness fds, Selectable fds →
      (FDListen.listen readiness fds = some (fds.filter readiness.reports) ↔
        readiness.Clear fds)) ∧
      ∀ (s : σ) (rounds : List (Readiness × ε)) (t : EventLoop.State σ),
        Transition.run loop.step ⟨s, false, []⟩ rounds = some t →
        Transition.Along loop.step loop.Clear ⟨s, false, []⟩ rounds →
        ∀ call ∈ t.calls, call.2.reports call.1 := by
  refine ⟨fun readiness fds h => FDListen.listen_eq_iff h, ?_⟩
  intro s rounds t hrun hclear
  exact loop.run_called (fun _ hcall => absurd hcall List.not_mem_nil) hclear hrun

/-- A reactor with two sockets to read from. -/
def twoSockets : EventLoop Unit ℕ where
  map _ := [((3, .read), fun _ n => (.ok (), n + 1)), ((4, .read), fun _ n => (.ok (), n + 1))]
  isStopped _ := false
  selectable := by
    rintro n pair hpair
    simp at hpair
    rcases hpair with rfl | rfl <;> decide

/-- One of the two sockets is readable, and its handler is called. -/
theorem listen_reports_ready_twoSockets :
    let second : Readiness := some fun pair => pair = (4, .read)
    FDListen.listen second [(3, .read), (4, .read)] = some [(4, .read)] ∧
      second.reports (4, .read) := by
  intro second
  have hclear : second.Clear (twoSockets.keys 0) := by
    refine ⟨.inr ⟨(4, .read), by decide, by decide⟩, ?_⟩
    intro fd _ hwrite
    simp [EventLoop.keys, twoSockets] at hwrite
  have hready := listen_reports_ready twoSockets
  refine ⟨(hready.1 second _ (twoSockets.selectable 0)).2 hclear, ?_⟩
  exact hready.2 0 [(second, ())] ⟨1, false, [((4, .read), second)]⟩ rfl ⟨hclear, trivial⟩ _
    (List.mem_singleton_self _)

/-- When `select` is interrupted all pairs are returned, and their handlers are called. -/
theorem interrupted_select_calls_all :
    (¬∀ readiness fds, Selectable fds →
      FDListen.listen readiness fds = some (fds.filter readiness.reports)) ∧
      ¬∀ (rounds : List (Readiness × Unit)) (t : EventLoop.State ℕ),
        Transition.run twoSockets.step ⟨0, false, []⟩ rounds = some t →
        ∀ call ∈ t.calls, call.2.reports call.1 := by
  constructor
  · intro h
    have hlisten := h none _ (twoSockets.selectable 0)
    exact absurd hlisten (by decide)
  · intro h
    have hcalled := h [(none, ())]
      ⟨2, false, [((3, .read), none), ((4, .read), none)]⟩ rfl ((3, .read), none)
    exact absurd (hcalled List.mem_cons_self) (by decide)

end IotDrive
