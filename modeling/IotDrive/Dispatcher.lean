/-
Dispatchers and callbacks: `dispatcher.hpp`.

A dispatcher has a list of pointers to its callbacks, and a callback a pointer to its dispatcher.  The
operations of both follow these pointers; each is modelled as a partial function, which has no result
when it reaches an object that has been destroyed.  Addresses can be used again.

Main definitions:

* `Observers` — the objects that are alive;
* `Observers.perform` — the six operations;
* `Observers.Consistent` — the two sides of every link agree.

Main results:

* `Observers.Consistent.perform_iff` — one operation keeps the links consistent when it gives no
  callback a second link and takes no linked one out of a list, and only then;
* `observer_links_consistent` — **the links are consistent** throughout a run, under that condition.
-/

import IotDrive.Library.Transition
import Mathlib.Logic.Function.Basic
import Mathlib.Tactic.Common

set_option relaxedAutoImplicit false
set_option autoImplicit false

namespace IotDrive

/-- The live objects: `m_callback_list` of the dispatchers at the addresses `ι`, and `m_dispatcher` of
the callbacks at the addresses `κ`. -/
structure Observers (ι κ : Type) where
  dispatchers : ι → Option (List κ)
  callbacks : κ → Option (Option ι)

inductive ObserverAction (ι κ : Type)
  | newDispatcher (d : ι)
  | newCallback (c : κ)
  | register (d : ι) (c : κ)
  | unregister (d : ι) (c : κ)
  | deleteCallback (c : κ)
  | deleteDispatcher (d : ι)
  deriving DecidableEq

namespace Observers

variable {ι κ : Type} [DecidableEq ι] [DecidableEq κ] {s t : Observers ι κ}

/-! ### The operations -/

def empty : Observers ι κ := ⟨fun _ => none, fun _ => none⟩

/-- Write, create or destroy the dispatcher at `d`. -/
def setList (s : Observers ι κ) (d : ι) (list : Option (List κ)) : Observers ι κ :=
  { s with dispatchers := Function.update s.dispatchers d list }

/-- Write, create or destroy the callback at `c`. -/
def setLink (s : Observers ι κ) (c : κ) (link : Option (Option ι)) : Observers ι κ :=
  { s with callbacks := Function.update s.callbacks c link }

/-- `ACallback::SetDispatcher`. -/
def setDispatcher (s : Observers ι κ) (c : κ) (d : Option ι) : Option (Observers ι κ) :=
  (s.callbacks c).map fun _ => s.setLink c (some d)

/-- `ACallback::NotifyDeath`. -/
def notifyDeath (s : Observers ι κ) (c : κ) : Option (Observers ι κ) := s.setDispatcher c none

def register (s : Observers ι κ) (d : ι) (c : κ) : Option (Observers ι κ) := do
  let list ← s.dispatchers d
  (s.setList d (some (list ++ [c]))).setDispatcher c (some d)

/-- `list::remove` takes out every occurrence. -/
def unregister (s : Observers ι κ) (d : ι) (c : κ) : Option (Observers ι κ) := do
  let list ← s.dispatchers d
  some (s.setList d (some (list.filter (· ≠ c))))

/-- `ACallback::~ACallback`. -/
def deleteCallback (s : Observers ι κ) (c : κ) : Option (Observers ι κ) := do
  let s' ← match ← s.callbacks c with
    | some d => s.unregister d c
    | none => some s
  some (s'.setLink c none)

/-- `Dispatcher::~Dispatcher`. -/
def deleteDispatcher (s : Observers ι κ) (d : ι) : Option (Observers ι κ) := do
  let s' ← (← s.dispatchers d).foldlM notifyDeath s
  some (s'.setList d none)

def perform (s : Observers ι κ) : ObserverAction ι κ → Option (Observers ι κ)
  | .newDispatcher d => some (s.setList d (some []))
  | .newCallback c => some (s.setLink c (some none))
  | .register d c => s.register d c
  | .unregister d c => s.unregister d c
  | .deleteCallback c => s.deleteCallback c
  | .deleteDispatcher d => s.deleteDispatcher d

/-- The caller names objects that are alive, and a new object gets an address that is free. -/
def Allowed (s : Observers ι κ) : ObserverAction ι κ → Prop
  | .newDispatcher d => s.dispatchers d = none
  | .newCallback c => s.callbacks c = none
  | .register d c | .unregister d c => (s.dispatchers d).isSome ∧ (s.callbacks c).isSome
  | .deleteCallback c => (s.callbacks c).isSome
  | .deleteDispatcher d => (s.dispatchers d).isSome

instance (s : Observers ι κ) : DecidablePred s.Allowed
  | .newDispatcher d => decidable_of_iff _ (Option.isNone_iff_eq_none (o := s.dispatchers d))
  | .newCallback c => decidable_of_iff _ (Option.isNone_iff_eq_none (o := s.callbacks c))
  | .deleteCallback _ | .deleteDispatcher _ => inferInstanceAs (Decidable (_ = _))
  | .register _ _ | .unregister _ _ => inferInstanceAs (Decidable (_ ∧ _))

/-- One step of a program that uses the objects.  There is none after an operation that has reached a
destroyed object. -/
def step : Option (Observers ι κ) → ObserverAction ι κ → Option (Option (Observers ι κ))
  | some s, a => if s.Allowed a then some (s.perform a) else none
  | none, _ => none

section Writes

variable {d d' : ι} {c c' : κ} {list : Option (List κ)} {link : Option (Option ι)}

omit [DecidableEq κ] in
@[simp] theorem setList_dispatchers_self : (s.setList d list).dispatchers d = list :=
  Function.update_self _ _ _

omit [DecidableEq κ] in
@[simp] theorem setList_dispatchers_of_ne (h : d' ≠ d) :
    (s.setList d list).dispatchers d' = s.dispatchers d' := Function.update_of_ne h _ _

omit [DecidableEq κ] in
@[simp] theorem setList_callbacks : (s.setList d list).callbacks = s.callbacks := rfl

omit [DecidableEq ι] in
@[simp] theorem setLink_callbacks_self : (s.setLink c link).callbacks c = link :=
  Function.update_self _ _ _

omit [DecidableEq ι] in
@[simp] theorem setLink_callbacks_of_ne (h : c' ≠ c) :
    (s.setLink c link).callbacks c' = s.callbacks c' := Function.update_of_ne h _ _

omit [DecidableEq ι] in
@[simp] theorem setLink_dispatchers : (s.setLink c link).dispatchers = s.dispatchers := rfl

end Writes

/-! ### Links -/

/-- The two sides of every link agree. -/
structure Consistent (s : Observers ι κ) : Prop where
  back : ∀ c d, s.callbacks c = some (some d) → ∃ list, s.dispatchers d = some list ∧ c ∈ list
  forth : ∀ d list, s.dispatchers d = some list → ∀ c ∈ list, s.callbacks c = some (some d)

omit [DecidableEq ι] [DecidableEq κ] in
theorem consistent_empty : (empty : Observers ι κ).Consistent := ⟨nofun, nofun⟩

omit [DecidableEq κ] in
theorem Consistent.newDispatcher (h : s.Consistent) {d : ι} (hfree : s.dispatchers d = none) :
    (s.setList d (some [])).Consistent := by
  refine ⟨?_, ?_⟩
  · intro c d' hc
    obtain ⟨list, hlist, hmem⟩ := h.back c d' hc
    have hne : d' ≠ d := by
      rintro rfl
      rw [hfree] at hlist
      cases hlist
    exact ⟨list, by rw [setList_dispatchers_of_ne hne, hlist], hmem⟩
  · intro d' list hlist c hc
    by_cases hd : d' = d
    · subst hd
      rw [setList_dispatchers_self] at hlist
      cases hlist
      cases hc
    · rw [setList_dispatchers_of_ne hd] at hlist
      exact h.forth d' list hlist c hc

omit [DecidableEq ι] in
/-- A callback without a link comes to be, or ceases to be. -/
theorem Consistent.setUnlinked (h : s.Consistent) {c : κ} {link : Option (Option ι)}
    (hbefore : ∀ d, s.callbacks c ≠ some (some d)) (hafter : ∀ d, link ≠ some (some d)) :
    (s.setLink c link).Consistent := by
  refine ⟨?_, ?_⟩
  · intro c' d hc'
    by_cases hcc : c' = c
    · subst hcc
      rw [setLink_callbacks_self] at hc'
      exact absurd hc' (hafter d)
    · rw [setLink_callbacks_of_ne hcc] at hc'
      exact h.back c' d hc'
  · intro d list hlist c' hmem
    have hlink := h.forth d list hlist c' hmem
    have hcc : c' ≠ c := by
      rintro rfl
      exact hbefore d hlink
    rw [setLink_callbacks_of_ne hcc, hlink]

omit [DecidableEq ι] [DecidableEq κ] in
/-- A callback is in the list of the dispatcher that it is linked to, and in no other. -/
theorem Consistent.mem_iff (h : s.Consistent) {c : κ} {link : Option ι}
    (hc : s.callbacks c = some link) {d : ι} {list : List κ} (hlist : s.dispatchers d = some list) :
    c ∈ list ↔ link = some d := by
  constructor
  · intro hmem
    exact Option.some.inj (hc.symm.trans (h.forth d list hlist c hmem))
  · rintro rfl
    obtain ⟨list', hlist', hmem⟩ := h.back c d hc
    cases hlist.symm.trans hlist'
    exact hmem

/-- One list and the link of one callback are written, which is linked to no other dispatcher before
or after. -/
theorem Consistent.write (h : s.Consistent) {d : ι} {c : κ} {list list' : List κ}
    {link : Option (Option ι)} (hlist : s.dispatchers d = some list)
    (hsame : ∀ c' ≠ c, c' ∈ list' ↔ c' ∈ list) (hlink : c ∈ list' ↔ link = some (some d))
    (hafter : ∀ d' ≠ d, link ≠ some (some d')) (hbefore : ∀ d' ≠ d, s.callbacks c ≠ some (some d')) :
    ((s.setList d (some list')).setLink c link).Consistent := by
  refine ⟨?_, ?_⟩
  · intro c' d' hc'
    by_cases hcc : c' = c
    · subst hcc
      rw [setLink_callbacks_self] at hc'
      have hd : d' = d := by
        by_contra hne
        exact hafter d' hne hc'
      subst hd
      exact ⟨list', setList_dispatchers_self, hlink.2 hc'⟩
    · rw [setLink_callbacks_of_ne hcc] at hc'
      obtain ⟨other, hother, hmem⟩ := h.back c' d' hc'
      by_cases hd : d' = d
      · subst hd
        cases hlist.symm.trans hother
        exact ⟨list', setList_dispatchers_self, (hsame c' hcc).2 hmem⟩
      · exact ⟨other, (setList_dispatchers_of_ne hd).trans hother, hmem⟩
  · intro d' other hother c' hmem
    rw [setLink_dispatchers] at hother
    by_cases hd : d' = d
    · subst hd
      rw [setList_dispatchers_self] at hother
      cases hother
      by_cases hcc : c' = c
      · rw [hcc, setLink_callbacks_self, ← hlink, ← hcc]
        exact hmem
      · rw [setLink_callbacks_of_ne hcc]
        exact h.forth d' list hlist c' ((hsame c' hcc).1 hmem)
    · rw [setList_dispatchers_of_ne hd] at hother
      have hcc : c' ≠ c := by
        -- the callback would be linked to another dispatcher
        rintro rfl
        exact hbefore d' hd (h.forth d' other hother c' hmem)
      rw [setLink_callbacks_of_ne hcc]
      exact h.forth d' other hother c' hmem

/-! ### Register and Unregister -/

theorem register_eq {d : ι} {c : κ} {list : List κ} {link : Option ι}
    (hlist : s.dispatchers d = some list) (hc : s.callbacks c = some link) :
    s.register d c = some ((s.setList d (some (list ++ [c]))).setLink c (some (some d))) := by
  simp [register, setDispatcher, hlist, hc]

/-- Registering keeps the links consistent if the callback had no link to another dispatcher, and
only then: the list of the other dispatcher would still have it. -/
theorem Consistent.register_iff (h : s.Consistent) {d : ι} {c : κ} {list : List κ}
    {link : Option ι} (hlist : s.dispatchers d = some list) (hc : s.callbacks c = some link) :
    ((s.setList d (some (list ++ [c]))).setLink c (some (some d))).Consistent ↔
      link = none ∨ link = some d := by
  constructor
  · intro h'
    cases link with
    | none => exact .inl rfl
    | some d' =>
        right
        by_contra hne
        obtain ⟨other, hother, hmem⟩ := h.back c d' hc
        have hd : d' ≠ d := fun heq => hne (congrArg some heq)
        have hother' : (s.setList d (some (list ++ [c]))).dispatchers d' = some other := by
          rw [setList_dispatchers_of_ne hd, hother]
        have hlink := h'.forth d' other hother' c hmem
        rw [setLink_callbacks_self] at hlink
        exact hne (Option.some.inj hlink).symm
  · intro hlink
    refine h.write hlist ?_ ?_ ?_ ?_
    · intro c' hne
      simp [hne]
    · simp
    · rintro d' hd heq
      cases heq
      exact hd rfl
    · rintro d' hd heq
      rw [hc] at heq
      rcases hlink with rfl | rfl
      · cases heq
      · cases heq
        exact hd rfl

theorem unregister_eq {d : ι} {c : κ} {list : List κ} (hlist : s.dispatchers d = some list) :
    s.unregister d c = some (s.setList d (some (list.filter (· ≠ c)))) := by
  simp [unregister, hlist]

/-- Unregistering keeps the links consistent if it does nothing, and only then: the callback would
still be linked to the dispatcher. -/
theorem Consistent.unregister_iff (h : s.Consistent) {d : ι} {c : κ} {list : List κ}
    (hlist : s.dispatchers d = some list) :
    (s.setList d (some (list.filter (· ≠ c)))).Consistent ↔ c ∉ list := by
  constructor
  · intro h' hmem
    have hlink := h.forth d list hlist c hmem
    have hstill := (h'.mem_iff hlink setList_dispatchers_self).2 rfl
    simp at hstill
  · intro hnot
    have hsame : list.filter (· ≠ c) = list := by
      refine List.filter_eq_self.2 ?_
      intro c' hc'
      simp only [ne_eq, decide_not, Bool.not_eq_true', decide_eq_false_iff_not]
      rintro rfl
      exact hnot hc'
    have heq : s.setList d (some (list.filter (· ≠ c))) = s := by
      rw [hsame, setList, ← hlist, Function.update_eq_self]
    rw [heq]
    exact h

/-! ### The destructors -/

/-- `~ACallback` finds its dispatcher alive, and leaves no pointer to the callback. -/
theorem Consistent.deleteCallback (h : s.Consistent) {c : κ} (hc : (s.callbacks c).isSome) :
    ∃ t, s.deleteCallback c = some t ∧ t.Consistent := by
  obtain ⟨link, hc⟩ := Option.isSome_iff_exists.1 hc
  cases link with
  | none =>
      refine ⟨s.setLink c none, by simp [Observers.deleteCallback, hc], h.setUnlinked ?_ ?_⟩
      · simp [hc]
      · rintro d ⟨⟩
  | some d =>
      obtain ⟨list, hlist, -⟩ := h.back c d hc
      refine ⟨(s.setList d (some (list.filter (· ≠ c)))).setLink c none,
        by simp [Observers.deleteCallback, hc, unregister_eq hlist], h.write hlist ?_ ?_ ?_ ?_⟩
      · intro c' hne
        simp [hne]
      · simp
      · rintro d' hd ⟨⟩
      · rintro d' hd heq
        cases hc.symm.trans heq
        exact hd rfl

omit [DecidableEq ι] in
/-- `NotifyDeath` takes the link from every callback of the list. -/
theorem notifyDeath_all {list : List κ} (h : ∀ c ∈ list, (s.callbacks c).isSome) :
    ∃ t, list.foldlM notifyDeath s = some t ∧ t.dispatchers = s.dispatchers ∧
      ∀ c, t.callbacks c = if c ∈ list then some none else s.callbacks c := by
  -- induction on the list: the callbacks that follow stay alive
  induction list generalizing s with
  | nil => exact ⟨s, rfl, rfl, fun c => rfl⟩
  | cons c rest ih =>
      obtain ⟨link, hc⟩ := Option.isSome_iff_exists.1 (h c List.mem_cons_self)
      have hnotify : s.notifyDeath c = some (s.setLink c (some none)) := by
        simp [notifyDeath, setDispatcher, hc]
      have hrest : ∀ c' ∈ rest, ((s.setLink c (some none)).callbacks c').isSome := by
        intro c' hc'
        by_cases hcc : c' = c
        · rw [hcc, setLink_callbacks_self]
          rfl
        · rw [setLink_callbacks_of_ne hcc]
          exact h c' (List.mem_cons_of_mem _ hc')
      obtain ⟨t, ht, hdispatchers, hcallbacks⟩ := ih hrest
      refine ⟨t, by rw [List.foldlM_cons, hnotify]; exact ht, hdispatchers, ?_⟩
      intro c'
      rw [hcallbacks c']
      by_cases hcc : c' = c
      · simp [hcc]
      · simp [hcc]

/-- `~Dispatcher` finds its callbacks alive, and leaves no link to the dispatcher. -/
theorem Consistent.deleteDispatcher (h : s.Consistent) {d : ι} (hd : (s.dispatchers d).isSome) :
    ∃ t, s.deleteDispatcher d = some t ∧ t.Consistent := by
  obtain ⟨list, hlist⟩ := Option.isSome_iff_exists.1 hd
  have hlive : ∀ c ∈ list, (s.callbacks c).isSome := by
    intro c hc
    rw [h.forth d list hlist c hc]
    rfl
  obtain ⟨u, hu, hdispatchers, hcallbacks⟩ := notifyDeath_all hlive
  refine ⟨u.setList d none, by simp [Observers.deleteDispatcher, hlist, hu], ?_, ?_⟩
  · intro c d' hc
    rw [setList_callbacks, hcallbacks] at hc
    split at hc
    · cases hc
    · rename_i hnot
      have hne : d' ≠ d := by
        rintro rfl
        exact hnot ((h.mem_iff hc hlist).2 rfl)
      rw [setList_dispatchers_of_ne hne, hdispatchers]
      exact h.back c d' hc
  · intro d' list' hlist' c hmem
    by_cases hne : d' = d
    · subst hne
      rw [setList_dispatchers_self] at hlist'
      cases hlist'
    · rw [setList_dispatchers_of_ne hne, hdispatchers] at hlist'
      have hlink := h.forth d' list' hlist' c hmem
      rw [setList_callbacks, hcallbacks, if_neg]
      · exact hlink
      · intro hmem'
        have hother := (h.mem_iff hlink hlist).1 hmem'
        cases hother
        exact hne rfl

/-! ### All operations -/

/-- No operation has reached a destroyed object, and the links are consistent. -/
def Sound : Option (Observers ι κ) → Prop
  | some s => s.Consistent
  | none => False

/-- What keeps the links single: a callback registers only where it has no link to another
dispatcher, and nobody takes a callback out of a list that it is in. -/
def SingleLink : Option (Observers ι κ) → ObserverAction ι κ → Prop
  | some s, .register d c => s.callbacks c = some none ∨ s.callbacks c = some (some d)
  | some s, .unregister d c => c ∉ (s.dispatchers d).getD []
  | _, _ => True

instance : DecidableRel (SingleLink (ι := ι) (κ := κ))
  | some _, .register _ _ => inferInstanceAs (Decidable (_ ∨ _))
  | some _, .unregister _ _ => inferInstanceAs (Decidable (¬_))
  | some _, .newDispatcher _ | some _, .newCallback _ | some _, .deleteCallback _
  | some _, .deleteDispatcher _ | none, _ => instDecidableTrue

/-- One operation keeps the links consistent when it keeps them single, and only then. -/
theorem Consistent.perform_iff (h : s.Consistent) {a : ObserverAction ι κ} (ha : s.Allowed a) :
    Sound (s.perform a) ↔ SingleLink (some s) a := by
  cases a with
  | newDispatcher d => exact iff_of_true (h.newDispatcher ha) trivial
  | newCallback c =>
      have hfree : s.callbacks c = none := ha
      exact iff_of_true (h.setUnlinked (by simp [hfree]) (by simp)) trivial
  | register d c =>
      obtain ⟨list, hlist⟩ := Option.isSome_iff_exists.1 ha.1
      obtain ⟨link, hc⟩ := Option.isSome_iff_exists.1 ha.2
      simp only [perform, register_eq hlist hc, SingleLink, hc, Option.some.injEq]
      exact h.register_iff hlist hc
  | unregister d c =>
      obtain ⟨list, hlist⟩ := Option.isSome_iff_exists.1 ha.1
      simp only [perform, unregister_eq hlist, SingleLink, hlist, Option.getD_some]
      exact h.unregister_iff hlist
  | deleteCallback c =>
      obtain ⟨t, ht, hconsistent⟩ := h.deleteCallback ha
      refine iff_of_true ?_ trivial
      rw [perform, ht]
      exact hconsistent
  | deleteDispatcher d =>
      obtain ⟨t, ht, hconsistent⟩ := h.deleteDispatcher ha
      refine iff_of_true ?_ trivial
      rw [perform, ht]
      exact hconsistent

theorem Sound.step_iff {s t : Option (Observers ι κ)} (h : Sound s) {a : ObserverAction ι κ}
    (hstep : step s a = some t) : Sound t ↔ SingleLink s a := by
  cases s with
  | none => exact h.elim
  | some s =>
      simp only [step, Option.ite_none_right_eq_some, Option.some.injEq] at hstep
      obtain ⟨ha, rfl⟩ := hstep
      exact Consistent.perform_iff h ha

end Observers

open Observers

section Runs

variable {ι κ : Type} [DecidableEq ι] [DecidableEq κ]

/-- Observer links are consistent throughout a run, and no operation reaches a destroyed object, when
every step keeps the links single, and only then. -/
theorem observer_links_consistent (actions : List (ObserverAction ι κ))
    {t : Option (Observers ι κ)} (hrun : Transition.run step (some empty) actions = some t) :
    (∀ pre s, pre <+: actions → Transition.run step (some empty) pre = some s → Sound s) ↔
      Transition.Along step SingleLink (some empty) actions :=
  Transition.prefixes_iff_along (fun _ _ _ h hstep => h.step_iff hstep) consistent_empty hrun

end Runs

/-- Two callbacks register, one of them twice; one is destroyed before the dispatcher. -/
def registerAndDelete : List (ObserverAction ℕ ℕ) :=
  [.newDispatcher 0, .newCallback 5, .newCallback 6, .register 0 5, .unregister 0 6, .register 0 6,
    .register 0 5, .deleteCallback 5, .deleteDispatcher 0, .deleteCallback 6]

theorem observer_links_consistent_registerAndDelete : ∃ s,
    Transition.run step (some empty) registerAndDelete = some s ∧ Sound s := by
  refine ⟨_, rfl, ?_⟩
  have h := observer_links_consistent registerAndDelete rfl
  exact h.2 (by decide) _ _ (List.prefix_refl _) rfl

/-- A callback that is unregistered stays linked, so that the destruction of the dispatcher does not
reach it, and its own destruction then reaches the destroyed dispatcher. -/
theorem unregistered_callback_dangles :
    ¬∀ (actions : List (ObserverAction ℕ ℕ)) (s : Option (Observers ℕ ℕ)),
      Transition.run step (some empty) actions = some s → Sound s := by
  intro h
  exact h [.newDispatcher 0, .newCallback 5, .register 0 5, .unregister 0 5, .deleteDispatcher 0,
    .deleteCallback 5] none rfl

end IotDrive
