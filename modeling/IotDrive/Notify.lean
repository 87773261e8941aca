/-
What `Dispatcher::Notify` calls.

`Notify` copies the list of callbacks and calls the callbacks of the copy.  A notification function may
register, unregister or destroy callbacks of the dispatcher, itself among them; this changes
`m_callback_list`, and the copy stays.

Main definitions:

* `Reentry` — what a notification function may do;
* `Observers.notify` — the function of the code;
* `NotifiesRegistered` — only callbacks that are registered at their turn are called, and those that
  stay registered are;
* `Reentry.lastRegisters` — a callback is not left unregistered or destroyed.

Main results:

* `Observers.registered_run` — which callbacks are registered after some operations;
* `Observers.notifyLoop_spec`, `Observers.notifyLoop_isSome` — the turns of a call;
* `notify_calls_registered` — **when `Notify` calls registered callbacks only**.
-/

import IotDrive.Dispatcher
import Mathlib.Data.List.Induction
import Mathlib.Data.List.Sigma

set_option relaxedAutoImplicit false
set_option autoImplicit false

namespace IotDrive

/-- What a notification function may do to the dispatcher that calls it. -/
inductive Reentry (κ : Type)
  | register (c : κ)
  | unregister (c : κ)
  | destroy (c : κ)
  deriving DecidableEq

namespace Reentry

variable {ι κ : Type}

def action (d : ι) : Reentry κ → ObserverAction ι κ
  | .register c => .register d c
  | .unregister c => .unregister d c
  | .destroy c => .deleteCallback c

def callback : Reentry κ → κ
  | .register c | .unregister c | .destroy c => c

def registers : Reentry κ → Bool
  | .register _ => true
  | .unregister _ | .destroy _ => false

/-- The last of the operations on the callback, if there is one, registers it. -/
def lastRegisters [DecidableEq κ] (c : κ) (made : List (Reentry κ)) : Bool :=
  (made.reverse.find? (·.callback = c)).all registers

theorem lastRegisters_concat [DecidableEq κ] (c : κ) (made : List (Reentry κ)) (op : Reentry κ) :
    lastRegisters c (made ++ [op]) =
      if op.callback = c then op.registers else lastRegisters c made := by
  by_cases h : op.callback = c
  · simp [lastRegisters, h]
  · simp [lastRegisters, h]

end Reentry

namespace Observers

variable {ι κ : Type} [DecidableEq ι] [DecidableEq κ] {s t : Observers ι κ} {d : ι} {c : κ}

/-! ### `Notify` -/

/-- An operation of a notification function on objects that are alive. -/
def reenter (d : ι) (s : Observers ι κ) (op : Reentry κ) : Option (Observers ι κ) :=
  if s.Allowed (op.action d) then s.perform (op.action d) else none

/-- A call of a callback, for the place of its registration in the copy, and what is alive then. -/
structure Turn (ι κ : Type) where
  registration : ℕ
  callback : κ
  observers : Observers ι κ

/-- The loop over the copy from place `k` on, when the notification function at place `i` does
`ops i`. -/
def notifyLoop (d : ι) (ops : ℕ → List (Reentry κ)) :
    List κ → ℕ → Observers ι κ → Option (List (Turn ι κ) × Observers ι κ)
  | [], _, s => some ([], s)
  | c :: rest, k, s => do
      let _ ← s.callbacks c
      let u ← Transition.run (reenter d) s (ops k)
      let (turns, t) ← notifyLoop d ops rest (k + 1) u
      some (⟨k, c, s⟩ :: turns, t)

/-- `Dispatcher::Notify`. -/
def notify (s : Observers ι κ) (d : ι) (ops : ℕ → List (Reentry κ)) :
    Option (List (Turn ι κ) × Observers ι κ) := do
  let temp ← s.dispatchers d
  notifyLoop d ops temp 0 s

/-- What the notification functions at the places `k`, …, `k + n - 1` do. -/
def during (ops : ℕ → List (Reentry κ)) (k n : ℕ) : List (Reentry κ) :=
  (List.range' k n).flatMap ops

omit [DecidableEq κ] in
theorem during_succ (ops : ℕ → List (Reentry κ)) (k n : ℕ) :
    during ops k (n + 1) = ops k ++ during ops (k + 1) n := rfl

/-! ### Registered callbacks -/

/-- The callback is alive and in the list of the dispatcher. -/
def Registered (s : Observers ι κ) (d : ι) (c : κ) : Prop :=
  (s.callbacks c).isSome ∧ ∃ list, s.dispatchers d = some list ∧ c ∈ list

omit [DecidableEq κ] in
/-- The list of another dispatcher does not matter. -/
theorem registered_setList_of_ne {d' : ι} {list : Option (List κ)} (hd : d ≠ d') :
    (s.setList d' list).Registered d c ↔ s.Registered d c := by
  rw [Registered, Registered, setList_callbacks, setList_dispatchers_of_ne hd]

omit [DecidableEq κ] in
theorem registered_setList_self {list : List κ} :
    (s.setList d (some list)).Registered d c ↔ (s.callbacks c).isSome ∧ c ∈ list := by
  rw [Registered, setList_callbacks, setList_dispatchers_self]
  simp

omit [DecidableEq ι] in
/-- Nor does the link of another callback. -/
theorem registered_setLink_of_ne {c' : κ} {link : Option (Option ι)} (hc : c ≠ c') :
    (s.setLink c' link).Registered d c ↔ s.Registered d c := by
  rw [Registered, Registered, setLink_callbacks_of_ne hc, setLink_dispatchers]

/-- Taking another callback out of a list. -/
theorem registered_unregister_of_ne {d' : ι} {c' : κ} (hc : c ≠ c')
    (h : s.unregister d' c' = some t) : t.Registered d c ↔ s.Registered d c := by
  obtain ⟨list, hlist, heq⟩ := Option.bind_eq_some_iff.1 h
  cases heq
  by_cases hd : d = d'
  · subst hd
    rw [registered_setList_self, Registered, hlist]
    simp [hc]
  · exact registered_setList_of_ne hd

/-- The destructor of a callback takes it out of one list at most, and then it is dead. -/
theorem deleteCallback_cases (h : s.deleteCallback c = some t) :
    ∃ u, t = u.setLink c none ∧ (u = s ∨ ∃ d', s.unregister d' c = some u) := by
  obtain ⟨link, hlink, h⟩ := Option.bind_eq_some_iff.1 h
  cases link with
  | none =>
      cases h
      exact ⟨s, rfl, .inl rfl⟩
  | some d' =>
      obtain ⟨u, hu, ht⟩ := Option.bind_eq_some_iff.1 h
      cases ht
      exact ⟨u, rfl, .inr ⟨d', hu⟩⟩

/-- Which callbacks are registered after an operation. -/
theorem registered_reenter {op : Reentry κ} (h : reenter d s op = some t) :
    t.Registered d c ↔ if op.callback = c then op.registers = true else s.Registered d c := by
  simp only [reenter, Option.ite_none_right_eq_some] at h
  obtain ⟨hallowed, h⟩ := h
  by_cases hc : op.callback = c
  · rw [if_pos hc]
    subst hc
    cases op with
    | register c =>
        obtain ⟨list, hlist⟩ := Option.isSome_iff_exists.1 hallowed.1
        obtain ⟨link, hlink⟩ := Option.isSome_iff_exists.1 hallowed.2
        rw [Reentry.action, perform, register_eq hlist hlink] at h
        cases h
        refine iff_of_true ⟨?_, list ++ [c], ?_, by simp [Reentry.callback]⟩ rfl
        · simp [Reentry.callback]
        · simp
    | unregister c =>
        obtain ⟨list, hlist⟩ := Option.isSome_iff_exists.1 hallowed.1
        rw [Reentry.action, perform, unregister_eq hlist] at h
        cases h
        rw [registered_setList_self]
        simp [Reentry.callback, Reentry.registers]
    | destroy c =>
        obtain ⟨u, rfl, -⟩ := deleteCallback_cases h
        refine iff_of_false ?_ (by simp [Reentry.registers])
        rintro ⟨hlive, -⟩
        simp [Reentry.callback] at hlive
  · rw [if_neg hc]
    cases op with
    | register c' =>
        obtain ⟨list, hlist⟩ := Option.isSome_iff_exists.1 hallowed.1
        obtain ⟨link, hlink⟩ := Option.isSome_iff_exists.1 hallowed.2
        rw [Reentry.action, perform, register_eq hlist hlink] at h
        cases h
        have hne : c ≠ c' := Ne.symm hc
        rw [registered_setLink_of_ne hne, registered_setList_self, Registered, hlist]
        simp [hne]
    | unregister c' => exact registered_unregister_of_ne (Ne.symm hc) h
    | destroy c' =>
        have hne : c ≠ c' := Ne.symm hc
        obtain ⟨u, rfl, hu⟩ := deleteCallback_cases h
        rw [registered_setLink_of_ne hne]
        rcases hu with rfl | ⟨d', hu⟩
        · rfl
        · exact registered_unregister_of_ne hne hu

/-- A registered callback is registered after some operations if the last one on it registers it, and
only then. -/
theorem registered_run (h : s.Registered d c) {made : List (Reentry κ)}
    (hrun : Transition.run (reenter d) s made = some t) :
    t.Registered d c ↔ Reentry.lastRegisters c made = true := by
  -- induction on the operations from the last one
  induction made using List.reverseRecOn generalizing t with
  | nil =>
      cases hrun
      exact iff_of_true h rfl
  | append_singleton made op ih =>
      rw [Transition.run_append] at hrun
      obtain ⟨u, hu, hstep⟩ := Option.bind_eq_some_iff.1 hrun
      obtain ⟨t', ht', hnil⟩ := Transition.run_cons_eq_some.1 hstep
      cases hnil
      rw [registered_reenter ht', Reentry.lastRegisters_concat, ih hu]
      split <;> rfl

/-! ### The turns of a call -/

/-- The turns of the loop are those of the copy in order, each in the state that the earlier ones
leave. -/
theorem notifyLoop_spec {ops : ℕ → List (Reentry κ)} {temp : List κ} {k : ℕ}
    {turns : List (Turn ι κ)} (h : notifyLoop d ops temp k s = some (turns, t)) :
    turns.map (fun turn => (turn.callback, turn.registration)) = temp.zipIdx k ∧
      ∀ turn ∈ turns, ∃ n, turn.registration = k + n ∧
        Transition.run (reenter d) s (during ops k n) = some turn.observers ∧
        (turn.observers.callbacks turn.callback).isSome := by
  -- induction on the rest of the copy
  induction temp generalizing k s turns with
  | nil =>
      cases h
      exact ⟨rfl, by simp⟩
  | cons c rest ih =>
      obtain ⟨link, hlink, h⟩ := Option.bind_eq_some_iff.1 h
      obtain ⟨u, hu, h⟩ := Option.bind_eq_some_iff.1 h
      obtain ⟨⟨turns', t'⟩, hrest, h⟩ := Option.bind_eq_some_iff.1 h
      cases h
      obtain ⟨hmap, hturns⟩ := ih hrest
      refine ⟨?_, List.forall_mem_cons.2 ⟨⟨0, rfl, rfl, ?_⟩, ?_⟩⟩
      · rw [List.map_cons, hmap, List.zipIdx_cons]
      · rw [hlink]
        rfl
      · intro turn hturn
        obtain ⟨n, hn, hrun, hlive⟩ := hturns turn hturn
        refine ⟨n + 1, by omega, ?_, hlive⟩
        rw [during_succ, Transition.run_append, hu]
        exact hrun

/-- The loop returns if every callback of the copy is alive at its turn. -/
theorem notifyLoop_isSome {ops : ℕ → List (Reentry κ)} {temp : List κ} {k : ℕ}
    (hops : (Transition.run (reenter d) s (during ops k temp.length)).isSome)
    (hlive : ∀ n c u, temp[n]? = some c →
      Transition.run (reenter d) s (during ops k n) = some u → (u.callbacks c).isSome) :
    (notifyLoop d ops temp k s).isSome := by
  induction temp generalizing k s with
  | nil => rfl
  | cons c rest ih =>
      obtain ⟨link, hlink⟩ := Option.isSome_iff_exists.1 (hlive 0 c s rfl rfl)
      rw [List.length_cons, during_succ, Transition.run_append] at hops
      obtain ⟨t, ht⟩ := Option.isSome_iff_exists.1 hops
      obtain ⟨u, hu, hrest⟩ := Option.bind_eq_some_iff.1 ht
      have hloop : (notifyLoop d ops rest (k + 1) u).isSome := by
        refine ih (by rw [hrest]; rfl) ?_
        intro n c' v hc' hv
        refine hlive (n + 1) c' v hc' ?_
        rw [during_succ, Transition.run_append, hu]
        exact hv
      obtain ⟨⟨turns, v⟩, hturns⟩ := Option.isSome_iff_exists.1 hloop
      simp [notifyLoop, hlink, hu, hturns]

end Observers

open Observers

section Notify

variable {ι κ : Type} [DecidableEq ι] [DecidableEq κ]

/-- The callback is registered at every moment before the turn at the place `k`. -/
def StaysRegistered (s : Observers ι κ) (d : ι) (ops : ℕ → List (Reentry κ)) (c : κ) (k : ℕ) : Prop :=
  ∀ pre t, pre <+: during ops 0 k → Transition.run (reenter d) s pre = some t → t.Registered d c

/-- The call returns; every callback that it calls is registered at its turn; and every registration
that stays until its turn has one turn. -/
def NotifiesRegistered (s : Observers ι κ) (d : ι) (list : List κ) (ops : ℕ → List (Reentry κ)) :
    Prop :=
  ∃ turns t, s.notify d ops = some (turns, t) ∧
    (∀ turn ∈ turns, turn.observers.Registered d turn.callback) ∧
    ∀ k c, list[k]? = some c → StaysRegistered s d ops c k →
      (turns.map fun turn => (turn.callback, turn.registration)).count (c, k) = 1

/-- A call of `Notify` calls registered callbacks only exactly when no callback of the list is left
unregistered or destroyed before its turn. -/
theorem notify_calls_registered {s : Observers ι κ} {d : ι} {list : List κ}
    (hlist : s.dispatchers d = some list) (hlive : ∀ c ∈ list, (s.callbacks c).isSome)
    {ops : ℕ → List (Reentry κ)}
    (hops : (Transition.run (reenter d) s (during ops 0 list.length)).isSome) :
    NotifiesRegistered s d list ops ↔
      ∀ k c, list[k]? = some c → Reentry.lastRegisters c (during ops 0 k) := by
  have hregistered : ∀ {c}, c ∈ list → s.Registered d c := fun hc => ⟨hlive _ hc, list, hlist, hc⟩
  constructor
  · rintro ⟨turns, t, hnotify, honly, -⟩ k c hk
    rw [notify, hlist] at hnotify
    obtain ⟨hmap, hturns⟩ := notifyLoop_spec hnotify
    have hmem : (c, k) ∈ turns.map fun turn => (turn.callback, turn.registration) := by
      rw [hmap]
      exact List.mem_zipIdx_iff_getElem?.2 hk
    obtain ⟨turn, hturn, heq⟩ := List.mem_map.1 hmem
    cases heq
    obtain ⟨n, hn, hrun, -⟩ := hturns turn hturn
    rw [hn, Nat.zero_add]
    exact (registered_run (hregistered (List.mem_of_getElem? hk)) hrun).1 (honly turn hturn)
  · intro hlast
    have hturn : ∀ k c u, list[k]? = some c →
        Transition.run (reenter d) s (during ops 0 k) = some u → u.Registered d c := by
      intro k c u hk hrun
      exact (registered_run (hregistered (List.mem_of_getElem? hk)) hrun).2 (hlast k c hk)
    have hreturns : (notifyLoop d ops list 0 s).isSome :=
      notifyLoop_isSome hops fun n c u hn hrun => (hturn n c u hn hrun).1
    obtain ⟨⟨turns, t⟩, hloop⟩ := Option.isSome_iff_exists.1 hreturns
    obtain ⟨hmap, hturns⟩ := notifyLoop_spec hloop
    refine ⟨turns, t, by rw [notify, hlist]; exact hloop, ?_, ?_⟩
    · intro turn hmem
      obtain ⟨n, hn, hrun, -⟩ := hturns turn hmem
      have hplace : (turn.callback, turn.registration) ∈ list.zipIdx 0 := by
        rw [← hmap]
        exact List.mem_map_of_mem hmem
      rw [hn, Nat.zero_add] at hplace
      exact hturn n _ _ (List.mem_zipIdx_iff_getElem?.1 hplace) hrun
    · intro k c hk _
      have hnodup : (list.zipIdx 0).Nodup := .of_map Prod.snd (List.nodup_zipIdx_map_snd list)
      rw [hmap]
      exact List.count_eq_one_of_mem hnodup (List.mem_zipIdx_iff_getElem?.2 hk)

end Notify

/-- A dispatcher with two callbacks. -/
def twoCallbacks : Observers ℕ ℕ where
  dispatchers d := if d = 0 then some [5, 6] else none
  callbacks c := if c = 5 ∨ c = 6 then some (some 0) else none

/-- The first callback takes out the second one, registers it again, and destroys itself. -/
theorem notify_calls_registered_twoCallbacks :
    NotifiesRegistered twoCallbacks 0 [5, 6] fun k =>
      if k = 0 then [.unregister 6, .register 6, .destroy 5] else [] := by
  refine (notify_calls_registered rfl (by decide) (by decide)).2 ?_
  intro k c hk
  rcases k with _ | _ | k
  · rfl
  · cases hk
    rfl
  · cases hk

/-- The first callback destroys the second one, which is called all the same. -/
theorem notify_reaches_destroyed :
    ¬∀ (s : Observers ℕ ℕ) (d : ℕ) (list : List ℕ) (ops : ℕ → List (Reentry ℕ)),
      s.dispatchers d = some list → (∀ c ∈ list, (s.callbacks c).isSome) →
      (Transition.run (reenter d) s (during ops 0 list.length)).isSome →
      NotifiesRegistered s d list ops := by
  intro h
  obtain ⟨turns, t, hnotify, -⟩ := h twoCallbacks 0 [5, 6]
    (fun k => if k = 0 then [.destroy 6] else []) rfl (by decide) (by decide)
  have hnone : twoCallbacks.notify 0 (fun k => if k = 0 then [.destroy 6] else []) = none := rfl
  cases hnone.symm.trans hnotify

/-- So is a callback that is alive but unregistered. -/
example : ((twoCallbacks.notify 0 fun k => if k = 0 then [.unregister 6] else []).map fun result =>
    result.1.map fun turn => (turn.callback, turn.observers.dispatchers 0)) =
    some [(5, some [5, 6]), (6, some [5])] := rfl

end IotDrive
