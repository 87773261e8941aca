/-
**Runs of a partial transition function.**

A machine is a partial function `step : σ → β → Option σ` from a state and an action to the next
state, and a run is a fold of `step` over a list of actions.  A run has a result when every action
was enabled.

Main definitions:

* `Transition.run` — the state after a list of actions;
* `Transition.Along` — every step of a run meets a condition on its state and action.

Main results:

* `Transition.run_invariant` — what a step preserves under a condition, a run whose steps meet the
  condition preserves;
* `Transition.prefixes_iff_along` — what a step keeps exactly under a condition holds at every moment
  of a run exactly when its steps meet the condition;
* `Transition.length_le_of_rank` — a rank that falls with every step bounds the length of a run;
* `Transition.run_append` — runs compose.
-/

import Mathlib.Data.List.Basic

set_option relaxedAutoImplicit false
set_option autoImplicit false

namespace Transition

variable {σ β : Type*} {step : σ → β → Option σ} {s s' : σ}

/-- The state after the given actions, if all of them were enabled. -/
def run (step : σ → β → Option σ) (s : σ) (actions : List β) : Option σ := actions.foldlM step s

/-- Every step of the run from `s` meets the condition `C` on its state and action. -/
def Along (step : σ → β → Option σ) (C : σ → β → Prop) : σ → List β → Prop
  | _, [] => True
  | s, a :: rest => C s a ∧ match step s a with
      | some t => Along step C t rest
      | none => True

instance decidableAlong (C : σ → β → Prop) [∀ s a, Decidable (C s a)] :
    ∀ s actions, Decidable (Along step C s actions)
  | _, [] => instDecidableTrue
  | s, a :: rest =>
      have : Decidable (match step s a with
          | some t => Along step C t rest
          | none => True) :=
        match step s a with
        | some t => decidableAlong C t rest
        | none => instDecidableTrue
      inferInstanceAs (Decidable (C s a ∧ _))

@[simp] theorem run_nil : run step s [] = some s := rfl

theorem run_cons (a : β) (rest : List β) :
    run step s (a :: rest) = (step s a).bind fun t => run step t rest := rfl

theorem run_append (s : σ) (as bs : List β) :
    run step s (as ++ bs) = (run step s as).bind fun t => run step t bs :=
  List.foldlM_append

/-- A run of at least one action starts with a step. -/
theorem run_cons_eq_some {a : β} {rest : List β} :
    run step s (a :: rest) = some s' ↔ ∃ t, step s a = some t ∧ run step t rest = some s' := by
  rw [run_cons, Option.bind_eq_some_iff]

/-- What every step preserves under the condition `C` is preserved by the runs along `C`. -/
theorem run_invariant_along (I : σ → Prop) {C : σ → β → Prop}
    (hstep : ∀ s a t, I s → C s a → step s a = some t → I t) {actions : List β} (h : I s)
    (hC : Along step C s actions) (hrun : run step s actions = some s') : I s' := by
  induction actions generalizing s with
  | nil =>
      cases hrun
      exact h
  | cons a rest ih =>
      obtain ⟨t, ht, hrest⟩ := run_cons_eq_some.1 hrun
      have hCrest := hC.2
      rw [ht] at hCrest
      exact ih (hstep s a t h hC.1 ht) hCrest hrest

/-- A condition on the actions only. -/
theorem along_of_forall {C : σ → β → Prop} {actions : List β} (h : ∀ a ∈ actions, ∀ s, C s a)
    (s : σ) : Along step C s actions := by
  induction actions generalizing s with
  | nil => trivial
  | cons a rest ih =>
      refine ⟨h a List.mem_cons_self s, ?_⟩
      split
      · exact ih (fun b hb => h b (List.mem_cons_of_mem a hb)) _
      · trivial

/-- A run that meets two conditions at every step. -/
theorem along_and {C D : σ → β → Prop} {actions : List β} (hC : Along step C s actions)
    (hD : Along step D s actions) : Along step (fun s a => C s a ∧ D s a) s actions := by
  induction actions generalizing s with
  | nil => trivial
  | cons a rest ih =>
      obtain ⟨hCa, hC⟩ := hC
      obtain ⟨hDa, hD⟩ := hD
      refine ⟨⟨hCa, hDa⟩, ?_⟩
      cases hstep : step s a with
      | none => trivial
      | some t =>
          rw [hstep] at hC hD
          exact ih hC hD

/-- Where a step keeps `I` exactly when it meets the condition `C`, a run keeps `I` at every moment
exactly when it is along `C`. -/
theorem prefixes_iff_along {I : σ → Prop} {C : σ → β → Prop}
    (hstep : ∀ s a t, I s → step s a = some t → (I t ↔ C s a)) {actions : List β} (h : I s)
    (hrun : run step s actions = some s') :
    (∀ pre t, pre <+: actions → run step s pre = some t → I t) ↔ Along step C s actions := by
  induction actions generalizing s with
  | nil =>
      refine iff_of_true ?_ trivial
      intro pre t hpre ht
      rw [List.prefix_nil.1 hpre] at ht
      cases ht
      exact h
  | cons a rest ih =>
      obtain ⟨u, hu, hrest⟩ := run_cons_eq_some.1 hrun
      have halong : Along step C s (a :: rest) ↔ C s a ∧ Along step C u rest := by
        rw [Along, hu]
      rw [halong, ← hstep s a u h hu]
      constructor
      · intro hall
        have hIu : I u := hall [a] u ⟨rest, rfl⟩ (run_cons_eq_some.2 ⟨u, hu, rfl⟩)
        refine ⟨hIu, (ih hIu hrest).1 ?_⟩
        intro pre t hpre ht
        exact hall (a :: pre) t (List.cons_prefix_cons.2 ⟨rfl, hpre⟩)
          (run_cons_eq_some.2 ⟨u, hu, ht⟩)
      · rintro ⟨hIu, hrestC⟩ pre t hpre ht
        cases pre with
        | nil =>
            cases ht
            exact h
        | cons b pre =>
            obtain ⟨rfl, hpre'⟩ := List.cons_prefix_cons.1 hpre
            obtain ⟨v, hv, ht⟩ := run_cons_eq_some.1 ht
            cases hu.symm.trans hv
            exact (ih hIu hrest).2 hrestC pre t hpre' ht

/-- What every step preserves, every run preserves. -/
theorem run_invariant (I : σ → Prop) (hstep : ∀ s a t, I s → step s a = some t → I t)
    {actions : List β} (h : I s) (hrun : run step s actions = some s') : I s' :=
  run_invariant_along I (C := fun _ _ => True) (fun s a t h _ => hstep s a t h) h
    (along_of_forall (fun _ _ _ => trivial) s) hrun

/-- A rank that falls with every action in `P`, as long as the invariant `I` holds, bounds the runs of
such actions. -/
theorem length_le_of_rank {I : σ → Prop} (rank : σ → ℕ) {P : β → Prop}
    (hstep : ∀ s a t, I s → P a → step s a = some t → I t ∧ rank t < rank s) {actions : List β}
    (hs : I s) (hP : ∀ a ∈ actions, P a) (hrun : run step s actions = some s') :
    actions.length + rank s' ≤ rank s := by
  induction actions generalizing s with
  | nil =>
      cases hrun
      exact Nat.le_of_eq (Nat.zero_add _)
  | cons a rest ih =>
      obtain ⟨ha, hrest⟩ := List.forall_mem_cons.1 hP
      obtain ⟨t, ht, hrun'⟩ := run_cons_eq_some.1 hrun
      obtain ⟨hI, hfall⟩ := hstep s a t hs ha ht
      have hlater := ih hI hrest hrun'
      rw [List.length_cons]
      omega

end Transition
