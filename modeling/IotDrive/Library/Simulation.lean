/-
**Forward simulations between machines that record what they do.**

A concrete machine is simulated by an abstract one if every step of the former, from related states,
is matched by steps of the latter that output what is to be observed of its events.  Whole runs are
then matched as well, with the observed history.

Main definitions:

* `Simulation.Forward` — each step is matched, under a condition on its events.

Main results:

* `Simulation.run_logged` — a run does not depend on the history before it;
* `Simulation.run_step`, `Simulation.run_trans` — runs out of steps;
* `Simulation.Forward.of_step` — a simulation in which one step is matched by one step;
* `Simulation.Forward.run` — **runs are matched**, with the observed history.
-/

import IotDrive.Library.History

set_option relaxedAutoImplicit false
set_option autoImplicit false

namespace Simulation

open History Transition

variable {σ σ' β β' ε ε' : Type*} {step : σ → β → Option (σ × List ε)}
  {step' : σ' → β' → Option (σ' × List ε')}

/-! ### Runs and the history before them -/

/-- A run adds its events to any history. -/
theorem run_logged {s t : σ} {h : List ε} {actions : List β} (past : List ε)
    (hrun : run (logged step) (s, []) actions = some (t, h)) :
    run (logged step) (s, past) actions = some (t, h ++ past) := by
  -- induction on the actions, with the events so far in front of either history
  suffices hall : ∀ (s : σ) (h₀ : List ε), run (logged step) (s, h₀) actions = some (t, h) →
      run (logged step) (s, h₀ ++ past) actions = some (t, h ++ past) from hall s [] hrun
  clear hrun
  induction actions with
  | nil =>
      intro s h₀ hrun
      cases hrun
      rfl
  | cons a rest ih =>
      intro s h₀ hrun
      obtain ⟨u, hu, hrest⟩ := run_cons_eq_some.1 hrun
      obtain ⟨s', out, hstep, rfl⟩ := logged_eq_some.1 hu
      refine run_cons_eq_some.2 ⟨(s', out ++ (h₀ ++ past)), ?_, ?_⟩
      · exact logged_eq_some.2 ⟨s', out, hstep, rfl⟩
      · rw [← List.append_assoc]
        exact ih s' (out ++ h₀) hrest

/-- One step as a run. -/
theorem run_step {s t : σ} {a : β} {out : List ε} (h : step s a = some (t, out)) :
    run (logged step) (s, []) [a] = some (t, out) := by
  refine run_cons_eq_some.2 ⟨_, logged_eq_some.2 ⟨t, out, h, rfl⟩, ?_⟩
  rw [List.append_nil]
  rfl

/-- One run after another. -/
theorem run_trans {s t u : σ} {as bs : List β} {h h' : List ε}
    (hrun : run (logged step) (s, []) as = some (t, h))
    (hrun' : run (logged step) (t, []) bs = some (u, h')) :
    run (logged step) (s, []) (as ++ bs) = some (u, h' ++ h) := by
  rw [run_append, hrun, Option.bind_some]
  exact run_logged h hrun'

/-! ### Simulations -/

/-- Every step of the concrete machine whose events meet `C` is matched by a run of the abstract machine
that outputs what `observe` shows of the events of the step. -/
def Forward (step : σ → β → Option (σ × List ε)) (C : ε → Prop)
    (step' : σ' → β' → Option (σ' × List ε')) (R : σ → σ' → Prop) (observe : ε → List ε') : Prop :=
  ∀ s s' a t out, R s s' → (∀ e ∈ out, C e) → step s a = some (t, out) →
    ∃ bs t', run (logged step') (s', []) bs = some (t', out.flatMap observe) ∧ R t t'

variable {C : ε → Prop} {R : σ → σ' → Prop} {observe : ε → List ε'}

/-- One step matched by one step. -/
theorem Forward.of_step (h : ∀ s s' a t out, R s s' → (∀ e ∈ out, C e) → step s a = some (t, out) →
      ∃ b t', step' s' b = some (t', out.flatMap observe) ∧ R t t') :
    Forward step C step' R observe := by
  intro s s' a t out hR hC hstep
  obtain ⟨b, t', hstep', hR'⟩ := h s s' a t out hR hC hstep
  exact ⟨[b], t', run_step hstep', hR'⟩

/-- **Runs are matched.** From related states, every run of the concrete machine whose events meet the
condition is matched by a run of the abstract machine with the observed history. -/
theorem Forward.run (hsim : Forward step C step' R observe) {s t : σ} {s' : σ'} {h : List ε}
    {actions : List β} (hR : R s s') (hC : ∀ e ∈ h, C e)
    (hrun : Transition.run (logged step) (s, []) actions = some (t, h)) :
    ∃ bs t', Transition.run (logged step') (s', []) bs = some (t', h.flatMap observe) ∧ R t t' := by
  -- an invariant of the history: it is matched as soon as its events meet the condition
  have hinvariant : ∀ s₁ a t₁ out h₁, ((∀ e ∈ h₁, C e) → ∃ bs s₁',
      Transition.run (logged step') (s', []) bs = some (s₁', h₁.flatMap observe) ∧ R s₁ s₁') →
      step s₁ a = some (t₁, out) → (∀ e ∈ out ++ h₁, C e) → ∃ bs t₁',
        Transition.run (logged step') (s', []) bs = some (t₁', (out ++ h₁).flatMap observe) ∧
          R t₁ t₁' := by
    intro s₁ a t₁ out h₁ hI hstep hC
    obtain ⟨bs, s₁', hmatch, hR₁⟩ := hI fun e he => hC e (List.mem_append_right _ he)
    obtain ⟨bs', t₁', hmatch', hR'⟩ :=
      hsim _ _ _ _ _ hR₁ (fun e he => hC e (List.mem_append_left _ he)) hstep
    refine ⟨bs ++ bs', t₁', ?_, hR'⟩
    rw [List.flatMap_append]
    exact run_trans hmatch hmatch'
  exact History.invariant (I := fun s₁ h₁ => (∀ e ∈ h₁, C e) → ∃ bs s₁',
    Transition.run (logged step') (s', []) bs = some (s₁', h₁.flatMap observe) ∧ R s₁ s₁')
    hinvariant (fun _ => ⟨[], s', rfl, hR⟩) hrun hC

end Simulation
