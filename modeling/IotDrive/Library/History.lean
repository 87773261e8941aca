/-
**Machines that record what they do.**

A machine whose steps output events is run together with the list of all events so far, the latest
first.  Properties of a whole run are then properties of that list: a relation between an event and
the events before it, required of every event.

Main definitions:

* `History.logged` — the machine together with its history;
* `History.Every` — every event stands in a relation to its past.

An event `e` with the events `past` before it is a suffix `e :: past` of the history.

Main results:

* `History.Every.of_suffix` — what is required of every event, at one of them;
* `History.suffix_unique` — an event that is not repeated has one past;
* `History.invariant_along` — an invariant of state and history, and a relation that follows from
  it at each step, hold along every run.
-/

import IotDrive.Library.Transition

set_option relaxedAutoImplicit false
set_option autoImplicit false

namespace History

variable {σ β ε : Type*}

/-- A step of the machine, with the events it outputs put in front of the history. -/
def logged (step : σ → β → Option (σ × List ε)) (s : σ × List ε) (a : β) : Option (σ × List ε) :=
  (step s.1 a).map fun t => (t.1, t.2 ++ s.2)

theorem logged_eq_some {step : σ → β → Option (σ × List ε)} {s t : σ × List ε} {a : β} :
    logged step s a = some t ↔ ∃ s' out, step s.1 a = some (s', out) ∧ t = (s', out ++ s.2) := by
  constructor
  · intro h
    obtain ⟨⟨s', out⟩, hstep, rfl⟩ := Option.map_eq_some_iff.1 h
    exact ⟨s', out, hstep, rfl⟩
  · rintro ⟨s', out, hstep, rfl⟩
    rw [logged, hstep]
    rfl

/-- Every event of the history stands in the relation `P` to the events before it. -/
def Every (P : List ε → ε → Prop) : List ε → Prop
  | [] => True
  | e :: past => P past e ∧ Every P past

variable {P : List ε → ε → Prop}

/-- A relation that more of the past does not break holds at every event of two histories, one
after the other. -/
theorem Every.append (hmono : ∀ past more e, P past e → P (past ++ more) e)
    {later earlier : List ε} (hlater : Every P later) (hearlier : Every P earlier) :
    Every P (later ++ earlier) := by
  -- induction on the later events, each of which has the earlier ones in its past
  induction later with
  | nil => exact hearlier
  | cons e past ih => exact ⟨hmono past earlier e hlater.1, ih hlater.2⟩

/-- What is required of every event of a history was required of the earlier ones. -/
theorem Every.of_append {later earlier : List ε} (h : Every P (later ++ earlier)) :
    Every P earlier := by
  induction later with
  | nil => exact h
  | cons _ _ ih => exact ih h.2

/-- Two relations that are the same at every event hold at every event or fail at one together. -/
theorem Every.congr {Q : List ε → ε → Prop} {history : List ε}
    (h : Every (fun past e => P past e ↔ Q past e) history) : Every P history ↔ Every Q history := by
  induction history with
  | nil => exact Iff.rfl
  | cons _ _ ih => exact and_congr h.1 (ih h.2)

/-! ### Moments of a history -/

/-- An event has a moment. -/
theorem exists_suffix {e : ε} {history : List ε} (h : e ∈ history) : ∃ past, e :: past <:+ history := by
  obtain ⟨later, past, rfl⟩ := List.append_of_mem h
  exact ⟨past, List.suffix_append _ _⟩

theorem mem_of_suffix {e : ε} {past history : List ε} (h : e :: past <:+ history) : e ∈ history :=
  h.subset (List.mem_cons_self ..)

theorem tail_suffix {e : ε} {past history : List ε} (h : e :: past <:+ history) : past <:+ history :=
  (List.suffix_cons e past).trans h

/-- What holds at every event holds at each of them. -/
theorem Every.of_suffix {e : ε} {past history : List ε} (h : Every P history)
    (hs : e :: past <:+ history) : P past e := by
  obtain ⟨later, rfl⟩ := hs
  induction later with
  | nil => exact h.1
  | cons e' later ih => exact ih h.2

/-- An event that is never in its own past has one moment. -/
theorem suffix_unique {e : ε} {past past' history : List ε} (h : e :: past <:+ history)
    (h' : e :: past' <:+ history) (hpast : e ∉ past) (hpast' : e ∉ past') : past = past' := by
  rcases List.suffix_or_suffix_of_suffix h h' with hs | hs
  · rcases List.suffix_cons_iff.1 hs with heq | hs
    · exact (List.cons.inj heq).2
    · exact absurd (mem_of_suffix hs) hpast'
  · rcases List.suffix_cons_iff.1 hs with heq | hs
    · exact (List.cons.inj heq).2.symm
    · exact absurd (mem_of_suffix hs) hpast

/-- What one event is observed as, with what its past is observed as. -/
theorem flatMap_suffix {δ : Type*} (f : ε → List δ) {l history : List ε} (h : l <:+ history) :
    l.flatMap f <:+ history.flatMap f := by
  obtain ⟨later, rfl⟩ := h
  rw [List.flatMap_append]
  exact List.suffix_append _ _

/-! ### Invariants -/

/-- An invariant that every step along a condition preserves holds after every run along it. -/
theorem invariant_along {step : σ → β → Option (σ × List ε)} {I : σ → List ε → Prop}
    (C : σ → List ε → β → Prop)
    (hstep : ∀ s a t out h, I s h → C s h a → step s a = some (t, out) → I t (out ++ h))
    {actions : List β} {s t : σ} {h h' : List ε} (hI : I s h)
    (hC : Transition.Along (logged step) (fun s a => C s.1 s.2 a) (s, h) actions)
    (hrun : Transition.run (logged step) (s, h) actions = some (t, h')) : I t h' := by
  have hlogged : ∀ (s : σ × List ε) a t, I s.1 s.2 → C s.1 s.2 a → logged step s a = some t →
      I t.1 t.2 := by
    intro s a t hI hC ht
    obtain ⟨s', out, hs', rfl⟩ := logged_eq_some.1 ht
    exact hstep _ _ _ _ _ hI hC hs'
  exact Transition.run_invariant_along (fun s => I s.1 s.2) hlogged hI hC hrun

/-- An invariant that every step preserves holds after every run. -/
theorem invariant {step : σ → β → Option (σ × List ε)} {I : σ → List ε → Prop}
    (hstep : ∀ s a t out h, I s h → step s a = some (t, out) → I t (out ++ h))
    {actions : List β} {s t : σ} {h h' : List ε} (hI : I s h)
    (hrun : Transition.run (logged step) (s, h) actions = some (t, h')) : I t h' := by
  have hlogged : ∀ (s : σ × List ε) a t, I s.1 s.2 → logged step s a = some t → I t.1 t.2 := by
    intro s a t hI ht
    obtain ⟨s', out, hs', rfl⟩ := logged_eq_some.1 ht
    exact hstep _ _ _ _ _ hI hs'
  exact Transition.run_invariant (fun s => I s.1 s.2) hlogged hI hrun

/-- A rank that falls with every action in `P`, as long as the invariant `I` holds, bounds the runs of
such actions. -/
theorem length_le_of_rank {step : σ → β → Option (σ × List ε)} {I : σ → Prop} (rank : σ → ℕ)
    {P : β → Prop} (hstep : ∀ s a t out, I s → P a → step s a = some (t, out) → I t ∧ rank t < rank s)
    {actions : List β} {s t : σ} {h h' : List ε} (hs : I s) (hP : ∀ a ∈ actions, P a)
    (hrun : Transition.run (logged step) (s, h) actions = some (t, h')) :
    actions.length ≤ rank s := by
  have hlogged : ∀ (x : σ × List ε) a y, I x.1 → P a → logged step x a = some y →
      I y.1 ∧ rank y.1 < rank x.1 := by
    intro x a y hx ha hy
    obtain ⟨u, out, hu, rfl⟩ := logged_eq_some.1 hy
    exact hstep _ _ _ _ hx ha hu
  have hlength := Transition.length_le_of_rank (I := fun x => I x.1) (fun x => rank x.1) hlogged hs hP
    hrun
  exact Nat.le_trans (Nat.le_add_right _ _) hlength

end History
