/-
**Nodes behind first-in first-out queues.**

A family of nodes, each with a queue of commands that it executes in order.  What matters about an
interleaving of the nodes is captured by the *settled* states, the states the nodes will have once
their queues have run empty: executing a command does not change them, and issuing one changes the
settled state of its node as if the command executed at once.

Main definitions:

* `Fifo` — the nodes and their queues;
* `Fifo.issue`, `Fifo.serve` — a command is issued, a node executes its next command;
* `Fifo.settled` — the state of a node after its queue.

Main results:

* `Fifo.settled_issue`, `Fifo.settled_serve` — the two laws above;
* `Fifo.settled_of_empty` — with an empty queue a node is in its settled state.
-/

import Mathlib.Logic.Function.Basic
import Mathlib.Data.List.Basic

set_option relaxedAutoImplicit false
set_option autoImplicit false

/-- Nodes in states of `σ`, each with a queue of commands of `κ`. -/
structure Fifo (ι σ κ : Type*) where
  node : ι → σ
  queue : ι → List κ

namespace Fifo

variable {ι σ κ : Type*} (step : σ → κ → Option σ)

/-- The state of the node `i` after all commands of its queue. -/
def settled (s : Fifo ι σ κ) (i : ι) : Option σ := (s.queue i).foldlM step (s.node i)

/-- A node whose queue has run empty is in its settled state. -/
theorem settled_of_empty {s : Fifo ι σ κ} {i : ι} (h : s.queue i = []) :
    s.settled step i = some (s.node i) := by
  rw [settled, h]
  rfl

variable [DecidableEq ι]

/-- Put a command at the end of the queue of the node `i`. -/
def issue (s : Fifo ι σ κ) (i : ι) (c : κ) : Fifo ι σ κ :=
  { s with queue := Function.update s.queue i (s.queue i ++ [c]) }

/-- The node `i` executes the command at the front of its queue. -/
def serve (s : Fifo ι σ κ) (i : ι) : Option (Fifo ι σ κ) :=
  match s.queue i with
  | [] => none
  | c :: rest => (step (s.node i) c).map fun n =>
      { node := Function.update s.node i n, queue := Function.update s.queue i rest }

/-- Issuing a command acts on the settled states as executing it at once. -/
theorem settled_issue (s : Fifo ι σ κ) (i : ι) (c : κ) :
    (s.issue i c).settled step =
      Function.update (s.settled step) i ((s.settled step i).bind fun n => step n c) := by
  funext j
  by_cases hj : j = i
  · subst hj
    simp [issue, settled, List.foldlM_append]
  · simp [issue, settled, hj]

/-- Executing a command leaves the settled states alone. -/
theorem settled_serve {s s' : Fifo ι σ κ} {i : ι} (h : s.serve step i = some s') :
    s'.settled step = s.settled step := by
  rw [serve] at h
  split at h
  · cases h
  · rename_i c rest hqueue
    obtain ⟨n, hn, rfl⟩ := Option.map_eq_some_iff.1 h
    funext j
    by_cases hj : j = i
    · subst hj
      simp [settled, hqueue, hn]
    · simp [settled, hj]

end Fifo
