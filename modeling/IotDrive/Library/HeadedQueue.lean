/-
**Priority queues that keep a least element apart.**

A queue of items with keys in a linear order, of which one with a least key is kept apart from the
rest as the *head*.  An item that comes in is compared with the head only, and either joins the
rest or takes the place of the head, which then joins the rest; taking the head away promotes an
item of the rest that is least among it.

Main definitions:

* `HeadedQueue` — the head, if there is one, and the rest;
* `HeadedQueue.insert`, `HeadedQueue.Takes` — an item comes in, and the head is taken away;
* `HeadedQueue.Ordered` — the head is least, and without a head there is no rest.

Main results:

* `HeadedQueue.items_insert`, `HeadedQueue.Takes.items` — no item is lost or duplicated;
* `HeadedQueue.Ordered.insert`, `HeadedQueue.Takes.ordered` — both operations keep the order;
* `HeadedQueue.Ordered.le` — what is taken is least among all items.
-/

import Mathlib.Data.List.Basic
import Mathlib.Order.Lattice

set_option relaxedAutoImplicit false
set_option autoImplicit false

/-- A queue with its head kept apart. -/
structure HeadedQueue (α : Type*) where
  head : Option α
  rest : List α

namespace HeadedQueue

variable {α κ : Type*} [LinearOrder κ] {key : α → κ} {q q' : HeadedQueue α} {x : α}

/-- All the items, the head first. -/
def items (q : HeadedQueue α) : List α := q.head.toList ++ q.rest

/-- An item comes in. -/
def insert (key : α → κ) (q : HeadedQueue α) (x : α) : HeadedQueue α :=
  match q.head with
  | none => { head := some x, rest := q.rest }
  | some h =>
      if key h < key x then { head := some h, rest := x :: q.rest }
      else { head := some x, rest := h :: q.rest }

/-- The head `x` is taken away, and an item that is least among the rest becomes the head. -/
inductive Takes (key : α → κ) (q : HeadedQueue α) (x : α) : HeadedQueue α → Prop
  | last (hhead : q.head = some x) (hrest : q.rest = []) : Takes key q x ⟨none, []⟩
  | promote {y : α} {rest : List α} (hhead : q.head = some x) (hperm : q.rest.Perm (y :: rest))
      (hleast : ∀ z ∈ q.rest, key y ≤ key z) : Takes key q x ⟨some y, rest⟩

/-- The head is least, and without a head there is no rest. -/
structure Ordered (key : α → κ) (q : HeadedQueue α) : Prop where
  empty : q.head = none → q.rest = []
  least : ∀ h, q.head = some h → ∀ z ∈ q.rest, key h ≤ key z

theorem items_of_head (h : q.head = some x) : q.items = x :: q.rest := by
  rw [items, h]
  rfl

/-- An item that is later than the head joins the rest. -/
theorem insert_of_lt (rest : List α) {h x : α} (hlt : key h < key x) :
    insert key ⟨some h, rest⟩ x = ⟨some h, x :: rest⟩ :=
  if_pos hlt

/-- Any other item becomes the head, also on a tie. -/
theorem insert_of_not_lt (rest : List α) {h x : α} (hlt : ¬ key h < key x) :
    insert key ⟨some h, rest⟩ x = ⟨some x, h :: rest⟩ :=
  if_neg hlt

/-- An item that comes in is there, and nothing else has changed. -/
theorem items_insert (key : α → κ) (q : HeadedQueue α) (x : α) :
    (q.insert key x).items.Perm (x :: q.items) := by
  obtain ⟨head, rest⟩ := q
  cases head with
  | none => exact List.Perm.refl _
  | some h =>
      by_cases hlt : key h < key x
      · rw [insert_of_lt rest hlt]
        exact List.Perm.swap x h rest
      · rw [insert_of_not_lt rest hlt]
        exact List.Perm.refl _

/-- After an item came in there is a head, and it is not later than the one before. -/
theorem head_insert (key : α → κ) (q : HeadedQueue α) (x : α) :
    ∃ y, (q.insert key x).head = some y ∧ ∀ h, q.head = some h → key y ≤ key h := by
  obtain ⟨head, rest⟩ := q
  cases head with
  | none => exact ⟨x, rfl, nofun⟩
  | some h =>
      by_cases hlt : key h < key x
      · rw [insert_of_lt rest hlt]
        refine ⟨h, rfl, ?_⟩
        intro _ hh
        cases hh
        exact le_rfl
      · rw [insert_of_not_lt rest hlt]
        refine ⟨x, rfl, ?_⟩
        intro _ hh
        cases hh
        exact not_lt.1 hlt

theorem Ordered.insert (h : q.Ordered key) (x : α) : (q.insert key x).Ordered key := by
  obtain ⟨head, rest⟩ := q
  cases head with
  | none =>
      obtain rfl : rest = [] := h.empty rfl
      exact ⟨nofun, fun _ _ z hz => absurd hz List.not_mem_nil⟩
  | some y =>
      have hleast : ∀ z ∈ rest, key y ≤ key z := h.least y rfl
      -- the head stays unless the item that comes in is as early
      by_cases hlt : key y < key x
      · rw [insert_of_lt rest hlt]
        refine ⟨nofun, ?_⟩
        intro _ hhead z hz
        cases hhead
        rcases List.mem_cons.1 hz with rfl | hz
        · exact le_of_lt hlt
        · exact hleast z hz
      · rw [insert_of_not_lt rest hlt]
        refine ⟨nofun, ?_⟩
        intro _ hhead z hz
        cases hhead
        have hle : key x ≤ key y := not_lt.1 hlt
        rcases List.mem_cons.1 hz with rfl | hz
        · exact hle
        · exact hle.trans (hleast z hz)

/-- The item that is taken is gone, and nothing else has changed. -/
theorem Takes.items (h : q.Takes key x q') : q.items.Perm (x :: q'.items) := by
  cases h with
  | last hhead hrest =>
      rw [items_of_head hhead, hrest]
      exact List.Perm.refl _
  | promote hhead hperm _ =>
      rw [items_of_head hhead]
      exact hperm.cons x

theorem Takes.ordered (ht : q.Takes key x q') : q'.Ordered key := by
  cases ht with
  | last => exact ⟨fun _ => rfl, nofun⟩
  | promote hhead hperm hleast =>
      refine ⟨nofun, ?_⟩
      intro _ hy z hz
      cases hy
      exact hleast z (hperm.mem_iff.2 (List.mem_cons_of_mem _ hz))

/-- What is taken is least among all the items. -/
theorem Ordered.le (h : q.Ordered key) (ht : q.Takes key x q') {z : α} (hz : z ∈ q.items) :
    key x ≤ key z := by
  have hhead : q.head = some x := by
    cases ht with
    | last hhead _ => exact hhead
    | promote hhead _ _ => exact hhead
  rw [items_of_head hhead] at hz
  rcases List.mem_cons.1 hz with rfl | hz
  · exact le_rfl
  · exact h.least x hhead z hz

end HeadedQueue
