/-
**Longitudinal parity: a check byte for a list of bytes.**

The parity of a list is the combination of its elements under an operation in which every element
is its own inverse, such as the exclusive or of bytes.  A sender appends the parity of what it sends,
so that the whole has the parity of nothing; a receiver that combines the same list sees any change
of one element.

Main definitions:

* `Parity.total` — the parity of a list.

Main results:

* `Parity.total_append` — the parity of a concatenation;
* `Parity.total_concat_eq_iff` — appending the parity, and nothing else, makes it neutral;
* `Parity.total_set` — a change of one element changes the parity by the same difference.
-/

import Mathlib.Data.List.Basic

set_option relaxedAutoImplicit false
set_option autoImplicit false

namespace Parity

variable {α : Type*} (op : α → α → α) (e : α)

/-- The combination of the elements of a list. -/
def total (xs : List α) : α := xs.foldl op e

variable [Std.LawfulIdentity op e]

theorem op_neutral (a : α) : op a e = a := Std.LawfulRightIdentity.right_id a

theorem neutral_op (a : α) : op e a = a := Std.LawfulLeftIdentity.left_id a

@[simp] theorem total_singleton (a : α) : total op e [a] = a := neutral_op op e a

variable [Std.Associative op]

theorem total_append (xs ys : List α) :
    total op e (xs ++ ys) = op (total op e xs) (total op e ys) := by
  calc total op e (xs ++ ys) = ys.foldl op (total op e xs) := List.foldl_append
    _ = ys.foldl op (op (total op e xs) e) := by rw [op_neutral op e]
    _ = op (total op e xs) (total op e ys) := List.foldl_assoc

section SelfInverse

variable {op e} (hself : ∀ a, op a a = e)
include hself

/-- Two elements combine to nothing exactly when they are the same. -/
theorem op_eq_iff {a b : α} : op a b = e ↔ b = a := by
  constructor
  · intro h
    calc b = op e b := (neutral_op op e b).symm
      _ = op (op a a) b := by rw [hself]
      _ = op a (op a b) := Std.Associative.assoc a a b
      _ = a := by rw [h, op_neutral op e]
  · rintro rfl
    exact hself b

/-- Appending the parity, and nothing else, makes the parity of the whole neutral. -/
theorem total_concat_eq_iff {xs : List α} {c : α} :
    total op e (xs ++ [c]) = e ↔ c = total op e xs := by
  rw [total_append, total_singleton, op_eq_iff hself]

/-- The parts of a neutral list have the same parity. -/
theorem total_drop_eq_of_neutral {xs : List α} (h : total op e xs = e) (n : ℕ) :
    total op e (xs.drop n) = total op e (xs.take n) := by
  rw [← List.take_append_drop n xs, total_append] at h
  exact (op_eq_iff hself).1 h

variable [Std.Commutative op]

/-- A change of one element changes the parity by the difference of the old and the new one. -/
theorem total_set {xs : List α} {i : ℕ} (h : i < xs.length) (b : α) :
    total op e (xs.set i b) = op (total op e xs) (op xs[i] b) := by
  have hset : xs.set i b = xs.take i ++ [b] ++ xs.drop (i + 1) := by
    rw [List.set_eq_take_append_cons_drop, if_pos h]
    simp
  have hsame : xs = xs.take i ++ [xs[i]] ++ xs.drop (i + 1) := by simp
  have htotal := congrArg (total op e) hsame
  rw [total_append, total_append, total_singleton] at htotal
  rw [hset, htotal, total_append, total_append, total_singleton]
  calc op (op (total op e (xs.take i)) b) (total op e (xs.drop (i + 1)))
      = op (op (op (total op e (xs.take i)) (total op e (xs.drop (i + 1)))) e) b := by
        rw [op_neutral op e]
        ac_rfl
    _ = op (op (op (total op e (xs.take i)) (total op e (xs.drop (i + 1)))) (op xs[i] xs[i])) b := by
        rw [hself]
    _ = op (op (op (total op e (xs.take i)) xs[i]) (total op e (xs.drop (i + 1)))) (op xs[i] b) := by
        ac_rfl

end SelfInverse

end Parity
