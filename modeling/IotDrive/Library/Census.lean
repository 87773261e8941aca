/-
**Counting the members of a population by phase.**

A population is the list of the phases that its members are in.  A member that moves changes one
entry of the list, so a count of the members in certain phases changes by what the old and the new
phase contribute.

Main results:

* `Census.countP_move` — a member moves from one phase to another;
* `Census.countP_map` — all members move within a set of phases or outside of it;
* `Census.mem_of_le` — if one set of phases has as many members as a larger one, it has the same;
* `Census.filterMap_move` — a member moves, and some phases carry something;
* `Census.sum_move` — a member moves, and each phase has a weight.
-/

import Mathlib.Algebra.GroupWithZero.Nat
import Mathlib.Data.List.Basic
import Mathlib.Data.List.Perm.Basic

set_option relaxedAutoImplicit false
set_option autoImplicit false

namespace Census

variable {φ : Type*} {p q : φ → Bool} {members : List φ} {i : ℕ} {a b : φ}

/-- A member in phase `a` moves to phase `b`. -/
theorem countP_move (p : φ → Bool) (h : members[i]? = some a) (b : φ) :
    (members.set i b).countP p + (p a).toNat = members.countP p + (p b).toNat := by
  obtain ⟨hi, ha⟩ := List.getElem?_eq_some_iff.1 h
  have hset := List.countP_set (p := p) (a := b) hi
  rw [ha] at hset
  have hpos : p a = true → 0 < members.countP p := by
    intro hpa
    exact List.countP_pos_iff.2 ⟨a, ha ▸ List.getElem_mem hi, hpa⟩
  rw [hset]
  cases hpa : p a with
  | false => cases p b <;> simp
  | true =>
      have hlt := hpos hpa
      cases p b <;> simp <;> omega

/-- All members move, and none of them enters or leaves the phases in `p`. -/
theorem countP_map {f : φ → φ} (h : ∀ a, p (f a) = p a) :
    (members.map f).countP p = members.countP p := by
  rw [List.countP_map]
  exact List.countP_congr fun a _ => by rw [Function.comp_apply, h]

/-- A member of a new phase joins. -/
theorem countP_join (p : φ → Bool) (members : List φ) (b : φ) :
    (members ++ [b]).countP p = members.countP p + (p b).toNat := by
  rw [List.countP_append]
  cases h : p b <;> simp [h]

/-- If the phases in `p` have as many members as the larger set `q`, then all members in `q` are
in `p`. -/
theorem mem_of_le (hpq : ∀ a, p a = true → q a = true)
    (hle : members.countP q ≤ members.countP p) (ha : a ∈ members) (hq : q a = true) :
    p a = true := by
  induction members with
  | nil => exact absurd ha List.not_mem_nil
  | cons b members ih =>
      have hmono : members.countP p ≤ members.countP q :=
        List.countP_mono_left fun a _ => hpq a
      rw [List.countP_cons, List.countP_cons] at hle
      -- the head is in both or in none, or else the tail would have to make up for it
      cases hpb : p b with
      | true =>
          simp only [hpb, hpq b hpb, if_true] at hle
          rcases List.mem_cons.1 ha with rfl | ha
          · exact hpb
          · exact ih (by omega) ha
      | false =>
          cases hqb : q b with
          | true =>
              simp only [hpb, hqb, if_true, Bool.false_eq_true, if_false] at hle
              omega
          | false =>
              simp only [hpb, hqb, Bool.false_eq_true, if_false] at hle
              rcases List.mem_cons.1 ha with rfl | ha
              · rw [hq] at hqb
                cases hqb
              · exact ih (by omega) ha

/-- A member in phase `a` moves to phase `b`: what the phases carry changes places. -/
theorem filterMap_move {ψ : Type*} (f : φ → Option ψ) (h : members[i]? = some a) (b : φ) :
    ((f a).toList ++ (members.set i b).filterMap f).Perm ((f b).toList ++ members.filterMap f) := by
  obtain ⟨hi, ha⟩ := List.getElem?_eq_some_iff.1 h
  have hcons : ∀ (c : φ) (others : List φ),
      (c :: others).filterMap f = (f c).toList ++ others.filterMap f := by
    intro c others
    cases hc : f c <;> simp [hc]
  have hset := (List.set_perm_cons_eraseIdx hi b).filterMap f
  have hmembers := (List.getElem_cons_eraseIdx_perm hi).filterMap f
  rw [hcons] at hset hmembers
  rw [ha] at hmembers
  -- both are what the two phases carry, and what the others do
  exact ((hset.append_left _).trans (List.perm_append_comm_assoc _ _ _)).trans
    (hmembers.append_left _)

/-- A member in phase `a` moves to phase `b`: the weights of the phases change places in the sum. -/
theorem sum_move (weight : φ → ℕ) (h : members[i]? = some a) (b : φ) :
    ((members.set i b).map weight).sum + weight a = (members.map weight).sum + weight b := by
  -- induction on the population, to the place of the member
  induction members generalizing i with
  | nil => cases h
  | cons c members ih =>
      cases i with
      | zero =>
          cases h
          simp only [List.set_cons_zero, List.map_cons, List.sum_cons]
          omega
      | succ i =>
          have hrest := ih (i := i) h
          simp only [List.set_cons_succ, List.map_cons, List.sum_cons]
          omega

/-- A bound on the weights. -/
theorem sum_le {weight : φ → ℕ} {bound : ℕ} (h : ∀ c, weight c ≤ bound) (members : List φ) :
    (members.map weight).sum ≤ bound * members.length := by
  induction members with
  | nil => exact Nat.zero_le _
  | cons c members ih =>
      have hc := h c
      rw [List.map_cons, List.sum_cons, List.length_cons, Nat.mul_succ]
      omega

end Census
