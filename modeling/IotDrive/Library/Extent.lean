/-
**Extents of an addressed memory: overwriting and extracting runs of cells.**

A memory is a function from addresses to cells.  An *extent* is a run of consecutive addresses,
given by its first address and its length.  The two operations of a positioned store are
overwriting an extent with a list of cells and extracting an extent as a list; this module gives
their read-after-write and frame laws.  Buffers, files and disks are all memories of this kind.

Main definitions:

* `Extent.overwrite` — the memory with the cells from an address on replaced by a list;
* `Extent.extract` — the list of cells of an extent.

Main results:

* `Extent.overwrite_add`, `Extent.overwrite_of_notMem` — the cells inside and outside of the
  overwritten extent;
* `Extent.extract_overwrite` — an extent that was just overwritten reads back as written;
* `Extent.overwrite_append` — overwriting with a concatenation is overwriting twice.
-/

import Mathlib.Algebra.Order.Group.Nat
import Mathlib.Data.List.Basic

set_option relaxedAutoImplicit false
set_option autoImplicit false

namespace Extent

variable {α : Type*}

/-- The memory `f` with the cells `o, o + 1, …` replaced by the list `xs`. -/
def overwrite (f : ℕ → α) (o : ℕ) (xs : List α) : ℕ → α :=
  fun p => if h : o ≤ p ∧ p - o < xs.length then xs[p - o] else f p

/-- The list of the `n` cells from the address `o` on. -/
def extract (f : ℕ → α) (o n : ℕ) : List α := (List.range n).map fun k => f (o + k)

/-! ### Single cells -/

/-- The cells inside the overwritten extent are those of the list. -/
theorem overwrite_add (f : ℕ → α) (o : ℕ) (xs : List α) {k : ℕ} (hk : k < xs.length) :
    overwrite f o xs (o + k) = xs[k] := by
  have h : o ≤ o + k ∧ o + k - o < xs.length := ⟨by omega, by omega⟩
  rw [overwrite, dif_pos h]
  simp only [Nat.add_sub_cancel_left]

/-- The cells outside of the overwritten extent are left alone. -/
theorem overwrite_of_notMem (f : ℕ → α) (o : ℕ) (xs : List α) {p : ℕ}
    (hp : p < o ∨ o + xs.length ≤ p) : overwrite f o xs p = f p := by
  rw [overwrite, dif_neg (by omega)]

@[simp] theorem overwrite_nil (f : ℕ → α) (o : ℕ) : overwrite f o [] = f := by
  funext p
  exact overwrite_of_notMem f o [] (by simp; omega)

/-- Every cell after an overwriting comes from the list or from the memory before. -/
theorem overwrite_cases (f : ℕ → α) (o : ℕ) (xs : List α) (p : ℕ) :
    (∃ k, ∃ hk : k < xs.length, p = o + k ∧ overwrite f o xs p = xs[k]) ∨
      ((p < o ∨ o + xs.length ≤ p) ∧ overwrite f o xs p = f p) := by
  by_cases h : o ≤ p ∧ p - o < xs.length
  · obtain ⟨k, rfl⟩ : ∃ k, p = o + k := ⟨p - o, by omega⟩
    have hk : k < xs.length := by omega
    exact Or.inl ⟨k, hk, rfl, overwrite_add f o xs hk⟩
  · have hp : p < o ∨ o + xs.length ≤ p := by omega
    exact Or.inr ⟨hp, overwrite_of_notMem f o xs hp⟩

/-- Overwriting with a concatenation is overwriting with its two parts, one after the other. -/
theorem overwrite_append (f : ℕ → α) (o : ℕ) (xs ys : List α) :
    overwrite f o (xs ++ ys) = overwrite (overwrite f o xs) (o + xs.length) ys := by
  funext p
  rcases overwrite_cases (overwrite f o xs) (o + xs.length) ys p with ⟨k, hk, rfl, h⟩ | ⟨hp, h⟩
  · have hlen : xs.length + k < (xs ++ ys).length := by rw [List.length_append]; omega
    rw [h, Nat.add_assoc, overwrite_add f o (xs ++ ys) hlen,
      List.getElem_append_right (Nat.le_add_right _ _)]
    simp only [Nat.add_sub_cancel_left]
  · rw [h]
    rcases overwrite_cases f o xs p with ⟨k, hk, rfl, h'⟩ | ⟨hp', h'⟩
    · have hlen : k < (xs ++ ys).length := by rw [List.length_append]; omega
      rw [h', overwrite_add f o (xs ++ ys) hlen, List.getElem_append_left hk]
    · rw [h', overwrite_of_notMem f o (xs ++ ys) (by rw [List.length_append]; omega)]

/-- Overwriting twice with the same list is overwriting once. -/
theorem overwrite_overwrite (f : ℕ → α) (o : ℕ) (xs : List α) :
    overwrite (overwrite f o xs) o xs = overwrite f o xs := by
  funext p
  rcases overwrite_cases (overwrite f o xs) o xs p with ⟨k, hk, rfl, h⟩ | ⟨-, h⟩
  · rw [h, overwrite_add f o xs hk]
  · exact h

/-! ### Extents -/

@[simp] theorem length_extract (f : ℕ → α) (o n : ℕ) : (extract f o n).length = n := by
  simp [extract]

@[simp] theorem getElem_extract (f : ℕ → α) (o n k : ℕ) (hk : k < (extract f o n).length) :
    (extract f o n)[k] = f (o + k) := by
  simp [extract]

@[simp] theorem extract_zero (f : ℕ → α) (o : ℕ) : extract f o 0 = [] := rfl

/-- Two memories that agree on an extent give the same list. -/
theorem extract_congr {f g : ℕ → α} {o o' n : ℕ} (h : ∀ k < n, f (o + k) = g (o' + k)) :
    extract f o n = extract g o' n :=
  List.map_congr_left fun k hk => h k (List.mem_range.1 hk)

/-- An extent is the concatenation of its two parts. -/
theorem extract_append (f : ℕ → α) (o m n : ℕ) :
    extract f o (m + n) = extract f o m ++ extract f (o + m) n := by
  simp [extract, List.range_add, Function.comp_def, Nat.add_assoc]

/-- An extent that was just overwritten reads back as written. -/
theorem extract_overwrite (f : ℕ → α) (o : ℕ) (xs : List α) :
    extract (overwrite f o xs) o xs.length = xs := by
  refine List.ext_getElem (length_extract _ _ _) ?_
  intro k _ hk
  rw [getElem_extract, overwrite_add f o xs hk]

/-- An extent that ends before the overwritten one is left alone. -/
theorem extract_overwrite_of_le (f : ℕ → α) {o o' n : ℕ} (xs : List α) (h : o + n ≤ o') :
    extract (overwrite f o' xs) o n = extract f o n :=
  extract_congr fun k hk => overwrite_of_notMem f o' xs (Or.inl (by omega))

end Extent
