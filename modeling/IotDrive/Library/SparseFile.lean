/-
**Sparse files: positioned reads and writes.**

A file has a size and a content; what lies past the size is zero, so that writing past the end
leaves a hole of zeros.  The content past the end is part of the structure, which makes the byte
at any offset meaningful and lets a file be used as a total memory.

Main definitions:

* `SparseFile` — size and content, with the content zero past the size;
* `SparseFile.read`, `SparseFile.write` — positioned access.

Main results:

* `SparseFile.byte_write_add`, `SparseFile.byte_write_of_notMem` — what a write changes;
* `SparseFile.read_of_le` — a read inside of the file returns the whole extent.
-/

import IotDrive.Library.Extent

set_option relaxedAutoImplicit false
set_option autoImplicit false

/-- A file: its size, and its content, which is zero past the size. -/
@[ext] structure SparseFile (α : Type*) [Zero α] where
  size : ℕ
  byte : ℕ → α
  zero_past : ∀ p, size ≤ p → byte p = 0

namespace SparseFile

variable {α : Type*} [Zero α]

/-- The file of `n` zeros. -/
def zeros (n : ℕ) : SparseFile α := ⟨n, fun _ => 0, fun _ _ => rfl⟩

/-- Write the list `xs` at the offset `o`; writing nothing does not extend the file. -/
def write (f : SparseFile α) (o : ℕ) (xs : List α) : SparseFile α where
  size := if xs.length = 0 then f.size else max f.size (o + xs.length)
  byte := Extent.overwrite f.byte o xs
  zero_past p hp := by
    rcases Extent.overwrite_cases f.byte o xs p with ⟨k, hk, rfl, -⟩ | ⟨-, h⟩
    · rw [if_neg (by omega)] at hp
      omega
    · rw [h]
      split at hp
      · exact f.zero_past p hp
      · exact f.zero_past p (le_trans (le_max_left _ _) hp)

/-- Read at most `n` bytes from the offset `o` on, up to the end of the file. -/
def read (f : SparseFile α) (o n : ℕ) : List α := Extent.extract f.byte o (min n (f.size - o))

@[simp] theorem size_zeros (n : ℕ) : (zeros n : SparseFile α).size = n := rfl

theorem size_write (f : SparseFile α) (o : ℕ) (xs : List α) :
    (f.write o xs).size = if xs.length = 0 then f.size else max f.size (o + xs.length) := rfl

@[simp] theorem write_nil (f : SparseFile α) (o : ℕ) : f.write o [] = f := by
  ext1
  · simp [write]
  · simp [write]

/-- The bytes inside of the written extent are those of the list. -/
theorem byte_write_add (f : SparseFile α) (o : ℕ) (xs : List α) {k : ℕ} (hk : k < xs.length) :
    (f.write o xs).byte (o + k) = xs[k] :=
  Extent.overwrite_add f.byte o xs hk

/-- The bytes outside of the written extent are left alone. -/
theorem byte_write_of_notMem (f : SparseFile α) (o : ℕ) (xs : List α) {p : ℕ}
    (hp : p < o ∨ o + xs.length ≤ p) : (f.write o xs).byte p = f.byte p :=
  Extent.overwrite_of_notMem f.byte o xs hp

/-- A write never shrinks a file. -/
theorem size_le_size_write (f : SparseFile α) (o : ℕ) (xs : List α) :
    f.size ≤ (f.write o xs).size := by
  rw [size_write]
  split
  · exact le_rfl
  · exact le_max_left _ _

/-- Writing a concatenation is writing its two parts, one after the other. -/
theorem write_append (f : SparseFile α) (o : ℕ) (xs ys : List α) :
    f.write o (xs ++ ys) = (f.write o xs).write (o + xs.length) ys := by
  ext1
  · simp only [write, List.length_append]
    split <;> split <;> split <;> omega
  · exact Extent.overwrite_append f.byte o xs ys

/-- Filling a file of zeros with zeros changes no byte. -/
theorem byte_write_replicate_zero (f : SparseFile α) (n : ℕ) (h : ∀ p, f.byte p = 0) :
    (f.write 0 (List.replicate n 0)).byte = f.byte := by
  funext p
  rcases Extent.overwrite_cases f.byte 0 (List.replicate n 0) p with ⟨k, hk, -, hp⟩ | ⟨-, hp⟩
  · rw [h p]
    exact hp.trans (List.getElem_replicate _)
  · exact hp

theorem le_size_write_replicate (f : SparseFile α) (n : ℕ) (x : α) :
    n ≤ (f.write 0 (List.replicate n x)).size := by
  rw [size_write, List.length_replicate]
  split <;> omega

/-- A read inside of the file returns the whole extent. -/
theorem read_of_le (f : SparseFile α) {o n : ℕ} (h : o + n ≤ f.size) :
    f.read o n = Extent.extract f.byte o n := by
  rw [read, Nat.min_eq_left (by omega)]

end SparseFile
