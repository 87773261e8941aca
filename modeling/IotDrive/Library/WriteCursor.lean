/-
**Write cursors: storing through a pointer that moves along a buffer.**

Hand-written serialisers store a field at a pointer, move the pointer past the field and hand the
pointer on.  A *write cursor* is the memory of such a buffer, the pointer as an offset from the
start of the buffer, and the end of the part that has been stored to.  A store appends to what
lies before the pointer, which is all that a caller needs to know about it.

Main definitions:

* `WriteCursor` — memory, pointer and end of the stored part;
* `WriteCursor.put`, `WriteCursor.skip` — storing at the pointer without moving it, and moving it
  without storing; `WriteCursor.store` does both;
* `WriteCursor.written` — the cells before the pointer.

Main results:

* `WriteCursor.store_store` — **two stores in a row** are one store of the concatenation;
* `WriteCursor.written_store` — a store appends to the cells before the pointer;
* `WriteCursor.segment_store` — the cells from an earlier pointer on are those stored since.
-/

import IotDrive.Library.Extent

set_option relaxedAutoImplicit false
set_option autoImplicit false

/-- A buffer being written: its memory, the pointer as a distance from the start of the buffer,
and one past the last cell that has been stored to. -/
structure WriteCursor (α : Type*) where
  mem : ℕ → α
  ptr : ℕ
  high : ℕ

namespace WriteCursor

variable {α : Type*}

/-- A fresh buffer with arbitrary contents, and the pointer at its start. -/
def start (heap : ℕ → α) : WriteCursor α := ⟨heap, 0, 0⟩

/-- Store the cells `xs` at the pointer, which stays where it is. -/
def put (c : WriteCursor α) (xs : List α) : WriteCursor α where
  mem := Extent.overwrite c.mem c.ptr xs
  ptr := c.ptr
  high := max c.high (c.ptr + xs.length)

/-- Move the pointer by `n` cells without storing. -/
def skip (c : WriteCursor α) (n : ℕ) : WriteCursor α := { c with ptr := c.ptr + n }

/-- Store the cells `xs` at the pointer and move the pointer past them. -/
def store (c : WriteCursor α) (xs : List α) : WriteCursor α := (c.put xs).skip xs.length

/-- The cells from the offset `o` up to the pointer. -/
def segment (c : WriteCursor α) (o : ℕ) : List α := Extent.extract c.mem o (c.ptr - o)

/-- The cells before the pointer. -/
def written (c : WriteCursor α) : List α := c.segment 0

@[simp] theorem ptr_start (heap : ℕ → α) : (start heap).ptr = 0 := rfl

@[simp] theorem high_start (heap : ℕ → α) : (start heap).high = 0 := rfl

@[simp] theorem written_start (heap : ℕ → α) : (start heap).written = [] := rfl

theorem skip_put (c : WriteCursor α) (xs : List α) : (c.put xs).skip xs.length = c.store xs := rfl

@[simp] theorem ptr_store (c : WriteCursor α) (xs : List α) :
    (c.store xs).ptr = c.ptr + xs.length := rfl

@[simp] theorem high_store (c : WriteCursor α) (xs : List α) :
    (c.store xs).high = max c.high (c.ptr + xs.length) := rfl

@[simp] theorem segment_ptr (c : WriteCursor α) : c.segment c.ptr = [] := by simp [segment]

/-- Two stores in a row are one store of the concatenation. -/
@[simp] theorem store_store (c : WriteCursor α) (xs ys : List α) :
    (c.store xs).store ys = c.store (xs ++ ys) := by
  simp only [store, put, skip, WriteCursor.mk.injEq, List.length_append]
  exact ⟨(Extent.overwrite_append c.mem c.ptr xs ys).symm, by omega, by omega⟩

/-- Nothing put behind a store changes nothing. -/
theorem put_nil_store (c : WriteCursor α) (xs : List α) : (c.store xs).put [] = c.store xs := by
  simp only [put, Extent.overwrite_nil, List.length_nil, Nat.add_zero, store, skip, max_assoc,
    max_self]

/-- A store appends to the cells from any offset before the pointer on. -/
theorem segment_store (c : WriteCursor α) (xs : List α) {o : ℕ} (h : o ≤ c.ptr) :
    (c.store xs).segment o = c.segment o ++ xs := by
  have hlen : c.ptr + xs.length - o = (c.ptr - o) + xs.length := by omega
  have hptr : o + (c.ptr - o) = c.ptr := by omega
  rw [segment, ptr_store, hlen, Extent.extract_append, hptr, segment]
  congr 1
  · exact Extent.extract_overwrite_of_le c.mem xs (by omega)
  · exact Extent.extract_overwrite c.mem c.ptr xs

/-- The cells from the old pointer on are those stored since. -/
@[simp] theorem segment_store_self (c : WriteCursor α) (xs : List α) :
    (c.store xs).segment c.ptr = xs := by
  rw [segment_store c xs le_rfl, segment_ptr, List.nil_append]

/-- A store appends to the cells before the pointer. -/
@[simp] theorem written_store (c : WriteCursor α) (xs : List α) :
    (c.store xs).written = c.written ++ xs :=
  segment_store c xs (Nat.zero_le _)

end WriteCursor
