/-
**Binary file streams with one position and error flags.**

The part of `std::fstream` that positioned binary access uses: one position shared by reading and
writing, and the two flags that a failing operation leaves behind.  A read that reaches the end of
the file sets both flags; while the stream is failed, seeking, reading and writing do nothing.  What
the file system cannot do is a failure as well: to move past its largest offset, and to store all of
the bytes that are written.

Main definitions:

* `FileSystem` — the largest offset, and how much of a write is stored;
* `FileSystem.Fits` — files up to a size can be moved through and written;
* `FStream` — file, position and flags;
* `FStream.seekg`, `FStream.seekp`, `FStream.read`, `FStream.write` — the operations;
* `FStream.Good` — no flag is set.

Main results:

* `FStream.seekg_of_good`, `FStream.seekp_of_good`, `FStream.write_of_good`,
  `FStream.read_of_good` — what the operations do on a good stream;
* `FStream.write_of_fail`, `FStream.read_of_fail` — on a failed stream they do nothing.
-/

import IotDrive.Library.SparseFile
import Mathlib.Data.UInt

set_option relaxedAutoImplicit false
set_option autoImplicit false

/-- What a file system allows.  Offsets are signed 64-bit numbers. -/
structure FileSystem where
  /-- The largest offset that a stream can be moved to. -/
  maxOffset : ℕ
  maxOffset_lt : maxOffset < 2 ^ 63
  /-- How many of the bytes that are written to the file at an offset are stored, if there are `n`. -/
  stores : SparseFile UInt8 → ℕ → ℕ → ℕ

namespace FileSystem

/-- All of `n` bytes that are written to the file at the offset are stored. -/
def Takes (fs : FileSystem) (f : SparseFile UInt8) (offset n : ℕ) : Prop := n ≤ fs.stores f offset n

instance (fs : FileSystem) (f : SparseFile UInt8) (offset n : ℕ) : Decidable (fs.Takes f offset n) :=
  inferInstanceAs (Decidable (_ ≤ _))

/-- Files of up to `size` bytes can be moved through and written. -/
structure Fits (fs : FileSystem) (size : ℕ) : Prop where
  offset : size ≤ fs.maxOffset
  takes : ∀ f offset n, offset + n ≤ size → fs.Takes f offset n

end FileSystem

/-- An open file stream. -/
structure FStream where
  fs : FileSystem
  file : SparseFile UInt8
  pos : ℕ
  eofbit : Bool
  failbit : Bool

namespace FStream

/-- No flag is set. -/
structure Good (s : FStream) : Prop where
  eof : s.eofbit = false
  fail : s.failbit = false

/-- Move the position of a stream that has not failed. -/
def seek (s : FStream) (offset : UInt64) : FStream :=
  if s.failbit then s
  else if offset.toNat ≤ s.fs.maxOffset then { s with pos := offset.toNat }
  else { s with failbit := true }

/-- `seekg(offset)` clears the end-of-file flag first. -/
def seekg (s : FStream) (offset : UInt64) : FStream := { s with eofbit := false }.seek offset

/-- `seekp(offset)`. -/
def seekp (s : FStream) (offset : UInt64) : FStream := s.seek offset

/-- `read(data, n)`: the bytes read, and the stream.  A short read sets both flags. -/
def read (s : FStream) (n : ℕ) : List UInt8 × FStream :=
  if s.eofbit || s.failbit then ([], { s with failbit := true })
  else
    let got := s.file.read s.pos n
    let s := { s with pos := s.pos + got.length }
    if got.length < n then (got, { s with eofbit := true, failbit := true }) else (got, s)

/-- `write(data, n)` for the `n` bytes `xs`.  If not all of them are stored, the stream has failed. -/
def write (s : FStream) (xs : List UInt8) : FStream :=
  if s.eofbit || s.failbit then s
  else
    let n := min xs.length (s.fs.stores s.file s.pos xs.length)
    { s with
      file := s.file.write s.pos (xs.take n)
      pos := s.pos + n
      failbit := decide (n < xs.length) }

theorem Good.update {s : FStream} (h : s.Good) (file : SparseFile UInt8) (pos : ℕ) :
    { s with file := file, pos := pos }.Good :=
  ⟨h.eof, h.fail⟩

/-- Moving to an offset on a good stream. -/
theorem seek_of_good {s : FStream} (h : s.Good) {offset : UInt64}
    (ho : offset.toNat ≤ s.fs.maxOffset) :
    s.seek offset = { s with pos := offset.toNat } := by
  rw [seek, if_neg (by simp [h.fail]), if_pos ho]

theorem seekp_of_good {s : FStream} (h : s.Good) {offset : UInt64}
    (ho : offset.toNat ≤ s.fs.maxOffset) :
    s.seekp offset = { s with pos := offset.toNat } :=
  seek_of_good h ho

theorem seekg_of_good {s : FStream} (h : s.Good) {offset : UInt64}
    (ho : offset.toNat ≤ s.fs.maxOffset) :
    s.seekg offset = { s with pos := offset.toNat } := by
  have heof : { s with eofbit := false } = s := by rw [← h.eof]
  rw [seekg, heof, seek_of_good h ho]

theorem write_of_good {s : FStream} (h : s.Good) {xs : List UInt8}
    (htakes : s.fs.Takes s.file s.pos xs.length) :
    s.write xs = { s with file := s.file.write s.pos xs, pos := s.pos + xs.length } := by
  have hall : min xs.length (s.fs.stores s.file s.pos xs.length) = xs.length :=
    Nat.min_eq_left htakes
  simp [write, h.eof, h.fail, hall]

/-- A read inside of the file returns the whole extent and sets no flag. -/
theorem read_of_good {s : FStream} (h : s.Good) {n : ℕ} (hn : s.pos + n ≤ s.file.size) :
    s.read n = (Extent.extract s.file.byte s.pos n, { s with pos := s.pos + n }) := by
  simp [read, h.eof, h.fail, s.file.read_of_le hn]

/-- A read on a good stream either returns the whole extent or sets the flags; the file is the
same. -/
theorem read_cases {s : FStream} (h : s.Good) (n : ℕ) :
    (s.read n).2.fs = s.fs ∧ (s.read n).2.file = s.file ∧
      ((s.read n).2.Good ∨ (s.read n).2.failbit = true) := by
  simp only [read, h.eof, h.fail, Bool.or_self, Bool.false_eq_true, if_false]
  split
  · exact ⟨rfl, rfl, Or.inr rfl⟩
  · exact ⟨rfl, rfl, Or.inl ⟨rfl, rfl⟩⟩

/-! ### Failed streams -/

section Failed

variable {s : FStream} (h : s.failbit = true)

include h

theorem seek_of_fail (offset : UInt64) : s.seek offset = s := by
  rw [seek, if_pos h]

theorem seekp_of_fail (offset : UInt64) : s.seekp offset = s := seek_of_fail h offset

theorem seekg_of_fail (offset : UInt64) : s.seekg offset = { s with eofbit := false } := by
  rw [seekg, seek_of_fail]
  exact h

theorem write_of_fail (xs : List UInt8) : s.write xs = s := by
  rw [write, if_pos (by simp [h])]

theorem read_of_fail (n : ℕ) : s.read n = ([], s) := by
  rw [read, if_pos (by simp [h]), ← h]

end Failed

end FStream
