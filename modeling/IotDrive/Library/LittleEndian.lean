/-
**Little-endian words: fixed-width integers as bytes in memory.**

A machine word of `w` bytes is stored least significant byte first.  This module defines the
storing and the loading of such words as functions between natural numbers and lists of bytes,
and proves that loading inverts storing.  The widths used by a program (32 and 64 bits) are
instances, so that an encoder and a decoder of a message can be verified against one lemma.

Main definitions:

* `LittleEndian.bytes` — the `w` bytes of a number, least significant first;
* `LittleEndian.value` — the number a list of bytes stands for.

Main results:

* `LittleEndian.value_bytes` — **loading inverts storing**, for numbers that fit the width;
* `LittleEndian.value_bytes_mod` — storing truncates to the width;
* `LittleEndian.bytes_value` — storing inverts loading;
* `LittleEndian.value_append` — the value of a word in two parts.
-/

import Mathlib.Algebra.Order.Group.Nat
import Mathlib.Tactic.Ring

set_option relaxedAutoImplicit false
set_option autoImplicit false

namespace LittleEndian

/-- The `w` bytes of `n`, least significant byte first. -/
def bytes : ℕ → ℕ → List UInt8
  | 0, _ => []
  | w + 1, n => UInt8.ofNat (n % 256) :: bytes w (n / 256)

/-- The number that a list of bytes, least significant byte first, stands for. -/
def value : List UInt8 → ℕ
  | [] => 0
  | b :: bs => b.toNat + 256 * value bs

@[simp] theorem length_bytes (w n : ℕ) : (bytes w n).length = w := by
  induction w generalizing n with
  | zero => rfl
  | succ w ih => simp [bytes, ih]

/-- Storing a number in `w` bytes and loading it back truncates it to the width. -/
theorem value_bytes_mod (w n : ℕ) : value (bytes w n) = n % 256 ^ w := by
  induction w generalizing n with
  | zero => simp [bytes, value, Nat.mod_one]
  | succ w ih =>
      have hb : (UInt8.ofNat (n % 256)).toNat = n % 256 := by
        rw [UInt8.toNat_ofNat']
        omega
      rw [bytes, value, hb, ih, pow_succ', Nat.mod_mul]

/-- Loading inverts storing. -/
theorem value_bytes {w n : ℕ} (h : n < 256 ^ w) : value (bytes w n) = n := by
  rw [value_bytes_mod, Nat.mod_eq_of_lt h]

/-- The first bytes of a number are its bytes in a smaller width. -/
theorem take_bytes {j w : ℕ} (h : j ≤ w) (n : ℕ) : (bytes w n).take j = bytes j n := by
  induction j generalizing w n with
  | zero => rfl
  | succ j ih =>
      obtain ⟨w, rfl⟩ : ∃ w', w = w' + 1 := ⟨w - 1, by omega⟩
      rw [bytes, bytes, List.take_succ_cons, ih (by omega)]

/-! ### Parts of a word -/

/-- The bytes behind others count by the width of these. -/
theorem value_append (xs ys : List UInt8) :
    value (xs ++ ys) = value xs + 256 ^ xs.length * value ys := by
  induction xs with
  | nil => simp [value]
  | cons b bs ih =>
      rw [List.cons_append, value, value, ih, List.length_cons]
      ring

/-- The number of a list of bytes fits its width. -/
theorem value_lt (xs : List UInt8) : value xs < 256 ^ xs.length := by
  induction xs with
  | nil => simp [value]
  | cons b bs ih =>
      have hb : b.toNat < 256 := b.toNat_lt
      rw [value, List.length_cons, pow_succ]
      omega

theorem value_replicate_zero (k : ℕ) : value (List.replicate k 0) = 0 := by
  induction k with
  | zero => rfl
  | succ k ih => simp [List.replicate_succ, value, ih]

/-- The largest number of a width. -/
theorem value_replicate_max (k : ℕ) : value (List.replicate k 255) + 1 = 256 ^ k := by
  induction k with
  | zero => rfl
  | succ k ih =>
      have hmax : (255 : UInt8).toNat = 255 := rfl
      rw [List.replicate_succ, value, hmax, pow_succ, ← ih]
      ring

/-- Storing inverts loading. -/
theorem bytes_value (xs : List UInt8) : bytes xs.length (value xs) = xs := by
  induction xs with
  | nil => rfl
  | cons b bs ih =>
      have hb : b.toNat < 256 := b.toNat_lt
      have hmod : (b.toNat + 256 * value bs) % 256 = b.toNat := by omega
      have hdiv : (b.toNat + 256 * value bs) / 256 = value bs := by omega
      rw [List.length_cons, value, bytes, hmod, hdiv, ih, UInt8.ofNat_toNat]

/-- A 32-bit word survives storing and loading. -/
@[simp] theorem ofNat_value_bytes32 (v : UInt32) : UInt32.ofNat (value (bytes 4 v.toNat)) = v := by
  rw [value_bytes (by simpa using v.toNat_lt), UInt32.ofNat_toNat]

/-- A 64-bit word survives storing and loading. -/
@[simp] theorem ofNat_value_bytes64 (v : UInt64) : UInt64.ofNat (value (bytes 8 v.toNat)) = v := by
  rw [value_bytes (by simpa using v.toNat_lt), UInt64.ofNat_toNat]

end LittleEndian
