/-
**Big-endian words: fixed-width integers in network byte order.**

A word in network order is stored most significant byte first, so its bytes are those of the
little-endian word in the other order.  A little-endian machine that receives such a word loads the
wrong number, and gets the right one by reversing the bytes of what it has loaded.

Main definitions:

* `BigEndian.bytes`, `BigEndian.value` — storing and loading, most significant byte first;
* `BigEndian.swap` — the number with its bytes in the other order.

Main results:

* `BigEndian.value_bytes`, `BigEndian.bytes_value` — loading inverts storing, and storing loading;
* `BigEndian.value_append` — the value of a word in two parts;
* `BigEndian.swap_value`, `BigEndian.bytes_swap` — **swapping turns the one order into the other**;
* `BigEndian.swap_swap` — swapping twice changes nothing.
-/

import IotDrive.Library.LittleEndian

set_option relaxedAutoImplicit false
set_option autoImplicit false

namespace BigEndian

/-- The `w` bytes of `n`, most significant byte first. -/
def bytes (w n : ℕ) : List UInt8 := (LittleEndian.bytes w n).reverse

/-- The number that a list of bytes, most significant byte first, stands for. -/
def value (xs : List UInt8) : ℕ := LittleEndian.value xs.reverse

@[simp] theorem length_bytes (w n : ℕ) : (bytes w n).length = w := by simp [bytes]

theorem value_lt (xs : List UInt8) : value xs < 256 ^ xs.length := by
  have h := LittleEndian.value_lt xs.reverse
  rwa [List.length_reverse] at h

/-- Loading inverts storing. -/
theorem value_bytes {w n : ℕ} (h : n < 256 ^ w) : value (bytes w n) = n := by
  rw [value, bytes, List.reverse_reverse, LittleEndian.value_bytes h]

/-- Storing inverts loading. -/
theorem bytes_value (xs : List UInt8) : bytes xs.length (value xs) = xs := by
  have h := LittleEndian.bytes_value xs.reverse
  rw [List.length_reverse] at h
  rw [bytes, value, h, List.reverse_reverse]

/-- The bytes in front of others count by the width of these. -/
theorem value_append (xs ys : List UInt8) :
    value (xs ++ ys) = value ys + 256 ^ ys.length * value xs := by
  rw [value, List.reverse_append, LittleEndian.value_append, List.length_reverse]
  rfl

/-! ### Swapping -/

/-- The number of width `w` with its bytes in the other order. -/
def swap (w n : ℕ) : ℕ := value (LittleEndian.bytes w n)

theorem swap_lt (w n : ℕ) : swap w n < 256 ^ w := by
  have h := value_lt (LittleEndian.bytes w n)
  rwa [LittleEndian.length_bytes] at h

/-- Swapping what was loaded in the wrong order gives the right number. -/
theorem swap_value (xs : List UInt8) : swap xs.length (LittleEndian.value xs) = value xs := by
  rw [swap, LittleEndian.bytes_value]

/-- Storing a swapped number stores the number in the other order. -/
theorem bytes_swap (w n : ℕ) : LittleEndian.bytes w (swap w n) = bytes w n := by
  have h := LittleEndian.bytes_value (bytes w n)
  rw [length_bytes] at h
  exact h

theorem swap_swap {w n : ℕ} (h : n < 256 ^ w) : swap w (swap w n) = n := by
  rw [swap, bytes_swap, value_bytes h]

/-- The word in two halves: both are swapped, and change places. -/
theorem swap_add (v w : ℕ) {m : ℕ} (n : ℕ) (hm : m < 256 ^ v) :
    swap (v + w) (m + 256 ^ v * n) = swap w n + 256 ^ w * swap v m := by
  have hsplit : LittleEndian.bytes (v + w) (m + 256 ^ v * n) =
      LittleEndian.bytes v m ++ LittleEndian.bytes w n := by
    have hlen : (LittleEndian.bytes v m ++ LittleEndian.bytes w n).length = v + w := by simp
    have h := LittleEndian.bytes_value (LittleEndian.bytes v m ++ LittleEndian.bytes w n)
    rw [hlen, LittleEndian.value_append, LittleEndian.length_bytes, LittleEndian.value_bytes hm,
      LittleEndian.value_bytes_mod] at h
    -- the upper half counts modulo its width, which the bytes do not see
    have hmod : (m + 256 ^ v * n) % 256 ^ (v + w) = m + 256 ^ v * (n % 256 ^ w) := by
      rw [pow_add, Nat.mod_mul, Nat.add_mul_mod_self_left, Nat.mod_eq_of_lt hm,
        Nat.add_mul_div_left _ _ (Nat.pos_of_ne_zero (by simp)), Nat.div_eq_of_lt hm, Nat.zero_add]
    have hbytes : ∀ k : ℕ, LittleEndian.bytes (v + w) k =
        LittleEndian.bytes (v + w) (k % 256 ^ (v + w)) := by
      intro k
      have hk := LittleEndian.bytes_value (LittleEndian.bytes (v + w) k)
      rw [LittleEndian.length_bytes, LittleEndian.value_bytes_mod] at hk
      exact hk.symm
    rw [hbytes, hmod, h]
  rw [swap, hsplit, value_append, LittleEndian.length_bytes]
  rfl

end BigEndian
