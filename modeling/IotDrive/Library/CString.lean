/-
**Strings that end with a zero, in a buffer of known size.**

A buffer is a list of bytes, an address a position in it.  What is read byte by byte has no result if
it leaves the buffer, so a result says that it did not.

Main definitions:

* `CString.tail` — the bytes from an address on;
* `CString.word` — a little-endian word;
* `CString.str`, `CString.equals` — the string, and its comparison with another one, each of which
  reads no further than it has to.

Main results:

* `CString.tail_add` — the address behind a part of what is at another one;
* `CString.str_append`, `CString.equals_append` — a string that ends inside of the buffer.
-/

import IotDrive.Library.LittleEndian

set_option relaxedAutoImplicit false
set_option autoImplicit false

namespace CString

/-- The bytes from the address `p` on. -/
def tail (buffer : List UInt8) (p : ℤ) : Option (List UInt8) :=
  if 0 ≤ p ∧ p ≤ buffer.length then some (buffer.drop p.toNat) else none

/-- The word in the first `w` bytes. -/
def word (w : ℕ) (memory : List UInt8) : Option ℕ :=
  if w ≤ memory.length then some (LittleEndian.value (memory.take w)) else none

/-- The bytes up to the first zero. -/
def str : List UInt8 → Option (List UInt8)
  | [] => none
  | b :: rest => if b = 0 then some [] else (str rest).map (b :: ·)

/-- Whether the string is `text`, up to the first difference. -/
def equals : List UInt8 → List UInt8 → Option Bool
  | [], _ => none
  | b :: _, [] => some (b = 0)
  | b :: rest, c :: text => if b = c then equals rest text else some false

variable {buffer front rest name text : List UInt8} {p q : ℤ}

theorem tail_zero (buffer : List UInt8) : tail buffer 0 = some buffer :=
  if_pos ⟨le_rfl, Int.natCast_nonneg _⟩

/-- The address is inside of the buffer, and the bytes reach to its end. -/
theorem length_of_tail (h : tail buffer p = some rest) :
    0 ≤ p ∧ p + rest.length = buffer.length := by
  simp only [tail, Option.ite_none_right_eq_some, Option.some.injEq] at h
  obtain ⟨⟨hp, hle⟩, rfl⟩ := h
  rw [List.length_drop]
  omega

theorem tail_add (h : tail buffer p = some (front ++ rest)) (hq : q = p + front.length) :
    tail buffer q = some rest := by
  obtain ⟨hp, hlength⟩ := length_of_tail h
  simp only [tail, Option.ite_none_right_eq_some, Option.some.injEq] at h
  rw [List.length_append] at hlength
  have hdrop : buffer.drop q.toNat = rest := by
    have hnat : q.toNat = p.toNat + front.length := by omega
    rw [hnat, ← List.drop_drop, h.2, List.drop_left]
  rw [tail, if_pos (by omega), hdrop]

theorem word_append {w n : ℕ} (h : n < 256 ^ w) (rest : List UInt8) :
    word w (LittleEndian.bytes w n ++ rest) = some n := by
  have hlength := LittleEndian.length_bytes w n
  rw [word, if_pos (by simp), List.take_left' hlength, LittleEndian.value_bytes h]

theorem str_append (h : 0 ∉ name) (rest : List UInt8) : str (name ++ 0 :: rest) = some name := by
  induction name with
  | nil => rfl
  | cons b name ih =>
      obtain ⟨hb, hname⟩ := not_or.1 (List.mem_cons.not.1 h)
      rw [List.cons_append, str, if_neg (Ne.symm hb), ih hname, Option.map_some]

theorem equals_append (hname : 0 ∉ name) (htext : 0 ∉ text) (rest : List UInt8) :
    equals (name ++ 0 :: rest) text = some (decide (name = text)) := by
  -- induction on the string: the first difference may be the zero behind either
  induction name generalizing text with
  | nil =>
      cases text with
      | nil => rfl
      | cons c text =>
          have hc : 0 ≠ c := fun heq => htext (heq ▸ List.mem_cons_self)
          rw [List.nil_append, equals, if_neg hc, decide_eq_false (List.cons_ne_nil c text).symm]
  | cons b name ih =>
      obtain ⟨hb, hname⟩ := not_or.1 (List.mem_cons.not.1 hname)
      cases text with
      | nil => simp [equals, Ne.symm hb]
      | cons c text =>
          rw [List.cons_append, equals]
          split
          · rename_i heq
            subst heq
            rw [ih hname fun hmem => htext (List.mem_cons_of_mem b hmem)]
            simp
          · rename_i hne
            simp [hne]

end CString
