/-
The address map of `raid01.hpp` and `raid01.cpp`.

The device is cut into three stripes.  Stripe `i` is kept in the lower half of the file of minion
`i`, and a copy of it in the upper half of the file of the next minion.

Main definitions:

* `Raid01.offsetToProxy` — the two places of a logical offset, as the code computes them;
* `primary`, `backup` — the same two places as functions of the address alone.

Main results:

* `Raid01.offsetToProxy_eq` — inside the device the code computes `primary` and `backup`;
* `Raid01.offsetToProxy_eq_none` — outside of it the vector of minions is indexed out of range;
* `places_injective`, `places_surjective` — no two copies share a place, and every place has one;
* `address_map_bijective` — **the address map is a bijection**.
-/

import Mathlib.Algebra.Order.Group.Nat
import Mathlib.Data.Prod.Basic
import Mathlib.Data.Set.Function
import Mathlib.Logic.Function.Basic
import Mathlib.Tactic.IntervalCases

set_option relaxedAutoImplicit false
set_option autoImplicit false

namespace IotDrive

/-- `KB`. -/
def kb : ℕ := 1024

/-- `MB`. -/
def mb : ℕ := 1024 * kb

/-- `MEMORY`, the size of the device. -/
def memory : ℕ := 12 * mb

/-- `MINION_SIZE`, the size of a stripe. -/
def minionSize : ℕ := 4 * mb

/-- The number of minions, the size of `m_minion_proxy_vector`. -/
def minionCount : ℕ := 3

/-- The size that `GetBinFile` gives to the file of a minion. -/
def fileSize : ℕ := 8 * mb

theorem memory_eq : memory = 12582912 := rfl

theorem minionSize_eq : minionSize = 4194304 := rfl

theorem fileSize_eq : fileSize = 8388608 := rfl

/-- A place in the cluster: the index of a minion and an offset in its file. -/
abbrev Place := ℕ × UInt64

/-- `Raid01::OffsetToProxy`: the places of the primary and of the backup.  The first index goes
unchecked into a vector of three minions; out of range the behaviour is undefined. -/
def Raid01.offsetToProxy (offset : UInt64) : Option (Place × Place) :=
  let minionIdx := offset / UInt64.ofNat minionSize
  let minionOffset := offset % UInt64.ofNat minionSize
  if minionIdx.toNat < minionCount then
    some ((minionIdx.toNat, minionOffset),
      (((minionIdx + 1) % 3).toNat, minionOffset + UInt64.ofNat minionSize))
  else none

/-! ### The map on addresses -/

/-- The minion and the file offset of the first copy of the address `a`. -/
def primary (a : ℕ) : ℕ × ℕ := (a / minionSize, a % minionSize)

/-- The minion and the file offset of the second copy of the address `a`. -/
def backup (a : ℕ) : ℕ × ℕ := ((a / minionSize + 1) % minionCount, a % minionSize + minionSize)

/-- The two copies of an address: `false` is the primary and `true` the backup. -/
def place (copy : Bool) (a : ℕ) : ℕ × ℕ := if copy then backup a else primary a

theorem toNat_minionSize : (UInt64.ofNat minionSize).toNat = minionSize := rfl

theorem toNat_div_minionSize (offset : UInt64) :
    (offset / UInt64.ofNat minionSize).toNat = offset.toNat / minionSize := by
  rw [UInt64.toNat_div, toNat_minionSize]

theorem toNat_mod_minionSize (offset : UInt64) :
    (offset % UInt64.ofNat minionSize).toNat = offset.toNat % minionSize := by
  rw [UInt64.toNat_mod, toNat_minionSize]

/-- A place of the code as a pair of numbers. -/
def Place.toNat (p : Place) : ℕ × ℕ := (p.1, p.2.toNat)

/-- Inside the device the code computes the two places of the address. -/
theorem Raid01.offsetToProxy_eq {offset : UInt64} (h : offset.toNat < memory) :
    ∃ p b, Raid01.offsetToProxy offset = some (p, b) ∧
      Place.toNat p = primary offset.toNat ∧ Place.toNat b = backup offset.toNat := by
  have hidx : offset.toNat / minionSize < 3 := by
    rw [memory_eq] at h
    rw [minionSize_eq]
    omega
  have hoff : offset.toNat % minionSize < minionSize := Nat.mod_lt _ (by decide)
  have hsucc : (offset / UInt64.ofNat minionSize + 1).toNat = offset.toNat / minionSize + 1 := by
    rw [UInt64.toNat_add, toNat_div_minionSize]
    exact Nat.mod_eq_of_lt (by simp; omega)
  refine ⟨_, _, if_pos (by rw [toNat_div_minionSize]; exact hidx), ?_, ?_⟩
  · simp only [Place.toNat, primary, toNat_div_minionSize, toNat_mod_minionSize]
  · simp only [Place.toNat, backup, Prod.mk.injEq]
    constructor
    · rw [UInt64.toNat_mod, hsucc]
      rfl
    · rw [UInt64.toNat_add, toNat_mod_minionSize, toNat_minionSize]
      exact Nat.mod_eq_of_lt (by rw [minionSize_eq] at hoff ⊢; omega)

theorem toNat_ofNat_of_lt_memory {a : ℕ} (h : a < memory) : (UInt64.ofNat a).toNat = a := by
  refine UInt64.toNat_ofNat_of_lt' ?_
  rw [memory_eq] at h
  exact lt_trans h (by decide)

/-- The two places of an address given as a number. -/
theorem Raid01.offsetToProxy_ofNat {a : ℕ} (h : a < memory) :
    ∃ p b, Raid01.offsetToProxy (UInt64.ofNat a) = some (p, b) ∧
      Place.toNat p = primary a ∧ Place.toNat b = backup a := by
  have haddr := toNat_ofNat_of_lt_memory h
  have hplaces := Raid01.offsetToProxy_eq (haddr.trans_lt h)
  rwa [haddr] at hplaces

/-- Outside of the device the vector is indexed out of range. -/
theorem Raid01.offsetToProxy_eq_none {offset : UInt64} (h : memory ≤ offset.toNat) :
    Raid01.offsetToProxy offset = none := by
  refine if_neg ?_
  rw [toNat_div_minionSize, minionSize_eq, minionCount]
  rw [memory_eq] at h
  omega

/-- No two copies of addresses of the device share a place. -/
theorem places_injective {c c' : Bool} {a a' : ℕ} (ha : a < memory) (ha' : a' < memory)
    (h : place c a = place c' a') : c = c' ∧ a = a' := by
  rw [memory_eq] at ha ha'
  cases c <;> cases c' <;>
    simp only [place, primary, backup, minionSize_eq, minionCount, Bool.false_eq_true, if_false,
      if_true, Prod.mk.injEq, true_and, false_and, reduceCtorEq] at h ⊢ <;> omega

/-- Every byte of the three files is the place of a copy. -/
theorem places_surjective {i o : ℕ} (hi : i < minionCount) (ho : o < fileSize) :
    ∃ c a, a < memory ∧ place c a = (i, o) := by
  rw [minionCount] at hi
  rw [fileSize_eq] at ho
  by_cases hlower : o < minionSize
  · -- the primary of an address of stripe `i`
    rw [minionSize_eq] at hlower
    refine ⟨false, i * minionSize + o, ?_, ?_⟩
    · rw [memory_eq, minionSize_eq]
      omega
    · simp only [place, primary, minionSize_eq, Bool.false_eq_true, if_false, Prod.mk.injEq]
      omega
  · -- the backup of an address of the stripe before
    rw [minionSize_eq] at hlower
    refine ⟨true, (i + 2) % 3 * minionSize + (o - minionSize), ?_, ?_⟩
    · rw [memory_eq, minionSize_eq]
      omega
    · simp only [place, backup, minionSize_eq, minionCount, if_true, Prod.mk.injEq]
      omega

/-- The copies of an address are on different minions, the primary in the lower half of the file and
the backup in the upper half. -/
theorem place_halves {a : ℕ} (h : a < memory) :
    (primary a).1 ≠ (backup a).1 ∧ (primary a).1 < minionCount ∧ (backup a).1 < minionCount ∧
      (primary a).2 < minionSize ∧ minionSize ≤ (backup a).2 ∧ (backup a).2 < fileSize := by
  rw [memory_eq] at h
  simp only [primary, backup, minionSize_eq, minionCount, fileSize_eq]
  omega

/-! ### The map of the code -/

/-- The place of a copy of the address: the first or the second element of the result of
`OffsetToProxy`. -/
def Raid01.copyPlace (copy : Bool) (offset : UInt64) : Option Place :=
  (Raid01.offsetToProxy offset).map fun places => if copy then places.2 else places.1

theorem Raid01.copyPlace_eq {offset : UInt64} (h : offset.toNat < memory) (c : Bool) :
    ∃ p, Raid01.copyPlace c offset = some p ∧ p.toNat = place c offset.toNat := by
  obtain ⟨p, b, hplaces, hp, hb⟩ := Raid01.offsetToProxy_eq h
  cases c with
  | false => exact ⟨p, by rw [copyPlace, hplaces]; rfl, hp⟩
  | true => exact ⟨b, by rw [copyPlace, hplaces]; rfl, hb⟩

theorem Place.toNat_injective : Function.Injective Place.toNat := by
  rintro ⟨i, o⟩ ⟨i', o'⟩ h
  obtain ⟨hi, ho⟩ := Prod.mk.inj h
  exact Prod.ext hi (UInt64.toNat_inj.1 ho)

/-- The address map is a bijection from the two copies of the addresses of the device to the bytes of
the three files.  The two copies of an address are on different minions, the primary in the lower and
the backup in the upper half. -/
theorem address_map_bijective :
    Set.BijOn (fun x : Bool × UInt64 => Raid01.copyPlace x.1 x.2) {x | x.2.toNat < memory}
      (some '' {p : Place | p.1 < minionCount ∧ p.2.toNat < fileSize}) ∧
    ∀ offset : UInt64, offset.toNat < memory →
      ∃ p b, Raid01.offsetToProxy offset = some (p, b) ∧ p.1 ≠ b.1 ∧
        p.2.toNat < minionSize ∧ minionSize ≤ b.2.toNat ∧ b.2.toNat < fileSize := by
  constructor
  · refine ⟨?_, ?_, ?_⟩
    · rintro ⟨c, offset⟩ h
      obtain ⟨p, hplace, hp⟩ := Raid01.copyPlace_eq h c
      obtain ⟨-, hprimary, hbackup, hlower, -, hupper⟩ := place_halves h
      refine ⟨p, ?_, hplace.symm⟩
      change (p.toNat).1 < minionCount ∧ (p.toNat).2 < fileSize
      rw [hp]
      cases c with
      | false => exact ⟨hprimary, lt_trans hlower (by decide)⟩
      | true => exact ⟨hbackup, hupper⟩
    · rintro ⟨c, offset⟩ h ⟨c', offset'⟩ h' heq
      obtain ⟨p, hplace, hp⟩ := Raid01.copyPlace_eq h c
      obtain ⟨p', hplace', hp'⟩ := Raid01.copyPlace_eq h' c'
      dsimp only at heq
      rw [hplace, hplace', Option.some.injEq] at heq
      subst heq
      obtain ⟨hcopy, haddr⟩ := places_injective h h' (hp.symm.trans hp')
      exact Prod.ext hcopy (UInt64.toNat_inj.1 haddr)
    · rintro _ ⟨p, ⟨hi, ho⟩, rfl⟩
      obtain ⟨c, a, ha, hplace⟩ := places_surjective hi ho
      have haddr := toNat_ofNat_of_lt_memory ha
      obtain ⟨p', hcopy, hp'⟩ := Raid01.copyPlace_eq (haddr.trans_lt ha) c
      have hsame : p' = p := Place.toNat_injective (by rw [hp', haddr, hplace]; rfl)
      exact ⟨(c, UInt64.ofNat a), haddr.trans_lt ha, by rw [← hsame]; exact hcopy⟩
  · intro offset h
    obtain ⟨p, b, hplaces, hp, hb⟩ := Raid01.offsetToProxy_eq h
    obtain ⟨hne, -, -, hlower, hupper, hfile⟩ := place_halves h
    rw [← hp, ← hb] at hne
    rw [← hp] at hlower
    rw [← hb] at hupper hfile
    exact ⟨p, b, hplaces, hne, hlower, hupper, hfile⟩

/-- The last byte of the device, whose backup is the last byte of the first minion's file. -/
theorem address_map_bijective_last :
    Raid01.offsetToProxy 12582911 = some ((2, 4194303), (0, 8388607)) ∧
      ∃ p b, Raid01.offsetToProxy 12582911 = some (p, b) ∧ p.1 ≠ b.1 ∧
        p.2.toNat < minionSize ∧ minionSize ≤ b.2.toNat ∧ b.2.toNat < fileSize :=
  ⟨by decide, address_map_bijective.2 12582911 (by decide)⟩

end IotDrive
