/-
Where the bytes of one block request go.

`OffsetToProxy` is asked for the first byte of a request only, and the whole length goes to the
minions it returns.  The bytes of a request end up where their own addresses map exactly when the
request does not leave the stripe it starts in and no earlier request has failed one of the two
streams.

Main definitions:

* `StoredInPlace` — every byte of a write is at the two places of its own address, and no other
  byte changed;
* `WritesEachByte`, `ReadsEachByte`, `PlacesEachByte` — every write, every read, or both, of a given
  extent respect the address map.

Main results:

* `Minions.Sound.stores` — a write inside of one stripe stores its bytes at all copies;
* `readsEachByte_of_ready` — a read needs its stripe and its first place only;
* `writesEachByte_iff` — a write needs both places;
* `placesEachByte_iff` — **the exact condition**.
-/

import IotDrive.Command
import IotDrive.Library.Mirroring

set_option relaxedAutoImplicit false
set_option autoImplicit false

namespace IotDrive

open Mirroring

/-! ### Copies of an extent -/

/-- Inside of a stripe the copies of consecutive addresses are consecutive. -/
theorem place_add (c : Bool) {o n k : ℕ} (h : o % minionSize + n ≤ minionSize) (hk : k < n) :
    place c (o + k) = ((place c o).1, (place c o).2 + k) := by
  have hdiv : (o + k) / minionSize = o / minionSize := by
    rw [minionSize_eq] at h ⊢
    omega
  have hmod : (o + k) % minionSize = o % minionSize + k := by
    rw [minionSize_eq] at h ⊢
    omega
  cases c
  · simp [place, primary, hdiv, hmod]
  · simp [place, backup, hdiv, hmod]
    omega

/-- The addresses of the device. -/
def device : Set ℕ := {a | a < memory}

/-- No two copies of addresses of the device share a site. -/
theorem separate_place : Separate place device := fun _ _ _ ha _ ha' h =>
  places_injective ha ha' h

/-- The site is one of the two places that `OffsetToProxy` returns for the address. -/
def IsPlaceOf (offset : UInt64) (site : ℕ × ℕ) : Prop :=
  ∃ p b, Raid01.offsetToProxy offset = some (p, b) ∧
    (site = Place.toNat p ∨ site = Place.toNat b)

theorem isPlaceOf_iff {offset : UInt64} (h : offset.toNat < memory) {site : ℕ × ℕ} :
    IsPlaceOf offset site ↔ ∃ c, site = place c offset.toNat := by
  obtain ⟨p, b, hplace, hp, hb⟩ := Raid01.offsetToProxy_eq h
  constructor
  · rintro ⟨p', b', hplace', hsite⟩
    rw [hplace] at hplace'
    cases hplace'
    rcases hsite with rfl | rfl
    · exact ⟨false, hp⟩
    · exact ⟨true, hb⟩
  · rintro ⟨c, rfl⟩
    cases c
    · exact ⟨p, b, hplace, Or.inl hp.symm⟩
    · exact ⟨p, b, hplace, Or.inr hb.symm⟩

/-- Byte `k` of `data` is at the two places of the address `offset + k`, for every `k`, and no
byte at any other place changed. -/
structure StoredInPlace (offset : UInt64) (data : List UInt8) (before after : ℕ × ℕ → UInt8) :
    Prop where
  inside : ∀ k (hk : k < data.length), ∃ p b,
    Raid01.offsetToProxy (offset + UInt64.ofNat k) = some (p, b) ∧
      after (Place.toNat p) = data[k] ∧ after (Place.toNat b) = data[k]
  outside : ∀ site, (∀ k < data.length, ¬ IsPlaceOf (offset + UInt64.ofNat k) site) →
    after site = before site

/-- The address of a byte of a request inside of the device. -/
theorem toNat_add_ofNat {offset : UInt64} {n k : ℕ} (h : offset.toNat + n ≤ memory) (hk : k < n) :
    (offset + UInt64.ofNat k).toNat = offset.toNat + k ∧
      (offset + UInt64.ofNat k).toNat < memory := by
  have hmem : memory < 2 ^ 64 := by decide
  have hk' : (UInt64.ofNat k).toNat = k := UInt64.toNat_ofNat_of_lt' (by
    rw [UInt64.size]
    omega)
  rw [UInt64.toNat_add, hk', Nat.mod_eq_of_lt (by omega)]
  omega

theorem storedInPlace_iff {offset : UInt64} {data : List UInt8} {before after : ℕ × ℕ → UInt8}
    (h : offset.toNat + data.length ≤ memory) :
    StoredInPlace offset data before after ↔ Stores place offset.toNat data before after := by
  have hsites : ∀ k, (hk : k < data.length) → ∀ site,
      IsPlaceOf (offset + UInt64.ofNat k) site ↔ ∃ c, site = place c (offset.toNat + k) := by
    intro k hk site
    obtain ⟨haddr, hlt⟩ := toNat_add_ofNat h hk
    rw [isPlaceOf_iff hlt, haddr]
  constructor
  · intro hs
    refine ⟨?_, ?_⟩
    · intro c k hk
      obtain ⟨p, b, hplace, hp, hb⟩ := hs.inside k hk
      obtain ⟨p', b', hplace', hsite⟩ := (hsites k hk _).2 ⟨c, rfl⟩
      rw [hplace] at hplace'
      cases hplace'
      rcases hsite with hsite | hsite
      · rw [hsite, hp]
      · rw [hsite, hb]
    · intro site hout
      refine hs.outside site fun k hk hsite => ?_
      obtain ⟨c, hc⟩ := (hsites k hk site).1 hsite
      exact hout c k hk hc
  · intro hs
    refine ⟨?_, fun site hout => hs.outside site ?_⟩
    · intro k hk
      obtain ⟨haddr, hlt⟩ := toNat_add_ofNat h hk
      obtain ⟨p, b, hplace, hp, hb⟩ := Raid01.offsetToProxy_eq hlt
      rw [haddr] at hp hb
      refine ⟨p, b, hplace, ?_, ?_⟩
      · rw [hp]
        exact hs.inside false k hk
      · rw [hb]
        exact hs.inside true k hk
    · intro c k hk hc
      exact hout k hk ((hsites k hk site).2 ⟨c, hc⟩)

/-! ### One request -/

/-- Overwriting both copies of an extent inside of one stripe stores the list at all copies. -/
theorem stores_of_overwrite {before after : ℕ × ℕ → UInt8} {o : ℕ} {data : List UInt8}
    (hfit : o % minionSize + data.length ≤ minionSize)
    (h : ∀ i, (fun p => after (i, p)) =
      if i = (primary o).1 then Extent.overwrite (fun p => before (i, p)) (primary o).2 data
      else if i = (backup o).1 then Extent.overwrite (fun p => before (i, p)) (backup o).2 data
      else fun p => before (i, p)) : Stores place o data before after := by
  have hne := Minions.backup_ne_primary o
  have hafter : ∀ i p, after (i, p) = (if i = (primary o).1 then
      Extent.overwrite (fun p => before (i, p)) (primary o).2 data
      else if i = (backup o).1 then Extent.overwrite (fun p => before (i, p)) (backup o).2 data
      else fun p => before (i, p)) p := fun i p => congrFun (h i) p
  refine ⟨?_, ?_⟩
  · intro c k hk
    rw [place_add c hfit hk, hafter]
    cases c
    · simp only [place, Bool.false_eq_true, if_false, if_true]
      exact Extent.overwrite_add _ _ _ hk
    · simp only [place, if_true, if_neg hne]
      exact Extent.overwrite_add _ _ _ hk
  · intro site hout
    obtain ⟨i, p⟩ := site
    rw [hafter]
    split
    · rename_i hi
      rcases Extent.overwrite_cases (fun p => before (i, p)) (primary o).2 data p with
        ⟨k, hk, rfl, -⟩ | ⟨-, hp⟩
      · exact absurd (by rw [place_add false hfit hk, hi]; rfl) (hout false k hk)
      · exact hp
    · split
      · rename_i hi
        rcases Extent.overwrite_cases (fun p => before (i, p)) (backup o).2 data p with
          ⟨k, hk, rfl, -⟩ | ⟨-, hp⟩
        · exact absurd (by rw [place_add true hfit hk, hi]; rfl) (hout true k hk)
        · exact hp
      · rfl

variable {minions : Minions} {offset : UInt64}

/-- A write inside of one stripe stores its bytes at both copies of their addresses, if both
minions are ready. -/
theorem Minions.Sound.stores (h : minions.Sound) (env : Env) {data : List UInt8}
    (hfit : (Request.write offset data).FitsStripe)
    (hready : ∀ c, (minions (place c offset.toNat).1).Ready) :
    ∃ minions', minions.execute env (.write offset data) = some (minions', []) ∧
      (∀ i, (minions i).Ready → (minions' i).Ready) ∧
      Stores place offset.toNat data minions.bytes minions'.bytes := by
  have hlen : data.length ≤ memory := le_trans (Nat.le_add_left _ _) hfit.le
  obtain ⟨minions', hexec, -, hkeep, hbyte⟩ := h.execute_write env hfit.1 hlen
  refine ⟨minions', hexec, hkeep, stores_of_overwrite hfit.2 ?_⟩
  intro i
  refine (hbyte i).trans ?_
  split
  · rename_i hi
    subst hi
    exact (hready false).stored_eq _ _
  · split
    · rename_i hi
      subst hi
      exact (hready true).stored_eq _ _
    · rfl

/-- The minions that requests inside of the device can lead to, on any volumes and from files of zeros
of any size. -/
inductive Minions.Reachable : Minions → Prop
  | start (volumes : ℕ → Volume) (sizes : ℕ → ℕ) :
      Reachable fun i => Minion.start (volumes i).fs (.zeros (sizes i))
  | execute {minions minions' : Minions} {env : Env} {r : Request} {reply : List UInt8} :
      Reachable minions → r.offset + r.length ≤ memory →
      minions.execute env r = some (minions', reply) → Reachable minions'

theorem Minions.Reachable.sound (h : minions.Reachable) : minions.Sound := by
  -- induction on how the minions were reached; a request inside of the device keeps them sound
  induction h with
  | start volumes sizes => exact fun i => Or.inl (Minion.ready_start _ _)
  | @execute minions minions' env r reply _ hin hexec ih =>
      have ho : r.offset < memory := by
        by_contra ho
        cases r with
        | read offset size =>
            rw [execute_read_eq_none env size (not_lt.1 ho)] at hexec
            cases hexec
        | write offset data =>
            rw [execute_write_eq_none env data (not_lt.1 ho)] at hexec
            cases hexec
      cases r with
      | read offset size =>
          obtain ⟨_, _, hexec', -, hsound, -⟩ := ih.execute_read env ho
            (le_trans (Nat.le_add_left _ _) hin)
          rw [hexec] at hexec'
          cases hexec'
          exact hsound
      | write offset data =>
          obtain ⟨_, hexec', hsound, -⟩ := ih.execute_write env ho
            (le_trans (Nat.le_add_left _ _) hin)
          rw [hexec] at hexec'
          cases hexec'
          exact hsound

/-- Every write of `size` bytes at `offset` on the given minions respects the address map. -/
def WritesEachByte (minions : Minions) (offset : UInt64) (size : UInt32) : Prop :=
  ∀ env, ∀ data : List UInt8, data.length = size.toNat → ∃ minions',
    minions.execute env (.write offset data) = some (minions', []) ∧
      StoredInPlace offset data minions.bytes minions'.bytes

/-- Every read of `size` bytes at `offset` on the given minions respects the address map. -/
def ReadsEachByte (minions : Minions) (offset : UInt64) (size : UInt32) : Prop :=
  ∀ env, ∃ minions' reply, minions.execute env (.read offset size) = some (minions', reply) ∧
    reply.length = size.toNat ∧
    (∀ k (hk : k < reply.length), ∃ p b,
      Raid01.offsetToProxy (offset + UInt64.ofNat k) = some (p, b) ∧
        reply[k] = minions.bytes (Place.toNat p)) ∧
    minions'.bytes = minions.bytes

/-- Every write and every read of `size` bytes at `offset` on the given minions respects the
address map. -/
def PlacesEachByte (minions : Minions) (offset : UInt64) (size : UInt32) : Prop :=
  WritesEachByte minions offset size ∧ ReadsEachByte minions offset size

/-! ### Reads -/

/-- A read inside of one stripe of a ready minion respects the address map, whatever the minion of the
backup is like. -/
theorem readsEachByte_of_ready {size : UInt32} (hfit : (Request.read offset size).FitsStripe)
    (hready : (minions (place false offset.toNat).1).Ready) : ReadsEachByte minions offset size := by
  intro env
  have hin : offset.toNat % minionSize + size.toNat ≤ fileSize := hfit.2.trans (by decide)
  obtain ⟨minions', hexec, -, hbytes⟩ := Minions.execute_read_of_ready env hready hfit.1 hin
  refine ⟨minions', _, hexec, Extent.length_extract _ _ _, ?_, hbytes⟩
  intro k hk
  have hk' : k < size.toNat := by simpa using hk
  obtain ⟨haddr, hlt⟩ := toNat_add_ofNat hfit.le hk'
  obtain ⟨p, b, hplace, hp, -⟩ := Raid01.offsetToProxy_eq hlt
  refine ⟨p, b, hplace, ?_⟩
  have hadd := place_add false hfit.2 hk'
  rw [Extent.getElem_extract, hp, haddr]
  exact congrArg minions.bytes hadd.symm

/-- A read of no bytes inside of the device does nothing, whatever the stream is like. -/
theorem readsEachByte_zero (h : minions.Sound) {size : UInt32} (ho : offset.toNat < memory)
    (hsize : size.toNat = 0) : ReadsEachByte minions offset size := by
  intro env
  obtain ⟨minions', reply, hexec, hlen, -, hbytes⟩ := h.execute_read env ho
    (hsize.trans_le (Nat.zero_le _))
  exact ⟨minions', reply, hexec, hlen, fun k hk => by omega, hbytes⟩

/-! ### Writes -/

/-- A write inside of one stripe of two ready minions respects the address map. -/
theorem writesEachByte_of_ready (h : minions.Sound) {size : UInt32}
    (hfit : (Request.read offset size).FitsStripe)
    (hready : ∀ c, (minions (place c offset.toNat).1).Ready) :
    WritesEachByte minions offset size := by
  intro env data hdata
  have hwrite : (Request.write offset data).FitsStripe := by
    simpa only [Request.FitsStripe, Request.offset, Request.length, hdata] using hfit
  obtain ⟨minions', hexec, -, hstores⟩ := h.stores env hwrite hready
  exact ⟨minions', hexec, (storedInPlace_iff hwrite.le).2 hstores⟩

/-- A write of no bytes inside of the device does nothing, whatever the streams are like. -/
theorem writesEachByte_zero (h : minions.Sound) {size : UInt32} (ho : offset.toNat < memory)
    (hsize : size.toNat = 0) : WritesEachByte minions offset size := by
  intro env data hdata
  obtain rfl : data = [] := List.length_eq_zero_iff.1 (hdata.trans hsize)
  have hlen : ([] : List UInt8).length ≤ memory := Nat.zero_le _
  obtain ⟨minions', hexec, -, -, hbyte⟩ := h.execute_write env ho hlen
  refine ⟨minions', hexec, nofun, ?_⟩
  intro site _
  rw [Minions.bytes, Minions.bytes, hbyte]
  split <;> simp [Minion.stored]

/-- If some copy of a byte of a write is left as it was, the write does not respect the address map.
-/
theorem not_writesEachByte_of_lost (env : Env) {size : UInt32}
    (hin : offset.toNat + size.toNat ≤ memory) (c : Bool) (k : ℕ) (hk : k < size.toNat)
    (hlost : ∀ data, data.length = size.toNat →
      ∀ minions', minions.execute env (.write offset data) = some (minions', []) →
        minions'.bytes (place c (offset.toNat + k)) = minions.bytes (place c (offset.toNat + k))) :
    ¬ WritesEachByte minions offset size := by
  intro hwrites
  -- a write of bytes that differ from the one that is there
  obtain ⟨x, hx⟩ : ∃ x, x = minions.bytes (place c (offset.toNat + k)) := ⟨_, rfl⟩
  have hdata : (List.replicate size.toNat (x + 1)).length = size.toNat := List.length_replicate
  obtain ⟨minions', hexec, hstored⟩ := hwrites env _ hdata
  have hstores := (storedInPlace_iff (by rw [hdata]; exact hin)).1 hstored
  have hnew := hstores.inside c k (by rw [hdata]; exact hk)
  rw [hlost _ hdata minions' hexec, ← hx, List.getElem_replicate] at hnew
  have : x ≠ x + 1 := by grind
  exact this hnew

/-- The byte behind the stripe of a write is not written to the stripe it belongs to. -/
theorem not_writesEachByte_of_crosses (h : minions.Sound) (env : Env) {size : UInt32}
    (ho : offset.toNat < memory) (hin : offset.toNat + size.toNat ≤ memory)
    (hcross : minionSize < offset.toNat % minionSize + size.toNat) :
    ¬ WritesEachByte minions offset size := by
  obtain ⟨k, hk⟩ : ∃ k, offset.toNat % minionSize + k = minionSize :=
    ⟨minionSize - offset.toNat % minionSize, by
      have : offset.toNat % minionSize < minionSize := Nat.mod_lt _ (by decide)
      omega⟩
  refine not_writesEachByte_of_lost env hin false k (by omega) ?_
  intro data hdata minions' hexec
  obtain ⟨_, hexec', -, -, hbyte⟩ := h.execute_write env ho
    (hdata.trans_le (le_trans (Nat.le_add_left _ _) hin))
  rw [hexec] at hexec'
  cases hexec'
  have hplace : place false (offset.toNat + k) = (offset.toNat / minionSize + 1, 0) := by
    simp only [place, primary, Bool.false_eq_true, if_false, Prod.mk.injEq]
    rw [minionSize_eq] at hk ⊢
    omega
  have hbackup : (backup offset.toNat).1 = offset.toNat / minionSize + 1 := by
    simp only [backup, minionCount]
    rw [memory_eq] at hin
    rw [minionSize_eq] at hcross ⊢
    omega
  rw [hplace, Minions.bytes, Minions.bytes, hbyte, hbackup, if_neg (by simp [primary]),
    if_pos rfl, Minion.stored]
  split
  · rfl
  · refine Extent.overwrite_of_notMem _ _ _ (Or.inl ?_)
    dsimp only [backup]
    rw [minionSize_eq]
    omega

/-- A copy on a failed minion is not written. -/
theorem not_writesEachByte_of_failed (h : minions.Sound) (env : Env) {size : UInt32}
    (ho : offset.toNat < memory) (hin : offset.toNat + size.toNat ≤ memory)
    (hsize : 0 < size.toNat) (c : Bool) (hfailed : (minions (place c offset.toNat).1).Failed) :
    ¬ WritesEachByte minions offset size := by
  refine not_writesEachByte_of_lost env hin c 0 hsize ?_
  intro data hdata minions' hexec
  obtain ⟨_, hexec', -, -, hbyte⟩ := h.execute_write env ho
    (hdata.trans_le (le_trans (Nat.le_add_left _ _) hin))
  rw [hexec] at hexec'
  cases hexec'
  rw [Nat.add_zero, Minions.bytes, Minions.bytes, hbyte, hfailed.stored_eq, hfailed.stored_eq]
  simp only [ite_self]

/-- **Writes.** A write inside of the device respects the address map if and only if it starts inside of
the device and, unless it is empty, does not leave the stripe it starts in and finds no failed stream at
its two places. -/
theorem writesEachByte_iff (h : minions.Reachable) (size : UInt32)
    (hin : offset.toNat + size.toNat ≤ memory) :
    WritesEachByte minions offset size ↔
      offset.toNat < memory ∧ (size.toNat = 0 ∨
        offset.toNat % minionSize + size.toNat ≤ minionSize ∧
          ¬ (minions (primary offset.toNat).1).Failed ∧
          ¬ (minions (backup offset.toNat).1).Failed) := by
  constructor
  · intro hwrites
    rcases lt_or_ge offset.toNat memory with ho | ho
    · refine ⟨ho, ?_⟩
      rcases Nat.eq_zero_or_pos size.toNat with hsize | hsize
      · exact Or.inl hsize
      · refine Or.inr ⟨?_, ?_, ?_⟩
        · by_contra hcross
          exact not_writesEachByte_of_crosses h.sound Env.zero ho hin (not_le.1 hcross) hwrites
        · exact fun hfailed =>
            not_writesEachByte_of_failed h.sound Env.zero ho hin hsize false hfailed hwrites
        · exact fun hfailed =>
            not_writesEachByte_of_failed h.sound Env.zero ho hin hsize true hfailed hwrites
    · obtain ⟨minions', hexec, -⟩ := hwrites Env.zero
        (List.replicate size.toNat 0) List.length_replicate
      rw [Minions.execute_write_eq_none Env.zero _ ho] at hexec
      cases hexec
  · rintro ⟨ho, hsize | ⟨hfit, hprimary, hbackup⟩⟩
    · exact writesEachByte_zero h.sound ho hsize
    · refine writesEachByte_of_ready h.sound ⟨ho, hfit⟩ ?_
      intro c
      cases c
      · exact (h.sound _).ready_of_not_failed hprimary
      · exact (h.sound _).ready_of_not_failed hbackup

/-- **The exact condition.** On minions that requests can lead to, a request inside of the device
respects the address map if and only if it starts inside of the device and, unless it is empty,
does not leave the stripe it starts in and finds no failed stream at its two places. -/
theorem placesEachByte_iff (h : minions.Reachable) (size : UInt32)
    (hin : offset.toNat + size.toNat ≤ memory) :
    PlacesEachByte minions offset size ↔
      offset.toNat < memory ∧ (size.toNat = 0 ∨
        offset.toNat % minionSize + size.toNat ≤ minionSize ∧
          ¬ (minions (primary offset.toNat).1).Failed ∧
          ¬ (minions (backup offset.toNat).1).Failed) := by
  refine Iff.trans (and_iff_left_of_imp ?_) (writesEachByte_iff h size hin)
  -- reads ask for less than writes
  intro hwrites
  obtain ⟨ho, hsize | ⟨hfit, hprimary, -⟩⟩ := (writesEachByte_iff h size hin).1 hwrites
  · exact readsEachByte_zero h.sound ho hsize
  · exact readsEachByte_of_ready ⟨ho, hfit⟩ ((h.sound _).ready_of_not_failed hprimary)

/-- The condition at the first three bytes of the second stripe. -/
theorem placesEachByte_second_stripe :
    PlacesEachByte (fun _ => Minion.start Volume.ext4.fs (.zeros fileSize)) 4194304 3 :=
  (placesEachByte_iff (.start (fun _ => .ext4) _) 3 (by decide)).2
    ⟨by decide, Or.inr ⟨by decide, Bool.false_ne_true, Bool.false_ne_true⟩⟩

/-- Two bytes across the boundary of the first two stripes do not respect the address map. -/
theorem not_placesEachByte_across_stripes :
    (4194303 : UInt64).toNat + (2 : UInt32).toNat ≤ memory ∧
      (Minions.Reachable fun _ => Minion.start Volume.ext4.fs (.zeros fileSize)) ∧
      ¬ PlacesEachByte (fun _ => Minion.start Volume.ext4.fs (.zeros fileSize)) 4194303 2 := by
  have hstart : Minions.Reachable fun _ => Minion.start Volume.ext4.fs (.zeros fileSize) :=
    .start (fun _ => .ext4) _
  have hcross := @not_writesEachByte_of_crosses _ 4194303 hstart.sound Env.zero 2 (by decide) (by decide)
    (by decide)
  exact ⟨by decide, hstart, fun hplaces => hcross hplaces.1⟩

end IotDrive
