/-
The device as one flat array.

A client that keeps its requests inside of the stripes cannot tell the three minions from a single
array of twelve megabytes.

Main definitions:

* `FlatDisk.execute` — a block request on one array;
* `Minions.replies`, `FlatDisk.replies` — what a sequence of requests returns.

Main results:

* `Minions.Ready.refines` — one request keeps the minions a mirror of the array, and returns the
  same;
* `replies_eq_flatDisk` — **the refinement**, for every sequence of requests.
-/

import IotDrive.Placement

set_option relaxedAutoImplicit false
set_option autoImplicit false

namespace IotDrive

open Mirroring

/-! ### The array -/

/-- An array of bytes by address. -/
abbrev FlatDisk := ℕ → UInt8

namespace FlatDisk

/-- The array of zeros. -/
def zero : FlatDisk := fun _ => 0

/-- A block request on the array: the array afterwards, and the bytes that a read returns. -/
def execute (disk : FlatDisk) : Request → FlatDisk × List UInt8
  | .read offset size => (disk, Extent.extract disk offset.toNat size.toNat)
  | .write offset data => (Extent.overwrite disk offset.toNat data, [])

/-- What a sequence of requests returns, request by request. -/
def replies (disk : FlatDisk) : List Request → List (List UInt8)
  | [] => []
  | r :: rest => (disk.execute r).2 :: replies (disk.execute r).1 rest

end FlatDisk

/-- What a sequence of requests on the minions returns, executed one after another. -/
def Minions.replies (minions : Minions) : List (Env × Request) → Option (List (List UInt8))
  | [] => some []
  | (env, r) :: rest => do
      let (minions, reply) ← minions.execute env r
      let replies ← replies minions rest
      return reply :: replies

/-! ### The refinement -/

variable {minions : Minions} {disk : FlatDisk}

/-- A request inside of one stripe keeps the minions a mirror of the array, and returns what the
array returns. -/
theorem Minions.Ready.refines (h : minions.Ready)
    (hmirror : Mirrors place device minions.bytes disk) (env : Env) {r : Request}
    (hr : r.FitsStripe) :
    ∃ minions', minions.execute env r = some (minions', (disk.execute r).2) ∧
      minions'.Ready ∧ Mirrors place device minions'.bytes (disk.execute r).1 := by
  have hin : ∀ k < r.length, r.offset + k ∈ device := fun k hk => by
    have := hr.le
    exact Nat.lt_of_lt_of_le (Nat.add_lt_add_left hk _) this
  cases r with
  | read offset size =>
      obtain ⟨minions', hexec, hkeep, hbytes⟩ := execute_read_of_ready env (h _) hr.1
        (hr.2.trans (by decide))
      refine ⟨minions', ?_, fun i => hkeep i (h i), hbytes ▸ hmirror⟩
      have hextract := hmirror.extract false (fun p => ((primary offset.toNat).1, p))
        (primary offset.toNat).2 hin fun k hk => place_add false hr.2 hk
      rw [hexec]
      exact congrArg (fun data => some (minions', data)) hextract
  | write offset data =>
      obtain ⟨minions', hexec, hkeep, hstores⟩ := h.sound.stores env hr fun c => h _
      exact ⟨minions', hexec, fun i => hkeep i (h i),
        hmirror.store separate_place hin hstores⟩

/-- Ready minions that mirror an array return what the array returns. -/
theorem Minions.Ready.replies_eq (requests : List (Env × Request)) (h : minions.Ready)
    (hmirror : Mirrors place device minions.bytes disk)
    (hfit : ∀ r ∈ requests, r.2.FitsStripe) :
    minions.replies requests = some (disk.replies (requests.map Prod.snd)) := by
  -- induction on the requests; what carries it is that the minions mirror the array
  induction requests generalizing minions disk with
  | nil => rfl
  | cons head rest ih =>
      obtain ⟨env, r⟩ := head
      obtain ⟨minions', hexec, hready, hmirror'⟩ := h.refines hmirror env
        (hfit _ (List.mem_cons_self ..))
      have hrest := ih hready hmirror' fun r hr => hfit r (List.mem_cons_of_mem _ hr)
      simp only [Minions.replies, hexec, Option.bind_eq_bind, Option.bind_some, hrest,
        Option.pure_def, List.map_cons, FlatDisk.replies]

/-- Minions whose files are 8 MiB of zeros. -/
def Minions.start (volumes : ℕ → Volume) : Minions :=
  fun i => Minion.start (volumes i).fs (.zeros fileSize)

/-- **Flat-disk refinement.** From files of zeros, on any volumes, every sequence of requests inside of
the stripes of the device returns what one array of zeros returns. -/
theorem replies_eq_flatDisk (volumes : ℕ → Volume) (requests : List (Env × Request))
    (hfit : ∀ r ∈ requests,
      r.2.offset < memory ∧ r.2.offset % minionSize + r.2.length ≤ minionSize) :
    (Minions.start volumes).replies requests =
      some (FlatDisk.zero.replies (requests.map Prod.snd)) :=
  Minions.Ready.replies_eq requests (fun _ => Minion.ready_start _ _) (fun _ _ _ => rfl) hfit

/-- Two bytes written at the end of the first stripe and read back, with a byte before them. -/
theorem replies_eq_flatDisk_end_of_stripe :
    (Minions.start fun _ => .ext4).replies
        [(Env.zero, .write 4194302 [7, 8]), (Env.zero, .read 4194301 3)] =
      some [[], [0, 7, 8]] :=
  replies_eq_flatDisk (fun _ => .ext4) [(Env.zero, .write 4194302 [7, 8]), (Env.zero, .read 4194301 3)]
    (by decide)

/-- The empty read at the end of the device meets the two bounds, and yet the vector of minions is
indexed out of range. -/
theorem empty_read_at_end :
    (12582912 : UInt64).toNat + (0 : UInt32).toNat ≤ memory ∧
      (12582912 : UInt64).toNat % minionSize + (0 : UInt32).toNat ≤ minionSize ∧
      (Minions.start fun _ => .ext4).replies [(Env.zero, .read 12582912 0)] = none ∧
      FlatDisk.zero.replies [.read 12582912 0] = [[]] := by
  have hnone : (Minions.start fun _ => .ext4).execute Env.zero (.read 12582912 0) = none :=
    Minions.execute_read_eq_none _ _ (by decide)
  refine ⟨by decide, by decide, ?_, by decide⟩
  rw [Minions.replies, hnone]
  rfl

end IotDrive
