/-
The commands of the master, from `command.cpp`, and what becomes of one request when every
datagram is delivered once and unchanged.

A read is sent to the first place of its offset only, a write to both places.  Each minion serves
what it receives, and the response goes back through `ResponseProxy`.

Main definitions:

* `ReadCommand.execute`, `WriteCommand.execute` — the requests a command sends;
* `Minions.deliver`, `Minions.execute` — a request reaches its minion, a block request as a whole;
* `Request.FitsStripe` — a block request inside of the device that does not leave its stripe.

Main results:

* `Minions.execute_read_of_ready`, `Minions.Sound.execute_write` — what a block request does, also
  when it crosses a stripe boundary or finds a failed stream.
-/

import IotDrive.Minion

set_option relaxedAutoImplicit false
set_option autoImplicit false

namespace IotDrive

/-- A transmission, and the index in `m_minion_proxy_vector` of the minion it is sent to. -/
abbrev Sent := ℕ × Transmission

/-- `ReadCommand::Execute` up to its poller, with the UID that `RegisterCommand` returned. -/
def ReadCommand.execute (heap : Heap) (ogUid : ThreadSafeUID) (offset : UInt64) (size : UInt32) :
    Option Sent := do
  let (og, _) ← Raid01.offsetToProxy offset
  return (og.1, MinionProxy.readRequest (heap 0) og.2 size ogUid)

/-- `WriteCommand::Execute` up to its poller, with the UIDs that `RegisterCommand` returned. -/
def WriteCommand.execute (heap : Heap) (ogUid backupUid : ThreadSafeUID) (offset : UInt64)
    (size : UInt32) (data : SharedData) : Option (Sent × Sent) := do
  let (og, backup) ← Raid01.offsetToProxy offset
  return ((og.1, MinionProxy.writeRequest (heap 0) og.2 size data ogUid),
    (backup.1, MinionProxy.writeRequest (heap 1) backup.2 size data backupUid))

/-! ### Block requests -/

/-- A read of a number of bytes, or a write of given bytes. -/
inductive Request
  | read (offset : UInt64) (size : UInt32)
  | write (offset : UInt64) (data : List UInt8)

/-- The logical offset of a request. -/
def Request.offset : Request → ℕ
  | .read offset _ => offset.toNat
  | .write offset _ => offset.toNat

/-- The length of a request. -/
def Request.length : Request → ℕ
  | .read _ size => size.toNat
  | .write _ data => data.length

/-- The request lies inside of one stripe of the device. -/
def Request.FitsStripe (r : Request) : Prop :=
  r.offset < memory ∧ r.offset % minionSize + r.length ≤ minionSize

instance (r : Request) : Decidable r.FitsStripe := inferInstanceAs (Decidable (_ ∧ _))

theorem Request.FitsStripe.le {r : Request} (h : r.FitsStripe) : r.offset + r.length ≤ memory := by
  obtain ⟨ho, hn⟩ := h
  rw [memory_eq] at ho ⊢
  rw [minionSize_eq] at hn
  omega

/-- What the code cannot choose in the handling of one request: the UIDs, and what the heap and
the factories give to the calls made for it. -/
structure Env where
  ogUid : ThreadSafeUID
  backupUid : ThreadSafeUID
  heap : ℕ → Heap
  fresh : ℕ → ThreadSafeUID

/-- The environment in which everything left to chance is zero. -/
def Env.zero : Env := ⟨⟨0, 0, 0, 0⟩, ⟨0, 0, 0, 0⟩, fun _ _ _ => 0, fun _ => ⟨0, 0, 0, 0⟩⟩

/-- The minions, by their index in `m_minion_proxy_vector`. -/
abbrev Minions := ℕ → Minion

namespace Minions

/-- The bytes of all files, by minion and file offset. -/
def bytes (minions : Minions) (site : ℕ × ℕ) : UInt8 := (minions site.1).byte site.2

/-- A request reaches its minion, which serves it. -/
def deliver (heap : Heap) (fresh : ThreadSafeUID) (minions : Minions) (sent : Sent) :
    Option (Minions × Transmission) := do
  let (minion, response) ← (minions sent.1).serve heap fresh sent.2.bytes
  return (Function.update minions sent.1 minion, response)

/-- The response to a read reaches the master, which passes its data on. -/
def receive (heap : Heap) (fresh : ThreadSafeUID) (response : Transmission) :
    Option (List UInt8) :=
  match (ResponseProxy.getArgsKey heap fresh response.bytes []).1 with
  | .ok effects => some (effects.filterMap ResponseEffect.notified).flatten
  | .error _ => none

/-- A block request, from the command of the master to the response of the minions: the minions
afterwards, and the bytes that a read returns. -/
def execute (env : Env) (minions : Minions) : Request → Option (Minions × List UInt8)
  | .read offset size => do
      let sent ← ReadCommand.execute (env.heap 0) env.ogUid offset size
      let (minions, response) ← minions.deliver (env.heap 1) (env.fresh 1) sent
      let data ← receive (env.heap 2) (env.fresh 2) response
      return (minions, data)
  | .write offset data => do
      let size := UInt32.ofNat data.length
      let (og, backup) ← WriteCommand.execute (env.heap 0) env.ogUid env.backupUid offset size
        (some data)
      let (minions, _) ← minions.deliver (env.heap 1) (env.fresh 1) og
      let (minions, _) ← minions.deliver (env.heap 2) (env.fresh 2) backup
      return (minions, [])

/-- A read response reaches the master. -/
theorem receive_readResponse (heap : Heap) (fresh : ThreadSafeUID) (hp : ℕ → UInt8)
    (uid : ThreadSafeUID) {size : UInt32} {data : List UInt8} (hdata : Payload data size) :
    receive heap fresh (MasterProxy.readResponse hp uid true (some data) size) = some data := by
  rw [receive, (MasterProxy.readResponse_carries hp uid size true hdata).2,
    (ResponseProxy.receives_readResponse uid size true hdata heap fresh []).2]
  have hnotified : List.filterMap ResponseEffect.notified
      [.registerResponse uid, .notifySucces (some data) size] = [data.take size.toNat] := rfl
  simp only [if_true, hnotified, List.flatten_cons, List.flatten_nil, List.append_nil,
    ← hdata.length, List.take_length]

variable {minions : Minions} {offset : UInt64}

/-- The primary and the backup of an address are on different minions. -/
theorem backup_ne_primary (a : ℕ) : (backup a).1 ≠ (primary a).1 := by
  simp only [backup, primary, minionCount]
  omega

/-- Both places of an address are in the file. -/
theorem place_lt (c : Bool) (a : ℕ) : (place c a).2 < fileSize := by
  rw [fileSize_eq]
  cases c <;> simp only [place, primary, backup, minionSize_eq] <;> grind

/-- What is written from a place on ends where there is room for it. -/
theorem place_add_le (c : Bool) (a : ℕ) {offset' : UInt64} (hoffset' : offset'.toNat = (place c a).2)
    {n : ℕ} (hn : n ≤ memory) : offset'.toNat + n ≤ fileSize + memory := by
  have hplace := place_lt c a
  omega

/-- A read inside of the device executes a read command at the primary, and the bytes that come
back are those of its response. -/
theorem execute_read_eq (env : Env) {size : UInt32} (ho : offset.toNat < memory)
    (hsize : size.toNat ≤ memory) :
    ∃ offset' : UInt64, offset'.toNat = (primary offset.toNat).2 ∧ ∀ m' data,
      MinionReadCmd.execute (env.heap 1) (minions (primary offset.toNat).1) offset' size
          env.ogUid =
        (m', MasterProxy.readResponse (env.heap 1 3) env.ogUid true (some data) size) →
      data.length = size.toNat →
      minions.execute env (.read offset size) =
        some (Function.update minions (primary offset.toNat).1 m', data) := by
  obtain ⟨og, backup, hplace, hog, -⟩ := Raid01.offsetToProxy_eq ho
  have hidx : og.1 = (primary offset.toNat).1 := congrArg Prod.fst hog
  refine ⟨og.2, congrArg Prod.snd hog, ?_⟩
  intro m' data hexec hlen
  have hreceive := receive_readResponse (env.heap 2) (env.fresh 2) (env.heap 1 3) env.ogUid
    (Payload.mk hlen hsize)
  rw [← hidx] at hexec ⊢
  simp only [execute, ReadCommand.execute, hplace, deliver, Option.bind_eq_bind,
    Option.bind_some, Option.pure_def, Minion.serve_readRequest, hexec, hreceive]

/-- A write inside of the device executes a write command at each of the two places. -/
theorem execute_write_eq (env : Env) {data : List UInt8} (ho : offset.toNat < memory)
    (hlen : data.length ≤ memory) :
    ∃ og backup' : UInt64, og.toNat = (primary offset.toNat).2 ∧
      backup'.toNat = (backup offset.toNat).2 ∧ data.length = (UInt32.ofNat data.length).toNat ∧
      minions.execute env (.write offset data) =
        some (Function.update (Function.update minions (primary offset.toNat).1
            (MinionWriteCmd.execute (env.heap 1) (minions (primary offset.toNat).1) og
              (UInt32.ofNat data.length) (some data) env.ogUid).1) (backup offset.toNat).1
            (MinionWriteCmd.execute (env.heap 2) (minions (backup offset.toNat).1) backup'
              (UInt32.ofNat data.length) (some data) env.backupUid).1, []) := by
  obtain ⟨og, bk, hplace, hog, hbackup⟩ := Raid01.offsetToProxy_eq ho
  have hogIdx : og.1 = (primary offset.toNat).1 := congrArg Prod.fst hog
  have hbackupIdx : bk.1 = (backup offset.toNat).1 := congrArg Prod.fst hbackup
  have hdata := Payload.of_le hlen
  have hne : bk.1 ≠ og.1 := by
    rw [hogIdx, hbackupIdx]
    exact backup_ne_primary _
  refine ⟨og.2, bk.2, congrArg Prod.snd hog, congrArg Prod.snd hbackup, hdata.length, ?_⟩
  rw [← hogIdx, ← hbackupIdx]
  simp only [execute, WriteCommand.execute, hplace, deliver, Option.bind_eq_bind,
    Option.bind_some, Option.pure_def, Minion.serve_writeRequest _ _ _ _ _ hdata,
    Function.update_of_ne hne]

/-- A request behind the end of the device is not executed. -/
theorem execute_write_eq_none (env : Env) (data : List UInt8) (h : memory ≤ offset.toNat) :
    minions.execute env (.write offset data) = none := by
  simp only [execute, WriteCommand.execute, Raid01.offsetToProxy_eq_none h]
  rfl

theorem execute_read_eq_none (env : Env) (size : UInt32) (h : memory ≤ offset.toNat) :
    minions.execute env (.read offset size) = none := by
  simp only [execute, ReadCommand.execute, Raid01.offsetToProxy_eq_none h]
  rfl

/-! ### Sound minions -/

/-- Every minion is sound. -/
def Sound (minions : Minions) : Prop := ∀ i, (minions i).Sound

/-- Every minion is ready. -/
def Ready (minions : Minions) : Prop := ∀ i, (minions i).Ready

theorem Ready.sound (h : minions.Ready) : minions.Sound := fun i => Or.inl (h i)

/-- A read leaves the bytes alone. -/
theorem Sound.execute_read (h : minions.Sound) (env : Env) {size : UInt32}
    (ho : offset.toNat < memory) (hsize : size.toNat ≤ memory) :
    ∃ minions' reply, minions.execute env (.read offset size) = some (minions', reply) ∧
      reply.length = size.toNat ∧ minions'.Sound ∧ minions'.bytes = minions.bytes := by
  obtain ⟨offset', hoffset', hexecute⟩ := execute_read_eq env ho hsize
  obtain ⟨m', data, hexec, hlen, hsound, hbyte⟩ := (h (primary offset.toNat).1).read
    (env.heap 1) (Nat.le_of_add_right_le (place_add_le false _ hoffset' hsize)) size env.ogUid
  refine ⟨_, data, hexecute m' data hexec hlen, hlen, ?_, funext ?_⟩
  · intro i
    by_cases hi : i = (primary offset.toNat).1
    · subst hi
      simpa using hsound
    · simpa [hi] using h i
  · intro site
    by_cases hi : site.1 = (primary offset.toNat).1
    · simp [bytes, hi, hbyte]
    · simp [bytes, hi]

/-- A read that stays inside of the file of a ready minion returns the bytes from its first place
on, and leaves all minions as ready as they were. -/
theorem execute_read_of_ready (env : Env) {size : UInt32}
    (hready : (minions (primary offset.toNat).1).Ready) (ho : offset.toNat < memory)
    (hin : offset.toNat % minionSize + size.toNat ≤ fileSize) :
    ∃ minions', minions.execute env (.read offset size) = some (minions',
        Extent.extract (minions (primary offset.toNat).1).byte (primary offset.toNat).2
          size.toNat) ∧
      (∀ i, (minions i).Ready → (minions' i).Ready) ∧ minions'.bytes = minions.bytes := by
  have hsize : size.toNat ≤ memory :=
    le_trans (le_trans (Nat.le_add_left _ _) hin) (by decide)
  obtain ⟨offset', hoffset', hexecute⟩ := execute_read_eq env ho hsize
  obtain ⟨m', hexec, hready', hbyte⟩ := hready.read (env.heap 1)
    (by rw [hoffset']; exact hin) env.ogUid
  rw [hoffset'] at hexec
  refine ⟨_, hexecute m' _ hexec (Extent.length_extract _ _ _), ?_, funext ?_⟩
  · intro i hi
    by_cases hi' : i = (primary offset.toNat).1
    · subst hi'
      simpa using hready'
    · simpa [hi'] using hi
  · intro site
    by_cases hi : site.1 = (primary offset.toNat).1
    · simp [bytes, hi, hbyte]
    · simp [bytes, hi]

/-- What holds of two minions that were replaced and of all others holds of all. -/
theorem forall_update_update (P : ℕ → Minion → Prop) {i j : ℕ} {m₁ m₂ : Minion} (hne : j ≠ i)
    (h₁ : P i m₁) (h₂ : P j m₂) (h : ∀ k, k ≠ i → k ≠ j → P k (minions k)) :
    ∀ k, P k (Function.update (Function.update minions i m₁) j m₂ k) := by
  intro k
  by_cases hj : k = j
  · subst hj
    rwa [Function.update_self]
  · rw [Function.update_of_ne hj]
    by_cases hi : k = i
    · subst hi
      rwa [Function.update_self]
    · rw [Function.update_of_ne hi]
      exact h k hi hj

/-- A write stores its bytes from its two places on, whatever comes there. -/
theorem Sound.execute_write (h : minions.Sound) (env : Env) {data : List UInt8}
    (ho : offset.toNat < memory) (hlen : data.length ≤ memory) :
    ∃ minions', minions.execute env (.write offset data) = some (minions', []) ∧
      minions'.Sound ∧ (∀ i, (minions i).Ready → (minions' i).Ready) ∧
      ∀ i, (minions' i).byte =
        if i = (primary offset.toNat).1 then (minions i).stored (primary offset.toNat).2 data
        else if i = (backup offset.toNat).1 then (minions i).stored (backup offset.toNat).2 data
        else (minions i).byte := by
  obtain ⟨og, bk, hog, hbackup, hdata, hexecute⟩ := execute_write_eq env ho hlen
  obtain ⟨m₁, hexec₁, hsound₁, hready₁, hbyte₁⟩ := (h (primary offset.toNat).1).write
    (env.heap 1) (place_add_le false _ hog (hdata ▸ hlen)) hdata env.ogUid
  obtain ⟨m₂, hexec₂, hsound₂, hready₂, hbyte₂⟩ := (h (backup offset.toNat).1).write
    (env.heap 2) (place_add_le true _ hbackup (hdata ▸ hlen)) hdata env.backupUid
  rw [hexec₁, hexec₂] at hexecute
  rw [hog] at hbyte₁
  rw [hbackup] at hbyte₂
  have hne := backup_ne_primary offset.toNat
  refine ⟨_, hexecute, ?_, ?_, ?_⟩
  · exact forall_update_update (fun _ m => m.Sound) hne hsound₁ hsound₂ fun i _ _ => h i
  · exact forall_update_update (fun i m => (minions i).Ready → m.Ready) hne hready₁ hready₂
      fun i _ _ hi => hi
  · refine forall_update_update (fun i m => m.byte =
      if i = (primary offset.toNat).1 then (minions i).stored (primary offset.toNat).2 data
      else if i = (backup offset.toNat).1 then (minions i).stored (backup offset.toNat).2 data
      else (minions i).byte) hne ?_ ?_ ?_
    · rw [if_pos rfl, hbyte₁]
    · rw [if_neg hne, if_pos rfl, hbyte₂]
    · intro i hi hi'
      rw [if_neg hi, if_neg hi']

end Minions

end IotDrive
