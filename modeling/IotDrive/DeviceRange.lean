/-
Which requests stay on the device.

No layer between the NBD connection and the minions looks at the range of a request.  The offset
selects a minion through an unchecked index, and the length is sent on with the offset in the
minion's file.  This module proves for which of the requests that `NBDProxy` can decode all that is
addressed exists.

Main definitions:

* `TPTask.run` — the requests that the command for some arguments sends;
* `Transmission.Addresses` — the bytes of a file that a request is for;
* `StaysOnDevice` — nothing else than the three minions and the bytes of their files is addressed.

Main results:

* `staysOnDevice_read_iff`, `staysOnDevice_write_iff` — for a read and for a write;
* `requests_stay_on_device` — **the range** of every request that is decoded.
-/

import IotDrive.Command

set_option relaxedAutoImplicit false
set_option autoImplicit false

namespace IotDrive

open LittleEndian

/-! ### From the connection to the minions -/

/-- `TPTask::Run` in the master, up to the poller: what the command registered for the key sends.
There is no result when an index is out of range, or when no command is registered. -/
def TPTask.run (heap : Heap) (ogUid backupUid : ThreadSafeUID) : IArgsKey → Option (List Sent)
  | .readArgsKey key offset size =>
      if key = readCmdKey then do
        let sent ← ReadCommand.execute heap ogUid offset size
        return [sent]
      else none
  | .writeArgsKey key offset size data =>
      if key = writeCmdKey then do
        let (og, backup) ← WriteCommand.execute heap ogUid backupUid offset size data
        return [og, backup]
      else none
  | _ => none

/-- The bytes of a file that the request in the buffer is for: as many as the size in its header
says, from the offset behind the header on. -/
def Transmission.Addresses (t : Transmission) (p : ℕ) : Prop :=
  let message := t.buffer.written
  let offset := value ((message.drop 32).take 8)
  offset ≤ p ∧ p < offset + (peekedSize message).toNat

/-- The command runs, and sends requests to minions that exist for bytes of their files only; it may
also send none. -/
def StaysOnDevice (heap : Heap) (ogUid backupUid : ThreadSafeUID) (args : IArgsKey) : Prop :=
  ∃ sent, TPTask.run heap ogUid backupUid args = some sent ∧
    ∀ s ∈ sent, s.1 < minionCount ∧ ∀ p, s.2.Addresses p → p < fileSize

/-- The request starts on the device, and does not reach past the end of the files: a read goes to
the primary in the lower half of a file, a write also to the backup in the upper half. -/
def IArgsKey.InRange : IArgsKey → Prop
  | .readArgsKey _ offset size =>
      offset.toNat < memory ∧ offset.toNat % minionSize + size.toNat ≤ fileSize
  | .writeArgsKey _ offset size _ =>
      offset.toNat < memory ∧ offset.toNat % minionSize + size.toNat ≤ minionSize
  | _ => False

/-! ### What a request addresses -/

theorem Transmission.addresses_iff {t : Transmission} {m : AMessage} {offset : UInt64}
    {rest : List UInt8}
    (h : t.buffer.written = m.format ++ (LittleEndian.bytes 8 offset.toNat ++ rest)) {p : ℕ} :
    t.Addresses p ↔ offset.toNat ≤ p ∧ p < offset.toNat + m.size.toNat := by
  have hoffset : value ((t.buffer.written.drop 32).take 8) = offset.toNat := by
    rw [h, List.drop_left' m.length_format, List.take_left' (length_bytes 8 _)]
    exact value_bytes offset.toNat_lt
  have hsize : peekedSize t.buffer.written = m.size := by rw [h, peekedSize_format]
  simp only [Addresses, hoffset, hsize]

section Requests

variable (heap : ℕ → UInt8) (uid : ThreadSafeUID) {offset : UInt64} {size : UInt32}

theorem MinionProxy.addresses_readRequest {p : ℕ} :
    (MinionProxy.readRequest heap offset size uid).Addresses p ↔
      offset.toNat ≤ p ∧ p < offset.toNat + size.toNat := by
  let m := ReadMsg.make offset size uid
  have hbuf : (MinionProxy.readRequest heap offset size uid).buffer.written = m.format := by
    change (m.toBuffer (.start heap)).written = m.format
    rw [ReadMsg.toBuffer_eq, WriteCursor.written_store]
    rfl
  rw [ReadMsg.format, withChecksum, ReadMsg.body, List.append_assoc] at hbuf
  exact Transmission.addresses_iff hbuf

theorem MinionProxy.addresses_writeRequest {data : SharedData} {xs : List UInt8}
    (hdata : data.Holds size xs) {p : ℕ} :
    (MinionProxy.writeRequest heap offset size data uid).Addresses p ↔
      offset.toNat ≤ p ∧ p < offset.toNat + size.toNat := by
  let m := WriteMsg.make offset size data uid
  have hbuf : (MinionProxy.writeRequest heap offset size data uid).buffer.written = m.format xs := by
    change (m.toBuffer (.start heap)).written = m.format xs
    rw [m.toBuffer_eq hdata, WriteCursor.written_store]
    rfl
  rw [WriteMsg.format, withChecksum, WriteMsg.body, List.append_assoc, List.append_assoc] at hbuf
  exact Transmission.addresses_iff hbuf

end Requests

/-- All bytes of an extent that is not behind the end of a file are in the file when the extent does
not reach past the end, and only then. -/
theorem extent_in_file_iff {offset size : ℕ} (h : offset < fileSize) :
    (∀ p, offset ≤ p ∧ p < offset + size → p < fileSize) ↔ offset + size ≤ fileSize := by
  constructor
  · intro hall
    by_contra hpast
    have hlast := hall (offset + size - 1) (by omega)
    omega
  · rintro hle p ⟨-, hp⟩
    exact lt_of_lt_of_le hp hle

/-! ### The two commands -/

section Commands

variable (heap : Heap) (ogUid backupUid : ThreadSafeUID) (offset : UInt64) (size : UInt32)

/-- A read addresses the primary of its offset only. -/
theorem staysOnDevice_read_iff :
    StaysOnDevice heap ogUid backupUid (.readArgsKey readCmdKey offset size) ↔
      offset.toNat < memory ∧ offset.toNat % minionSize + size.toNat ≤ fileSize := by
  by_cases ho : offset.toNat < memory
  · obtain ⟨og, backup, hplace, hog, -⟩ := Raid01.offsetToProxy_eq ho
    obtain ⟨-, hidx, -, hlower, -⟩ := place_halves ho
    have hindex : og.1 = (primary offset.toNat).1 := congrArg Prod.fst hog
    have hoff : og.2.toNat = (primary offset.toNat).2 := congrArg Prod.snd hog
    have hrun : TPTask.run heap ogUid backupUid (.readArgsKey readCmdKey offset size) =
        some [(og.1, MinionProxy.readRequest (heap 0) og.2 size ogUid)] := by
      simp [TPTask.run, ReadCommand.execute, hplace]
    have hfile : (primary offset.toNat).2 < fileSize := hlower.trans (by decide)
    rw [StaysOnDevice, hrun, and_iff_right ho]
    simp only [Option.some.injEq, exists_eq_left', List.mem_singleton, forall_eq,
      MinionProxy.addresses_readRequest, hindex, hoff, extent_in_file_iff hfile]
    exact and_iff_right hidx
  · have hnone := Raid01.offsetToProxy_eq_none (Nat.le_of_not_lt ho)
    refine iff_of_false ?_ fun h => ho h.1
    rintro ⟨sent, hrun, -⟩
    simp [TPTask.run, ReadCommand.execute, hnone] at hrun

/-- A write addresses the primary and the backup of its offset. -/
theorem staysOnDevice_write_iff {data : SharedData} {xs : List UInt8}
    (hdata : data.Holds size xs) :
    StaysOnDevice heap ogUid backupUid (.writeArgsKey writeCmdKey offset size data) ↔
      offset.toNat < memory ∧ offset.toNat % minionSize + size.toNat ≤ minionSize := by
  by_cases ho : offset.toNat < memory
  · obtain ⟨og, bk, hplace, hog, hbackup⟩ := Raid01.offsetToProxy_eq ho
    obtain ⟨-, hidx, hidx', hlower, -, hupper⟩ := place_halves ho
    have hindex : og.1 = (primary offset.toNat).1 := congrArg Prod.fst hog
    have hoff : og.2.toNat = (primary offset.toNat).2 := congrArg Prod.snd hog
    have hindex' : bk.1 = (backup offset.toNat).1 := congrArg Prod.fst hbackup
    have hoff' : bk.2.toNat = (backup offset.toNat).2 := congrArg Prod.snd hbackup
    have hrun : TPTask.run heap ogUid backupUid (.writeArgsKey writeCmdKey offset size data) =
        some [(og.1, MinionProxy.writeRequest (heap 0) og.2 size data ogUid),
          (bk.1, MinionProxy.writeRequest (heap 1) bk.2 size data backupUid)] := by
      simp [TPTask.run, WriteCommand.execute, hplace]
    have hfile : (primary offset.toNat).2 < fileSize := hlower.trans (by decide)
    rw [StaysOnDevice, hrun, and_iff_right ho]
    simp only [Option.some.injEq, exists_eq_left', List.mem_cons, forall_eq_or_imp,
      List.not_mem_nil, false_imp_iff, implies_true, and_true,
      MinionProxy.addresses_writeRequest _ _ hdata, hindex, hoff, hindex', hoff',
      extent_in_file_iff hfile, extent_in_file_iff hupper, hidx, hidx', true_and]
    simp only [primary, backup, fileSize_eq, minionSize_eq]
    omega
  · have hnone := Raid01.offsetToProxy_eq_none (Nat.le_of_not_lt ho)
    refine iff_of_false ?_ fun h => ho h.1
    rintro ⟨sent, hrun, -⟩
    simp [TPTask.run, WriteCommand.execute, hnone] at hrun

end Commands

/-! ### Every request -/

/-- What `NBDProxy` decodes is a read, or a write with an array of its size. -/
theorem NBDProxy.decode_cases {kind : MessageKind} {buffer : List UInt8} {args : IArgsKey}
    (h : NBDProxy.decode kind buffer = .ok args) :
    (∃ offset size, args = .readArgsKey readCmdKey offset size) ∨
      ∃ offset size data, data.length = size.toNat ∧
        args = .writeArgsKey writeCmdKey offset size (some data) := by
  by_cases hkind : kind = .nbdWriteMsg
  · subst hkind
    obtain ⟨⟨msg, rest⟩, hmsg, hargs⟩ := bind_eq_ok.1 h
    cases hargs
    obtain ⟨⟨header, b₁⟩, h₁, hmsg⟩ := bind_eq_ok.1 hmsg
    obtain ⟨⟨offset, b₂⟩, h₂, hmsg⟩ := bind_eq_ok.1 hmsg
    obtain ⟨⟨data, b₃⟩, h₃, hmsg⟩ := bind_eq_ok.1 hmsg
    cases hmsg
    obtain ⟨hlen, -⟩ := eq_append_of_loadBytes h₃
    exact .inr ⟨_, _, data, hlen, rfl⟩
  · have hread : ∃ offset size, args = .readArgsKey readCmdKey offset size := by
      cases kind with
      | nbdWriteMsg => exact absurd rfl hkind
      | _ =>
          obtain ⟨⟨msg, rest⟩, -, hargs⟩ := bind_eq_ok.1 h
          cases hargs
          exact ⟨_, _, rfl⟩
    exact .inl hread

/-- Every request stays on the device that is in range, and no other.  This holds of all that
`NBDProxy` decodes, whatever is on the stream and however it is delivered. -/
theorem requests_stay_on_device (c : NBDProxy.Call) (stream : List UInt8) (heap : Heap)
    (ogUid backupUid : ThreadSafeUID) {args : IArgsKey}
    (hargs : (NBDProxy.getArgsKey c stream).1 = .ok args) :
    StaysOnDevice heap ogUid backupUid args ↔ args.InRange := by
  have hdecode : ∃ kind buffer, NBDProxy.decode kind buffer = .ok args := by
    simp only [NBDProxy.getArgsKey] at hargs
    split at hargs
    · cases hargs
    · exact ⟨_, _, hargs⟩
  obtain ⟨kind, buffer, hdecode⟩ := hdecode
  rcases NBDProxy.decode_cases hdecode with ⟨offset, size, rfl⟩ | ⟨offset, size, data, hlen, rfl⟩
  · exact staysOnDevice_read_iff heap ogUid backupUid offset size
  · exact staysOnDevice_write_iff heap ogUid backupUid offset size ⟨rfl, hlen⟩

/-- The last two bytes of the first stripe are written. -/
theorem requests_stay_on_device_endOfStripe :
    let uid : ThreadSafeUID := ⟨0, 0, 0, 0⟩
    StaysOnDevice (fun _ _ => 0) uid uid (.writeArgsKey writeCmdKey 4194302 2 (some [1, 2])) := by
  intro uid
  have hdata : Payload [1, 2] 2 := ⟨rfl, by decide⟩
  have hargs := (NBDProxy.receives_nbdWrite uid 4194302 2 hdata ⟨fun _ _ => 0, uid, 8, 42⟩
    (Nat.le_refl 8) (by simp) []).2
  have hstays := requests_stay_on_device _ _ (fun _ _ => 0) uid uid (congrArg Prod.fst hargs)
  exact hstays.2 ⟨by decide, by decide⟩

/-- A write of two blocks, one on each side of the end of the first stripe, is sent to the backup for
bytes behind the end of its file. -/
theorem write_across_stripes_leaves_device :
    ¬∀ (c : NBDProxy.Call) (stream : List UInt8) (heap : Heap) (ogUid backupUid : ThreadSafeUID)
      (args : IArgsKey), (NBDProxy.getArgsKey c stream).1 = .ok args →
        StaysOnDevice heap ogUid backupUid args := by
  intro h
  let uid : ThreadSafeUID := ⟨0, 0, 0, 0⟩
  obtain ⟨data, hlen⟩ : ∃ data : List UInt8, data.length = 8192 :=
    ⟨List.replicate 8192 0, List.length_replicate⟩
  have hdata : Payload data 8192 := ⟨hlen, by decide⟩
  have hmessage : ((NBDWriteMsg.make 4190208 8192 (some data) uid).format data).length ≤ 8232 := by
    rw [NBDWriteMsg.length_format, hlen]
  have hargs := (NBDProxy.receives_nbdWrite uid 4190208 8192 hdata
    ⟨fun _ _ => 0, uid, 8, 8232⟩ (Nat.le_refl 8) hmessage []).2
  have hstays := h _ _ (fun _ _ => 0) uid uid _ (congrArg Prod.fst hargs)
  have hrange := (staysOnDevice_write_iff (fun _ _ => 0) uid uid 4190208 8192 hdata.holds).1 hstays
  exact absurd hrange.2 (by decide)

/-- Behind the end of the device the first index is out of range, also for a read of nothing. -/
example : ¬StaysOnDevice (fun _ _ => 0) ⟨0, 0, 0, 0⟩ ⟨0, 0, 0, 0⟩
    (.readArgsKey readCmdKey 12582912 0) := by
  rw [staysOnDevice_read_iff]
  decide

end IotDrive
