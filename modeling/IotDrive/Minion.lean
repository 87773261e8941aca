/-
The storage commands of a minion, from `command.cpp`.

A minion keeps its half of two stripes in one file, through one stream that all commands share.
The first command of a process fills the file with zeros.

Main definitions:

* `Volume` — a file system with room for the file of a minion;
* `Minion` — the stream and the static flag of `GetBinFile`;
* `Minion.getBinFile`, `MinionReadCmd.execute`, `MinionWriteCmd.execute` — the commands;
* `Minion.serve` — a datagram from the socket to the response: `MasterProxy::GetArgsKey`, then
  `TPTask::Run`;
* `Minion.Ready` — the stream is good, and the file is full or the zero-fill changes no byte;
* `Minion.Failed` — the stream has failed, which is for good.

Main results:

* `Minion.Ready.write`, `Minion.Ready.read` — what the commands do on a ready minion;
* `Minion.Failed.write`, `Minion.Failed.read` — what they do on a failed one;
* `Minion.serve_readRequest`, `Minion.serve_writeRequest` — a request that reaches a minion is
  executed.
-/

import IotDrive.Agreement
import IotDrive.Library.FStream

set_option relaxedAutoImplicit false
set_option autoImplicit false

namespace IotDrive

/-- The file system that the file of a minion is on.  It has room for the file, and for a write of the
master that begins in it. -/
structure Volume where
  fs : FileSystem
  fits : fs.Fits (fileSize + memory)

/-- An `ext4` with blocks of 4096 bytes and free space. -/
def Volume.ext4 : Volume where
  fs :=
    { maxOffset := 2 ^ 44 - 4096
      maxOffset_lt := by decide
      stores := fun _ offset n => min n (2 ^ 44 - 4096 - offset) }
  fits :=
    { offset := by decide
      takes := by
        intro f offset n hend
        have hsize : fileSize + memory ≤ 2 ^ 44 - 4096 := by decide
        refine Nat.le_min.2 ⟨le_rfl, ?_⟩
        omega }

/-- The storage of a minion process: `bin_file` and the flag `is_init` of `GetBinFile`. -/
structure Minion where
  binFile : FStream
  isInit : Bool

/-- The loop that writes `n` zeros, one after the other. -/
def zeroFill : ℕ → FStream → FStream
  | 0, s => s
  | n + 1, s => zeroFill n (s.write [0])

/-- `AMinionCmd::GetBinFile`: the first call fills the file with zeros. -/
def Minion.getBinFile (m : Minion) : Minion :=
  if m.isInit then { binFile := (zeroFill fileSize m.binFile).seekp 0, isInit := false } else m

/-- `MinionReadCmd::Execute`: the answer is a success whatever the stream did. -/
def MinionReadCmd.execute (heap : Heap) (m : Minion) (offset : UInt64) (size : UInt32)
    (uid : ThreadSafeUID) : Minion × Transmission :=
  let m := m.getBinFile
  let file := m.binFile.seekg offset
  let (got, file) := file.read size.toNat
  let file := file.seekg 0
  let data := fillBuffer (heap 2) size.toNat got
  ({ m with binFile := file }, MasterProxy.readResponse (heap 3) uid true (some data) size)

/-- `MinionWriteCmd::Execute`: the answer is a success whatever the stream did. -/
def MinionWriteCmd.execute (heap : Heap) (m : Minion) (offset : UInt64) (size : UInt32)
    (data : SharedData) (uid : ThreadSafeUID) : Minion × Transmission :=
  let m := m.getBinFile
  let file := m.binFile.seekp offset
  let file := file.write ((data.getD []).take size.toNat)
  let file := file.seekp 0
  ({ m with binFile := file }, MasterProxy.writeResponse (heap 3) uid true)

/-- `TPTask::Run` in a minion: the command registered for the key executes. -/
def Minion.run (heap : Heap) (m : Minion) (args : IArgsKey) : Option (Minion × Transmission) :=
  match args with
  | .minionReadArgsKey key offset size uid =>
      if key = minionReadCmdKey then some (MinionReadCmd.execute heap m offset size uid) else none
  | .minionWriteArgsKey key offset size data uid =>
      if key = minionWriteCmdKey then some (MinionWriteCmd.execute heap m offset size data uid)
      else none
  | _ => none

/-- A datagram at the front of the socket, decoded and executed. -/
def Minion.serve (heap : Heap) (fresh : ThreadSafeUID) (m : Minion) (head : Datagram) :
    Option (Minion × Transmission) :=
  match (MasterProxy.getArgsKey heap fresh head []).1 with
  | .ok args => m.run heap args
  | .error _ => none

/-- A minion process that has just opened the file `file`. -/
def Minion.start (fs : FileSystem) (file : SparseFile UInt8) : Minion :=
  { binFile := { fs, file, pos := 0, eofbit := false, failbit := false }, isInit := true }

/-- The byte at an offset of the file. -/
def Minion.byte (m : Minion) (p : ℕ) : UInt8 := m.binFile.file.byte p

/-! ### Ready minions -/

namespace Minion

variable {m : Minion}

/-- The stream is good and at the front; the file has been filled, or it is all zero and the fill
is still to come, for which there is room. -/
structure Ready (m : Minion) : Prop where
  fits : m.binFile.fs.Fits (fileSize + memory)
  good : m.binFile.Good
  pos : m.binFile.pos = 0
  full : m.isInit = false → fileSize ≤ m.binFile.file.size
  zero : m.isInit = true → ∀ p, m.byte p = 0

/-- The stream has failed, and nothing that the code does clears the flag. -/
def Failed (m : Minion) : Prop := m.binFile.failbit = true

theorem ready_start (volume : Volume) (n : ℕ) : (start volume.fs (.zeros n)).Ready :=
  ⟨volume.fits, ⟨rfl, rfl⟩, rfl, nofun, fun _ _ => rfl⟩

/-- Writing `n` zeros one after the other is writing them at once. -/
theorem zeroFill_of_good {size : ℕ} (n : ℕ) (s : FStream) (h : s.Good) (hfits : s.fs.Fits size)
    (hend : s.pos + n ≤ size) : zeroFill n s = { s with
      file := s.file.write s.pos (List.replicate n 0)
      pos := s.pos + n } := by
  -- induction on the zeros to come, which start where the stream has got to
  induction n generalizing s with
  | zero => simp [zeroFill]
  | succ n ih =>
      have htakes : s.fs.Takes s.file s.pos [(0 : UInt8)].length :=
        hfits.takes _ _ _ (by rw [List.length_singleton]; omega)
      have hgood := h.update (s.file.write s.pos [0]) (s.pos + [(0 : UInt8)].length)
      have hrest : s.pos + [(0 : UInt8)].length + n ≤ size := by
        rw [List.length_singleton]
        omega
      rw [zeroFill, FStream.write_of_good h htakes, ih _ hgood hfits hrest, List.replicate_succ]
      have happ := s.file.write_append s.pos [0] (List.replicate n 0)
      simp only [List.cons_append, List.nil_append, List.length_singleton] at happ ⊢
      rw [happ]
      congr 1
      omega

/-- The stream after the first command of a process has filled the file. -/
theorem getBinFile_of_init (hfits : m.binFile.fs.Fits (fileSize + memory))
    (hgood : m.binFile.Good) (hpos : m.binFile.pos = 0) (hinit : m.isInit = true) :
    m.getBinFile = { binFile := { m.binFile with
      file := m.binFile.file.write 0 (List.replicate fileSize 0) }, isInit := false } := by
  have hfill := zeroFill_of_good fileSize m.binFile hgood hfits (by rw [hpos]; omega)
  have hgood' : (zeroFill fileSize m.binFile).Good := by
    rw [hfill]
    exact ⟨hgood.eof, hgood.fail⟩
  rw [getBinFile, if_pos hinit, FStream.seekp_of_good hgood' (Nat.zero_le _), hfill, hpos]
  simp [← hpos]

theorem ready_of_full {s : FStream} (hfits : s.fs.Fits (fileSize + memory)) (hgood : s.Good)
    (hpos : s.pos = 0) (hsize : fileSize ≤ s.file.size) :
    Ready { binFile := s, isInit := false } :=
  ⟨hfits, hgood, hpos, fun _ => hsize, nofun⟩

/-- On a ready minion `GetBinFile` returns a full file with the same bytes. -/
theorem Ready.getBinFile (h : m.Ready) :
    m.getBinFile.Ready ∧ m.getBinFile.isInit = false ∧ m.getBinFile.byte = m.byte := by
  cases hinit : m.isInit with
  | false =>
      rw [Minion.getBinFile, if_neg (by simp [hinit])]
      exact ⟨h, hinit, rfl⟩
  | true =>
      have hbyte := m.binFile.file.byte_write_replicate_zero fileSize (h.zero hinit)
      have hsize := m.binFile.file.le_size_write_replicate fileSize 0
      rw [getBinFile_of_init h.fits h.good h.pos hinit]
      generalize m.binFile.file.write 0 (List.replicate fileSize 0) = file at hbyte hsize ⊢
      refine ⟨ready_of_full h.fits (h.good.update file m.binFile.pos) ?_ hsize, rfl, hbyte⟩
      dsimp only
      exact h.pos

/-- On a ready minion a write command overwrites the bytes from its offset on. -/
theorem Ready.write (h : m.Ready) (heap : Heap) {offset : UInt64} {size : UInt32}
    (hend : offset.toNat + size.toNat ≤ fileSize + memory) {data : List UInt8}
    (hdata : data.length = size.toNat) (uid : ThreadSafeUID) :
    ∃ m', MinionWriteCmd.execute heap m offset size (some data) uid =
        (m', MasterProxy.writeResponse (heap 3) uid true) ∧
      m'.Ready ∧ m'.byte = Extent.overwrite m.byte offset.toNat data := by
  obtain ⟨hfull, hinit, hbyte⟩ := h.getBinFile
  simp only [MinionWriteCmd.execute, Option.getD_some, ← hdata, List.take_length]
  generalize m.getBinFile = full at hfull hinit hbyte ⊢
  have hback : ((full.binFile.seekp offset).write data).seekp 0 =
      { full.binFile with file := full.binFile.file.write offset.toNat data, pos := 0 } := by
    have ho : offset.toNat ≤ full.binFile.fs.maxOffset := le_trans (by omega) hfull.fits.offset
    have hpos := FStream.seekp_of_good hfull.good ho
    have htakes : full.binFile.fs.Takes full.binFile.file offset.toNat data.length :=
      hfull.fits.takes _ _ _ (by rw [hdata]; exact hend)
    have hgood := hfull.good.update full.binFile.file offset.toNat
    rw [hpos, FStream.write_of_good hgood htakes,
      FStream.seekp_of_good (hfull.good.update _ _) (Nat.zero_le _)]
    rfl
  have hsize := (hfull.full hinit).trans
    (full.binFile.file.size_le_size_write offset.toNat data)
  rw [hback, hinit]
  refine ⟨_, rfl, ready_of_full hfull.fits (hfull.good.update _ _) rfl hsize, ?_⟩
  rw [← hbyte]
  rfl

/-- On a ready minion a read command returns the bytes from its offset on. -/
theorem Ready.read (h : m.Ready) (heap : Heap) {offset : UInt64} {size : UInt32}
    (hin : offset.toNat + size.toNat ≤ fileSize) (uid : ThreadSafeUID) :
    ∃ m', MinionReadCmd.execute heap m offset size uid =
        (m', MasterProxy.readResponse (heap 3) uid true
          (some (Extent.extract m.byte offset.toNat size.toNat)) size) ∧
      m'.Ready ∧ m'.byte = m.byte := by
  obtain ⟨hfull, hinit, hbyte⟩ := h.getBinFile
  simp only [MinionReadCmd.execute]
  generalize m.getBinFile = full at hfull hinit hbyte ⊢
  have hread : (full.binFile.seekg offset).read size.toNat =
      (Extent.extract m.byte offset.toNat size.toNat,
        { full.binFile with pos := offset.toNat + size.toNat }) := by
    rw [FStream.seekg_of_good hfull.good (le_trans (by omega) hfull.fits.offset), FStream.read_of_good
      (hfull.good.update full.binFile.file offset.toNat) (hin.trans (hfull.full hinit)), ← hbyte]
    rfl
  have hback : { full.binFile with pos := offset.toNat + size.toNat }.seekg 0 =
      full.binFile := by
    rw [FStream.seekg_of_good (hfull.good.update _ _) (Nat.zero_le _)]
    simp [← hfull.pos]
  refine ⟨full, ?_, hfull, hbyte⟩
  rw [hread, hback, fillBuffer_of_length (Extent.length_extract _ _ _)]

/-- On a ready minion a read command of any length leaves the bytes alone; it may fail the
stream. -/
theorem Ready.read_cases (h : m.Ready) (heap : Heap) {offset : UInt64}
    (ho : offset.toNat ≤ fileSize + memory) (size : UInt32) (uid : ThreadSafeUID) :
    ∃ m' data, MinionReadCmd.execute heap m offset size uid =
        (m', MasterProxy.readResponse (heap 3) uid true (some data) size) ∧
      data.length = size.toNat ∧ (m'.Ready ∨ m'.Failed) ∧ m'.byte = m.byte := by
  obtain ⟨hfull, hinit, hbyte⟩ := h.getBinFile
  simp only [MinionReadCmd.execute]
  generalize m.getBinFile = full at hfull hinit hbyte ⊢
  rw [FStream.seekg_of_good hfull.good (ho.trans hfull.fits.offset)]
  obtain ⟨hfs, hfile, hflags⟩ := FStream.read_cases
    (hfull.good.update full.binFile.file offset.toNat) size.toNat
  generalize FStream.read { full.binFile with pos := offset.toNat } size.toNat = result
    at hfs hfile hflags ⊢
  obtain ⟨got, s⟩ := result
  refine ⟨_, _, rfl, Extent.length_extract _ _ _, ?_, ?_⟩
  · rcases hflags with hgood | hfail
    · left
      dsimp only at hfs hfile hgood ⊢
      rw [FStream.seekg_of_good hgood (Nat.zero_le _), hinit]
      exact ready_of_full (hfs ▸ hfull.fits) (hgood.update _ _) rfl (hfile ▸ hfull.full hinit)
    · right
      dsimp only [Failed] at hfail ⊢
      rw [FStream.seekg_of_fail hfail]
      exact hfail
  · rw [← hbyte]
    funext p
    rcases hflags with hgood | hfail
    · have hback : s.seekg 0 = { s with pos := 0 } := FStream.seekg_of_good hgood (Nat.zero_le _)
      simp only [byte, hback]
      exact congrArg (fun f => f.byte p) hfile
    · simp only [byte, FStream.seekg_of_fail hfail]
      rw [hfile]

/-! ### Failed minions -/

theorem getBinFile_of_failed (h : m.Failed) : m.getBinFile.binFile = m.binFile := by
  have hfill : ∀ n, zeroFill n m.binFile = m.binFile := by
    intro n
    induction n with
    | zero => rfl
    | succ n ih =>
        rw [zeroFill, FStream.write_of_fail h, ih]
  rw [getBinFile]
  split
  · dsimp only
    rw [hfill, FStream.seekp_of_fail h]
  · rfl

/-- On a failed minion a write command is lost. -/
theorem Failed.write (h : m.Failed) (heap : Heap) (offset : UInt64) (size : UInt32)
    (data : SharedData) (uid : ThreadSafeUID) :
    ∃ m', MinionWriteCmd.execute heap m offset size data uid =
        (m', MasterProxy.writeResponse (heap 3) uid true) ∧ m'.Failed ∧ m'.byte = m.byte := by
  refine ⟨_, rfl, ?_, ?_⟩
  · dsimp only [Failed]
    rw [getBinFile_of_failed h, FStream.seekp_of_fail h, FStream.write_of_fail h,
      FStream.seekp_of_fail h]
    exact h
  · funext p
    dsimp only [byte]
    rw [getBinFile_of_failed h, FStream.seekp_of_fail h, FStream.write_of_fail h,
      FStream.seekp_of_fail h]

/-- On a failed minion a read command returns what the heap held. -/
theorem Failed.read (h : m.Failed) (heap : Heap) (offset : UInt64) (size : UInt32)
    (uid : ThreadSafeUID) :
    ∃ m', MinionReadCmd.execute heap m offset size uid =
        (m', MasterProxy.readResponse (heap 3) uid true
          (some (Extent.extract (heap 2) 0 size.toNat)) size) ∧
      m'.Failed ∧ m'.byte = m.byte := by
  have hfail : { m.binFile with eofbit := false }.failbit = true := h
  have hread : MinionReadCmd.execute heap m offset size uid =
      ({ m.getBinFile with binFile := { m.binFile with eofbit := false } },
        MasterProxy.readResponse (heap 3) uid true
          (some (Extent.extract (heap 2) 0 size.toNat)) size) := by
    simp only [MinionReadCmd.execute, getBinFile_of_failed h, FStream.seekg_of_fail h,
      FStream.read_of_fail hfail, FStream.seekg_of_fail hfail, fillBuffer, Extent.overwrite_nil]
  exact ⟨_, hread, h, rfl⟩

/-! ### Sound minions -/

/-- The stream is good, or it has failed for good. -/
def Sound (m : Minion) : Prop := m.Ready ∨ m.Failed

/-- The bytes after `data` was written at the offset `o`: nothing is stored once the stream has
failed. -/
def stored (m : Minion) (o : ℕ) (data : List UInt8) : ℕ → UInt8 :=
  if m.binFile.failbit then m.byte else Extent.overwrite m.byte o data

theorem Ready.not_failed (h : m.Ready) : ¬ m.Failed := by
  rw [Failed, h.good.fail]
  exact Bool.false_ne_true

theorem Ready.stored_eq (h : m.Ready) (o : ℕ) (data : List UInt8) :
    m.stored o data = Extent.overwrite m.byte o data := by
  rw [stored, h.good.fail, if_neg Bool.false_ne_true]

theorem Failed.stored_eq (h : m.Failed) (o : ℕ) (data : List UInt8) :
    m.stored o data = m.byte := by
  rw [stored, show m.binFile.failbit = true from h, if_pos rfl]

theorem Sound.ready_of_not_failed (h : m.Sound) (hm : ¬ m.Failed) : m.Ready :=
  h.resolve_right hm

theorem Sound.write (h : m.Sound) (heap : Heap) {offset : UInt64} {size : UInt32}
    (hend : offset.toNat + size.toNat ≤ fileSize + memory) {data : List UInt8}
    (hdata : data.length = size.toNat) (uid : ThreadSafeUID) :
    ∃ m', MinionWriteCmd.execute heap m offset size (some data) uid =
        (m', MasterProxy.writeResponse (heap 3) uid true) ∧
      m'.Sound ∧ (m.Ready → m'.Ready) ∧ m'.byte = m.stored offset.toNat data := by
  rcases h with h | h
  · obtain ⟨m', hexec, hready, hbyte⟩ := h.write heap hend hdata uid
    exact ⟨m', hexec, Or.inl hready, fun _ => hready, hbyte.trans (h.stored_eq _ _).symm⟩
  · obtain ⟨m', hexec, hfailed, hbyte⟩ := h.write heap offset size (some data) uid
    exact ⟨m', hexec, Or.inr hfailed, fun hready => absurd h hready.not_failed,
      hbyte.trans (h.stored_eq _ _).symm⟩

theorem Sound.read (h : m.Sound) (heap : Heap) {offset : UInt64}
    (ho : offset.toNat ≤ fileSize + memory)
    (size : UInt32) (uid : ThreadSafeUID) :
    ∃ m' data, MinionReadCmd.execute heap m offset size uid =
        (m', MasterProxy.readResponse (heap 3) uid true (some data) size) ∧
      data.length = size.toNat ∧ m'.Sound ∧ m'.byte = m.byte := by
  rcases h with h | h
  · exact h.read_cases heap ho size uid
  · obtain ⟨m', hexec, hfailed, hbyte⟩ := h.read heap offset size uid
    exact ⟨m', _, hexec, Extent.length_extract _ _ _, Or.inr hfailed, hbyte⟩

/-! ### Requests -/

/-- A read request that reaches a minion is executed. -/
theorem serve_readRequest (m : Minion) (heap : Heap) (fresh : ThreadSafeUID) (hp : ℕ → UInt8)
    (offset : UInt64) (size : UInt32) (uid : ThreadSafeUID) :
    m.serve heap fresh (MinionProxy.readRequest hp offset size uid).bytes =
      some (MinionReadCmd.execute heap m offset size uid) := by
  rw [serve, (MinionProxy.readRequest_carries hp uid offset size).2,
    (MasterProxy.receives_readRequest uid offset size heap fresh []).2]
  simp only [run, if_true]

/-- A write request that reaches a minion is executed. -/
theorem serve_writeRequest (m : Minion) (heap : Heap) (fresh : ThreadSafeUID) (hp : ℕ → UInt8)
    (offset : UInt64) {size : UInt32} {data : List UInt8} (hdata : Payload data size)
    (uid : ThreadSafeUID) :
    m.serve heap fresh (MinionProxy.writeRequest hp offset size (some data) uid).bytes =
      some (MinionWriteCmd.execute heap m offset size (some data) uid) := by
  rw [serve, (MinionProxy.writeRequest_carries hp uid offset size hdata).2,
    (MasterProxy.receives_writeRequest uid offset size hdata heap fresh []).2]
  simp only [run, if_true]

end Minion

end IotDrive
