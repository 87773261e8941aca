/-
One minion as a store of bytes.

A storage command answers with a success whatever the stream did, and nothing clears the flags of
the stream.  A minion is therefore a store of bytes exactly as long as every request it gets can be
served.

Main definitions:

* `StoreRequest` — the arguments of a storage command;
* `StoreRequest.Served`, `StoreRequest.store`, `StoreRequest.reply` — what a file can serve, the
  file afterwards and the bytes that are read;
* `Answer.Right` — what a store may answer: a success only with the bytes that are stored;
* `BehavesAsStore` — a minion answers a sequence of requests as a store does.

Main results:

* `Answer.answer_transmission` — a response says whether it is a success, and what was read;
* `StoreRequest.execute_of_served` — a request that can be served is;
* `behavesAsStore_iff_allServed` — **the byte store**, for every sequence of requests.
-/

import IotDrive.Minion

set_option relaxedAutoImplicit false
set_option autoImplicit false

namespace IotDrive

/-! ### Requests -/

/-- The arguments of a storage command.  The array of a write has the size that goes with it. -/
inductive StoreRequest
  | read (offset : UInt64) (size : UInt32) (uid : ThreadSafeUID)
  | write (offset : UInt64) (size : UInt32) (data : List UInt8) (uid : ThreadSafeUID)
      (hdata : data.length = size.toNat)

namespace StoreRequest

/-- The arguments as `TPTask::Run` gets them. -/
def args : StoreRequest → IArgsKey
  | .read offset size uid => .minionReadArgsKey minionReadCmdKey offset size uid
  | .write offset size data uid _ =>
      .minionWriteArgsKey minionWriteCmdKey offset size (some data) uid

/-- The command for the request executes. -/
def execute (heap : Heap) (m : Minion) : StoreRequest → Minion × Transmission
  | .read offset size uid => MinionReadCmd.execute heap m offset size uid
  | .write offset size data uid _ => MinionWriteCmd.execute heap m offset size (some data) uid

theorem run_args (heap : Heap) (m : Minion) (r : StoreRequest) :
    m.run heap r.args = some (r.execute heap m) := by
  cases r with
  | read offset size uid => rfl
  | write offset size data uid hdata => rfl

/-- The file can serve the request: the file system reaches the offset, and what is to be read is
there, or what is to be written can be stored. -/
def Served (fs : FileSystem) (f : SparseFile UInt8) : StoreRequest → Prop
  | .read offset size _ =>
      offset.toNat ≤ fs.maxOffset ∧ (size = 0 ∨ offset.toNat + size.toNat ≤ f.size)
  | .write offset _ data _ _ => offset.toNat ≤ fs.maxOffset ∧ fs.Takes f offset.toNat data.length

/-- The file after the request. -/
def store (f : SparseFile UInt8) : StoreRequest → SparseFile UInt8
  | .read _ _ _ => f
  | .write offset _ data _ _ => f.write offset.toNat data

/-- The number of bytes that the response carries. -/
def replySize : StoreRequest → ℕ
  | .read _ size _ => size.toNat
  | .write _ _ _ _ _ => 0

/-- The bytes that a file has at the extent of a read. -/
def reply (f : SparseFile UInt8) : StoreRequest → List UInt8
  | .read offset size _ => Extent.extract f.byte offset.toNat size.toNat
  | .write _ _ _ _ _ => []

end StoreRequest

/-! ### Answers -/

/-- What a response says: whether it is a success, and the data. -/
structure Answer where
  isSuccess : Bool
  data : List UInt8
  deriving DecidableEq

/-- The response to a request that says `a`. -/
def Answer.transmission (a : Answer) (heap : ℕ → UInt8) : StoreRequest → Transmission
  | .read _ size uid => MasterProxy.readResponse heap uid a.isSuccess (some a.data) size
  | .write _ _ _ uid _ => MasterProxy.writeResponse heap uid a.isSuccess

/-- What the response `t` to a request says: `is_success` stands behind the header of 32 bytes, and
the data behind it. -/
def Transmission.answer (t : Transmission) (r : StoreRequest) : Answer where
  isSuccess := t.buffer.mem 32 != 0
  data := Extent.extract t.buffer.mem 33 r.replySize

/-- The answer of a minion to a request. -/
def StoreRequest.answer (heap : Heap) (m : Minion) (r : StoreRequest) : Answer :=
  (r.execute heap m).2.answer r

/-- A right answer of a store that holds `f`: a success only for a request that can be served, with
the bytes that are stored. -/
def Answer.Right (fs : FileSystem) (f : SparseFile UInt8) (r : StoreRequest) (a : Answer) : Prop :=
  a.isSuccess = true → r.Served fs f ∧ a.data = r.reply f

/-- The store after the answer: a request that was not a success has no effect. -/
def Answer.after (f : SparseFile UInt8) (r : StoreRequest) (a : Answer) : SparseFile UInt8 :=
  if a.isSuccess then r.store f else f

/-- The minion answers the requests, one after another, as a store that holds `f`; and after a
success its file holds what the store holds. -/
def BehavesAsStore (fs : FileSystem) (m : Minion) (f : SparseFile UInt8) :
    List (Heap × StoreRequest) → Prop
  | [] => True
  | (heap, r) :: rest =>
      let a := r.answer heap m
      let m' := (r.execute heap m).1
      a.Right fs f r ∧ (a.isSuccess = true → m'.binFile.file = a.after f r) ∧
        BehavesAsStore fs m' (a.after f r) rest

/-- Every request can be served by the file as the requests before it left it. -/
def AllServed (fs : FileSystem) (f : SparseFile UInt8) : List StoreRequest → Prop
  | [] => True
  | r :: rest => r.Served fs f ∧ AllServed fs (r.store f) rest

/-! ### Responses say what was answered -/

/-- The byte of a `bool` and the data, read off a buffer behind a header. -/
theorem answer_of_format (heap : ℕ → UInt8) (m : AMessage) (b : Bool) (data : List UInt8) :
    let mem := Extent.overwrite heap 0 (m.format ++ [boolByte b] ++ data)
    (mem 32 != 0) = b ∧ Extent.extract mem 33 data.length = data := by
  intro mem
  have hsplit : mem = Extent.overwrite (Extent.overwrite heap 0 (m.format ++ [boolByte b]))
      33 data := by
    have hlen : 0 + (m.format ++ [boolByte b]).length = 33 := by simp
    rw [← hlen]
    exact Extent.overwrite_append heap 0 (m.format ++ [boolByte b]) data
  constructor
  · have hlen : 32 < (m.format ++ [boolByte b]).length := by simp
    have hbyte : mem 32 = boolByte b := by
      rw [hsplit, Extent.overwrite_of_notMem _ _ _ (Or.inl (by decide))]
      have hget := Extent.overwrite_add heap 0 _ hlen
      rw [Nat.zero_add, List.getElem_append_right (by simp)] at hget
      simpa using hget
    rw [hbyte]
    cases b <;> rfl
  · rw [hsplit, Extent.extract_overwrite]

/-- A response to a request says what was answered. -/
theorem Answer.answer_transmission {a : Answer} {r : StoreRequest} (heap : ℕ → UInt8)
    (ha : a.data.length = r.replySize) : (a.transmission heap r).answer r = a := by
  obtain ⟨isSuccess, data⟩ := a
  cases r with
  | read offset size uid =>
      have hholds : SharedData.Holds (some data) size data := ⟨rfl, ha⟩
      have hbuf := MinionReadMsg.toBuffer_eq (MinionReadMsg.make uid isSuccess (some data) size)
        hholds (.start heap)
      have hmem : (MasterProxy.readResponse heap uid isSuccess (some data) size).buffer.mem = _ :=
        congrArg WriteCursor.mem hbuf
      obtain ⟨hbyte, hdata⟩ := answer_of_format heap
        (MinionReadMsg.make uid isSuccess (some data) size).toAMessage isSuccess data
      simp only [Transmission.answer, transmission, hmem, ← ha, mk.injEq]
      exact ⟨hbyte, hdata⟩
  | write offset size bytes uid hbytes =>
      have hbuf := MinionWriteMsg.toBuffer_eq (MinionWriteMsg.make uid isSuccess) (.start heap)
      have hmem : (MasterProxy.writeResponse heap uid isSuccess).buffer.mem = _ :=
        congrArg WriteCursor.mem hbuf
      obtain ⟨hbyte, -⟩ := answer_of_format heap (MinionWriteMsg.make uid isSuccess).toAMessage
        isSuccess []
      rw [List.append_nil] at hbyte
      obtain rfl := List.length_eq_zero_iff.1 ha
      simp only [Transmission.answer, transmission, hmem, mk.injEq]
      exact ⟨hbyte, rfl⟩

/-! ### Minions with an open stream -/

/-- A minion past the zero-fill, with a good stream at the front of the file `f`. -/
def Minion.opened (fs : FileSystem) (f : SparseFile UInt8) : Minion :=
  { binFile := { fs, file := f, pos := 0, eofbit := false, failbit := false }, isInit := false }

/-- The file of a process that has opened `f` and filled it with zeros. -/
def zeroFilled (f : SparseFile UInt8) : SparseFile UInt8 := f.write 0 (List.replicate fileSize 0)

theorem Minion.getBinFile_opened (fs : FileSystem) (f : SparseFile UInt8) :
    (opened fs f).getBinFile = opened fs f := by
  rw [getBinFile, if_neg (by simp [opened])]

theorem Minion.getBinFile_start (volume : Volume) (f : SparseFile UInt8) :
    (start volume.fs f).getBinFile = opened volume.fs (zeroFilled f) :=
  getBinFile_of_init (m := start volume.fs f) volume.fits ⟨rfl, rfl⟩ rfl rfl

variable {m : Minion} {fs : FileSystem} {f : SparseFile UInt8}

/-- A read of a good stream of which nothing is asked, or nothing past the end of the file. -/
theorem FStream.read_of_served {s : FStream} (hs : s.Good) {size : UInt32}
    (h : size = 0 ∨ s.pos + size.toNat ≤ s.file.size) :
    s.read size.toNat =
      (Extent.extract s.file.byte s.pos size.toNat, { s with pos := s.pos + size.toNat }) := by
  rcases h with rfl | h
  · simp [FStream.read, hs.eof, hs.fail, SparseFile.read]
  · exact FStream.read_of_good hs h

/-- A request that can be served is: the file is that of the store, and the response is a success
with the bytes that are stored. -/
theorem StoreRequest.execute_of_served (heap : Heap) {r : StoreRequest}
    (hm : m.getBinFile = Minion.opened fs f) (hr : r.Served fs f) :
    r.execute heap m = (Minion.opened fs (r.store f),
      (⟨true, r.reply f⟩ : Answer).transmission (heap 3) r) := by
  have hgood : (Minion.opened fs f).binFile.Good := ⟨rfl, rfl⟩
  cases r with
  | read offset size uid =>
      have hread := FStream.read_of_served (hgood.update f offset.toNat) hr.2
      have hseek : (Minion.opened fs f).binFile.seekg offset = _ :=
        FStream.seekg_of_good hgood hr.1
      simp only [execute, MinionReadCmd.execute, hm, hseek]
      rw [show (Minion.opened fs f).binFile.file = f from rfl] at *
      simp only [hread, fillBuffer_of_length (Extent.length_extract _ _ _)]
      rfl
  | write offset size data uid hdata =>
      have hback : (((Minion.opened fs f).binFile.seekp offset).write data).seekp 0 =
          { (Minion.opened fs f).binFile with
            file := f.write offset.toNat data
            pos := 0 } := by
        have hseek : (Minion.opened fs f).binFile.seekp offset = _ :=
          FStream.seekp_of_good hgood hr.1
        have htakes : (Minion.opened fs f).binFile.fs.Takes
            (Minion.opened fs f).binFile.file offset.toNat data.length := hr.2
        rw [hseek, FStream.write_of_good (hgood.update _ offset.toNat) htakes,
          FStream.seekp_of_good (hgood.update _ _) (Nat.zero_le _)]
        rfl
      simp only [execute, MinionWriteCmd.execute, hm, Option.getD_some, ← hdata, List.take_length,
        hback]
      rfl

/-- Whatever the stream does, the response is a success. -/
theorem StoreRequest.execute_succeeds (heap : Heap) (m : Minion) (r : StoreRequest) :
    ∃ data, data.length = r.replySize ∧
      (r.execute heap m).2 = (⟨true, data⟩ : Answer).transmission (heap 3) r := by
  cases r with
  | read offset size uid => exact ⟨_, Extent.length_extract _ _ _, rfl⟩
  | write offset size data uid hdata => exact ⟨[], rfl, rfl⟩

theorem StoreRequest.isSuccess_answer (heap : Heap) (m : Minion) (r : StoreRequest) :
    (r.answer heap m).isSuccess = true := by
  obtain ⟨data, hlen, hsuccess⟩ := r.execute_succeeds heap m
  rw [answer, hsuccess, Answer.answer_transmission (heap 3) hlen]

theorem StoreRequest.length_reply (f : SparseFile UInt8) (r : StoreRequest) :
    (r.reply f).length = r.replySize := by
  cases r with
  | read offset size uid => exact Extent.length_extract _ _ _
  | write offset size data uid hdata => rfl

/-- The answer to a request that can be served is a success with the bytes that are stored. -/
theorem StoreRequest.answer_of_served (heap : Heap) {r : StoreRequest}
    (hm : m.getBinFile = Minion.opened fs f) (hr : r.Served fs f) :
    r.answer heap m = ⟨true, r.reply f⟩ := by
  rw [answer, execute_of_served heap hm hr, Answer.answer_transmission (heap 3) (r.length_reply f)]

/-! ### The byte store -/

/-- A minion that answers as a store says of every request that it is a success, and so must have
been able to serve it. -/
theorem BehavesAsStore.head {heap : Heap} {r : StoreRequest} {rest : List (Heap × StoreRequest)}
    (h : BehavesAsStore fs m f ((heap, r) :: rest)) :
    r.Served fs f ∧ BehavesAsStore fs (r.execute heap m).1 (r.store f) rest := by
  obtain ⟨hright, -, hrest⟩ := h
  have hsuccess := r.isSuccess_answer heap m
  rw [Answer.after, if_pos hsuccess] at hrest
  exact ⟨(hright hsuccess).1, hrest⟩

/-- A minion with an open stream on `f` answers as a store that holds `f` if and only if every
request can be served. -/
theorem Minion.behavesAsStore_iff (hm : m.getBinFile = opened fs f)
    (requests : List (Heap × StoreRequest)) :
    BehavesAsStore fs m f requests ↔ AllServed fs f (requests.map Prod.snd) := by
  -- induction on the requests; after each of them the stream is open on what the store holds then
  induction requests generalizing m f with
  | nil => exact Iff.rfl
  | cons head rest ih =>
      obtain ⟨heap, r⟩ := head
      constructor
      · intro h
        obtain ⟨hserved, hrest⟩ := h.head
        rw [r.execute_of_served heap hm hserved] at hrest
        exact ⟨hserved, (ih (getBinFile_opened _ _)).1 hrest⟩
      · rintro ⟨hserved, hrest⟩
        have hexec := r.execute_of_served heap hm hserved
        have hanswer := r.answer_of_served heap hm hserved
        have hafter : (r.answer heap m).after f r = r.store f := by
          rw [hanswer, Answer.after, if_pos rfl]
        refine ⟨?_, ?_, ?_⟩
        · intro _
          rw [hanswer]
          exact ⟨hserved, rfl⟩
        · intro _
          rw [hafter, hexec]
          rfl
        · rw [hafter, hexec]
          exact (ih (getBinFile_opened _ _)).2 hrest

/-- **The byte store.** A minion process on any file of any volume answers a sequence of requests as a
store of bytes does if and only if every one of them can be served when its turn comes. -/
theorem behavesAsStore_iff_allServed (volume : Volume) (f : SparseFile UInt8)
    (requests : List (Heap × StoreRequest)) :
    BehavesAsStore volume.fs (Minion.start volume.fs f) (zeroFilled f) requests ↔
      AllServed volume.fs (zeroFilled f) (requests.map Prod.snd) :=
  Minion.behavesAsStore_iff (Minion.getBinFile_start volume f) requests

/-- A read of one byte at the end of the file cannot be served, and yet it is answered with a
success. -/
theorem not_behavesAsStore_read_at_end :
    ¬ BehavesAsStore Volume.ext4.fs (Minion.start Volume.ext4.fs (.zeros fileSize))
      (zeroFilled (.zeros fileSize)) [(fun _ _ => 0, .read 8388608 1 ⟨0, 0, 0, 0⟩)] := by
  intro h
  have hsize : (zeroFilled (.zeros fileSize)).size = fileSize := by
    rw [zeroFilled, SparseFile.size_write, List.length_replicate, SparseFile.size_zeros]
    decide
  obtain ⟨-, hempty | hend⟩ := h.head.1
  · exact absurd hempty (by decide)
  · rw [hsize] at hend
    exact absurd hend (by decide)

end IotDrive
