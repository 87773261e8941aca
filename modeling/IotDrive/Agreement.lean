/-
**Senders and receivers agree on every kind of message.**

A sender allocates a buffer, lets a message write itself into it and sends a number of bytes that
it computes separately; a receiver peeks at the key and the size, allocates and asks for a number
of bytes that it computes from them, and decodes.  This module proves that the two computations
agree for the six kinds of message, in the way the proxies use them.

Main definitions:

* `Transmission.Exact` — the bytes written fit the allocation and are exactly the bytes sent;
* `NBDProxy.Receives`, `MasterProxy.Receives`, `ResponseProxy.Receives` — the receiver selects the
  kind, asks for as many bytes as were sent, and hands on the given arguments.

Main results:

* `NBDProxy.receives_nbdRead` and its five siblings — each kind on its own;
* `senders_and_receivers_agree` — all six.
-/

import IotDrive.MessageFormat
import IotDrive.Raid
import IotDrive.RazNbd

set_option relaxedAutoImplicit false
set_option autoImplicit false

namespace IotDrive

/-! ### Sizes and buffers -/

/-- A size below `2 ^ 31` is not changed by passing it as an `int`. -/
theorem intArg_of_lt {n : ℕ} (h : n < 2 ^ 31) : intArg n = n := by
  rw [intArg, Nat.mod_eq_of_lt (by omega), if_pos h]

/-- Passed as an `int`, a size below `2 ^ 32` stays or becomes larger than any buffer. -/
theorem le_intArg {n : ℕ} (h : n < 2 ^ 32) : n ≤ intArg n := by
  rw [intArg, Nat.mod_eq_of_lt h]
  split
  · exact le_rfl
  · omega

/-- What was received stands in front of what the allocation held before. -/
theorem fillBuffer_of_le {heap : ℕ → UInt8} {n : ℕ} {xs : List UInt8} (h : xs.length ≤ n) :
    fillBuffer heap n xs = xs ++ Extent.extract heap xs.length (n - xs.length) := by
  have hn : n = xs.length + (n - xs.length) := by omega
  have hbehind : Extent.extract (Extent.overwrite heap 0 xs) (0 + xs.length) (n - xs.length) =
      Extent.extract heap xs.length (n - xs.length) := by
    refine Extent.extract_congr ?_
    intro k _
    rw [Nat.zero_add, Extent.overwrite_of_notMem heap 0 xs (Or.inr (by omega))]
  conv_lhs => rw [fillBuffer, hn, Extent.extract_append, Extent.extract_overwrite, hbehind]

/-- A buffer that is filled completely holds what was received. -/
theorem fillBuffer_of_length {heap : ℕ → UInt8} {n : ℕ} {xs : List UInt8} (h : xs.length = n) :
    fillBuffer heap n xs = xs := by
  rw [fillBuffer, ← h, Extent.extract_overwrite]

/-- Receiving a datagram with its own length gives the datagram. -/
theorem UDPSocket.recive_length {heap : ℕ → UInt8} {n : ℕ} {head : Datagram}
    (h : head.length = n) (hn : n < 2 ^ 31) : UDPSocket.recive heap n n head = head := by
  rw [UDPSocket.recive, intArg_of_lt hn, ← h, List.take_length, fillBuffer_of_length rfl]

/-- Peeking at a datagram of at least eight bytes gives its first eight bytes. -/
theorem UDPSocket.recive_peek {heap : ℕ → UInt8} {head : Datagram} (h : 8 ≤ head.length) :
    UDPSocket.recive heap 8 8 head = head.take 8 := by
  have h8 : intArg 8 = 8 := by decide
  rw [UDPSocket.recive, h8, fillBuffer_of_length (by simp [h])]

/-- A receive for which everything has arrived takes all of it. -/
theorem TCPSocket.recv_append {ready : ℕ} {xs : List UInt8} (h : xs.length ≤ ready)
    (hn : xs.length < 2 ^ 31) (stream : List UInt8) :
    TCPSocket.recv ready xs.length (xs ++ stream) = xs := by
  rw [TCPSocket.recv, intArg_of_lt hn, Nat.min_eq_right h, List.take_left]

/-- A peek for which eight bytes have arrived takes the first eight bytes. -/
theorem TCPSocket.recv_peek {ready : ℕ} (h : 8 ≤ ready) (stream : List UInt8) :
    TCPSocket.recv ready 8 stream = stream.take 8 := by
  have h8 : intArg 8 = 8 := by decide
  rw [TCPSocket.recv, h8, Nat.min_eq_right h]

/-- The key and the size only depend on the first eight bytes. -/
theorem peekedKey_take (xs : List UInt8) : peekedKey (xs.take 8) = peekedKey xs := by
  rw [peekedKey, List.take_take, peekedKey]
  rfl

theorem peekedSize_take (xs : List UInt8) : peekedSize (xs.take 8) = peekedSize xs := by
  rw [peekedSize, List.drop_take, List.take_take, peekedSize]
  rfl

/-- The key at the front of a header. -/
theorem peekedKey_format (m : AMessage) (rest : List UInt8) :
    peekedKey (m.format ++ rest) = m.key := by
  rw [peekedKey, AMessage.format, List.append_assoc, List.append_assoc,
    List.take_left' (LittleEndian.length_bytes 4 _), LittleEndian.ofNat_value_bytes32]

/-- The size behind the key of a header. -/
theorem peekedSize_format (m : AMessage) (rest : List UInt8) :
    peekedSize (m.format ++ rest) = m.size := by
  rw [peekedSize, AMessage.format, List.append_assoc, List.append_assoc,
    List.drop_left' (LittleEndian.length_bytes 4 _),
    List.take_left' (LittleEndian.length_bytes 4 _), LittleEndian.ofNat_value_bytes32]

/-! ### Senders -/

/-- The bytes written fit into the allocation, and exactly they are sent. -/
structure Transmission.Exact (t : Transmission) : Prop where
  fits : t.buffer.high ≤ t.allocated
  sends : intArg t.sizeToSend = t.buffer.high

/-- A transmission of `xs`: exact, and the bytes that go out are those of `xs`. -/
def Transmission.Carries (t : Transmission) (xs : List UInt8) : Prop := t.Exact ∧ t.bytes = xs

/-- A sender that stores `xs` at the start of its buffer, wherever it leaves the pointer, and
allocates and sends as many bytes as `xs` has. -/
theorem Transmission.carries (heap : ℕ → UInt8) (xs : List UInt8) {t : Transmission}
    (hmem : t.buffer.mem = (WriteCursor.store (.start heap) xs).mem)
    (hhigh : t.buffer.high = (WriteCursor.store (.start heap) xs).high)
    (halloc : t.allocated = xs.length) (hsize : t.sizeToSend = xs.length)
    (hn : xs.length < 2 ^ 31) : t.Carries xs := by
  have hlen : (WriteCursor.store (.start heap) xs).high = xs.length := by simp
  refine ⟨⟨?_, ?_⟩, ?_⟩
  · rw [hhigh, hlen, halloc]
  · rw [hhigh, hlen, hsize, intArg_of_lt hn]
  · rw [Transmission.bytes, hmem, hsize, intArg_of_lt hn]
    exact Extent.extract_overwrite heap 0 xs

/-! ### Receivers -/

/-- Whatever is in the way of heap contents, UIDs and bytes that follow on the stream, once the
message `xs` has arrived `NBDProxy` selects `kind`, asks for as many bytes as `xs` has, takes
exactly `xs` off the stream and hands on `args`. -/
def NBDProxy.Receives (xs : List UInt8) (kind : MessageKind) (args : IArgsKey) : Prop :=
  ∀ c : NBDProxy.Call, 8 ≤ c.peekReady → xs.length ≤ c.ready → ∀ stream,
    NBDProxy.select c.fresh (peekedKey xs) (peekedSize xs) = .ok (kind, xs.length) ∧
      NBDProxy.getArgsKey c (xs ++ stream) = (.ok args, stream)

/-- `MasterProxy` selects `kind`, asks for as many bytes as the datagram has, takes the datagram
off the socket and hands on `args`. -/
def MasterProxy.Receives (xs : Datagram) (kind : MessageKind) (args : IArgsKey) : Prop :=
  ∀ heap fresh queue,
    MasterProxy.select fresh (peekedKey xs) (peekedSize xs) = .ok (kind, xs.length) ∧
      MasterProxy.getArgsKey heap fresh xs queue = (.ok args, queue)

/-- `ResponseProxy` selects `kind`, asks for as many bytes as the datagram has, takes the datagram
off the socket and has the given effects. -/
def ResponseProxy.Receives (xs : Datagram) (kind : MessageKind) (effects : List ResponseEffect) :
    Prop :=
  ∀ heap fresh queue,
    ResponseProxy.select fresh (peekedKey xs) (peekedSize xs) = .ok (some (kind, xs.length)) ∧
      ResponseProxy.getArgsKey heap fresh xs queue = (.ok effects, queue)

theorem NBDProxy.receives_of {xs : List UInt8} {kind : MessageKind} {args : IArgsKey}
    (h8 : 8 ≤ xs.length) (hn : xs.length < 2 ^ 31)
    (hselect : ∀ fresh,
      NBDProxy.select fresh (peekedKey xs) (peekedSize xs) = .ok (kind, xs.length))
    (hdecode : NBDProxy.decode kind xs = .ok args) : NBDProxy.Receives xs kind args := by
  intro c hpeek hready stream
  refine ⟨hselect c.fresh, ?_⟩
  have hhead : fillBuffer (c.heap 0) 8 (TCPSocket.recv c.peekReady 8 (xs ++ stream)) =
      xs.take 8 := by
    rw [TCPSocket.recv_peek hpeek, List.take_append_of_le_length h8,
      fillBuffer_of_length (by simp [h8])]
  simp only [getArgsKey, hhead, peekedKey_take, peekedSize_take, hselect,
    TCPSocket.recv_append hready hn, fillBuffer_of_length, hdecode, List.drop_left]

theorem MasterProxy.receives_of {xs : Datagram} {kind : MessageKind} {args : IArgsKey}
    (h8 : 8 ≤ xs.length) (hn : xs.length < 2 ^ 31)
    (hselect : ∀ fresh,
      MasterProxy.select fresh (peekedKey xs) (peekedSize xs) = .ok (kind, xs.length))
    (hdecode : MasterProxy.decode kind xs = .ok args) : MasterProxy.Receives xs kind args := by
  intro heap fresh queue
  refine ⟨hselect fresh, ?_⟩
  simp only [getArgsKey, UDPSocket.recive_peek h8, peekedKey_take, peekedSize_take, hselect,
    UDPSocket.recive_length rfl hn, hdecode]

theorem ResponseProxy.receives_of {xs : Datagram} {kind : MessageKind}
    {effects : List ResponseEffect} (h8 : 8 ≤ xs.length) (hn : xs.length < 2 ^ 31)
    (hselect : ∀ fresh,
      ResponseProxy.select fresh (peekedKey xs) (peekedSize xs) = .ok (some (kind, xs.length)))
    (hdecode : ∀ other, ResponseProxy.decode other kind xs = .ok effects) :
    ResponseProxy.Receives xs kind effects := by
  intro heap fresh queue
  refine ⟨hselect fresh, ?_⟩
  simp only [getArgsKey, UDPSocket.recive_peek h8, peekedKey_take, peekedSize_take, hselect,
    UDPSocket.recive_length rfl hn, hdecode]

/-! ### The six kinds -/

/-- An array of `len` bytes, no longer than the device. -/
structure Payload (data : List UInt8) (len : UInt32) : Prop where
  length : data.length = len.toNat
  le : len.toNat ≤ memory

theorem Payload.lt {data : List UInt8} {len : UInt32} (h : Payload data len) :
    41 + data.length < 2 ^ 31 := by
  have := h.length
  have := h.le
  rw [memory_eq] at this
  omega

theorem Payload.holds {data : List UInt8} {len : UInt32} (h : Payload data len) :
    SharedData.Holds (some data) len data :=
  ⟨rfl, h.length⟩

/-- The bytes of a write that is no longer than the device, with their number as the size. -/
theorem Payload.of_le {data : List UInt8} (h : data.length ≤ memory) :
    Payload data (UInt32.ofNat data.length) := by
  have hsize : (UInt32.ofNat data.length).toNat = data.length := by
    refine UInt32.toNat_ofNat_of_lt' ?_
    rw [memory_eq] at h
    exact Nat.lt_of_le_of_lt h (by decide)
  exact ⟨hsize.symm, hsize.trans_le h⟩

section Kinds

variable (heap : ℕ → UInt8) (uid : ThreadSafeUID) (offset : UInt64) (len : UInt32)
variable {data : List UInt8}

/-! #### NBDRead -/

theorem NBD.nbdReadRequest_carries :
    (NBD.nbdReadRequest heap uid len offset).Carries (NBDReadMsg.make offset len uid).format := by
  have hbuf := NBDReadMsg.toBuffer_eq (NBDReadMsg.make offset len uid) (.start heap)
  refine Transmission.carries heap _ (congrArg WriteCursor.mem hbuf)
    (congrArg WriteCursor.high hbuf) ?_ ?_ (by simp) <;> rw [NBDReadMsg.length_format] <;> rfl

theorem NBDProxy.receives_nbdRead : NBDProxy.Receives (NBDReadMsg.make offset len uid).format
    .nbdReadMsg (.readArgsKey readCmdKey offset len) := by
  have hkey : peekedKey (NBDReadMsg.make offset len uid).format = nbdReadMsgKey :=
    peekedKey_format _ _
  have hread := NBDReadMsg.fromBuffer_format (NBDReadMsg.make offset len uid) []
  rw [List.append_nil] at hread
  refine NBDProxy.receives_of (by simp) (by simp) ?_ ?_
  · intro fresh
    rw [hkey, NBDReadMsg.length_format]
    rfl
  · simp only [NBDProxy.decode, hread, ok_bind]
    rfl

/-! #### NBDWrite -/

theorem NBDWriteMsg.holds_make (h : Payload data len) :
    (NBDWriteMsg.make offset len (some data) uid).data.Holds len data := by
  simp [NBDWriteMsg.make, SharedData.Holds, ← h.length]

theorem NBD.nbdWriteRequest_carries (h : Payload data len) :
    (NBD.nbdWriteRequest heap uid data len offset).Carries
      ((NBDWriteMsg.make offset len (some data) uid).format data) := by
  have hbuf := NBDWriteMsg.toBuffer_eq _ (NBDWriteMsg.holds_make uid offset len h) (.start heap)
  have hsize : (NBDWriteMsg.make offset len (some data) uid).getBufferSize = 40 + data.length := by
    rw [NBDWriteMsg.getBufferSize_eq, h.length]
    rfl
  have := h.lt
  refine Transmission.carries heap _ (congrArg WriteCursor.mem hbuf)
    (congrArg WriteCursor.high hbuf) ?_ ?_ ?_ <;> rw [NBDWriteMsg.length_format]
  · exact hsize
  · exact hsize
  · omega

theorem NBDProxy.receives_nbdWrite (h : Payload data len) :
    NBDProxy.Receives ((NBDWriteMsg.make offset len (some data) uid).format data) .nbdWriteMsg
      (.writeArgsKey writeCmdKey offset len (some data)) := by
  have hholds := NBDWriteMsg.holds_make uid offset len h
  have hkey : peekedKey ((NBDWriteMsg.make offset len (some data) uid).format data) =
      nbdWriteMsgKey := by
    rw [NBDWriteMsg.format, List.append_assoc, peekedKey_format]
    rfl
  have hsize : peekedSize ((NBDWriteMsg.make offset len (some data) uid).format data) = len := by
    rw [NBDWriteMsg.format, List.append_assoc, peekedSize_format]
    rfl
  have hread := NBDWriteMsg.fromBuffer_format _ hholds []
  rw [List.append_nil] at hread
  have := h.lt
  refine NBDProxy.receives_of (by simp; omega) (by simp; omega) ?_ ?_
  · intro fresh
    rw [hkey, hsize, NBDWriteMsg.length_format, h.length]
    rfl
  · simp only [NBDProxy.decode, hread, ok_bind, NBDWriteMsg.supplyArgs, hholds.1]
    rfl

/-! #### ReadRequest -/

theorem MinionProxy.readRequest_carries :
    (MinionProxy.readRequest heap offset len uid).Carries (ReadMsg.make offset len uid).format := by
  have hbuf := ReadMsg.toBuffer_eq (ReadMsg.make offset len uid) (.start heap)
  refine Transmission.carries heap _ (congrArg WriteCursor.mem hbuf)
    (congrArg WriteCursor.high hbuf) ?_ ?_ (by simp) <;> rw [ReadMsg.length_format] <;> rfl

theorem MasterProxy.receives_readRequest :
    MasterProxy.Receives (ReadMsg.make offset len uid).format .readMsg
      (.minionReadArgsKey minionReadCmdKey offset len uid) := by
  have hkey : peekedKey (ReadMsg.make offset len uid).format = readMsgKey := by
    rw [ReadMsg.format, withChecksum, ReadMsg.body, List.append_assoc, peekedKey_format]
    rfl
  have hread := ReadMsg.fromBuffer_format (ReadMsg.make offset len uid) []
  rw [List.append_nil] at hread
  refine MasterProxy.receives_of (by simp) (by simp) ?_ ?_
  · intro fresh
    rw [hkey, ReadMsg.length_format]
    rfl
  · simp only [MasterProxy.decode, hread, ok_bind]
    rfl

/-! #### WriteRequest -/

theorem MinionProxy.writeRequest_carries (h : Payload data len) :
    (MinionProxy.writeRequest heap offset len (some data) uid).Carries
      ((WriteMsg.make offset len (some data) uid).format data) := by
  have hbuf := WriteMsg.toBuffer_eq (WriteMsg.make offset len (some data) uid) h.holds (.start heap)
  have hsize : (WriteMsg.make offset len (some data) uid).getBufferSize = 41 + data.length := by
    rw [WriteMsg.getBufferSize_eq, h.length]
    rfl
  have := h.lt
  refine Transmission.carries heap _ (congrArg WriteCursor.mem hbuf)
    (congrArg WriteCursor.high hbuf) ?_ ?_ ?_ <;> rw [WriteMsg.length_format]
  · exact hsize
  · exact hsize
  · omega

theorem MasterProxy.receives_writeRequest (h : Payload data len) :
    MasterProxy.Receives ((WriteMsg.make offset len (some data) uid).format data) .writeMsg
      (.minionWriteArgsKey minionWriteCmdKey offset len (some data) uid) := by
  have hkey : peekedKey ((WriteMsg.make offset len (some data) uid).format data) =
      writeMsgKey := by
    rw [WriteMsg.format, withChecksum, WriteMsg.body, List.append_assoc, List.append_assoc,
      peekedKey_format]
    rfl
  have hsize : peekedSize ((WriteMsg.make offset len (some data) uid).format data) = len := by
    rw [WriteMsg.format, withChecksum, WriteMsg.body, List.append_assoc, List.append_assoc,
      peekedSize_format]
    rfl
  have hread := WriteMsg.fromBuffer_format (WriteMsg.make offset len (some data) uid) h.holds []
  rw [List.append_nil] at hread
  have := h.lt
  refine MasterProxy.receives_of (by simp; omega) (by simp; omega) ?_ ?_
  · intro fresh
    rw [hkey, hsize, WriteMsg.length_format, h.length]
    rfl
  · simp only [MasterProxy.decode, hread, ok_bind]
    rfl

/-! #### ReadResponse -/

theorem MasterProxy.readResponse_carries (isSuccess : Bool) (h : Payload data len) :
    (MasterProxy.readResponse heap uid isSuccess (some data) len).Carries
      ((MinionReadMsg.make uid isSuccess (some data) len).format data) := by
  have hbuf := MinionReadMsg.toBuffer_eq (MinionReadMsg.make uid isSuccess (some data) len)
    h.holds (.start heap)
  have hsize : (MinionReadMsg.make uid isSuccess (some data) len).getBufferSize + len.toNat =
      33 + data.length := by
    rw [MinionReadMsg.getBufferSize_eq, h.length]
  have := h.lt
  refine Transmission.carries heap _ ((congrArg WriteCursor.mem hbuf).trans rfl)
    ((congrArg WriteCursor.high hbuf).trans rfl) ?_ ?_ ?_ <;> rw [MinionReadMsg.length_format]
  · exact hsize
  · exact hsize
  · omega

theorem ResponseProxy.receives_readResponse (isSuccess : Bool) (h : Payload data len) :
    ResponseProxy.Receives ((MinionReadMsg.make uid isSuccess (some data) len).format data)
      .minionReadMsg
      (if isSuccess then [.registerResponse uid, .notifySucces (some data) len] else []) := by
  have hkey : peekedKey ((MinionReadMsg.make uid isSuccess (some data) len).format data) =
      readMinionMsgKey := by
    rw [MinionReadMsg.format, List.append_assoc, peekedKey_format]
    rfl
  have hsize : peekedSize ((MinionReadMsg.make uid isSuccess (some data) len).format data) =
      len := by
    rw [MinionReadMsg.format, List.append_assoc, peekedSize_format]
    rfl
  have hread := fun other =>
    MinionReadMsg.fromBuffer_format (MinionReadMsg.make uid isSuccess (some data) len) h.holds other []
  simp only [List.append_nil] at hread
  have := h.lt
  refine ResponseProxy.receives_of (by simp; omega) (by simp; omega) ?_ ?_
  · intro fresh
    rw [hkey, hsize, MinionReadMsg.length_format, h.length]
    rfl
  · intro other
    simp only [ResponseProxy.decode, hread, ok_bind]
    rfl

/-! #### WriteResponse -/

theorem MasterProxy.writeResponse_carries (isSuccess : Bool) :
    (MasterProxy.writeResponse heap uid isSuccess).Carries
      (MinionWriteMsg.make uid isSuccess).format := by
  have hbuf := MinionWriteMsg.toBuffer_eq (MinionWriteMsg.make uid isSuccess) (.start heap)
  refine Transmission.carries heap _ (congrArg WriteCursor.mem hbuf)
    (congrArg WriteCursor.high hbuf) ?_ ?_ (by simp) <;> rw [MinionWriteMsg.length_format] <;> rfl

theorem ResponseProxy.receives_writeResponse (isSuccess : Bool) :
    ResponseProxy.Receives (MinionWriteMsg.make uid isSuccess).format .minionWriteMsg
      (if isSuccess then [.registerResponse uid] else []) := by
  have hkey : peekedKey (MinionWriteMsg.make uid isSuccess).format = writeMinionMsgKey :=
    peekedKey_format _ _
  have hread := fun other =>
    MinionWriteMsg.fromBuffer_format (MinionWriteMsg.make uid isSuccess) other []
  simp only [List.append_nil] at hread
  refine ResponseProxy.receives_of (by simp) (by simp) ?_ ?_
  · intro fresh
    rw [hkey, MinionWriteMsg.length_format]
    rfl
  · intro other
    simp only [ResponseProxy.decode, hread, ok_bind]
    cases isSuccess <;> rfl

/-! #### All kinds -/

/-- Every sender allocates enough for what it writes and sends exactly that; the receiver of each
kind, from the peeked key and size alone, selects the kind and asks for exactly the bytes sent;
decoding reads those bytes only, raises no error, and hands on what was sent. -/
theorem senders_and_receivers_agree (isSuccess : Bool) (h : Payload data len) :
    (∃ xs, (NBD.nbdReadRequest heap uid len offset).Carries xs ∧
      NBDProxy.Receives xs .nbdReadMsg (.readArgsKey readCmdKey offset len)) ∧
    (∃ xs, (NBD.nbdWriteRequest heap uid data len offset).Carries xs ∧
      NBDProxy.Receives xs .nbdWriteMsg (.writeArgsKey writeCmdKey offset len (some data))) ∧
    (∃ xs, (MinionProxy.readRequest heap offset len uid).Carries xs ∧
      MasterProxy.Receives xs .readMsg (.minionReadArgsKey minionReadCmdKey offset len uid)) ∧
    (∃ xs, (MinionProxy.writeRequest heap offset len (some data) uid).Carries xs ∧
      MasterProxy.Receives xs .writeMsg
        (.minionWriteArgsKey minionWriteCmdKey offset len (some data) uid)) ∧
    (∃ xs, (MasterProxy.readResponse heap uid isSuccess (some data) len).Carries xs ∧
      (∀ other, MinionReadMsg.fromBuffer other xs =
        .ok (.make uid isSuccess (some data) len, [])) ∧
      ResponseProxy.Receives xs .minionReadMsg
        (if isSuccess then [.registerResponse uid, .notifySucces (some data) len] else [])) ∧
    (∃ xs, (MasterProxy.writeResponse heap uid isSuccess).Carries xs ∧
      (∀ other, MinionWriteMsg.fromBuffer other xs = .ok (.make uid isSuccess, [])) ∧
      ResponseProxy.Receives xs .minionWriteMsg
        (if isSuccess then [.registerResponse uid] else [])) := by
  refine ⟨⟨_, NBD.nbdReadRequest_carries heap uid offset len,
      NBDProxy.receives_nbdRead uid offset len⟩,
    ⟨_, NBD.nbdWriteRequest_carries heap uid offset len h,
      NBDProxy.receives_nbdWrite uid offset len h⟩,
    ⟨_, MinionProxy.readRequest_carries heap uid offset len,
      MasterProxy.receives_readRequest uid offset len⟩,
    ⟨_, MinionProxy.writeRequest_carries heap uid offset len h,
      MasterProxy.receives_writeRequest uid offset len h⟩,
    ⟨_, MasterProxy.readResponse_carries heap uid len isSuccess h, ?_,
      ResponseProxy.receives_readResponse uid len isSuccess h⟩,
    ⟨_, MasterProxy.writeResponse_carries heap uid isSuccess, ?_,
      ResponseProxy.receives_writeResponse uid isSuccess⟩⟩
  · intro other
    have hread := MinionReadMsg.fromBuffer_format
      (MinionReadMsg.make uid isSuccess (some data) len) h.holds other []
    rwa [List.append_nil] at hread
  · intro other
    have hread := MinionWriteMsg.fromBuffer_format (MinionWriteMsg.make uid isSuccess) other []
    rwa [List.append_nil] at hread

end Kinds

/-- The agreement for a payload of two bytes: the write request of the master. -/
theorem senders_and_receivers_agree_two_bytes :
    ∃ xs, (MinionProxy.writeRequest (fun _ => 0) 7 2 (some [1, 2]) ⟨1, 5, 9, 2⟩).Carries xs ∧
      MasterProxy.Receives xs .writeMsg
        (.minionWriteArgsKey minionWriteCmdKey 7 2 (some [1, 2]) ⟨1, 5, 9, 2⟩) :=
  (senders_and_receivers_agree (fun _ => 0) ⟨1, 5, 9, 2⟩ 7 2 true
    (Payload.mk rfl (by decide))).2.2.2.1

end IotDrive
