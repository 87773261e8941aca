/-
**The wire format of the messages, and the round trip through it.**

`IotDrive/Message.lean` writes and reads messages through moving pointers.  This module gives the
same messages as plain lists of bytes, their *format*, and proves that every `toBuffer` is one
store of the format and every `fromBuffer` reads the format back.  The rest of the development
only uses these facts and never follows a pointer again.

Main definitions:

* `ThreadSafeUID.format`, `AMessage.format` and the formats of the six kinds of message;
* `SharedData.Holds` — an array of a given length.

Main results:

* `ReadMsg.toBuffer_eq` and its siblings — **writing is one store of the format**;
* `ReadMsg.fromBuffer_format` and its siblings — **reading inverts writing**, whatever follows the
  message in the buffer; for the kinds with a checksum no checksum error is raised;
* `ReadMsg.length_format` and its siblings — the length of each format;
* `NBDReadMsg.eq_append_of_fromBuffer`, `NBDWriteMsg.eq_append_of_fromBuffer` — what stands in a
  buffer that a request is decoded from.
-/

import IotDrive.Message

set_option relaxedAutoImplicit false
set_option autoImplicit false

namespace IotDrive

open LittleEndian (bytes)

/-! ### Loading what was stored -/

@[simp] theorem ok_bind {α β : Type} (a : α) (f : α → Except Fault β) :
    (Except.ok a >>= f) = f a := rfl

/-- A load that fits takes exactly the bytes in front. -/
theorem loadBytes_append (xs rest : List UInt8) :
    loadBytes xs.length (xs ++ rest) = .ok (xs, rest) := by
  have h : xs.length ≤ (xs ++ rest).length := by simp
  rw [loadBytes, if_pos h, List.take_left, List.drop_left]

theorem loadBytes_append_of_length {n : ℕ} {xs : List UInt8} (h : xs.length = n)
    (rest : List UInt8) : loadBytes n (xs ++ rest) = .ok (xs, rest) := by
  rw [← h, loadBytes_append]

@[simp] theorem load32_bytes (v : UInt32) (rest : List UInt8) :
    load32 (bytes 4 v.toNat ++ rest) = .ok (v, rest) := by
  simp only [load32, loadBytes_append_of_length (LittleEndian.length_bytes 4 _), ok_bind,
    LittleEndian.ofNat_value_bytes32]
  rfl

@[simp] theorem load64_bytes (v : UInt64) (rest : List UInt8) :
    load64 (bytes 8 v.toNat ++ rest) = .ok (v, rest) := by
  simp only [load64, loadBytes_append_of_length (LittleEndian.length_bytes 8 _), ok_bind,
    LittleEndian.ofNat_value_bytes64]
  rfl

@[simp] theorem load8_cons (b : UInt8) (rest : List UInt8) : load8 (b :: rest) = .ok (b, rest) :=
  rfl

@[simp] theorem loadBool_boolByte (other : UInt8 → Bool) (b : Bool) (rest : List UInt8) :
    loadBool other (boolByte b :: rest) = .ok (b, rest) := by
  cases b <;> rfl

/-! ### What was stored where a load succeeds -/

theorem bind_eq_ok {α β : Type} {x : Except Fault α} {f : α → Except Fault β} {b : β} :
    (x >>= f) = .ok b ↔ ∃ a, x = .ok a ∧ f a = .ok b := by
  cases x with
  | error e => exact ⟨nofun, fun ⟨_, h, _⟩ => nomatch h⟩
  | ok a => exact ⟨fun h => ⟨a, rfl, h⟩, fun ⟨_, ha, h⟩ => by cases ha; exact h⟩

theorem eq_append_of_loadBytes {n : ℕ} {buffer xs rest : List UInt8}
    (h : loadBytes n buffer = .ok (xs, rest)) : xs.length = n ∧ buffer = xs ++ rest := by
  unfold loadBytes at h
  split at h
  · cases h
    exact ⟨by simpa using ‹n ≤ buffer.length›, (List.take_append_drop n buffer).symm⟩
  · cases h

theorem eq_append_of_load32 {buffer rest : List UInt8} {v : UInt32}
    (h : load32 buffer = .ok (v, rest)) : ∃ xs, xs.length = 4 ∧ buffer = xs ++ rest := by
  obtain ⟨⟨xs, rest'⟩, hload, heq⟩ := bind_eq_ok.1 h
  cases heq
  exact ⟨xs, eq_append_of_loadBytes hload⟩

theorem eq_append_of_load64 {buffer rest : List UInt8} {v : UInt64}
    (h : load64 buffer = .ok (v, rest)) : buffer = bytes 8 v.toNat ++ rest := by
  obtain ⟨⟨xs, rest'⟩, hload, heq⟩ := bind_eq_ok.1 h
  cases heq
  obtain ⟨hlen, hbuffer⟩ := eq_append_of_loadBytes hload
  have hlt : LittleEndian.value xs < 2 ^ 64 := by
    have hvalue := LittleEndian.value_lt xs
    rw [hlen] at hvalue
    exact hvalue
  rw [UInt64.toNat_ofNat_of_lt' hlt, ← hlen, LittleEndian.bytes_value]
  exact hbuffer

/-! ### Any bytes are words -/

/-- Four bytes are those of a `u_int32_t`. -/
theorem exists_bytes32 {buffer : List UInt8} (h : 4 ≤ buffer.length) :
    ∃ (v : UInt32) (rest : List UInt8), buffer = bytes 4 v.toNat ++ rest := by
  have hlen : (buffer.take 4).length = 4 := List.length_take_of_le h
  have hlt : LittleEndian.value (buffer.take 4) < 2 ^ 32 := by
    have hvalue := LittleEndian.value_lt (buffer.take 4)
    rw [hlen] at hvalue
    exact hvalue
  refine ⟨UInt32.ofNat (LittleEndian.value (buffer.take 4)), buffer.drop 4, ?_⟩
  have hbytes := LittleEndian.bytes_value (buffer.take 4)
  rw [hlen] at hbytes
  rw [UInt32.toNat_ofNat_of_lt' hlt, hbytes, List.take_append_drop]

/-- Eight bytes are those of a `u_int64_t`. -/
theorem exists_bytes64 {buffer : List UInt8} (h : 8 ≤ buffer.length) :
    ∃ (v : UInt64) (rest : List UInt8), buffer = bytes 8 v.toNat ++ rest := by
  have hlen : (buffer.take 8).length = 8 := List.length_take_of_le h
  have hlt : LittleEndian.value (buffer.take 8) < 2 ^ 64 := by
    have hvalue := LittleEndian.value_lt (buffer.take 8)
    rw [hlen] at hvalue
    exact hvalue
  refine ⟨UInt64.ofNat (LittleEndian.value (buffer.take 8)), buffer.drop 8, ?_⟩
  have hbytes := LittleEndian.bytes_value (buffer.take 8)
  rw [hlen] at hbytes
  rw [UInt64.toNat_ofNat_of_lt' hlt, hbytes, List.take_append_drop]

/-! ### ThreadSafeUID -/

namespace ThreadSafeUID

/-- The bytes of a UID. -/
def format (m : ThreadSafeUID) : List UInt8 :=
  bytes 4 m.uniqueCounter.toNat ++ bytes 8 m.timestamp.toNat ++ bytes 4 m.pid.toUInt32.toNat ++
    bytes 8 m.ip.toNat

@[simp] theorem length_format (m : ThreadSafeUID) : m.format.length = 24 := by simp [format]

theorem toBuffer_eq (m : ThreadSafeUID) (buffer : Buffer) :
    m.toBuffer buffer = buffer.store m.format := by
  simp [toBuffer, store32, store64, format]

@[simp] theorem fromBuffer_format (m : ThreadSafeUID) (rest : List UInt8) :
    fromBuffer (m.format ++ rest) = .ok (m, rest) := by
  simp only [fromBuffer, format, List.append_assoc, load32_bytes, load64_bytes, ok_bind]
  rfl

theorem eq_append_of_fromBuffer {m : ThreadSafeUID} {buffer rest : List UInt8}
    (h : fromBuffer buffer = .ok (m, rest)) : ∃ xs, xs.length = 24 ∧ buffer = xs ++ rest := by
  obtain ⟨⟨uniqueCounter, b₁⟩, h₁, h⟩ := bind_eq_ok.1 h
  obtain ⟨⟨timestamp, b₂⟩, h₂, h⟩ := bind_eq_ok.1 h
  obtain ⟨⟨pid, b₃⟩, h₃, h⟩ := bind_eq_ok.1 h
  obtain ⟨⟨ip, b₄⟩, h₄, h⟩ := bind_eq_ok.1 h
  cases h
  obtain ⟨xs, hxs, rfl⟩ := eq_append_of_load32 h₁
  obtain rfl := eq_append_of_load64 h₂
  obtain ⟨ys, hys, rfl⟩ := eq_append_of_load32 h₃
  obtain rfl := eq_append_of_load64 h₄
  refine ⟨xs ++ (bytes 8 timestamp.toNat ++ (ys ++ bytes 8 ip.toNat)), ?_, ?_⟩
  · simp [hxs, hys]
  · simp only [List.append_assoc]

/-- Any 24 bytes are those of a UID. -/
theorem exists_format {buffer : List UInt8} (h : 24 ≤ buffer.length) :
    ∃ (m : ThreadSafeUID) (rest : List UInt8), buffer = m.format ++ rest := by
  obtain ⟨uniqueCounter, b₁, rfl⟩ := exists_bytes32 (le_trans (by decide) h)
  have h₁ : 20 ≤ b₁.length := by simp at h; omega
  obtain ⟨timestamp, b₂, rfl⟩ := exists_bytes64 (le_trans (by decide) h₁)
  have h₂ : 12 ≤ b₂.length := by simp at h₁; omega
  obtain ⟨pid, b₃, rfl⟩ := exists_bytes32 (le_trans (by decide) h₂)
  have h₃ : 8 ≤ b₃.length := by simp at h₂; omega
  obtain ⟨ip, b₄, rfl⟩ := exists_bytes64 h₃
  refine ⟨⟨uniqueCounter, timestamp, pid.toInt32, ip⟩, b₄, ?_⟩
  simp only [format, UInt32.toUInt32_toInt32, List.append_assoc]

end ThreadSafeUID

/-! ### AMessage -/

namespace AMessage

/-- The bytes of a header. -/
def format (m : AMessage) : List UInt8 :=
  bytes 4 m.key.toNat ++ bytes 4 m.size.toNat ++ m.uid.format

@[simp] theorem length_format (m : AMessage) : m.format.length = 32 := by simp [format]

@[simp] theorem getBufferSize_eq (m : AMessage) : m.getBufferSize = 32 := rfl

theorem toBuffer_eq (m : AMessage) (buffer : Buffer) :
    m.toBuffer buffer = buffer.store m.format := by
  simp [toBuffer, store32, ThreadSafeUID.toBuffer_eq, format]

@[simp] theorem fromBuffer_format (m : AMessage) (rest : List UInt8) :
    fromBuffer (m.format ++ rest) = .ok (m, rest) := by
  simp only [fromBuffer, format, List.append_assoc, load32_bytes, ThreadSafeUID.fromBuffer_format,
    ok_bind]
  rfl

theorem eq_append_of_fromBuffer {m : AMessage} {buffer rest : List UInt8}
    (h : fromBuffer buffer = .ok (m, rest)) : ∃ xs, xs.length = 32 ∧ buffer = xs ++ rest := by
  obtain ⟨⟨key, b₁⟩, h₁, h⟩ := bind_eq_ok.1 h
  obtain ⟨⟨size, b₂⟩, h₂, h⟩ := bind_eq_ok.1 h
  obtain ⟨⟨uid, b₃⟩, h₃, h⟩ := bind_eq_ok.1 h
  cases h
  obtain ⟨xs, hxs, rfl⟩ := eq_append_of_load32 h₁
  obtain ⟨ys, hys, rfl⟩ := eq_append_of_load32 h₂
  obtain ⟨zs, hzs, rfl⟩ := ThreadSafeUID.eq_append_of_fromBuffer h₃
  refine ⟨xs ++ (ys ++ zs), ?_, ?_⟩
  · simp [hxs, hys, hzs]
  · simp only [List.append_assoc]

/-- Any 32 bytes are those of a header. -/
theorem exists_format {buffer : List UInt8} (h : 32 ≤ buffer.length) :
    ∃ (m : AMessage) (rest : List UInt8), buffer = m.format ++ rest := by
  obtain ⟨key, b₁, rfl⟩ := exists_bytes32 (le_trans (by decide) h)
  have h₁ : 28 ≤ b₁.length := by simp at h; omega
  obtain ⟨size, b₂, rfl⟩ := exists_bytes32 (le_trans (by decide) h₁)
  have h₂ : 24 ≤ b₂.length := by simp at h₁; omega
  obtain ⟨uid, b₃, rfl⟩ := ThreadSafeUID.exists_format h₂
  refine ⟨⟨key, size, uid⟩, b₃, ?_⟩
  simp only [format, List.append_assoc]

end AMessage

/-! ### Arrays and checksums -/

/-- The pointer is to an array of `n` bytes. -/
def SharedData.Holds (data : SharedData) (n : UInt32) (xs : List UInt8) : Prop :=
  data = some xs ∧ xs.length = n.toNat

theorem memcpy_eq {data : SharedData} {n : UInt32} {xs : List UInt8} (h : data.Holds n xs)
    (buffer : Buffer) : memcpy buffer data n.toNat = buffer.put xs := by
  obtain ⟨rfl, hlen⟩ := h
  rw [memcpy, ← hlen, List.take_length]

theorem skip_memcpy {data : SharedData} {n : UInt32} {xs : List UInt8} (h : data.Holds n xs)
    (buffer : Buffer) : (memcpy buffer data n.toNat).skip n.toNat = buffer.store xs := by
  rw [memcpy_eq h, ← h.2, WriteCursor.skip_put]

/-- A list of bytes followed by its checksum. -/
def withChecksum (body : List UInt8) : List UInt8 := body ++ [calculateChecksum body body.length]

@[simp] theorem length_withChecksum (body : List UInt8) :
    (withChecksum body).length = body.length + 1 := by
  simp [withChecksum]

/-- The sender's checksum: it covers what was stored since the start of the message. -/
theorem store8_checksum (buffer : Buffer) (body : List UInt8) :
    store8 (buffer.store body) (calculateChecksum ((buffer.store body).segment buffer.ptr)
      ((buffer.store body).ptr - buffer.ptr)) = buffer.store (withChecksum body) := by
  have hlen : (buffer.store body).ptr - buffer.ptr = body.length := by simp
  rw [hlen, WriteCursor.segment_store_self, store8, WriteCursor.store_store, withChecksum]

/-- The receiver's checksum: it covers the same bytes, whatever follows the message. -/
theorem calculateChecksum_withChecksum (body rest : List UInt8) :
    calculateChecksum (withChecksum body ++ rest) ((withChecksum body ++ rest).length -
      (calculateChecksum body body.length :: rest).length) =
        calculateChecksum body body.length := by
  have hlen : (withChecksum body ++ rest).length -
      (calculateChecksum body body.length :: rest).length = body.length := by
    simp
    omega
  rw [hlen, withChecksum, List.append_assoc]
  rw [calculateChecksum, List.take_left, calculateChecksum, List.take_length]

/-! ### ReadMsg -/

namespace ReadMsg

/-- The bytes that the checksum covers. -/
def body (m : ReadMsg) : List UInt8 := m.toAMessage.format ++ bytes 8 m.offset.toNat

/-- The bytes of a read request. -/
def format (m : ReadMsg) : List UInt8 := withChecksum m.body

@[simp] theorem length_format (m : ReadMsg) : m.format.length = 41 := by simp [format, body]

theorem getBufferSize_eq (m : ReadMsg) : m.getBufferSize = 41 := rfl

/-- Writing a read request is one store of its format. -/
theorem toBuffer_eq (m : ReadMsg) (buffer : Buffer) :
    m.toBuffer buffer = buffer.store m.format := by
  have hbody : store64 (m.toAMessage.toBuffer buffer) m.offset = buffer.store m.body := by
    rw [AMessage.toBuffer_eq, store64, WriteCursor.store_store, body]
  simp only [toBuffer, hbody, store8_checksum, format]

/-- Reading a read request inverts writing it, and raises no checksum error. -/
theorem fromBuffer_format (m : ReadMsg) (rest : List UInt8) :
    fromBuffer (m.format ++ rest) = .ok (m, rest) := by
  have hhead : AMessage.fromBuffer (m.format ++ rest) = .ok (m.toAMessage,
      bytes 8 m.offset.toNat ++ (calculateChecksum m.body m.body.length :: rest)) := by
    simp only [format, withChecksum, body, List.append_assoc, AMessage.fromBuffer_format]
    rfl
  simp only [fromBuffer, hhead, ok_bind, load64_bytes, load8_cons]
  rw [format, calculateChecksum_withChecksum, if_neg (by simp)]
  rfl

end ReadMsg

/-! ### WriteMsg -/

namespace WriteMsg

variable (m : WriteMsg) {xs : List UInt8}

/-- The bytes that the checksum covers, for the payload `xs`. -/
def body (xs : List UInt8) : List UInt8 :=
  m.toAMessage.format ++ bytes 8 m.offset.toNat ++ xs

/-- The bytes of a write request with the payload `xs`. -/
def format (xs : List UInt8) : List UInt8 := withChecksum (m.body xs)

@[simp] theorem length_format (xs : List UInt8) :
    (m.format xs).length = 41 + xs.length := by
  simp [format, body]
  omega

theorem getBufferSize_eq : m.getBufferSize = 41 + m.size.toNat := by
  simp only [getBufferSize, AMessage.getBufferSize_eq, AMessage.getSize]
  omega

/-- Writing a write request is one store of its format. -/
theorem toBuffer_eq (h : m.data.Holds m.size xs) (buffer : Buffer) :
    m.toBuffer buffer = buffer.store (m.format xs) := by
  have hbody : (memcpy (store64 (m.toAMessage.toBuffer buffer) m.offset) m.data
      m.getSize.toNat).skip m.getSize.toNat = buffer.store (m.body xs) := by
    rw [AMessage.getSize, skip_memcpy h, AMessage.toBuffer_eq, store64, WriteCursor.store_store,
      WriteCursor.store_store, body, List.append_assoc]
  simp only [toBuffer, hbody, store8_checksum, format]

/-- Reading a write request inverts writing it, and raises no checksum error. -/
theorem fromBuffer_format (h : m.data.Holds m.size xs) (rest : List UInt8) :
    fromBuffer (m.format xs ++ rest) = .ok (m, rest) := by
  have hhead : AMessage.fromBuffer (m.format xs ++ rest) = .ok (m.toAMessage,
      bytes 8 m.offset.toNat ++
        (xs ++ (calculateChecksum (m.body xs) (m.body xs).length :: rest))) := by
    simp only [format, withChecksum, body, List.append_assoc, AMessage.fromBuffer_format]
    rfl
  simp only [fromBuffer, hhead, ok_bind, load64_bytes, AMessage.getSize,
    loadBytes_append_of_length h.2, load8_cons]
  rw [format, calculateChecksum_withChecksum, if_neg (by simp), ← h.1]
  rfl

end WriteMsg

/-! ### MinionReadMsg -/

namespace MinionReadMsg

variable (m : MinionReadMsg) {xs : List UInt8}

/-- The bytes of the answer to a read request, with the data `xs`. -/
def format (xs : List UInt8) : List UInt8 :=
  m.toAMessage.format ++ [boolByte m.isSuccess] ++ xs

@[simp] theorem length_format (xs : List UInt8) :
    (m.format xs).length = 33 + xs.length := by
  simp [format]
  omega

theorem getBufferSize_eq : m.getBufferSize = 33 := rfl

/-- Writing the answer stores its format, but the pointer handed back stands before the data. -/
theorem toBuffer_eq (h : m.data.Holds m.size xs) (buffer : Buffer) :
    m.toBuffer buffer = { buffer.store (m.format xs) with ptr := buffer.ptr + 33 } := by
  have hput : ∀ c : Buffer, c.put xs = { c.store xs with ptr := c.ptr } := fun _ => rfl
  simp only [toBuffer, AMessage.getSize, memcpy_eq h, AMessage.toBuffer_eq, store8,
    WriteCursor.store_store, hput, format]
  simp

/-- Reading the answer inverts writing it. -/
theorem fromBuffer_format (h : m.data.Holds m.size xs) (other : UInt8 → Bool) (rest : List UInt8) :
    fromBuffer other (m.format xs ++ rest) = .ok (m, rest) := by
  simp only [fromBuffer, format, List.append_assoc, AMessage.fromBuffer_format, ok_bind,
    List.cons_append, List.nil_append, loadBool_boolByte, AMessage.getSize,
    loadBytes_append_of_length h.2]
  rw [← h.1]
  rfl

end MinionReadMsg

/-! ### MinionWriteMsg -/

namespace MinionWriteMsg

/-- The bytes of the answer to a write request. -/
def format (m : MinionWriteMsg) : List UInt8 := m.toAMessage.format ++ [boolByte m.isSuccess]

@[simp] theorem length_format (m : MinionWriteMsg) : m.format.length = 33 := by simp [format]

theorem getBufferSize_eq (m : MinionWriteMsg) : m.getBufferSize = 33 := rfl

/-- Writing the answer is one store of its format. -/
theorem toBuffer_eq (m : MinionWriteMsg) (buffer : Buffer) :
    m.toBuffer buffer = buffer.store m.format := by
  rw [toBuffer, AMessage.toBuffer_eq, store8, WriteCursor.store_store, format]

/-- Reading the answer inverts writing it. -/
theorem fromBuffer_format (m : MinionWriteMsg) (other : UInt8 → Bool) (rest : List UInt8) :
    fromBuffer other (m.format ++ rest) = .ok (m, rest) := by
  simp only [fromBuffer, format, List.append_assoc, AMessage.fromBuffer_format, ok_bind,
    List.cons_append, List.nil_append, loadBool_boolByte]
  rfl

end MinionWriteMsg

/-! ### NBDReadMsg -/

namespace NBDReadMsg

/-- The bytes of the block device's read request. -/
def format (m : NBDReadMsg) : List UInt8 := m.toAMessage.format ++ bytes 8 m.offset.toNat

@[simp] theorem length_format (m : NBDReadMsg) : m.format.length = 40 := by simp [format]

theorem getBufferSize_eq (m : NBDReadMsg) : m.getBufferSize = 40 := rfl

/-- Writing the request is one store of its format. -/
theorem toBuffer_eq (m : NBDReadMsg) (buffer : Buffer) :
    m.toBuffer buffer = buffer.store m.format := by
  rw [toBuffer, AMessage.toBuffer_eq, store64, WriteCursor.store_store, format]

/-- Reading the request inverts writing it. -/
theorem fromBuffer_format (m : NBDReadMsg) (rest : List UInt8) :
    fromBuffer (m.format ++ rest) = .ok (m, rest) := by
  simp only [fromBuffer, format, List.append_assoc, AMessage.fromBuffer_format, ok_bind,
    load64_bytes]
  rfl

/-- Where a read request is decoded, the offset stands behind a header. -/
theorem eq_append_of_fromBuffer {m : NBDReadMsg} {buffer rest : List UInt8}
    (h : fromBuffer buffer = .ok (m, rest)) :
    ∃ header, header.length = 32 ∧ buffer = header ++ (bytes 8 m.offset.toNat ++ rest) := by
  obtain ⟨⟨header, b₁⟩, h₁, h⟩ := bind_eq_ok.1 h
  obtain ⟨⟨offset, b₂⟩, h₂, h⟩ := bind_eq_ok.1 h
  cases h
  obtain ⟨xs, hxs, rfl⟩ := AMessage.eq_append_of_fromBuffer h₁
  obtain rfl := eq_append_of_load64 h₂
  exact ⟨xs, hxs, rfl⟩

end NBDReadMsg

/-! ### NBDWriteMsg -/

namespace NBDWriteMsg

variable (m : NBDWriteMsg) {xs : List UInt8}

/-- The bytes of the block device's write request with the payload `xs`. -/
def format (xs : List UInt8) : List UInt8 :=
  m.toAMessage.format ++ bytes 8 m.offset.toNat ++ xs

@[simp] theorem length_format (xs : List UInt8) :
    (m.format xs).length = 40 + xs.length := by
  simp [format]
  omega

theorem getBufferSize_eq : m.getBufferSize = 40 + m.size.toNat := by
  simp only [getBufferSize, AMessage.getBufferSize_eq, AMessage.getSize]

/-- Writing the request is one store of its format. -/
theorem toBuffer_eq (h : m.data.Holds m.size xs) (buffer : Buffer) :
    m.toBuffer buffer = buffer.store (m.format xs) := by
  simp only [toBuffer, AMessage.getSize, skip_memcpy h, AMessage.toBuffer_eq, store64,
    WriteCursor.store_store, format]

/-- Reading the request inverts writing it. -/
theorem fromBuffer_format (h : m.data.Holds m.size xs) (rest : List UInt8) :
    fromBuffer (m.format xs ++ rest) = .ok (m, rest) := by
  simp only [fromBuffer, format, List.append_assoc, AMessage.fromBuffer_format, ok_bind,
    load64_bytes, AMessage.getSize, loadBytes_append_of_length h.2]
  rw [← h.1]
  rfl

/-- Where a write request is decoded, the offset and the data stand behind a header. -/
theorem eq_append_of_fromBuffer {m : NBDWriteMsg} {buffer rest : List UInt8}
    (h : fromBuffer buffer = .ok (m, rest)) (hdata : m.data = some xs) :
    ∃ header, header.length = 32 ∧
      buffer = header ++ (bytes 8 m.offset.toNat ++ (xs ++ rest)) := by
  obtain ⟨⟨header, b₁⟩, h₁, h⟩ := bind_eq_ok.1 h
  obtain ⟨⟨offset, b₂⟩, h₂, h⟩ := bind_eq_ok.1 h
  obtain ⟨⟨data, b₃⟩, h₃, h⟩ := bind_eq_ok.1 h
  cases h
  cases hdata
  obtain ⟨ys, hys, rfl⟩ := AMessage.eq_append_of_fromBuffer h₁
  obtain rfl := eq_append_of_load64 h₂
  obtain ⟨-, rfl⟩ := eq_append_of_loadBytes h₃
  exact ⟨ys, hys, rfl⟩

end NBDWriteMsg

end IotDrive
