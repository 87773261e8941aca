/-
The messages of `message.hpp` and `message.cpp`.

Seven classes write themselves to a buffer through a moving pointer and read themselves back:
`ThreadSafeUID`, the common header `AMessage`, and the six kinds of message built on the header.
A buffer being written is a `WriteCursor`; a received buffer is the list of its bytes, and a read
past its end is the fault `Fault.overread`.  Words are stored in the byte order of the machine the
program is built for, least significant byte first.

Main definitions:

* `ThreadSafeUID`, `AMessage`, `ReadMsg`, `WriteMsg`, `MinionReadMsg`, `MinionWriteMsg`,
  `NBDReadMsg`, `NBDWriteMsg` — the classes, with `toBuffer`, `fromBuffer`, `getBufferSize` and
  `supplyArgs`;
* `calculateChecksum` — the exclusive or of the bytes of a message;
* `Fault` — the ways in which the reading side fails.
-/

import IotDrive.Library.LittleEndian
import IotDrive.Library.WriteCursor

set_option relaxedAutoImplicit false
set_option autoImplicit false

namespace IotDrive

/-- A buffer that is being written, as the bytes of a `char*` allocation and a pointer into it. -/
abbrev Buffer := WriteCursor UInt8

/-- The bytes behind a `std::shared_ptr<char[]>`, or `none` for a null pointer. -/
abbrev SharedData := Option (List UInt8)

/-- What ends a decoding other than normally. -/
inductive Fault
  /-- The factory has no constructor for the key: `std::out_of_range`. -/
  | outOfRange
  /-- The received checksum is not the calculated one: `std::runtime_error`. -/
  | checksum
  /-- A read past the end of the allocated buffer, which is undefined behaviour. -/
  | overread
  deriving DecidableEq

/-! ### Storing and loading words -/

/-- `*(u_int32_t*)buffer = v; buffer += sizeof(u_int32_t)`. -/
def store32 (buffer : Buffer) (v : UInt32) : Buffer :=
  buffer.store (LittleEndian.bytes 4 v.toNat)

/-- `*(u_int64_t*)buffer = v; buffer += sizeof(u_int64_t)`. -/
def store64 (buffer : Buffer) (v : UInt64) : Buffer :=
  buffer.store (LittleEndian.bytes 8 v.toNat)

/-- `*(uint8_t*)buffer = v; buffer += sizeof(uint8_t)`. -/
def store8 (buffer : Buffer) (v : UInt8) : Buffer := buffer.store [v]

/-- The byte that stands for a `bool`. -/
def boolByte (b : Bool) : UInt8 := if b then 1 else 0

/-- The first `n` bytes of a buffer and the rest of it. -/
def loadBytes (n : ℕ) (buffer : List UInt8) : Except Fault (List UInt8 × List UInt8) :=
  if n ≤ buffer.length then .ok (buffer.take n, buffer.drop n) else .error .overread

/-- Load a `u_int32_t` and move past it. -/
def load32 (buffer : List UInt8) : Except Fault (UInt32 × List UInt8) := do
  let (bs, buffer) ← loadBytes 4 buffer
  return (UInt32.ofNat (LittleEndian.value bs), buffer)

/-- Load a `u_int64_t` and move past it. -/
def load64 (buffer : List UInt8) : Except Fault (UInt64 × List UInt8) := do
  let (bs, buffer) ← loadBytes 8 buffer
  return (UInt64.ofNat (LittleEndian.value bs), buffer)

/-- Load a `uint8_t` and move past it. -/
def load8 : List UInt8 → Except Fault (UInt8 × List UInt8)
  | [] => .error .overread
  | b :: buffer => .ok (b, buffer)

/-- Load a `bool` and move past it.  What a byte other than 0 and 1 counts for is undefined in C++, and
left to `other`. -/
def loadBool (other : UInt8 → Bool) (buffer : List UInt8) : Except Fault (Bool × List UInt8) := do
  let (b, buffer) ← load8 buffer
  return (if b = 0 then false else if b = 1 then true else other b, buffer)

/-! ### Message keys -/

/-- `WRITE_MSG_KEY`. -/
def writeMsgKey : UInt32 := 8

/-- `READ_MSG_KEY`. -/
def readMsgKey : UInt32 := 9

/-- `READ_MINION_MSG_KEY`. -/
def readMinionMsgKey : UInt32 := 28

/-- `WRITE_MINION_MSG_KEY`. -/
def writeMinionMsgKey : UInt32 := 29

/-- `NBD_WRITE_MSG`. -/
def nbdWriteMsgKey : UInt32 := 30

/-- `NBD_READ_MSG`. -/
def nbdReadMsgKey : UInt32 := 31

/-! ### ThreadSafeUID -/

/-- The identity of a request: its counter, when and by which process it was made, and `ip`. -/
structure ThreadSafeUID where
  uniqueCounter : UInt32
  timestamp : UInt64
  pid : Int32
  ip : UInt64
  deriving DecidableEq

namespace ThreadSafeUID

def getUniqueCounter (m : ThreadSafeUID) : UInt32 := m.uniqueCounter

def toBuffer (m : ThreadSafeUID) (buffer : Buffer) : Buffer :=
  let buffer := store32 buffer m.uniqueCounter
  let buffer := store64 buffer m.timestamp
  let buffer := store32 buffer m.pid.toUInt32
  store64 buffer m.ip

def fromBuffer (buffer : List UInt8) : Except Fault (ThreadSafeUID × List UInt8) := do
  let (uniqueCounter, buffer) ← load32 buffer
  let (timestamp, buffer) ← load64 buffer
  let (pid, buffer) ← load32 buffer
  let (ip, buffer) ← load64 buffer
  return ({ uniqueCounter, timestamp, pid := pid.toInt32, ip }, buffer)

/-- The sizes of the four fields. -/
def getBufferSize (_ : ThreadSafeUID) : ℕ := 4 + 8 + 4 + 8

end ThreadSafeUID

/-! ### AMessage -/

/-- The header that every message starts with.  `size` is the length of the payload. -/
structure AMessage where
  key : UInt32
  size : UInt32
  uid : ThreadSafeUID
  deriving DecidableEq

namespace AMessage

def getUID (m : AMessage) : ThreadSafeUID := m.uid

def getSize (m : AMessage) : UInt32 := m.size

def toBuffer (m : AMessage) (buffer : Buffer) : Buffer :=
  let buffer := store32 buffer m.key
  let buffer := store32 buffer m.size
  m.uid.toBuffer buffer

def fromBuffer (buffer : List UInt8) : Except Fault (AMessage × List UInt8) := do
  let (key, buffer) ← load32 buffer
  let (size, buffer) ← load32 buffer
  let (uid, buffer) ← ThreadSafeUID.fromBuffer buffer
  return ({ key, size, uid }, buffer)

def getBufferSize (m : AMessage) : ℕ := 4 + 4 + m.uid.getBufferSize

end AMessage

/-- `AMessage::CalculateChecksum`: the exclusive or of the first `length` bytes of `data`. -/
def calculateChecksum (data : List UInt8) (length : ℕ) : UInt8 :=
  (data.take length).foldl (fun checksum byte => checksum ^^^ byte) 0

/-- `memcpy(buffer, data.get(), n)` for an array of at least `n` bytes.  A null pointer is only
passed for `n = 0`, where nothing is copied. -/
def memcpy (buffer : Buffer) (data : SharedData) (n : ℕ) : Buffer :=
  match data with
  | some bytes => buffer.put (bytes.take n)
  | none => buffer

/-- The tuple that `SupplyArgs` returns: an offset, a size and the data. -/
abbrev Args := UInt64 × UInt32 × SharedData

/-! ### ReadMsg -/

/-- The master's read request to a minion. -/
structure ReadMsg extends AMessage where
  offset : UInt64
  deriving DecidableEq

namespace ReadMsg

def make (offset : UInt64) (sizeToRead : UInt32) (uid : ThreadSafeUID) : ReadMsg :=
  { key := readMsgKey, size := sizeToRead, uid, offset }

def toBuffer (m : ReadMsg) (buffer : Buffer) : Buffer :=
  let start := buffer.ptr
  let buffer := m.toAMessage.toBuffer buffer
  let buffer := store64 buffer m.offset
  let length := buffer.ptr - start
  let checksum := calculateChecksum (buffer.segment start) length
  store8 buffer checksum

def fromBuffer (buffer : List UInt8) : Except Fault (ReadMsg × List UInt8) := do
  let start := buffer
  let (header, buffer) ← AMessage.fromBuffer buffer
  let (offset, buffer) ← load64 buffer
  let length := start.length - buffer.length
  let calculatedChecksum := calculateChecksum start length
  let (receivedChecksum, buffer) ← load8 buffer
  if receivedChecksum ≠ calculatedChecksum then throw .checksum
  return ({ header with offset }, buffer)

def getBufferSize (m : ReadMsg) : ℕ := m.toAMessage.getBufferSize + 8 + 1

def supplyArgs (m : ReadMsg) : Args := (m.offset, m.getSize, none)

end ReadMsg

/-! ### WriteMsg -/

/-- The master's write request to a minion. -/
structure WriteMsg extends AMessage where
  offset : UInt64
  data : SharedData
  deriving DecidableEq

namespace WriteMsg

def make (offset : UInt64) (sizeToWrite : UInt32) (data : SharedData) (uid : ThreadSafeUID) :
    WriteMsg :=
  { key := writeMsgKey, size := sizeToWrite, uid, offset, data }

def toBuffer (m : WriteMsg) (buffer : Buffer) : Buffer :=
  let start := buffer.ptr
  let buffer := m.toAMessage.toBuffer buffer
  let buffer := store64 buffer m.offset
  let buffer := (memcpy buffer m.data m.getSize.toNat).skip m.getSize.toNat
  let length := buffer.ptr - start
  let checksum := calculateChecksum (buffer.segment start) length
  store8 buffer checksum

def fromBuffer (buffer : List UInt8) : Except Fault (WriteMsg × List UInt8) := do
  let start := buffer
  let (header, buffer) ← AMessage.fromBuffer buffer
  let (offset, buffer) ← load64 buffer
  let (bytes, buffer) ← loadBytes header.getSize.toNat buffer
  let length := start.length - buffer.length
  let calculatedChecksum := calculateChecksum start length
  let (receivedChecksum, buffer) ← load8 buffer
  if receivedChecksum ≠ calculatedChecksum then throw .checksum
  return ({ header with offset, data := some bytes }, buffer)

def getBufferSize (m : WriteMsg) : ℕ := m.toAMessage.getBufferSize + 8 + m.getSize.toNat + 1

def supplyArgs (m : WriteMsg) : Args := (m.offset, m.getSize, m.data)

end WriteMsg

/-! ### MinionReadMsg -/

/-- A minion's answer to a read request. -/
structure MinionReadMsg extends AMessage where
  isSuccess : Bool
  data : SharedData
  deriving DecidableEq

namespace MinionReadMsg

def make (uid : ThreadSafeUID) (isSuccess : Bool) (data : SharedData) (sizeToRead : UInt32) :
    MinionReadMsg :=
  { key := readMinionMsgKey, size := sizeToRead, uid, isSuccess, data }

/-- `memcpy` returns its destination, so the pointer handed back is the start of the data. -/
def toBuffer (m : MinionReadMsg) (buffer : Buffer) : Buffer :=
  let buffer := m.toAMessage.toBuffer buffer
  let buffer := store8 buffer (boolByte m.isSuccess)
  memcpy buffer m.data m.getSize.toNat

def fromBuffer (other : UInt8 → Bool) (buffer : List UInt8) :
    Except Fault (MinionReadMsg × List UInt8) := do
  let (header, buffer) ← AMessage.fromBuffer buffer
  let (isSuccess, buffer) ← loadBool other buffer
  let (bytes, buffer) ← loadBytes header.getSize.toNat buffer
  return ({ header with isSuccess, data := some bytes }, buffer)

/-- The size without the data. -/
def getBufferSize (m : MinionReadMsg) : ℕ := m.toAMessage.getBufferSize + 1

def getIsSuccess (m : MinionReadMsg) : Bool := m.isSuccess

def supplyArgs (m : MinionReadMsg) : Args := (0, m.getSize, m.data)

end MinionReadMsg

/-! ### MinionWriteMsg -/

/-- A minion's answer to a write request. -/
structure MinionWriteMsg extends AMessage where
  isSuccess : Bool
  deriving DecidableEq

namespace MinionWriteMsg

def make (uid : ThreadSafeUID) (isSuccess : Bool) : MinionWriteMsg :=
  { key := writeMinionMsgKey, size := 0, uid, isSuccess }

def toBuffer (m : MinionWriteMsg) (buffer : Buffer) : Buffer :=
  let buffer := m.toAMessage.toBuffer buffer
  store8 buffer (boolByte m.isSuccess)

def fromBuffer (other : UInt8 → Bool) (buffer : List UInt8) :
    Except Fault (MinionWriteMsg × List UInt8) := do
  let (header, buffer) ← AMessage.fromBuffer buffer
  let (isSuccess, buffer) ← loadBool other buffer
  return ({ header with isSuccess }, buffer)

def getBufferSize (m : MinionWriteMsg) : ℕ := m.toAMessage.getBufferSize + 1

def getIsSuccess (m : MinionWriteMsg) : Bool := m.isSuccess

/-- The success flag travels in the place of the size. -/
def supplyArgs (m : MinionWriteMsg) : Args :=
  (m.getUID.getUniqueCounter.toUInt64, if m.isSuccess then 1 else 0, none)

end MinionWriteMsg

/-! ### NBDReadMsg -/

/-- The block device's read request to the master. -/
structure NBDReadMsg extends AMessage where
  offset : UInt64
  deriving DecidableEq

namespace NBDReadMsg

/-- The constructor; the header's UID is a fresh `ThreadSafeUID()`. -/
def make (offset : UInt64) (len : UInt32) (uid : ThreadSafeUID) : NBDReadMsg :=
  { key := nbdReadMsgKey, size := len, uid, offset }

def toBuffer (m : NBDReadMsg) (buffer : Buffer) : Buffer :=
  let buffer := m.toAMessage.toBuffer buffer
  store64 buffer m.offset

def fromBuffer (buffer : List UInt8) : Except Fault (NBDReadMsg × List UInt8) := do
  let (header, buffer) ← AMessage.fromBuffer buffer
  let (offset, buffer) ← load64 buffer
  return ({ header with offset }, buffer)

def getBufferSize (m : NBDReadMsg) : ℕ := m.toAMessage.getBufferSize + 8

def supplyArgs (m : NBDReadMsg) : Args := (m.offset, m.getSize, none)

end NBDReadMsg

/-! ### NBDWriteMsg -/

/-- The block device's write request to the master. -/
structure NBDWriteMsg extends AMessage where
  offset : UInt64
  data : SharedData
  deriving DecidableEq

namespace NBDWriteMsg

/-- The constructor copies the first `len` bytes of the array; the header's UID is a fresh
`ThreadSafeUID()`. -/
def make (offset : UInt64) (len : UInt32) (data : SharedData) (uid : ThreadSafeUID) : NBDWriteMsg :=
  { key := nbdWriteMsgKey, size := len, uid, offset, data := data.map (·.take len.toNat) }

def toBuffer (m : NBDWriteMsg) (buffer : Buffer) : Buffer :=
  let buffer := m.toAMessage.toBuffer buffer
  let buffer := store64 buffer m.offset
  (memcpy buffer m.data m.getSize.toNat).skip m.getSize.toNat

def fromBuffer (buffer : List UInt8) : Except Fault (NBDWriteMsg × List UInt8) := do
  let (header, buffer) ← AMessage.fromBuffer buffer
  let (offset, buffer) ← load64 buffer
  let (bytes, buffer) ← loadBytes header.getSize.toNat buffer
  return ({ header with offset, data := some bytes }, buffer)

def getBufferSize (m : NBDWriteMsg) : ℕ := m.toAMessage.getBufferSize + 8 + m.getSize.toNat

def supplyArgs (m : NBDWriteMsg) : Args := (m.offset, m.getSize, m.data)

end NBDWriteMsg

end IotDrive
