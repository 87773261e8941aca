/-
The proxies of `inputproxy.hpp` and `inputproxy.cpp` and the sockets of `socket.cpp` under them,
as far as bytes go: who writes which datagram, and what is read off a datagram or off the TCP
stream.

A call of `GetArgsKey` first peeks at the key and the size in the first eight bytes, then takes the
whole message with a second receive and decodes it.  Buffers come from `new char[]`, so their
contents before a receive are whatever the heap holds; the argument `heap` stands for them, and
`fresh` for the UID that the factory gives to the default-constructed message.  The number of
bytes a receive returns is not looked at by the code.

Main definitions:

* `intArg` — a size passed through an `int` parameter to a system call;
* `Transmission` — an allocation, what `ToBuffer` made of it, and the number of bytes sent;
* `MinionProxy.readRequest`, `MinionProxy.writeRequest`, `MasterProxy.readResponse`,
  `MasterProxy.writeResponse` — the senders;
* `NBDProxy.getArgsKey`, `ResponseProxy.getArgsKey`, `MasterProxy.getArgsKey` — the receivers.
-/

import IotDrive.Message

set_option relaxedAutoImplicit false
set_option autoImplicit false

namespace IotDrive

/-- A UDP datagram. -/
abbrev Datagram := List UInt8

/-- What the heap holds in the allocations of one call: `heap i` is the `i`-th allocation. -/
abbrev Heap := ℕ → ℕ → UInt8

/-- What a byte that is not 0 or 1 counts for as a `bool`.  No call allocates more than twice, and what
lies behind its allocations stands for this second thing that is left to chance. -/
def Heap.bool (heap : Heap) (b : UInt8) : Bool :=
  heap 2 b.toNat != 0

/-! ### Sockets -/

/-- A size passed as an `int` and then as a `size_t`: reduced modulo `2 ^ 32` and sign extended. -/
def intArg (n : ℕ) : ℕ :=
  if n % 2 ^ 32 < 2 ^ 31 then n % 2 ^ 32 else 2 ^ 64 - 2 ^ 32 + n % 2 ^ 32

/-- A buffer of `allocated` bytes after the bytes `received` were copied to its front. -/
def fillBuffer (heap : ℕ → UInt8) (allocated : ℕ) (received : List UInt8) : List UInt8 :=
  Extent.extract (Extent.overwrite heap 0 received) 0 allocated

/-- `UDPSocket::Recive` into a buffer of `allocated` bytes.  What does not fit is cut off. -/
def UDPSocket.recive (heap : ℕ → UInt8) (allocated sizeToRead : ℕ) (head : Datagram) :
    List UInt8 :=
  fillBuffer heap allocated (head.take (intArg sizeToRead))

/-- The bytes that one `recv` takes off the stream when `ready` bytes have arrived. -/
def TCPSocket.recv (ready sizeToRead : ℕ) (stream : List UInt8) : List UInt8 :=
  stream.take (min ready (intArg sizeToRead))

/-- What `Send` is given: an allocation, its contents after `ToBuffer`, and the size to send. -/
structure Transmission where
  allocated : ℕ
  buffer : Buffer
  sizeToSend : ℕ

/-- The bytes that `Send` hands to `sendto`.  Whether they fit into one datagram is left to
`UDPSocket.send`, which is about the datagrams in flight. -/
def Transmission.bytes (t : Transmission) : List UInt8 :=
  Extent.extract t.buffer.mem 0 (intArg t.sizeToSend)

/-! ### The arguments of commands -/

/-- `READ_CMD_KEY`. -/
def readCmdKey : UInt32 := 1

/-- `WRITE_CMD_KEY`. -/
def writeCmdKey : UInt32 := 2

/-- `MINION_READ_CMD_KEY`. -/
def minionReadCmdKey : UInt32 := 20

/-- `MINION_WRITE_CMD_KEY`. -/
def minionWriteCmdKey : UInt32 := 21

/-- The classes derived from `IArgsKey`. -/
inductive IArgsKey
  | readArgsKey (key : UInt32) (offset : UInt64) (sizeToRead : UInt32)
  | writeArgsKey (key : UInt32) (offset : UInt64) (sizeToWrite : UInt32) (data : SharedData)
  | minionReadArgsKey (key : UInt32) (offset : UInt64) (sizeToRead : UInt32) (uid : ThreadSafeUID)
  | minionWriteArgsKey (key : UInt32) (offset : UInt64) (sizeToWrite : UInt32) (data : SharedData)
      (uid : ThreadSafeUID)
  deriving DecidableEq

/-! ### Factories -/

/-- `Factory::Create`: the constructor registered for the key, or `std::out_of_range`. -/
def Factory.create {α : Type} (ctors : List (UInt32 × α)) (key : UInt32) : Except Fault α :=
  match ctors.lookup key with
  | some ctor => .ok ctor
  | none => .error .outOfRange

/-- The kinds of message, as classes. -/
inductive MessageKind
  | readMsg | writeMsg | minionReadMsg | minionWriteMsg | nbdReadMsg | nbdWriteMsg
  deriving DecidableEq

/-- The key in the first four of the peeked bytes. -/
def peekedKey (keyAndSize : List UInt8) : UInt32 :=
  UInt32.ofNat (LittleEndian.value (keyAndSize.take 4))

/-- The size in the next four of the peeked bytes. -/
def peekedSize (keyAndSize : List UInt8) : UInt32 :=
  UInt32.ofNat (LittleEndian.value ((keyAndSize.drop 4).take 4))

/-! ### NBDProxy -/

namespace NBDProxy

def createNBDReadMsg (fresh : ThreadSafeUID) : NBDReadMsg := NBDReadMsg.make 0 0 fresh

def createNBDWriteMsg (fresh : ThreadSafeUID) : NBDWriteMsg := NBDWriteMsg.make 0 0 none fresh

/-- The class selected by the peeked key, and the number of bytes asked for. -/
def select (fresh : ThreadSafeUID) (key size : UInt32) : Except Fault (MessageKind × ℕ) :=
  if key = nbdWriteMsgKey then do
    let ctor ← Factory.create [(nbdWriteMsgKey, createNBDWriteMsg)] key
    return (.nbdWriteMsg, (ctor fresh).getBufferSize + size.toNat)
  else do
    let ctor ← Factory.create [(nbdReadMsgKey, createNBDReadMsg)] key
    return (.nbdReadMsg, (ctor fresh).getBufferSize)

/-- The decoding of the received buffer, by class. -/
def decode (kind : MessageKind) (buffer : List UInt8) : Except Fault IArgsKey :=
  match kind with
  | .nbdWriteMsg => do
      let (msg, _) ← NBDWriteMsg.fromBuffer buffer
      let (offset, size, data) := msg.supplyArgs
      return .writeArgsKey writeCmdKey offset size data
  | _ => do
      let (msg, _) ← NBDReadMsg.fromBuffer buffer
      let (offset, size, _) := msg.supplyArgs
      return .readArgsKey readCmdKey offset size

/-- One call of `GetArgsKey` on the TCP stream.  `peekReady` and `ready` are the numbers of bytes
that have arrived when the peek and the second receive are made. -/
structure Call where
  heap : Heap
  fresh : ThreadSafeUID
  peekReady : ℕ
  ready : ℕ

/-- `NBDProxy::GetArgsKey`: its result, and what is left on the stream. -/
def getArgsKey (c : Call) (stream : List UInt8) : Except Fault IArgsKey × List UInt8 :=
  let keyAndSize := fillBuffer (c.heap 0) 8 (TCPSocket.recv c.peekReady 8 stream)
  match select c.fresh (peekedKey keyAndSize) (peekedSize keyAndSize) with
  | .error e => (.error e, stream)
  | .ok (kind, n) =>
      let received := TCPSocket.recv c.ready n stream
      (decode kind (fillBuffer (c.heap 1) n received), stream.drop received.length)

end NBDProxy

/-! ### MinionProxy -/

namespace MinionProxy

def readRequest (heap : ℕ → UInt8) (offset : UInt64) (size : UInt32) (uid : ThreadSafeUID) :
    Transmission :=
  let readMsg := ReadMsg.make offset size uid
  { allocated := readMsg.getBufferSize
    buffer := readMsg.toBuffer (.start heap)
    sizeToSend := readMsg.getBufferSize }

def writeRequest (heap : ℕ → UInt8) (offset : UInt64) (size : UInt32) (data : SharedData)
    (uid : ThreadSafeUID) : Transmission :=
  let writeMsg := WriteMsg.make offset size data uid
  { allocated := writeMsg.getBufferSize
    buffer := writeMsg.toBuffer (.start heap)
    sizeToSend := writeMsg.getBufferSize }

end MinionProxy

/-! ### ResponseProxy -/

/-- What `ResponseProxy::GetArgsKey` does with a response it decoded. -/
inductive ResponseEffect
  | registerResponse (uid : ThreadSafeUID)
  | notifySucces (data : SharedData) (size : UInt32)
  deriving DecidableEq

/-- `NBDProxy::NotifySucces`: the bytes that an effect writes to the TCP connection. -/
def ResponseEffect.notified : ResponseEffect → Option (List UInt8)
  | .registerResponse _ => none
  | .notifySucces data size => some ((data.getD []).take size.toNat)

namespace ResponseProxy

def createMinionReadMsg (fresh : ThreadSafeUID) : MinionReadMsg :=
  MinionReadMsg.make fresh true none 0

def createMinionWriteMsg (fresh : ThreadSafeUID) : MinionWriteMsg :=
  MinionWriteMsg.make fresh true

/-- The class selected by the peeked key and the number of bytes asked for; neither branch is
taken for any other key. -/
def select (fresh : ThreadSafeUID) (key size : UInt32) : Except Fault (Option (MessageKind × ℕ)) :=
  if key = writeMinionMsgKey then do
    let ctor ← Factory.create [(writeMinionMsgKey, createMinionWriteMsg)] key
    return some (.minionWriteMsg, (ctor fresh).getBufferSize)
  else if key = readMinionMsgKey then do
    let ctor ← Factory.create [(readMinionMsgKey, createMinionReadMsg)] key
    return some (.minionReadMsg, (ctor fresh).getBufferSize + size.toNat)
  else return none

/-- The decoding of the received buffer, by class, and what is done with the message. -/
def decode (other : UInt8 → Bool) (kind : MessageKind) (buffer : List UInt8) :
    Except Fault (List ResponseEffect) :=
  match kind with
  | .minionWriteMsg => do
      let (msg, _) ← MinionWriteMsg.fromBuffer other buffer
      let (_, isSuccess, _) := msg.supplyArgs
      return if isSuccess = 1 then [.registerResponse msg.getUID] else []
  | _ => do
      let (msg, _) ← MinionReadMsg.fromBuffer other buffer
      let (_, size, data) := msg.supplyArgs
      return if msg.getIsSuccess then [.registerResponse msg.getUID, .notifySucces data size]
        else []

/-- `ResponseProxy::GetArgsKey` with the datagram `head` in front of the queue: what it does, and
the queue it leaves. -/
def getArgsKey (heap : Heap) (fresh : ThreadSafeUID) (head : Datagram) (queue : List Datagram) :
    Except Fault (List ResponseEffect) × List Datagram :=
  let keyAndSize := UDPSocket.recive (heap 0) 8 8 head
  match select fresh (peekedKey keyAndSize) (peekedSize keyAndSize) with
  | .error e => (.error e, head :: queue)
  | .ok none => (.ok [], head :: queue)
  | .ok (some (kind, n)) =>
      (decode heap.bool kind (UDPSocket.recive (heap 1) n n head), queue)

end ResponseProxy

/-! ### MasterProxy -/

namespace MasterProxy

def createReadMsg (fresh : ThreadSafeUID) : ReadMsg := ReadMsg.make 0 0 fresh

def createWriteMsg (fresh : ThreadSafeUID) : WriteMsg := WriteMsg.make 0 0 none fresh

/-- The class selected by the peeked key, and the number of bytes asked for. -/
def select (fresh : ThreadSafeUID) (key size : UInt32) : Except Fault (MessageKind × ℕ) :=
  if key = writeMsgKey then do
    let ctor ← Factory.create [(writeMsgKey, createWriteMsg)] key
    return (.writeMsg, (ctor fresh).getBufferSize + size.toNat)
  else do
    let ctor ← Factory.create [(readMsgKey, createReadMsg)] key
    return (.readMsg, (ctor fresh).getBufferSize)

/-- The decoding of the received buffer, by class. -/
def decode (kind : MessageKind) (buffer : List UInt8) : Except Fault IArgsKey :=
  match kind with
  | .writeMsg => do
      let (msg, _) ← WriteMsg.fromBuffer buffer
      let (offset, size, data) := msg.supplyArgs
      return .minionWriteArgsKey minionWriteCmdKey offset size data msg.getUID
  | _ => do
      let (msg, _) ← ReadMsg.fromBuffer buffer
      let (offset, size, _) := msg.supplyArgs
      return .minionReadArgsKey minionReadCmdKey offset size msg.getUID

/-- `MasterProxy::GetArgsKey` with the datagram `head` in front of the queue: its result, and the
queue it leaves. -/
def getArgsKey (heap : Heap) (fresh : ThreadSafeUID) (head : Datagram) (queue : List Datagram) :
    Except Fault IArgsKey × List Datagram :=
  let keyAndSize := UDPSocket.recive (heap 0) 8 8 head
  match select fresh (peekedKey keyAndSize) (peekedSize keyAndSize) with
  | .error e => (.error e, head :: queue)
  | .ok (kind, n) => (decode kind (UDPSocket.recive (heap 1) n n head), queue)

def readResponse (heap : ℕ → UInt8) (uid : ThreadSafeUID) (isSuccess : Bool) (data : SharedData)
    (size : UInt32) : Transmission :=
  let msg := MinionReadMsg.make uid isSuccess data size
  { allocated := msg.getBufferSize + size.toNat
    buffer := msg.toBuffer (.start heap)
    sizeToSend := msg.getBufferSize + size.toNat }

def writeResponse (heap : ℕ → UInt8) (uid : ThreadSafeUID) (isSuccess : Bool) : Transmission :=
  let msg := MinionWriteMsg.make uid isSuccess
  { allocated := msg.getBufferSize
    buffer := msg.toBuffer (.start heap)
    sizeToSend := msg.getBufferSize }

end MasterProxy

end IotDrive
