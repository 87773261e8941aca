/-
The block-device side of `raz_nbd.cpp`: `NBD::NBDRead` and `NBD::NBDWrite`.

Each call sends one request over TCP and then makes a single receive whose size is the length of
the request.  Neither looks at the number of bytes received, and both return zero.

Main definitions:

* `NBD.nbdReadRequest`, `NBD.nbdWriteRequest` — what the calls send;
* `NBD.nbdReadReply`, `NBD.nbdWriteReply` — what they make of the reply stream.
-/

import IotDrive.InputProxy

set_option relaxedAutoImplicit false
set_option autoImplicit false

namespace IotDrive

namespace NBD

/-- The sending half of `NBDRead`. -/
def nbdReadRequest (heap : ℕ → UInt8) (fresh : ThreadSafeUID) (len : UInt32) (offset : UInt64) :
    Transmission :=
  let readMsg := NBDReadMsg.make offset len fresh
  { allocated := readMsg.getBufferSize
    buffer := readMsg.toBuffer (.start heap)
    sizeToSend := readMsg.getBufferSize }

/-- The sending half of `NBDWrite`. -/
def nbdWriteRequest (heap : ℕ → UInt8) (fresh : ThreadSafeUID) (buf : List UInt8) (len : UInt32)
    (offset : UInt64) : Transmission :=
  let writeMsg := NBDWriteMsg.make offset len (some buf) fresh
  { allocated := writeMsg.getBufferSize
    buffer := writeMsg.toBuffer (.start heap)
    sizeToSend := writeMsg.getBufferSize }

/-- What a call leaves behind: its return value, its buffer and the rest of the stream. -/
structure Returned where
  ret : ℤ
  buf : List UInt8
  stream : List UInt8
  deriving DecidableEq

/-- The receiving half of `NBDRead`, when `ready` bytes of the stream have arrived. -/
def nbdReadReply (buf : ℕ → UInt8) (len : UInt32) (ready : ℕ) (stream : List UInt8) : Returned :=
  let received := TCPSocket.recv ready len.toNat stream
  { ret := 0
    buf := fillBuffer buf len.toNat received
    stream := stream.drop received.length }

/-- The receiving half of `NBDWrite`.  The reply goes to a scratch buffer and is not looked at. -/
def nbdWriteReply (recvBuff : ℕ → UInt8) (len : UInt32) (ready : ℕ) (stream : List UInt8) :
    Returned :=
  let received := TCPSocket.recv ready len.toNat stream
  { ret := 0
    buf := fillBuffer recvBuff len.toNat received
    stream := stream.drop received.length }

end NBD

end IotDrive
