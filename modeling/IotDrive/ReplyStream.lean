/-
The alignment of the reply stream on the block-device side.

Each call makes one receive, whose size is the length of the request, and takes what it gets for the
whole reply.  The calls stay aligned with the replies exactly when every one of these receives gets
the whole reply: it must have arrived in one piece, and the request must be at least as long.

Main definitions:

* `Call.AnsweredBy` — the replies that the master makes to a call;
* `Exchange` — a call, its reply, and how much of it arrives with the receive;
* `returns` — what the calls of a sequence return;
* `Aligned` — a read holds its reply, and nothing is left on the stream.

Main results:

* `Exchange.aligned_returned_iff` — when one call is aligned;
* `aligned_iff` — **when a sequence of calls stays aligned**;
* `not_aligned_of_split_reply` — a read whose reply is split.
-/

import IotDrive.Client
import IotDrive.Agreement

set_option relaxedAutoImplicit false
set_option autoImplicit false

namespace IotDrive

/-- A read of length `n` is answered with `n` bytes, a write with one of the write replies. -/
def Call.AnsweredBy (reply : List UInt8) : Call → Prop
  | .read len => reply.length = len.toNat
  | .write _ => ∃ r : WriteReply, reply = r.bytes

/-- A call and the reply to it, the buffer it is received in, and the bytes that have arrived when
the receive is made. -/
structure Exchange where
  call : Call
  reply : List UInt8
  answered : call.AnsweredBy reply
  buf : ℕ → UInt8
  ready : ℕ
  arrived : 0 < ready

/-- The return of the call, when the stream holds what earlier calls have left on it. -/
def Exchange.returned (x : Exchange) (stream : List UInt8) : NBD.Returned :=
  x.call.receive x.buf x.ready (stream ++ x.reply)

/-- The returns of all calls, one after another. -/
def returns : List UInt8 → List Exchange → List (Exchange × NBD.Returned)
  | _, [] => []
  | stream, x :: rest => (x, x.returned stream) :: returns (x.returned stream).stream rest

/-- The buffer of a read holds the reply, and nothing is left on the stream. -/
structure Aligned (x : Exchange) (r : NBD.Returned) : Prop where
  data : x.call.isWrite = false → r.buf = x.reply
  empty : r.stream = []

/-! ### One receive -/

/-- A read that receives its whole reply holds it. -/
theorem Exchange.buf_returned {x : Exchange} (hread : x.call.isWrite = false)
    (hwhole : x.reply.length ≤ min x.ready (intArg x.call.len.toNat)) :
    (x.returned []).buf = x.reply := by
  obtain ⟨call, reply, answered, buf, ready, arrived⟩ := x
  cases call with
  | write len => cases hread
  | read len =>
      have htake : TCPSocket.recv ready len.toNat reply = reply := List.take_of_length_le hwhole
      have hfill : fillBuffer buf len.toNat reply = reply := fillBuffer_of_length answered
      exact (congrArg (fillBuffer buf len.toNat) htake).trans hfill

/-- The first call of a sequence is aligned exactly if it receives its whole reply. -/
theorem Exchange.aligned_returned_iff (x : Exchange) :
    Aligned x (x.returned []) ↔ x.reply.length ≤ min x.ready (intArg x.call.len.toNat) := by
  constructor
  · intro h
    exact Call.stream_receive_eq_nil.1 h.empty
  · intro hwhole
    exact ⟨fun hread => x.buf_returned hread hwhole, Call.stream_receive_eq_nil.2 hwhole⟩

/-! ### The result -/

/-- **The calls of a sequence stay aligned** exactly if every one of them receives its whole reply:
the reply has arrived when the receive is made, and is not longer than the request. -/
theorem aligned_iff (exchanges : List Exchange) :
    (∀ p ∈ returns [] exchanges, Aligned p.1 p.2) ↔
      ∀ x ∈ exchanges, x.reply.length ≤ min x.ready (intArg x.call.len.toNat) := by
  induction exchanges with
  | nil => exact ⟨fun _ => nofun, fun _ => nofun⟩
  | cons x rest ih =>
      rw [returns, List.forall_mem_cons, List.forall_mem_cons, x.aligned_returned_iff]
      -- an aligned call leaves nothing on the stream for the next one
      refine and_congr_right ?_
      intro hwhole
      rw [((x.aligned_returned_iff).2 hwhole).empty, ih]

/-- A read of two bytes whose reply arrives in two pieces. -/
def splitReply : Exchange :=
  { call := .read 2
    reply := [5, 6]
    answered := rfl
    buf := fun _ => 0
    ready := 1
    arrived := by decide }

/-- Its buffer holds a byte that was never received, and the other byte is left on the stream. -/
theorem not_aligned_of_split_reply : ¬ ∀ p ∈ returns [] [splitReply], Aligned p.1 p.2 := by
  intro h
  have hempty := (h (splitReply, splitReply.returned []) (List.mem_singleton.2 rfl)).empty
  exact absurd hempty (by decide)

end IotDrive
