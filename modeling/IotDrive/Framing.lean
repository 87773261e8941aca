/-
The framing of requests on the TCP stream.

`NBDProxy::GetArgsKey` rebuilds a message boundary from eight peeked bytes and one receive, and
looks at neither count of bytes.  This module proves exactly which deliveries of a stream of
requests are read back as the requests that were written, whatever the heap holds: the peek must
get the key and, for a write, enough of the size; and the receive must get the whole message, and
none of the next.

Main definitions:

* `NBDRequest` — a request of the block device, with its transmission and the arguments it means;
* `Delivery` — how much of the stream has arrived when a call peeks and receives;
* `Yields` — the calls give the arguments of the requests, in order;
* `NBDRequest.Delivered`, `Delivered` — the condition on a message and its delivery.

Main results:

* `getArgsKey_of_delivered` — a delivered message is read back and nothing else is taken;
* `exists_call_short`, `exists_calls_short` — what goes wrong when too little is received;
* `yields_iff` — **when the requests are read back**;
* `not_yields_split_write` — a write whose last byte comes late.
-/

import IotDrive.Agreement

set_option relaxedAutoImplicit false
set_option autoImplicit false

namespace IotDrive

open LittleEndian (bytes value)

/-! ### Requests -/

/-- A request of the block device.  A write has no more data than the device. -/
inductive NBDRequest
  | read (offset : UInt64) (len : UInt32) (uid : ThreadSafeUID)
  | write (offset : UInt64) (len : UInt32) (data : List UInt8) (uid : ThreadSafeUID)
      (h : Payload data len)

namespace NBDRequest

/-- What `NBDRead` and `NBDWrite` send for it. -/
def transmission (heap : ℕ → UInt8) : NBDRequest → Transmission
  | .read offset len uid => NBD.nbdReadRequest heap uid len offset
  | .write offset len data uid _ => NBD.nbdWriteRequest heap uid data len offset

/-- What `GetArgsKey` should make of it. -/
def args : NBDRequest → IArgsKey
  | .read offset len _ => .readArgsKey readCmdKey offset len
  | .write offset len data _ _ => .writeArgsKey writeCmdKey offset len (some data)

def kind : NBDRequest → MessageKind
  | .read _ _ _ => .nbdReadMsg
  | .write _ _ _ _ _ => .nbdWriteMsg

def header : NBDRequest → AMessage
  | .read offset len uid => (NBDReadMsg.make offset len uid).toAMessage
  | .write offset len data uid _ => (NBDWriteMsg.make offset len (some data) uid).toAMessage

/-- The bytes behind the header. -/
def tail : NBDRequest → List UInt8
  | .read offset _ _ => bytes 8 offset.toNat
  | .write offset _ data _ _ => bytes 8 offset.toNat ++ data

def format (m : NBDRequest) : List UInt8 := m.header.format ++ m.tail

/-- The number of bytes that `GetArgsKey` asks for when it has peeked at a size. -/
def asked (m : NBDRequest) (size : UInt32) : ℕ :=
  match m with
  | .read _ _ _ => 40
  | .write _ _ _ _ _ => 40 + size.toNat

variable (m : NBDRequest)

theorem length_format : m.format.length = 32 + m.tail.length := by simp [format]

theorem eight_le_length_tail : 8 ≤ m.tail.length := by
  cases m with
  | read offset len uid => simp [tail]
  | write offset len data uid h => simp [tail]

theorem length_format_eq_asked : m.format.length = m.asked m.header.size := by
  rw [length_format]
  cases m with
  | read offset len uid => simp [tail, asked]
  | write offset len data uid h =>
      have hsize : (NBDWriteMsg.make offset len (some data) uid).size = len := rfl
      simp only [tail, asked, header, hsize, List.length_append, LittleEndian.length_bytes,
        h.length]
      omega

theorem length_format_lt : m.format.length < 2 ^ 31 := by
  rw [length_format]
  cases m with
  | read offset len uid => simp [tail]
  | write offset len data uid h =>
      have := h.lt
      simp only [tail, List.length_append, LittleEndian.length_bytes]
      omega

/-- The senders send the format. -/
theorem transmission_carries (heap : ℕ → UInt8) : (m.transmission heap).Carries m.format := by
  cases m with
  | read offset len uid => exact NBD.nbdReadRequest_carries heap uid offset len
  | write offset len data uid h =>
      have hformat : (NBDRequest.write offset len data uid h).format =
          (NBDWriteMsg.make offset len (some data) uid).format data := by
        simp only [format, header, tail, NBDWriteMsg.format, List.append_assoc]
        rfl
      rw [hformat]
      exact NBD.nbdWriteRequest_carries heap uid offset len h

/-- The receiver decodes the format, whatever follows it in the buffer. -/
theorem decode_format (rest : List UInt8) :
    NBDProxy.decode m.kind (m.format ++ rest) = .ok m.args := by
  cases m with
  | read offset len uid =>
      have hread := NBDReadMsg.fromBuffer_format (NBDReadMsg.make offset len uid) rest
      simp only [kind, NBDProxy.decode, format, header, tail, NBDReadMsg.format] at hread ⊢
      have hoffset : (NBDReadMsg.make offset len uid).offset = offset := rfl
      rw [hoffset] at hread
      rw [hread]
      rfl
  | write offset len data uid h =>
      have hholds := NBDWriteMsg.holds_make uid offset len h
      have hwrite := NBDWriteMsg.fromBuffer_format _ hholds rest
      have hoffset : (NBDWriteMsg.make offset len (some data) uid).offset = offset := rfl
      simp only [kind, NBDProxy.decode, format, header, tail, NBDWriteMsg.format, hoffset,
        List.append_assoc] at hwrite ⊢
      rw [hwrite]
      simp only [ok_bind, NBDWriteMsg.supplyArgs, hholds.1]
      rfl

/-- A buffer that decodes to the arguments of the request holds its bytes behind the header. -/
theorem eq_append_of_decode {buffer : List UInt8} (h : NBDProxy.decode m.kind buffer = .ok m.args) :
    ∃ front rest, front.length = 32 ∧ buffer = front ++ (m.tail ++ rest) := by
  cases m with
  | read offset len uid =>
      obtain ⟨⟨msg, rest⟩, hread, heq⟩ := bind_eq_ok.1 h
      cases heq
      obtain ⟨front, hfront, hbuffer⟩ := NBDReadMsg.eq_append_of_fromBuffer hread
      exact ⟨front, rest, hfront, hbuffer⟩
  | write offset len data uid hpayload =>
      obtain ⟨⟨msg, rest⟩, hwrite, heq⟩ := bind_eq_ok.1 h
      have hargs : IArgsKey.writeArgsKey writeCmdKey msg.offset msg.size msg.data =
          .writeArgsKey writeCmdKey offset len (some data) := Except.ok.inj heq
      simp only [IArgsKey.writeArgsKey.injEq, true_and] at hargs
      obtain ⟨rfl, -, hdata⟩ := hargs
      obtain ⟨front, hfront, hbuffer⟩ := NBDWriteMsg.eq_append_of_fromBuffer hwrite hdata
      refine ⟨front, rest, hfront, ?_⟩
      rw [hbuffer, tail, List.append_assoc]

end NBDRequest

/-! ### Calls of `GetArgsKey` -/

/-- How many bytes have arrived when a call peeks and when it receives. -/
structure Delivery where
  peekReady : ℕ
  ready : ℕ
  deriving DecidableEq

namespace NBDProxy

def Call.delivery (c : Call) : Delivery := ⟨c.peekReady, c.ready⟩

/-- A call with the given contents of its two allocations. -/
def Call.of (d : Delivery) (h₀ h₁ : ℕ → UInt8) : Call where
  heap i := if i = 0 then h₀ else h₁
  fresh := ⟨0, 0, 0, 0⟩
  peekReady := d.peekReady
  ready := d.ready

/-- Calls of `GetArgsKey`, one after another, up to the first that faults. -/
def getArgsKeys : List Call → List UInt8 → Except Fault (List IArgsKey)
  | [], _ => .ok []
  | c :: rest, stream => do
      let args ← (getArgsKey c stream).1
      let later ← getArgsKeys rest (getArgsKey c stream).2
      return args :: later

/-- The buffer that a call peeks into. -/
def keyAndSize (c : Call) (stream : List UInt8) : List UInt8 :=
  fillBuffer (c.heap 0) 8 (TCPSocket.recv c.peekReady 8 stream)

theorem getArgsKeys_cons_eq_ok {c : Call} {calls : List Call} {stream : List UInt8} {a : IArgsKey}
    {as : List IArgsKey} : getArgsKeys (c :: calls) stream = .ok (a :: as) ↔
      (getArgsKey c stream).1 = .ok a ∧ getArgsKeys calls (getArgsKey c stream).2 = .ok as := by
  constructor
  · intro h
    obtain ⟨args, hargs, h⟩ := bind_eq_ok.1 h
    obtain ⟨later, hlater, heq⟩ := bind_eq_ok.1 h
    cases heq
    exact ⟨hargs, hlater⟩
  · rintro ⟨hargs, hlater⟩
    rw [getArgsKeys, hargs, ok_bind, hlater]
    rfl

/-! ### Peeking -/

/-- A peek that gets `k` bytes of a message leaves the rest of its buffer as it was. -/
theorem keyAndSize_eq (c : Call) {stream : List UInt8} (h : 8 ≤ stream.length) :
    keyAndSize c stream = stream.take (min c.peekReady 8) ++
      Extent.extract (c.heap 0) (min c.peekReady 8) (8 - min c.peekReady 8) := by
  have h8 : intArg 8 = 8 := by decide
  have hlen : (stream.take (min c.peekReady 8)).length = min c.peekReady 8 := by
    rw [List.length_take]
    omega
  rw [keyAndSize, TCPSocket.recv, h8, fillBuffer_of_le (by omega), hlen]

/-- A peek that gets four bytes gets the key. -/
theorem peekedKey_keyAndSize (m : NBDRequest) {c : Call} (h : 4 ≤ c.peekReady)
    (rest : List UInt8) : peekedKey (keyAndSize c (m.format ++ rest)) = m.header.key := by
  have hlong : 8 ≤ (m.format ++ rest).length := by
    rw [List.length_append, m.length_format]
    omega
  have hfour : (keyAndSize c (m.format ++ rest)).take 4 = (m.format ++ rest).take 4 := by
    rw [keyAndSize_eq c hlong, List.take_append_of_le_length, List.take_take,
      Nat.min_eq_left (by omega)]
    rw [List.length_take]
    omega
  rw [peekedKey, hfour, NBDRequest.format, List.append_assoc]
  exact peekedKey_format m.header _

/-- A peek that gets four bytes gets as many of the size as it gets more; the others are what the
allocation held before. -/
theorem peekedSize_keyAndSize (m : NBDRequest) {c : Call} (h : 4 ≤ c.peekReady)
    (rest : List UInt8) : (peekedSize (keyAndSize c (m.format ++ rest))).toNat =
      m.header.size.toNat % 256 ^ (min c.peekReady 8 - 4) + 256 ^ (min c.peekReady 8 - 4) *
        value (Extent.extract (c.heap 0) (min c.peekReady 8) (8 - min c.peekReady 8)) := by
  have hlong : 8 ≤ (m.format ++ rest).length := by
    rw [List.length_append, m.length_format]
    omega
  have hshape : m.format ++ rest = bytes 4 m.header.key.toNat ++
      (bytes 4 m.header.size.toNat ++ (m.header.uid.format ++ (m.tail ++ rest))) := by
    simp only [NBDRequest.format, AMessage.format, List.append_assoc]
  have hsize : ((keyAndSize c (m.format ++ rest)).drop 4).take 4 =
      bytes (min c.peekReady 8 - 4) m.header.size.toNat ++
        Extent.extract (c.heap 0) (min c.peekReady 8) (8 - min c.peekReady 8) := by
    have hdrop : ((m.format ++ rest).take (min c.peekReady 8)).drop 4 =
        bytes (min c.peekReady 8 - 4) m.header.size.toNat := by
      rw [hshape, List.drop_take, List.drop_left' (LittleEndian.length_bytes 4 _),
        List.take_append_of_le_length (by simp), LittleEndian.take_bytes (by omega)]
    rw [keyAndSize_eq c hlong, List.drop_append_of_le_length, hdrop, List.take_of_length_le]
    · simp only [List.length_append, LittleEndian.length_bytes, Extent.length_extract]
      omega
    · rw [List.length_take]
      omega
  have hlt := LittleEndian.value_lt (((keyAndSize c (m.format ++ rest)).drop 4).take 4)
  rw [hsize, List.length_append, LittleEndian.length_bytes, Extent.length_extract] at hlt
  have hfour : min c.peekReady 8 - 4 + (8 - min c.peekReady 8) = 4 := by omega
  rw [hfour] at hlt
  rw [peekedSize, hsize, UInt32.toNat_ofNat_of_lt' hlt, LittleEndian.value_append,
    LittleEndian.length_bytes, LittleEndian.value_bytes_mod]

/-- The largest size that a peek into four to eight bytes can stand for. -/
theorem value_peek_le (heap : ℕ → UInt8) {p : ℕ} (h₄ : 4 ≤ p) (h₈ : p ≤ 8) :
    256 ^ (p - 4) * value (Extent.extract heap p (8 - p)) + 256 ^ (p - 4) ≤ 2 ^ 32 := by
  have hlt := LittleEndian.value_lt (Extent.extract heap p (8 - p))
  rw [Extent.length_extract] at hlt
  have hwidth : p - 4 + (8 - p) = 4 := by omega
  calc 256 ^ (p - 4) * value (Extent.extract heap p (8 - p)) + 256 ^ (p - 4)
      = 256 ^ (p - 4) * (value (Extent.extract heap p (8 - p)) + 1) := by ring
    _ ≤ 256 ^ (p - 4) * 256 ^ (8 - p) := Nat.mul_le_mul_left _ hlt
    _ = 2 ^ 32 := by rw [← pow_add, hwidth]; rfl

/-! ### Receiving -/

theorem select_request (m : NBDRequest) (fresh : ThreadSafeUID) (size : UInt32) :
    select fresh m.header.key size = .ok (m.kind, m.asked size) := by
  cases m with
  | read offset len uid => rfl
  | write offset len data uid h => rfl

/-- A call that has peeked at the key of a request takes what it asks for and decodes it. -/
theorem getArgsKey_eq {m : NBDRequest} {c : Call} {stream : List UInt8}
    (h : peekedKey (keyAndSize c stream) = m.header.key) :
    getArgsKey c stream =
      let n := m.asked (peekedSize (keyAndSize c stream))
      let received := TCPSocket.recv c.ready n stream
      (decode m.kind (fillBuffer (c.heap 1) n received), stream.drop received.length) := by
  rw [keyAndSize] at h
  simp only [getArgsKey, h, select_request, keyAndSize]

/-- The decoding of one class never gives the arguments of the other. -/
theorem decode_ne {m : NBDRequest} {kind : MessageKind} {buffer : List UInt8}
    (hkind : kind = .nbdReadMsg ∨ kind = .nbdWriteMsg) (h : decode kind buffer = .ok m.args) :
    kind = m.kind := by
  rcases hkind with rfl | rfl
  · obtain ⟨⟨msg, rest⟩, -, heq⟩ := bind_eq_ok.1 h
    cases m with
    | read offset len uid => rfl
    | write offset len data uid hpayload => cases heq
  · obtain ⟨⟨msg, rest⟩, -, heq⟩ := bind_eq_ok.1 h
    cases m with
    | read offset len uid => cases heq
    | write offset len data uid hpayload => rfl

/-- A call that gives the arguments of a request has peeked at its key. -/
theorem key_of_getArgsKey {m : NBDRequest} {c : Call} {stream : List UInt8}
    (h : (getArgsKey c stream).1 = .ok m.args) :
    peekedKey (keyAndSize c stream) = m.header.key := by
  unfold getArgsKey at h
  rw [← keyAndSize] at h
  by_cases hwrite : peekedKey (keyAndSize c stream) = nbdWriteMsgKey
  · simp only [hwrite] at h
    have hkind := decode_ne (Or.inr rfl) h
    cases m with
    | read offset len uid => cases hkind
    | write offset len data uid hpayload => exact hwrite
  · by_cases hread : peekedKey (keyAndSize c stream) = nbdReadMsgKey
    · simp only [hread] at h
      have hkind := decode_ne (Or.inl rfl) h
      cases m with
      | read offset len uid => exact hread
      | write offset len data uid hpayload => cases hkind
    · -- the factory has no constructor for any other key
      have hselect : select c.fresh (peekedKey (keyAndSize c stream))
          (peekedSize (keyAndSize c stream)) = .error .outOfRange := by
        have hlookup : (peekedKey (keyAndSize c stream) == nbdReadMsgKey) = false := by
          simpa using hread
        simp only [select, if_neg hwrite, Factory.create, List.lookup_cons, List.lookup_nil, hlookup]
        rfl
      simp only [hselect] at h
      cases h

/-! ### Too few bytes -/

/-- A receive that takes fewer bytes than the message has leaves the last of them to the heap, which
may hold another. -/
theorem exists_call_short (m : NBDRequest) (d : Delivery) (h₀ : ℕ → UInt8) (stream : List UInt8)
    (hshort : (TCPSocket.recv d.ready
      (m.asked (peekedSize (fillBuffer h₀ 8 (TCPSocket.recv d.peekReady 8 stream))))
      stream).length < m.format.length) :
    ∃ h₁, (getArgsKey (.of d h₀ h₁) stream).1 ≠ .ok m.args := by
  generalize hn : m.asked (peekedSize (fillBuffer h₀ 8 (TCPSocket.recv d.peekReady 8 stream))) = n
    at hshort
  generalize hreceived : TCPSocket.recv d.ready n stream = received at hshort
  have htail := m.eight_le_length_tail
  have hlt : m.tail.length - 1 < m.tail.length := by omega
  generalize hlast : m.tail[m.tail.length - 1] = last
  refine ⟨fun _ => if last = 0 then 1 else 0, ?_⟩
  intro hok
  have hkey := key_of_getArgsKey hok
  rw [getArgsKey_eq hkey] at hok
  have hdecode : decode m.kind (fillBuffer (fun _ => if last = 0 then 1 else 0) n received) =
      .ok m.args := by
    rw [← hreceived, ← hn]
    exact hok
  obtain ⟨front, rest, hfront, hbuffer⟩ := m.eq_append_of_decode hdecode
  -- the byte at the end of the message, in the buffer that was decoded
  have hbyte : (fillBuffer (fun _ => if last = 0 then 1 else 0) n received)[31 + m.tail.length]? =
      some last := by
    rw [hbuffer, List.getElem?_append_right (by omega), hfront,
      List.getElem?_append_left (by omega), ← hlast, List.getElem?_eq_getElem (by omega)]
    congr 2
    omega
  have hin : 31 + m.tail.length < n := by
    have hlen := congrArg List.length hbuffer
    simp only [fillBuffer, Extent.length_extract, List.length_append, hfront] at hlen
    omega
  rw [m.length_format] at hshort
  rw [fillBuffer_of_le (by omega), List.getElem?_append_right (by omega),
    List.getElem?_eq_getElem (by simp; omega), Extent.getElem_extract] at hbyte
  by_cases hzero : last = 0
  · simp [hzero] at hbyte
  · simp [hzero, eq_comm] at hbyte

end NBDProxy

/-! ### Sequences of requests -/

/-- The number of bytes of the messages. -/
def total (requests : List (NBDRequest × Delivery)) : ℕ :=
  (requests.map fun x => x.1.format.length).sum

theorem length_flatMap_format (requests : List (NBDRequest × Delivery)) :
    (requests.flatMap fun x => x.1.format).length = total requests := by
  rw [List.length_flatMap, total]

theorem total_pos {requests : List (NBDRequest × Delivery)} (h : requests ≠ []) :
    0 < total requests := by
  cases requests with
  | nil => exact absurd rfl h
  | cons x rest =>
      have hlen := x.1.length_format
      rw [total, List.map_cons, List.sum_cons]
      omega

open NBDProxy

/-- The calls for the deliveries, on any heap. -/
def someCalls (requests : List (NBDRequest × Delivery)) : List NBDProxy.Call :=
  requests.map fun x => .of x.2 (fun _ => 0) (fun _ => 0)

theorem delivery_someCalls (requests : List (NBDRequest × Delivery)) :
    (someCalls requests).map Call.delivery = requests.map Prod.snd := by
  rw [someCalls, List.map_map]
  rfl

/-- Some calls on a stream that is shorter than the messages do not give all of them: one takes too
little for its message, or one leaves too little to the others. -/
theorem exists_calls_short (requests : List (NBDRequest × Delivery)) {stream : List UInt8}
    (h : stream.length < total requests) :
    ∃ calls : List NBDProxy.Call, calls.map Call.delivery = requests.map Prod.snd ∧
      getArgsKeys calls stream ≠ .ok (requests.map fun x => x.1.args) := by
  -- induction on the messages: the first call takes too little, or fails, or leaves too little
  induction requests generalizing stream with
  | nil => exact absurd h (Nat.not_lt_zero _)
  | cons x rest ih =>
      obtain ⟨m, d⟩ := x
      rw [total, List.map_cons, List.sum_cons, ← total] at h
      dsimp only at h
      generalize hn : m.asked (peekedSize (fillBuffer (fun _ => 0) 8
        (TCPSocket.recv d.peekReady 8 stream))) = n
      by_cases hshort : (TCPSocket.recv d.ready n stream).length < m.format.length
      · rw [← hn] at hshort
        obtain ⟨h₁, hne⟩ := exists_call_short m d (fun _ => 0) stream hshort
        refine ⟨.of d (fun _ => 0) h₁ :: someCalls rest, ?_, ?_⟩
        · rw [List.map_cons, delivery_someCalls]
          rfl
        · intro hok
          exact hne (getArgsKeys_cons_eq_ok.1 hok).1
      · by_cases hok : (getArgsKey (.of d (fun _ => 0) fun _ => 0) stream).1 = .ok m.args
        · have hrest : (getArgsKey (.of d (fun _ => 0) fun _ => 0) stream).2 =
              stream.drop (TCPSocket.recv d.ready n stream).length := by
            rw [getArgsKey_eq (key_of_getArgsKey hok), ← hn]
            rfl
          have hless : (stream.drop (TCPSocket.recv d.ready n stream).length).length <
              total rest := by
            have hle : (TCPSocket.recv d.ready n stream).length ≤ stream.length := by
              rw [TCPSocket.recv, List.length_take]
              exact Nat.min_le_right _ _
            rw [List.length_drop]
            omega
          obtain ⟨calls, hcalls, hne⟩ := ih hless
          refine ⟨.of d (fun _ => 0) (fun _ => 0) :: calls, ?_, ?_⟩
          · rw [List.map_cons, hcalls]
            rfl
          · intro hok'
            refine hne ?_
            rw [← hrest]
            exact (getArgsKeys_cons_eq_ok.1 hok').2
        · refine ⟨.of d (fun _ => 0) (fun _ => 0) :: someCalls rest, ?_, ?_⟩
          · rw [List.map_cons, delivery_someCalls]
            rfl
          · intro hok'
            exact hok (getArgsKeys_cons_eq_ok.1 hok').1

/-! ### The condition -/

/-- Whatever the heap holds, the calls with these deliveries give the arguments of the requests, in
order, from the bytes that were sent for them. -/
def Yields (requests : List (NBDRequest × Delivery)) : Prop :=
  ∀ heap (calls : List NBDProxy.Call), calls.map Call.delivery = requests.map Prod.snd →
    getArgsKeys calls (requests.flatMap fun x => (x.1.transmission heap).bytes) =
      .ok (requests.map fun x => x.1.args)

/-- The peek gets the key and the receive the whole message.  For a write, the peek gets the whole
size; or it gets enough of the size for this message, and nothing behind the message has arrived. -/
structure NBDRequest.Delivered (m : NBDRequest) (d : Delivery) (last : Prop) : Prop where
  key : 4 ≤ d.peekReady
  whole : m.format.length ≤ d.ready
  size : m.kind = .nbdWriteMsg → 8 ≤ d.peekReady ∨
    m.format.length < 256 ^ (d.peekReady - 4) ∧ (d.ready = m.format.length ∨ last)

/-- Every message is delivered; `last` is the message that no other follows. -/
def Delivered : List (NBDRequest × Delivery) → Prop
  | [] => True
  | (m, d) :: rest => m.Delivered d (rest = []) ∧ Delivered rest

/-- A receive that asks for at least the message, and for which nothing more has arrived if it asks
for more, takes the message. -/
theorem TCPSocket.recv_whole {ready n : ℕ} {xs rest : List UInt8} (hready : xs.length ≤ ready)
    (hn : xs.length ≤ intArg n) (h : intArg n = xs.length ∨ ready = xs.length ∨ rest = []) :
    TCPSocket.recv ready n (xs ++ rest) = xs := by
  rw [TCPSocket.recv]
  rcases h with h | h | rfl
  · rw [h, Nat.min_eq_right hready, List.take_left]
  · rw [h, Nat.min_eq_left hn, List.take_left]
  · rw [List.append_nil, List.take_of_length_le (le_min hready hn)]

/-- A call takes exactly the message that is delivered to it, and gives its arguments. -/
theorem getArgsKey_of_delivered {m : NBDRequest} {c : NBDProxy.Call} {rest : List UInt8}
    (h : m.Delivered c.delivery (rest = [])) :
    getArgsKey c (m.format ++ rest) = (.ok m.args, rest) := by
  have hpeek : 4 ≤ c.peekReady := h.key
  have hready : m.format.length ≤ c.ready := h.whole
  have hlt := m.length_format_lt
  have hsize := peekedSize_keyAndSize m hpeek rest
  generalize hn : m.asked (peekedSize (keyAndSize c (m.format ++ rest))) = n
  -- what is asked for, and what is received
  have hreceive : m.format.length ≤ n ∧ TCPSocket.recv c.ready n (m.format ++ rest) = m.format := by
    cases m with
    | read offset len uid =>
        obtain rfl : 40 = n := hn
        have h40 : intArg 40 = 40 := by decide
        have hlen : (NBDRequest.read offset len uid).format.length = 40 := by
          rw [NBDRequest.length_format]
          simp [NBDRequest.tail]
        rw [← hlen] at h40 ⊢
        exact ⟨le_rfl, TCPSocket.recv_whole hready h40.ge (Or.inl h40)⟩
    | write offset len data uid hpayload =>
        have hlen := NBDRequest.length_format_eq_asked (.write offset len data uid hpayload)
        generalize hm : NBDRequest.write offset len data uid hpayload = m at *
        have hasked : ∀ size, m.asked size = 40 + size.toNat := by
          rw [← hm]
          exact fun _ => rfl
        rw [hasked] at hlen
        rw [hasked, hsize] at hn
        by_cases hall : 8 ≤ c.peekReady
        · have hall' : min c.peekReady 8 = 8 := Nat.min_eq_right hall
          have hmod : m.header.size.toNat % 256 ^ (8 - 4) = m.header.size.toNat :=
            Nat.mod_eq_of_lt m.header.size.toNat_lt
          rw [hall', hmod] at hn
          have hexact : n = m.format.length := by
            rw [← hn, hlen]
            simp [LittleEndian.value]
          have harg : intArg n = m.format.length := by rw [hexact, intArg_of_lt hlt]
          exact ⟨hexact.ge, TCPSocket.recv_whole hready harg.ge (Or.inl harg)⟩
        · obtain ⟨hfits, hend⟩ := (h.size (by rw [← hm]; rfl)).resolve_left hall
          have hsome : min c.peekReady 8 = c.peekReady := Nat.min_eq_left (by omega)
          have hfits' : m.format.length < 256 ^ (c.peekReady - 4) := hfits
          have hmod : m.header.size.toNat % 256 ^ (c.peekReady - 4) = m.header.size.toNat :=
            Nat.mod_eq_of_lt (by omega)
          have hbound := value_peek_le (c.heap 0) hpeek (by omega)
          rw [hsome, hmod] at hn
          have hle : m.format.length ≤ n := by omega
          have harg : m.format.length ≤ intArg n := hle.trans (le_intArg (by omega))
          exact ⟨hle, TCPSocket.recv_whole hready harg (Or.inr hend)⟩
  have hkey := peekedKey_keyAndSize m hpeek rest
  rw [getArgsKey_eq hkey]
  simp only [hn, hreceive.2, List.drop_left]
  rw [fillBuffer_of_le hreceive.1, m.decode_format]

/-! ### The condition is needed -/

/-- Calls that give the arguments of all requests whatever the heap holds. -/
def Reads (requests : List (NBDRequest × Delivery)) : Prop :=
  ∀ calls : List NBDProxy.Call, calls.map Call.delivery = requests.map Prod.snd →
    getArgsKeys calls (requests.flatMap fun x => x.1.format) = .ok (requests.map fun x => x.1.args)

theorem yields_iff_reads (requests : List (NBDRequest × Delivery)) :
    Yields requests ↔ Reads requests := by
  have hbytes : ∀ heap, (requests.flatMap fun x => (x.1.transmission heap).bytes) =
      requests.flatMap fun x => x.1.format := by
    intro heap
    congr 1
    funext x
    exact (x.1.transmission_carries heap).2
  constructor
  · intro h calls hcalls
    rw [← hbytes fun _ => 0]
    exact h _ calls hcalls
  · intro h heap calls hcalls
    rw [hbytes]
    exact h calls hcalls

theorem extract_const (b : UInt8) (o n : ℕ) :
    Extent.extract (fun _ => b) o n = List.replicate n b := by
  simp [Extent.extract, List.map_const']

/-- What is asked for by a write of which part of the size was peeked at, when all bytes of the heap
are `b`. -/
theorem asked_const {m : NBDRequest} (hasked : ∀ size, m.asked size = 40 + size.toNat)
    {d : Delivery} (hpeek : 4 ≤ d.peekReady) (hpart : ¬ 8 ≤ d.peekReady) (stream : List UInt8)
    (b : UInt8) :
    m.asked (peekedSize (fillBuffer (fun _ => b) 8
        (TCPSocket.recv d.peekReady 8 (m.format ++ stream)))) =
      40 + (m.header.size.toNat % 256 ^ (d.peekReady - 4) + 256 ^ (d.peekReady - 4) *
        value (List.replicate (8 - d.peekReady) b)) := by
  have hsize := peekedSize_keyAndSize m (c := .of d (fun _ => b) fun _ => b) hpeek stream
  have hsome : min d.peekReady 8 = d.peekReady := Nat.min_eq_left (by omega)
  simp only [Call.of, hsome, if_pos, extract_const] at hsize
  rw [hasked, ← hsize]
  rfl

section Necessity

variable {m : NBDRequest} {d : Delivery} {rest : List (NBDRequest × Delivery)}
variable (h : Reads ((m, d) :: rest))

include h

/-- The first call gives the arguments of the first request, whatever its heap holds. -/
theorem Reads.first (h₀ h₁ : ℕ → UInt8) :
    (getArgsKey (.of d h₀ h₁) (m.format ++ rest.flatMap fun x => x.1.format)).1 = .ok m.args := by
  have hall := h (.of d h₀ h₁ :: someCalls rest) (by
    rw [List.map_cons, delivery_someCalls]
    rfl)
  exact (getArgsKeys_cons_eq_ok.1 hall).1

/-- So it receives at least the first message. -/
theorem Reads.length_le (h₀ : ℕ → UInt8) :
    m.format.length ≤ (TCPSocket.recv d.ready
      (m.asked (peekedSize (fillBuffer h₀ 8 (TCPSocket.recv d.peekReady 8
        (m.format ++ rest.flatMap fun x => x.1.format)))))
      (m.format ++ rest.flatMap fun x => x.1.format)).length := by
  by_contra hshort
  obtain ⟨h₁, hne⟩ := exists_call_short m d h₀ _ (not_le.1 hshort)
  exact hne (h.first h₀ h₁)

/-- And not so much that the others cannot be received. -/
theorem Reads.length_recv_le (h₀ : ℕ → UInt8) :
    (TCPSocket.recv d.ready
      (m.asked (peekedSize (fillBuffer h₀ 8 (TCPSocket.recv d.peekReady 8
        (m.format ++ rest.flatMap fun x => x.1.format)))))
      (m.format ++ rest.flatMap fun x => x.1.format)).length ≤ m.format.length := by
  by_contra hlong
  have hfirst := h.first h₀ fun _ => 0
  generalize hstream : (m.format ++ rest.flatMap fun x => x.1.format) = stream at hlong hfirst
  generalize hn : m.asked (peekedSize (fillBuffer h₀ 8 (TCPSocket.recv d.peekReady 8 stream))) = n
    at hlong
  have hrest : (getArgsKey (.of d h₀ fun _ => 0) stream).2 =
      stream.drop (TCPSocket.recv d.ready n stream).length := by
    rw [getArgsKey_eq (key_of_getArgsKey hfirst), ← hn]
    rfl
  have hlen : stream.length = m.format.length + total rest := by
    rw [← hstream, List.length_append, length_flatMap_format]
  have hle : (TCPSocket.recv d.ready n stream).length ≤ stream.length := by
    rw [TCPSocket.recv, List.length_take]
    exact Nat.min_le_right _ _
  have hless : (stream.drop (TCPSocket.recv d.ready n stream).length).length < total rest := by
    rw [List.length_drop]
    omega
  obtain ⟨calls, hcalls, hne⟩ := exists_calls_short rest hless
  have hall := h (.of d h₀ (fun _ => 0) :: calls) (by
    rw [List.map_cons, hcalls]
    rfl)
  refine hne ?_
  rw [← hrest, ← hstream]
  exact (getArgsKeys_cons_eq_ok.1 hall).2

/-- A peek that does not get the key leaves part of it to the heap. -/
theorem Reads.key : 4 ≤ d.peekReady := by
  by_contra hpeek
  have hkey := key_of_getArgsKey (h.first (fun _ => 255) fun _ => 0)
  have hlong : 8 ≤ (m.format ++ rest.flatMap fun x => x.1.format).length := by
    rw [List.length_append, m.length_format]
    omega
  generalize (m.format ++ rest.flatMap fun x => x.1.format) = stream at hkey hlong
  have hq : min d.peekReady 8 = d.peekReady := Nat.min_eq_left (by omega)
  have hpart : (stream.take d.peekReady).length = d.peekReady := by
    rw [List.length_take]
    omega
  have hfour : (keyAndSize (.of d (fun _ => 255) fun _ => 0) stream).take 4 =
      stream.take d.peekReady ++ List.replicate (4 - d.peekReady) 255 := by
    have hmin : min (4 - d.peekReady) (8 - d.peekReady) = 4 - d.peekReady := by omega
    rw [keyAndSize_eq _ hlong]
    simp only [Call.of, hq, if_pos, extract_const]
    rw [List.take_append, hpart, List.take_of_length_le (by omega), List.take_replicate, hmin]
  rw [peekedKey, hfour] at hkey
  have hvalue := congrArg UInt32.toNat hkey
  have hmax := LittleEndian.value_replicate_max (4 - d.peekReady)
  have hlt := LittleEndian.value_lt (stream.take d.peekReady ++
    List.replicate (4 - d.peekReady) 255)
  have hlen : (stream.take d.peekReady ++ List.replicate (4 - d.peekReady) 255).length = 4 := by
    rw [List.length_append, hpart, List.length_replicate]
    omega
  rw [hlen] at hlt
  rw [UInt32.toNat_ofNat_of_lt' hlt, LittleEndian.value_append, hpart] at hvalue
  have hsmall : m.header.key.toNat ≤ 31 := by
    cases m with
    | read offset len uid => exact le_of_eq rfl
    | write offset len data uid hpayload => exact Nat.le_succ 30
  -- all bytes of the key that were not peeked at are as large as they can be
  have hwidth : 256 ^ d.peekReady * 256 ^ (4 - d.peekReady) = 256 ^ 4 := by
    rw [← pow_add]
    congr 1
    omega
  have hle : 256 ^ d.peekReady ≤ 256 ^ 3 := Nat.pow_le_pow_right (by omega) (by omega)
  rw [← hmax, Nat.mul_add, Nat.mul_one] at hwidth
  omega

/-- The first call receives as many bytes as the first message has. -/
theorem Reads.length_recv (h₀ : ℕ → UInt8) :
    (TCPSocket.recv d.ready
      (m.asked (peekedSize (fillBuffer h₀ 8 (TCPSocket.recv d.peekReady 8
        (m.format ++ rest.flatMap fun x => x.1.format)))))
      (m.format ++ rest.flatMap fun x => x.1.format)).length = m.format.length :=
  (h.length_recv_le h₀).antisymm (h.length_le h₀)

theorem Reads.whole : m.format.length ≤ d.ready := by
  have hlen := h.length_recv fun _ => 0
  rw [TCPSocket.recv, List.length_take] at hlen
  omega

/-- **The condition is needed** for the first message. -/
theorem Reads.delivered : m.Delivered d (rest = []) := by
  have hpeek := h.key
  refine ⟨hpeek, h.whole, ?_⟩
  intro hkind
  by_cases hall : 8 ≤ d.peekReady
  · exact Or.inl hall
  right
  have hlt := m.length_format_lt
  have hasked : ∀ size, m.asked size = 40 + size.toNat := by
    cases m with
    | read offset len uid => cases hkind
    | write offset len data uid hpayload => exact fun _ => rfl
  have hlen := m.length_format_eq_asked
  rw [hasked] at hlen
  have hn := asked_const hasked hpeek hall (rest.flatMap fun x => x.1.format)
  have hzero := h.length_recv fun _ => 0
  have hmax := h.length_recv fun _ => 255
  rw [hn, TCPSocket.recv, List.length_take] at hzero hmax
  rw [LittleEndian.value_replicate_zero, Nat.mul_zero, Nat.add_zero] at hzero
  have hpos : 0 < 256 ^ (d.peekReady - 4) := by positivity
  have hmod := Nat.mod_lt m.header.size.toNat hpos
  have hmodle := Nat.mod_le m.header.size.toNat (256 ^ (d.peekReady - 4))
  -- all bytes zero: the peeked part of the size is the whole of it
  have hpart : m.header.size.toNat % 256 ^ (d.peekReady - 4) = m.header.size.toNat := by
    rw [intArg_of_lt (by omega)] at hzero
    omega
  have hbound := value_peek_le (fun _ => 255) hpeek (by omega)
  have hvalue := LittleEndian.value_replicate_max (8 - d.peekReady)
  have hwidth : 256 ^ (d.peekReady - 4) * 256 ^ (8 - d.peekReady) = 2 ^ 32 := by
    have hfour : d.peekReady - 4 + (8 - d.peekReady) = 4 := by omega
    rw [← pow_add, hfour]
    rfl
  rw [← hvalue, Nat.mul_add, Nat.mul_one] at hwidth
  rw [hpart, List.length_append, length_flatMap_format] at hmax
  generalize hv : value (List.replicate (8 - d.peekReady) 255) = v at hmax hvalue hwidth
  generalize 256 ^ (d.peekReady - 4) = width at *
  -- all bytes as large as they can be: more would be asked for than an `int` holds, or too much
  have hfits : m.format.length < width := by
    by_contra hwrap
    have hmod' : (40 + (m.header.size.toNat + width * v)) % 2 ^ 32 =
        m.format.length - width := by omega
    rw [intArg, hmod', if_pos (by omega)] at hmax
    omega
  refine ⟨hfits, ?_⟩
  by_contra hmore
  rw [not_or] at hmore
  have harg : 40 + (m.header.size.toNat + width * v) ≤
      intArg (40 + (m.header.size.toNat + width * v)) := le_intArg (by omega)
  have htotal := total_pos hmore.2
  have hvpos : 0 < width * v := by
    refine Nat.mul_pos hpos ?_
    have hone : 256 ^ 1 ≤ 256 ^ (8 - d.peekReady) := Nat.pow_le_pow_right (by omega) (by omega)
    omega
  omega

end Necessity

/-! ### The result -/

theorem reads_iff (requests : List (NBDRequest × Delivery)) :
    Reads requests ↔ Delivered requests := by
  -- induction on the messages; a delivered message leaves exactly the others on the stream
  induction requests with
  | nil =>
      refine ⟨fun _ => trivial, ?_⟩
      intro _ calls hcalls
      rw [List.map_eq_nil_iff.1 hcalls]
      rfl
  | cons x rest ih =>
      obtain ⟨m, d⟩ := x
      have hempty : (rest.flatMap fun x => x.1.format) = [] ↔ rest = [] := by
        rw [← List.length_eq_zero_iff, length_flatMap_format]
        constructor
        · intro hzero
          by_contra hne
          exact absurd hzero (total_pos hne).ne'
        · rintro rfl
          rfl
      have hstep : ∀ c : NBDProxy.Call, m.Delivered d (rest = []) → c.delivery = d →
          getArgsKey c (m.format ++ rest.flatMap fun x => x.1.format) =
            (.ok m.args, rest.flatMap fun x => x.1.format) := by
        rintro c hd rfl
        refine getArgsKey_of_delivered ⟨hd.key, hd.whole, ?_⟩
        intro hkind
        rw [hempty]
        exact hd.size hkind
      constructor
      · intro h
        refine ⟨h.delivered, ih.1 ?_⟩
        intro calls hcalls
        have hall := h (.of d (fun _ => 0) (fun _ => 0) :: calls) (by
          rw [List.map_cons, hcalls]
          rfl)
        have hlater := (getArgsKeys_cons_eq_ok.1 hall).2
        rwa [List.flatMap_cons, hstep _ h.delivered rfl] at hlater
      · rintro ⟨hd, hrest⟩ calls hcalls
        obtain ⟨c, calls, rfl⟩ : ∃ c later, calls = c :: later := by
          cases calls with
          | nil => cases hcalls
          | cons c later => exact ⟨c, later, rfl⟩
        obtain ⟨hc, hcalls⟩ := List.cons.inj hcalls
        rw [List.map_cons]
        refine getArgsKeys_cons_eq_ok.2 ?_
        rw [List.flatMap_cons, hstep c hd hc]
        exact ⟨rfl, ih.2 hrest calls hcalls⟩

/-- **The requests are read back** as they were written, whatever the heap holds, exactly if every
message is delivered. -/
theorem yields_iff (requests : List (NBDRequest × Delivery)) :
    Yields requests ↔ Delivered requests :=
  (yields_iff_reads requests).trans (reads_iff requests)

/-- A write of one byte, of which the receive gets the first 40 of its 41 bytes. -/
def splitWrite : NBDRequest × Delivery :=
  (.write 0 1 [7] ⟨1, 0, 0, 2⟩ ⟨rfl, by decide⟩, ⟨8, 40⟩)

/-- Its data are what the heap holds, and its last byte is taken for the next message. -/
theorem not_yields_split_write : ¬ Yields [splitWrite] := by
  intro h
  have hread := h (fun _ => 0) [.of ⟨8, 40⟩ (fun _ => 0) fun _ => 0] rfl
  exact absurd hread (by decide)

end IotDrive
