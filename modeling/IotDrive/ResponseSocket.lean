/-
The socket on which the master gets the responses of the minions.

`ResponseProxy::GetArgsKey` peeks at the datagram in front and takes it off the socket only in the
two branches that know its key, so a datagram with any other key stays in front for good.

Main definitions:

* `ResponseProxy.callback` — the handler that `InputMediator` registers for the responses;
* `Registers` — a well-formed response that is a success, and the UID it is about;
* `Drains` — every readiness event removes the datagram in front, and registers what it should;
* `ResponseProxy.Recognises` — one of the two keys, and a size that can be received.

Main results:

* `ResponseProxy.getArgsKey_of_recognises` — a recognised datagram is removed;
* `ResponseProxy.recognises_of_removes` — any other datagram is not, or undefined behaviour ends
  the call;
* `drains_iff_recognises` — **responses**, for every queue of datagrams.
-/

import IotDrive.Agreement
import IotDrive.Reactor

set_option relaxedAutoImplicit false
set_option autoImplicit false

namespace IotDrive

/-! ### The handler of the master -/

/-- What the loop of the master works on as far as responses go: the datagrams on the response
socket, and what each call of the handler did with its message. -/
structure ResponseLoop where
  socket : List Datagram
  handled : List (List ResponseEffect)

/-- `InputMediator::ReactorCallback::operator()` with a `ResponseProxy`; the pointer that
`GetArgsKey` returns is always null. -/
def ResponseProxy.callback (e : CallEnv) (s : ResponseLoop) : Except Fault Unit × ResponseLoop :=
  match s.socket with
  | [] => (.ok (), s)
  | head :: queue =>
      match ResponseProxy.getArgsKey e.heap e.fresh head queue with
      | (.ok effects, socket) => (.ok (), { socket, handled := s.handled ++ [effects] })
      | (.error fault, socket) => (.error fault, { s with socket })

/-- `Reactor::Run` in the master, for the given readiness events of the response socket `fd`. -/
def ResponseLoop.run (fd : ℤ) (events : List CallEnv) (s : ResponseLoop) :
    Except Fault Unit × ResponseLoop :=
  (Reactor.on fd ResponseProxy.callback).run (readiness fd events) s

/-- The UIDs that a call gave to `ResponseManeger::RegisterResponse`. -/
def registered (effects : List ResponseEffect) : List ThreadSafeUID :=
  effects.filterMap fun
    | .registerResponse uid => some uid
    | .notifySucces _ _ => none

/-- A well-formed response that is a success, about the request `uid`. -/
inductive Registers (uid : ThreadSafeUID) : Datagram → Prop
  | minionReadMsg (data : List UInt8) (size : UInt32) (hdata : data.length = size.toNat) :
      Registers uid ((MinionReadMsg.make uid true (some data) size).format data)
  | minionWriteMsg : Registers uid (MinionWriteMsg.make uid true).format

/-- After any number of readiness events of the socket, as many datagrams are gone from the front
of the queue, and every well-formed success among them was registered exactly once. -/
def Drains (queue : List UDPDatagram) : Prop :=
  ∀ fd events, events.length ≤ queue.length → ∃ handled : List (List ResponseEffect),
    ResponseLoop.run fd events { socket := queue.map (·.bytes), handled := [] } =
      (.ok (), { socket := (queue.map (·.bytes)).drop events.length, handled }) ∧
    List.Forall₂ (fun d effects => ∀ uid, Registers uid d → registered effects = [uid])
      ((queue.map (·.bytes)).take events.length) handled

namespace ResponseProxy

/-- The key is that of a response; and the size that is asked for, as an `int`, covers the low byte
of the size field, so that the message is not taken to be longer than its buffer. -/
def Recognises (d : Datagram) : Prop :=
  peekedKey d = writeMinionMsgKey ∨
    peekedKey d = readMinionMsgKey ∧ 5 ≤ (33 + (peekedSize d).toNat) % 2 ^ 32

instance (d : Datagram) : Decidable (Recognises d) := instDecidableOr

/-! ### Decoding any bytes -/

/-- A buffer of 33 bytes is a header and a `bool`, whatever they are. -/
theorem exists_header {buffer : List UInt8} (h : 33 ≤ buffer.length) :
    ∃ (m : AMessage) (b : UInt8) (rest : List UInt8), buffer = m.format ++ b :: rest := by
  obtain ⟨m, rest, rfl⟩ := AMessage.exists_format (le_trans (by decide) h)
  cases rest with
  | nil => simp at h
  | cons b rest => exact ⟨m, b, rest, rfl⟩

theorem decode_minionWriteMsg (other : UInt8 → Bool) {buffer : List UInt8} (h : 33 ≤ buffer.length) :
    ∃ effects, decode other .minionWriteMsg buffer = .ok effects := by
  obtain ⟨m, b, rest, rfl⟩ := exists_header h
  simp only [decode, MinionWriteMsg.fromBuffer, AMessage.fromBuffer_format, ok_bind, loadBool,
    load8_cons, pure, Except.pure]
  exact ⟨_, rfl⟩

/-- A response to a read is decoded if the buffer holds as many bytes of data as its size says. -/
theorem decode_minionReadMsg (other : UInt8 → Bool) {buffer : List UInt8}
    (h : 33 + (peekedSize buffer).toNat ≤ buffer.length) :
    ∃ effects, decode other .minionReadMsg buffer = .ok effects := by
  obtain ⟨m, b, rest, rfl⟩ := exists_header (le_trans (Nat.le_add_right _ _) h)
  have hsize : m.size.toNat ≤ rest.length := by
    rw [peekedSize_format] at h
    simp at h
    omega
  have hload : loadBytes m.size.toNat rest =
      .ok (rest.take m.size.toNat, rest.drop m.size.toNat) := if_pos hsize
  simp only [decode, MinionReadMsg.fromBuffer, AMessage.fromBuffer_format, ok_bind, loadBool,
    load8_cons, AMessage.getSize, hload, pure, Except.pure]
  exact ⟨_, rfl⟩

/-- Otherwise the decoding reads past the end of the buffer. -/
theorem decode_minionReadMsg_of_lt (other : UInt8 → Bool) {buffer : List UInt8}
    (h33 : 33 ≤ buffer.length)
    (h : buffer.length < 33 + (peekedSize buffer).toNat) :
    decode other .minionReadMsg buffer = .error .overread := by
  obtain ⟨m, b, rest, rfl⟩ := exists_header h33
  have hsize : ¬ m.size.toNat ≤ rest.length := by
    rw [peekedSize_format] at h
    simp at h
    omega
  have hload : loadBytes m.size.toNat rest = .error .overread := if_neg hsize
  simp only [decode, MinionReadMsg.fromBuffer, AMessage.fromBuffer_format, ok_bind, loadBool,
    load8_cons, AMessage.getSize, hload, pure, Except.pure]
  rfl

/-! ### What is received -/

/-- The low byte of the size only depends on the first five bytes. -/
theorem peekedSize_mod_eq {xs ys : List UInt8} (h : xs.take 5 = ys.take 5) :
    (peekedSize xs).toNat % 256 = (peekedSize ys).toNat % 256 := by
  have hlow : ∀ zs : List UInt8, LittleEndian.value (zs.take 4) % 256 =
      LittleEndian.value (zs.take 1) % 256 := by
    intro zs
    cases zs with
    | nil => rfl
    | cons b rest => simp only [List.take_succ_cons, List.take_zero, LittleEndian.value]; omega
  have hdrop : (xs.drop 4).take 1 = (ys.drop 4).take 1 := by
    have htake := congrArg (List.drop 4) h
    rwa [List.drop_take, List.drop_take] at htake
  have hsize : ∀ zs : List UInt8, (peekedSize zs).toNat % 256 =
      LittleEndian.value ((zs.drop 4).take 1) % 256 := by
    intro zs
    rw [peekedSize, UInt32.toNat_ofNat', Nat.mod_mod_of_dvd _ (by decide), hlow]
  rw [hsize, hsize, hdrop]

variable {d : Datagram} {heap : Heap} {fresh : ThreadSafeUID} {queue : List Datagram}

/-- The part of a datagram that a receive of `n` bytes copies fits into `n` bytes. -/
theorem length_take_intArg (hd : d.length ≤ 65507) (n : ℕ) : (d.take (intArg n)).length ≤ n := by
  rw [List.length_take, intArg]
  split
  · exact (min_le_left _ _).trans (Nat.mod_le _ _)
  · omega

/-- The first bytes received are those of the datagram. -/
theorem take_recive (cells : ℕ → UInt8) (hd : d.length ≤ 65507) {k n : ℕ} (hk : k ≤ intArg n)
    (hlen : k ≤ d.length) : (UDPSocket.recive cells n n d).take k = d.take k := by
  rw [UDPSocket.recive, fillBuffer_of_le (length_take_intArg hd n),
    List.take_append_of_le_length (by rw [List.length_take]; omega), List.take_take,
    Nat.min_eq_left hk]

theorem length_recive (cells : ℕ → UInt8) (n m : ℕ) :
    (UDPSocket.recive cells n m d).length = n :=
  Extent.length_extract _ _ _

/-- If the receive covers the low byte of the size field, then the size received is at most the
size peeked. -/
theorem peekedSize_recive_le (cells : ℕ → UInt8) (hd : d.length ≤ 65507) (h8 : 8 ≤ d.length)
    (h : 5 ≤ (33 + (peekedSize d).toNat) % 2 ^ 32) :
    (peekedSize (UDPSocket.recive cells (33 + (peekedSize d).toNat)
      (33 + (peekedSize d).toNat) d)).toNat ≤ (peekedSize d).toNat := by
  have hlt := (peekedSize d).toNat_lt
  generalize hn : 33 + (peekedSize d).toNat = n at h ⊢
  have harg : n % 2 ^ 32 ≤ intArg n := by
    rw [intArg]
    split <;> omega
  by_cases hall : 8 ≤ intArg n
  · have htake := take_recive cells hd hall h8
    rw [← peekedSize_take, htake, peekedSize_take]
  · -- the size is so large that only its low byte can differ from that of any other
    have htake := take_recive cells hd (h.trans harg) (by omega : 5 ≤ d.length)
    have hmod := peekedSize_mod_eq htake
    have hgot := (peekedSize (UDPSocket.recive cells n n d)).toNat_lt
    omega

/-! ### One call -/

/-- The three branches of `GetArgsKey`, for a datagram with a key and a size. -/
theorem getArgsKey_eq (h8 : 8 ≤ d.length) : getArgsKey heap fresh d queue =
    if peekedKey d = writeMinionMsgKey then
      (decode heap.bool .minionWriteMsg (UDPSocket.recive (heap 1) 33 33 d), queue)
    else if peekedKey d = readMinionMsgKey then
      (decode heap.bool .minionReadMsg (UDPSocket.recive (heap 1) (33 + (peekedSize d).toNat)
        (33 + (peekedSize d).toNat) d), queue)
    else (.ok [], d :: queue) := by
  simp only [getArgsKey, UDPSocket.recive_peek h8, peekedKey_take, peekedSize_take]
  by_cases hwrite : peekedKey d = writeMinionMsgKey
  · rw [if_pos hwrite, hwrite]
    rfl
  · by_cases hread : peekedKey d = readMinionMsgKey
    · rw [if_neg hwrite, if_pos hread, hread]
      rfl
    · simp only [select, if_neg hwrite, if_neg hread]
      rfl

/-- A recognised datagram is removed from the socket. -/
theorem getArgsKey_of_recognises (heap : Heap) (fresh : ThreadSafeUID) (queue : List Datagram)
    (hd : d.length ≤ 65507) (h8 : 8 ≤ d.length) (h : Recognises d) :
    ∃ effects, getArgsKey heap fresh d queue = (.ok effects, queue) := by
  rw [getArgsKey_eq h8]
  rcases h with hwrite | ⟨hread, hsize⟩
  · obtain ⟨effects, hdecode⟩ :=
      decode_minionWriteMsg heap.bool (length_recive (d := d) (heap 1) 33 33).ge
    rw [if_pos hwrite, hdecode]
    exact ⟨effects, rfl⟩
  · have hle := peekedSize_recive_le (heap 1) hd h8 hsize
    have hlen := length_recive (d := d) (heap 1) (33 + (peekedSize d).toNat)
      (33 + (peekedSize d).toNat)
    generalize UDPSocket.recive (heap 1) (33 + (peekedSize d).toNat)
      (33 + (peekedSize d).toNat) d = buffer at hle hlen ⊢
    have hfits : 33 + (peekedSize buffer).toNat ≤ buffer.length := by omega
    obtain ⟨effects, hdecode⟩ := decode_minionReadMsg heap.bool hfits
    have hkey : peekedKey d ≠ writeMinionMsgKey := by
      rw [hread]
      decide
    rw [if_neg hkey, if_pos hread, hdecode]
    exact ⟨effects, rfl⟩

/-- A size field that only the heap fills can be larger than the buffer. -/
theorem peekedSize_recive_max (hd : d.length ≤ 65507) (h8 : 8 ≤ d.length) {n : ℕ}
    (hn : 8 ≤ n) (h : n % 2 ^ 32 < 5) :
    (peekedSize (UDPSocket.recive (fun _ => 255) n n d)).toNat = 2 ^ 32 - 1 := by
  have harg : intArg n = n % 2 ^ 32 := by
    rw [intArg, if_pos (by omega)]
  have hlen : (d.take (n % 2 ^ 32)).length = n % 2 ^ 32 := List.length_take_of_le (by omega)
  have hheap : Extent.extract (fun _ => (255 : UInt8)) (n % 2 ^ 32) (n - n % 2 ^ 32) =
      List.replicate (n - n % 2 ^ 32) 255 := by
    simp [Extent.extract]
  have hfield : ((UDPSocket.recive (fun _ => 255) n n d).drop 4).take 4 =
      List.replicate 4 255 := by
    rw [UDPSocket.recive, fillBuffer_of_le (length_take_intArg hd n), harg, hlen, hheap,
      List.drop_append, List.drop_of_length_le (by omega), List.nil_append, List.drop_replicate,
      List.take_replicate, hlen]
    congr 1
    omega
  rw [peekedSize, hfield]
  rfl

/-- A datagram that every call removes is recognised. -/
theorem recognises_of_removes (hd : d.length ≤ 65507) (h8 : 8 ≤ d.length)
    (h : ∀ heap fresh, ∃ effects, getArgsKey heap fresh d queue = (.ok effects, queue)) :
    Recognises d := by
  obtain ⟨effects, hcall⟩ := h (fun _ _ => 255) ⟨0, 0, 0, 0⟩
  rw [getArgsKey_eq h8] at hcall
  by_cases hwrite : peekedKey d = writeMinionMsgKey
  · exact Or.inl hwrite
  · rw [if_neg hwrite] at hcall
    by_cases hread : peekedKey d = readMinionMsgKey
    · refine Or.inr ⟨hread, ?_⟩
      by_contra hsize
      have hlt := (peekedSize d).toNat_lt
      have hmax := peekedSize_recive_max hd h8 (n := 33 + (peekedSize d).toNat) (by omega)
        (by omega)
      have hlen := length_recive (d := d) (fun _ => 255) (33 + (peekedSize d).toNat)
        (33 + (peekedSize d).toNat)
      have herror := decode_minionReadMsg_of_lt (Heap.bool fun _ _ => 255)
        (hlen.ge.trans' (Nat.le_add_right 33 _)) (by rw [hmax, hlen]; omega)
      rw [if_pos hread, herror] at hcall
      exact absurd (congrArg Prod.fst hcall) nofun
    · rw [if_neg hread] at hcall
      have hqueue := congrArg (fun r => r.2.length) hcall
      simp at hqueue

/-- A recognised datagram is removed, and a well-formed success is registered exactly once. -/
theorem handles_of_recognises (heap : Heap) (fresh : ThreadSafeUID) (queue : List Datagram)
    (hd : d.length ≤ 65507) (h8 : 8 ≤ d.length) (h : Recognises d) :
    ∃ effects, getArgsKey heap fresh d queue = (.ok effects, queue) ∧
      ∀ uid, Registers uid d → registered effects = [uid] := by
  obtain ⟨effects, hcall⟩ := getArgsKey_of_recognises heap fresh queue hd h8 h
  refine ⟨effects, hcall, ?_⟩
  intro uid huid
  cases huid with
  | minionReadMsg data size hdata =>
      rw [MinionReadMsg.length_format] at hd
      have hpayload : Payload data size := ⟨hdata, by rw [memory_eq]; omega⟩
      have hread := (receives_readResponse uid size true hpayload heap fresh queue).2
      rw [hcall] at hread
      cases hread
      rfl
  | minionWriteMsg =>
      have hwrite := (receives_writeResponse uid true heap fresh queue).2
      rw [hcall] at hwrite
      cases hwrite
      rfl

end ResponseProxy

/-! ### Readiness events -/

namespace ResponseLoop

variable {fd : ℤ} {d : Datagram} {queue socket : List Datagram}

/-- A call that returns. -/
theorem run_of_ok (fd : ℤ) (e : CallEnv) (handled : List (List ResponseEffect))
    {effects : List ResponseEffect} (events : List CallEnv)
    (h : ResponseProxy.getArgsKey e.heap e.fresh d queue = (.ok effects, socket)) :
    run fd (e :: events) { socket := d :: queue, handled } =
      run fd events { socket, handled := handled ++ [effects] } := by
  refine Reactor.run_on_ok ?_ events
  simp only [ResponseProxy.callback, h]

/-- A call that does not. -/
theorem run_of_error (fd : ℤ) (e : CallEnv) (handled : List (List ResponseEffect))
    {fault : Fault} (events : List CallEnv)
    (h : ResponseProxy.getArgsKey e.heap e.fresh d queue = (.error fault, socket)) :
    run fd (e :: events) { socket := d :: queue, handled } =
      (.error fault, { socket, handled }) := by
  refine Reactor.run_on_error ?_ events
  simp only [ResponseProxy.callback, h]

/-- The loop on a queue of recognised datagrams. -/
theorem run_of_recognises (handled : List (List ResponseEffect)) {queue : List UDPDatagram}
    (h : ∀ d ∈ queue, 8 ≤ d.bytes.length ∧ ResponseProxy.Recognises d.bytes)
    {events : List CallEnv} (hlen : events.length ≤ queue.length) :
    ∃ more : List (List ResponseEffect),
      run fd events { socket := queue.map (·.bytes), handled } =
        (.ok (), { socket := (queue.map (·.bytes)).drop events.length,
                   handled := handled ++ more }) ∧
      List.Forall₂ (fun d effects => ∀ uid, Registers uid d → registered effects = [uid])
        ((queue.map (·.bytes)).take events.length) more := by
  -- induction on the events, each of which takes one datagram off the queue
  induction events generalizing handled queue with
  | nil => exact ⟨[], by rw [List.append_nil]; rfl, List.Forall₂.nil⟩
  | cons e events ih =>
      cases queue with
      | nil => exact absurd hlen (Nat.not_succ_le_zero _)
      | cons d queue =>
          obtain ⟨h8, hd⟩ := h d (List.mem_cons_self ..)
          obtain ⟨effects, hcall, huid⟩ := ResponseProxy.handles_of_recognises e.heap e.fresh
            (queue.map (·.bytes)) d.le h8 hd
          obtain ⟨more, hrun, hmore⟩ := ih (handled ++ [effects])
            (fun d hd => h d (List.mem_cons_of_mem _ hd)) (Nat.le_of_succ_le_succ hlen)
          refine ⟨effects :: more, ?_, List.Forall₂.cons huid hmore⟩
          rw [List.map_cons, run_of_ok fd e handled events hcall, hrun, List.append_assoc]
          rfl

end ResponseLoop

/-- In a queue that is drained every call removes the datagram in front. -/
theorem Drains.removes (before : List UDPDatagram) {after : List UDPDatagram} {d : UDPDatagram}
    (h : Drains (before ++ d :: after)) (heap : Heap) (fresh : ThreadSafeUID) :
    ∃ effects, ResponseProxy.getArgsKey heap fresh d.bytes (after.map (·.bytes)) =
      (.ok effects, after.map (·.bytes)) := by
  let e : CallEnv := { heap, fresh }
  have hlen : (List.replicate before.length e).length = (before.map (·.bytes)).length := by simp
  obtain ⟨handled, hrun, -⟩ := h 0 (List.replicate before.length e) (by simp)
  obtain ⟨handled', hrun', -⟩ := h 0 (List.replicate before.length e ++ [e]) (by simp)
  have hdrop : ((before ++ d :: after).map (·.bytes)).drop
      (List.replicate before.length e ++ [e]).length = after.map (·.bytes) := by
    rw [List.map_append, List.length_append, hlen, List.drop_append, List.drop_of_length_le (by simp)]
    simp
  rw [List.map_append, hlen, List.drop_left, List.map_cons] at hrun
  rw [hdrop, List.map_append, List.map_cons, ResponseLoop.run, Reactor.run_on_append hrun] at hrun'
  rcases hcall : ResponseProxy.getArgsKey heap fresh d.bytes (after.map (·.bytes)) with
    ⟨fault | effects, socket⟩
  · have herror := ResponseLoop.run_of_error 0 e handled [] hcall
    rw [ResponseLoop.run, hrun'] at herror
    exact absurd (congrArg Prod.fst herror) nofun
  · have hok := ResponseLoop.run_of_ok 0 e handled [] hcall
    rw [ResponseLoop.run, hrun'] at hok
    have hsocket : after.map (·.bytes) = socket := congrArg (fun r => r.2.socket) hok
    exact ⟨effects, hcall.trans (by rw [hsocket])⟩

/-- **Responses.** A queue of datagrams of at least eight bytes is drained, one datagram for each
readiness event, if and only if every datagram in it is recognised. -/
theorem drains_iff_recognises {queue : List UDPDatagram}
    (h8 : ∀ d ∈ queue, 8 ≤ d.bytes.length) :
    Drains queue ↔ ∀ d ∈ queue, ResponseProxy.Recognises d.bytes := by
  constructor
  · intro h d hd
    obtain ⟨before, after, rfl⟩ := List.append_of_mem hd
    exact ResponseProxy.recognises_of_removes d.le (h8 d hd) (h.removes before)
  · intro h fd events hlen
    exact ResponseLoop.run_of_recognises [] (fun d hd => ⟨h8 d hd, h d hd⟩) hlen

/-- The answer of a minion to the write request with the UID `⟨7, 0, 0, 0⟩`. -/
def writeAnswer : UDPDatagram where
  bytes := (MinionWriteMsg.make ⟨7, 0, 0, 0⟩ true).format
  le := by rw [MinionWriteMsg.length_format]; decide

/-- The answer of a minion to the read request with the UID `⟨8, 0, 0, 0⟩`, with two bytes. -/
def readAnswer : UDPDatagram where
  bytes := (MinionReadMsg.make ⟨8, 0, 0, 0⟩ true (some [5, 6]) 2).format [5, 6]
  le := by rw [MinionReadMsg.length_format]; decide

/-- The answer of a minion that could not write. -/
def failedAnswer : UDPDatagram where
  bytes := (MinionWriteMsg.make ⟨9, 0, 0, 0⟩ false).format
  le := by rw [MinionWriteMsg.length_format]; decide

/-- A queue of answers of both kinds is drained, the failed one and the one that came twice too. -/
theorem drains_iff_recognises_answers : Drains [writeAnswer, readAnswer, failedAnswer, readAnswer] :=
  (drains_iff_recognises (by decide)).2 (by decide)

/-- A datagram of eight zeros is never removed, and the answer behind it is never registered. -/
theorem not_drains_zeros_in_front :
    ¬ Drains [{ bytes := List.replicate 8 0, le := by decide }, writeAnswer] := by
  intro h
  have hrecognised := ResponseProxy.recognises_of_removes (by decide) (by decide)
    (Drains.removes [] h)
  exact absurd hrecognised (by decide)

end IotDrive
