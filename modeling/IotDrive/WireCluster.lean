/-
The cluster on the wire.

In `IotDrive/StorageCluster.lean` a request in flight is its arguments.  Here it is the bytes that
`MinionProxy` wrote to its socket: a minion peeks at them, decodes them and executes what they say,
and the master does the same with the bytes of the answer.  What does not fit into a datagram is not
sent, since nobody looks at the result of `sendto`.

Main definitions:

* `UDPSocket.send` — what of a transmission is in flight after it;
* `WireCluster`, `WireCluster.step` — the master, the files and the bytes in flight;
* `Posted.wire`, `Response.wire` — the bytes of a request and of a response;
* `WireEvent.observe` — what the bytes that were handled mean.

Main results:

* `MasterProxy.getArgsKey_wire`, `ResponseProxy.getArgsKey_wire` — the two decoders on these bytes;
* `WireCluster.step_onWire` — every step on bytes is a few steps on arguments;
* `wire_refines_storage` — **the refinement**, and no process ever throws;
* `wire_acknowledged_write_stored` — durability for the bytes on the wire.
-/

import IotDrive.Durability

set_option relaxedAutoImplicit false
set_option autoImplicit false

namespace IotDrive

open History InFlight

/-! ### The machine -/

/-- `UDPSocket::Send`: what is in flight after it.  A `sendto` with more bytes than a datagram can hold
fails, which is ignored. -/
def UDPSocket.send (t : Transmission) : List Datagram :=
  if t.bytes.length ≤ 65507 then [t.bytes] else []

/-- What can be observed of the cluster on the wire. -/
inductive WireEvent
  | issued (p : Poller) (r : Request)
  | executed (i : ℕ) (args : IArgsKey)
  | handled (effects : List ResponseEffect)
  | evaluated (p : Poller) (reply : Option WriteReply) (ret : Bool)
  | failed (fault : Fault)

/-- A command stays inside of one stripe. -/
def WireEvent.Fits : WireEvent → Prop
  | .issued _ r => r.FitsStripe
  | _ => True

instance : ∀ e : WireEvent, Decidable e.Fits
  | .issued _ r => inferInstanceAs (Decidable r.FitsStripe)
  | .executed _ _ | .handled _ | .evaluated _ _ _ | .failed _ => instDecidableTrue

/-- The master, the minions, and the bytes in flight to and from them. -/
structure WireCluster where
  master : Master
  minions : Minions
  requests : List (ℕ × Datagram)
  responses : List Datagram

namespace WireCluster

def start (minions : Minions) : WireCluster :=
  { master := .start, minions, requests := [], responses := [] }

/-- What happens in the cluster.  The array of a write has the size that goes with it. -/
inductive Action
  | execRead (heap : Heap) (stamp : Stamp) (offset : UInt64) (size : UInt32)
  | execWrite (heap : Heap) (ogStamp : Stamp) (gap : List Stamp) (backupStamp : Stamp)
      (offset : UInt64) (size : UInt32) (data : List UInt8) (hdata : data.length = size.toNat)
  | newUID (stamp : Stamp)
  | poll (p : Poller)
  | receive (heap : Heap) (stamp : Stamp) (d : Datagram)
  | serve (heap : Heap) (fresh : ThreadSafeUID) (i : ℕ) (d : Datagram)
  | loseRequest (i : ℕ) (d : Datagram)
  | duplicateRequest (i : ℕ) (d : Datagram)
  | loseResponse (d : Datagram)
  | duplicateResponse (d : Datagram)

/-- The transitions of the cluster.  As in `StorageCluster.step`, a minion executes one storage command
at a time. -/
def step (w : WireCluster) : Action → Option (WireCluster × List WireEvent)
  | .execRead heap stamp offset size => do
      let (uid, master) ← w.master.execRead stamp
      let (i, t) ← ReadCommand.execute heap uid offset size
      return ({ w with master, requests := w.requests ++ (UDPSocket.send t).map (i, ·) },
        [.issued (.readAIFunc uid) (.read offset size)])
  | .execWrite heap ogStamp gap backupStamp offset size data _ => do
      let (uids, master) ← w.master.execWrite ogStamp gap backupStamp
      let ((i, og), (j, backup)) ← WriteCommand.execute heap uids.1 uids.2 offset size (some data)
      return ({ w with
          master
          requests := w.requests ++
            ((UDPSocket.send og).map (i, ·) ++ (UDPSocket.send backup).map (j, ·)) },
        [.issued (.writeAIFunc uids.1 uids.2) (.write offset data)])
  | .newUID stamp => (w.master.newUID stamp).map fun (_, master) => ({ w with master }, [])
  | .poll p =>
      (w.master.poll p).bind fun
        | (master, .evaluated p reply ret) => some ({ w with master }, [.evaluated p reply ret])
        | _ => none
  | .receive heap stamp d =>
      if d ∈ w.responses then
        (w.master.newUID stamp).map fun (fresh, master) =>
          match ResponseProxy.getArgsKey heap fresh d [] with
          | (.ok effects, socket) =>
              ({ w with
                master := { master with
                  watchlist := effects.foldl ResponseEffect.watch master.watchlist }
                responses := w.responses.erase d ++ socket }, [.handled effects])
          | (.error fault, socket) =>
              ({ w with master, responses := w.responses.erase d ++ socket }, [.failed fault])
      else none
  | .serve heap fresh i d =>
      if (i, d) ∈ w.requests then
        match MasterProxy.getArgsKey heap fresh d [] with
        | (.ok args, socket) =>
            let requests := w.requests.erase (i, d) ++ socket.map (i, ·)
            match (w.minions i).run heap args with
            | some (m, t) =>
                some ({ w with
                  minions := Function.update w.minions i m
                  requests
                  responses := w.responses ++ UDPSocket.send t }, [.executed i args])
            | none => some ({ w with requests }, [.failed .outOfRange])
        | (.error fault, socket) =>
            some ({ w with requests := w.requests.erase (i, d) ++ socket.map (i, ·) },
              [.failed fault])
      else none
  | .loseRequest i d =>
      if (i, d) ∈ w.requests then some ({ w with requests := w.requests.erase (i, d) }, []) else none
  | .duplicateRequest i d =>
      if (i, d) ∈ w.requests then some ({ w with requests := w.requests ++ [(i, d)] }, []) else none
  | .loseResponse d =>
      if d ∈ w.responses then some ({ w with responses := w.responses.erase d }, []) else none
  | .duplicateResponse d =>
      if d ∈ w.responses then some ({ w with responses := w.responses ++ [d] }, []) else none

end WireCluster

/-! ### The bytes of requests and responses -/

/-- The bytes of a request. -/
def StoreRequest.format : StoreRequest → Datagram
  | .read offset size uid => (ReadMsg.make offset size uid).format
  | .write offset size data uid _ => (WriteMsg.make offset size (some data) uid).format data

/-- A request datagram as it is in flight. -/
def Posted.wire (q : Posted) : ℕ × Datagram := (q.minion, q.request.format)

/-- The bytes of a response. -/
def Response.wire : Response → Datagram
  | .read uid isSuccess data =>
      (MinionReadMsg.make uid isSuccess (some data) (UInt32.ofNat data.length)).format data
  | .write uid isSuccess => (MinionWriteMsg.make uid isSuccess).format

/-- The request is no longer than the device. -/
def StoreRequest.Bounded : StoreRequest → Prop
  | .read _ size _ => size.toNat ≤ memory
  | .write _ _ data _ _ => data.length ≤ memory

/-- A minion decodes a request to its arguments. -/
theorem MasterProxy.getArgsKey_wire {r : StoreRequest} (hr : r.Bounded) (heap : Heap)
    (fresh : ThreadSafeUID) (queue : List Datagram) :
    MasterProxy.getArgsKey heap fresh r.format queue = (.ok r.args, queue) := by
  cases r with
  | read offset size uid => exact (receives_readRequest uid offset size heap fresh queue).2
  | write offset size data uid hdata =>
      have hpayload : Payload data size := ⟨hdata, hdata ▸ hr⟩
      exact (receives_writeRequest uid offset size hpayload heap fresh queue).2

/-- The master decodes a response to its effects. -/
theorem ResponseProxy.getArgsKey_wire {r : Response} (hr : r.data.length ≤ memory) (heap : Heap)
    (fresh : ThreadSafeUID) (queue : List Datagram) :
    ResponseProxy.getArgsKey heap fresh r.wire queue = (.ok r.effects, queue) := by
  cases r with
  | read uid isSuccess data =>
      exact (receives_readResponse uid _ isSuccess (Payload.of_le hr) heap fresh queue).2
  | write uid isSuccess => exact (receives_writeResponse uid isSuccess heap fresh queue).2

/-- What a minion sends when it has executed a request are the bytes of its response. -/
theorem StoreRequest.bytes_execute {r : StoreRequest} (hr : r.Bounded) (heap : Heap) (m : Minion) :
    (r.execute heap m).2.bytes = ((r.answer heap m).response r).wire ∧
      ((r.answer heap m).response r).isSuccess = true ∧
      ((r.answer heap m).response r).data.length ≤ memory := by
  obtain ⟨data, hlen, hsuccess⟩ := r.execute_succeeds heap m
  have hanswer : r.answer heap m = ⟨true, data⟩ := by
    rw [answer, hsuccess]
    exact Answer.answer_transmission (heap 3) hlen
  rw [hanswer, hsuccess]
  cases r with
  | read offset size uid =>
      have hlen : data.length = size.toNat := hlen
      have hle : data.length ≤ memory := hlen.trans_le hr
      have hsize : UInt32.ofNat data.length = size := by
        rw [hlen]
        exact UInt32.ofNat_toNat
      refine ⟨?_, rfl, hle⟩
      have hbytes := (MasterProxy.readResponse_carries (heap 3) uid size true
        (Payload.mk hlen (hlen ▸ hle))).2
      refine hbytes.trans ?_
      simp only [Answer.response, Response.wire, hsize]
  | write offset size data' uid hdata =>
      exact ⟨(MasterProxy.writeResponse_carries (heap 3) uid true).2, rfl, Nat.zero_le _⟩

/-! ### What the bytes mean -/

/-- The request with the given arguments. -/
def StoreRequest.ofArgs : IArgsKey → Option StoreRequest
  | .minionReadArgsKey _ offset size uid => some (.read offset size uid)
  | .minionWriteArgsKey _ offset size (some data) uid =>
      if h : data.length = size.toNat then some (.write offset size data uid h) else none
  | _ => none

/-- The successful response with the given effects. -/
def Response.ofEffects : List ResponseEffect → Option Response
  | [.registerResponse uid] => some (.write uid true)
  | [.registerResponse uid, .notifySucces (some data) _] => some (.read uid true data)
  | _ => none

/-- What an event on the wire means. -/
def WireEvent.observe : WireEvent → List StorageEvent
  | .issued p r => [.issued p r]
  | .executed i args => ((StoreRequest.ofArgs args).map fun r => .served ⟨i, r⟩).toList
  | .handled effects => ((Response.ofEffects effects).map .received).toList
  | .evaluated p reply ret => [.evaluated p reply ret]
  | .failed _ => []

theorem StoreRequest.ofArgs_args (r : StoreRequest) : ofArgs r.args = some r := by
  cases r with
  | read offset size uid => rfl
  | write offset size data uid hdata => exact dif_pos hdata

theorem Response.ofEffects_effects {r : Response} (h : r.isSuccess = true) :
    ofEffects r.effects = some r := by
  cases r with
  | read uid isSuccess data =>
      cases h
      rfl
  | write uid isSuccess =>
      cases h
      rfl

/-! ### The simulation -/

/-- The bytes in flight are those of the requests and responses in flight; these are no longer than
the device, and the responses are successes. -/
structure OnWire (w : WireCluster) (s : StorageCluster) : Prop where
  master : w.master = s.master
  minions : w.minions = s.minions
  requests : Coded Posted.wire w.requests s.requests
  responses : Coded Response.wire w.responses s.responses
  bounded : ∀ q ∈ s.requests, q.request.Bounded
  answers : ∀ r ∈ s.responses, r.isSuccess = true ∧ r.data.length ≤ memory

theorem onWire_start (minions : Minions) : OnWire (.start minions) (.start minions) :=
  ⟨rfl, rfl, .nil, .nil, nofun, nofun⟩

/-- A read request is sent as its bytes. -/
theorem ReadCommand.execute_wire {heap : Heap} {uid : ThreadSafeUID} {offset : UInt64}
    {size : UInt32} {sent : Sent} (h : ReadCommand.execute heap uid offset size = some sent)
    (hfit : (Request.read offset size).FitsStripe) :
    ∃ q, posted (.readAIFunc uid) (.read offset size) = some [q] ∧ q.request.Bounded ∧
      (UDPSocket.send sent.2).map (sent.1, ·) = [q.wire] := by
  obtain ⟨⟨og, bk⟩, hplace, heq⟩ := Option.bind_eq_some_iff.1 h
  cases heq
  refine ⟨⟨og.1, .read og.2 size uid⟩, ?_, ?_, ?_⟩
  · simp only [posted, hplace]
    rfl
  · exact (Nat.le_add_left _ _).trans hfit.le
  · have hbytes := (MinionProxy.readRequest_carries (heap 0) uid og.2 size).2
    rw [UDPSocket.send, hbytes, if_pos (by simp)]
    rfl

/-- The two write requests are sent as their bytes, or not at all. -/
theorem WriteCommand.execute_wire {heap : Heap} {ogUid backupUid : ThreadSafeUID} {offset : UInt64}
    {size : UInt32} {data : List UInt8} {og backup : Sent} (hdata : data.length = size.toNat)
    (h : WriteCommand.execute heap ogUid backupUid offset size (some data) = some (og, backup))
    (hfit : (Request.write offset data).FitsStripe) :
    ∃ q q', posted (.writeAIFunc ogUid backupUid) (.write offset data) = some [q, q'] ∧
      q.request.Bounded ∧ q'.request.Bounded ∧
      ((UDPSocket.send og.2).map (og.1, ·) ++ (UDPSocket.send backup.2).map (backup.1, ·) =
          [q.wire, q'.wire] ∨
        (UDPSocket.send og.2).map (og.1, ·) ++ (UDPSocket.send backup.2).map (backup.1, ·) = []) := by
  obtain ⟨⟨place, place'⟩, hplace, heq⟩ := Option.bind_eq_some_iff.1 h
  cases heq
  have hle : data.length ≤ memory := (Nat.le_add_left _ _).trans hfit.le
  have hsize : UInt32.ofNat data.length = size := by
    rw [hdata]
    exact UInt32.ofNat_toNat
  subst hsize
  refine ⟨⟨place.1, .write place.2 _ data ogUid hdata⟩, ⟨place'.1, .write place'.2 _ data backupUid hdata⟩,
    ?_, hle, hle, ?_⟩
  · simp only [posted, dif_pos hdata, hplace]
    rfl
  · have hpayload : Payload data (UInt32.ofNat data.length) := .of_le hle
    have hbytes := (MinionProxy.writeRequest_carries (heap 0) ogUid place.2 _ hpayload).2
    have hbytes' := (MinionProxy.writeRequest_carries (heap 1) backupUid place'.2 _ hpayload).2
    simp only [UDPSocket.send, hbytes, hbytes', WriteMsg.length_format]
    by_cases hlen : 41 + data.length ≤ 65507
    · left
      simp only [if_pos hlen]
      rfl
    · right
      simp only [if_neg hlen]
      rfl

namespace OnWire

variable {w : WireCluster} {s : StorageCluster}

/-- A request datagram that is taken out of flight, on both sides. -/
theorem eraseRequest (h : OnWire w s) {q : Posted} (hq : q ∈ s.requests) :
    OnWire { w with requests := w.requests.erase q.wire } { s with requests := s.requests.erase q } where
  master := h.master
  minions := h.minions
  requests := h.requests.erase hq
  responses := h.responses
  bounded q' hq' := h.bounded q' (List.mem_of_mem_erase hq')
  answers := h.answers

theorem eraseResponse (h : OnWire w s) {r : Response} (hr : r ∈ s.responses) :
    OnWire { w with responses := w.responses.erase r.wire }
      { s with responses := s.responses.erase r } where
  master := h.master
  minions := h.minions
  requests := h.requests
  responses := h.responses.erase hr
  bounded := h.bounded
  answers r' hr' := h.answers r' (List.mem_of_mem_erase hr')

theorem appendRequests (h : OnWire w s) (qs : List Posted) (hqs : ∀ q ∈ qs, q.request.Bounded) :
    OnWire { w with requests := w.requests ++ qs.map Posted.wire }
      { s with requests := s.requests ++ qs } where
  master := h.master
  minions := h.minions
  requests := h.requests.append (.of_map rfl)
  responses := h.responses
  bounded q hq := (List.mem_append.1 hq).elim (h.bounded q) (hqs q)
  answers := h.answers

theorem appendResponse (h : OnWire w s) {r : Response} (hr : r.isSuccess = true)
    (hlen : r.data.length ≤ memory) :
    OnWire { w with responses := w.responses ++ [r.wire] }
      { s with responses := s.responses ++ [r] } where
  master := h.master
  minions := h.minions
  requests := h.requests
  responses := h.responses.append (.of_map rfl)
  bounded := h.bounded
  answers r' hr' := by
    rcases List.mem_append.1 hr' with hr' | hr'
    · exact h.answers r' hr'
    · rw [List.mem_singleton.1 hr']
      exact ⟨hr, hlen⟩

/-- The master goes on alike on both sides. -/
theorem updateMaster (h : OnWire w s) (master : Master) :
    OnWire { w with master } { s with master } :=
  ⟨rfl, h.minions, h.requests, h.responses, h.bounded, h.answers⟩

/-- The files are stored alike on both sides. -/
theorem updateMinions (h : OnWire w s) (minions : Minions) :
    OnWire { w with minions } { s with minions } :=
  ⟨h.master, rfl, h.requests, h.responses, h.bounded, h.answers⟩

end OnWire

namespace StorageCluster

variable {s : StorageCluster}

/-- A command that is issued. -/
theorem run_execRead {stamp : Stamp} {offset : UInt64} {size : UInt32} {uid : ThreadSafeUID}
    {master : Master} {qs : List Posted} (hexec : s.master.execRead stamp = some (uid, master))
    (hqs : posted (.readAIFunc uid) (.read offset size) = some qs) :
    Transition.run (logged step) (s, []) [.execRead stamp offset size] =
      some ({ s with master, requests := s.requests ++ qs },
        [.issued (.readAIFunc uid) (.read offset size)]) := by
  refine Simulation.run_step ?_
  simp only [step, hexec, Option.bind_eq_bind, Option.bind_some, hqs, Option.pure_def]

theorem run_execWrite {ogStamp backupStamp : Stamp} {gap : List Stamp} {offset : UInt64}
    {data : List UInt8} {uids : ThreadSafeUID × ThreadSafeUID} {master : Master} {qs : List Posted}
    (hexec : s.master.execWrite ogStamp gap backupStamp = some (uids, master))
    (hqs : posted (.writeAIFunc uids.1 uids.2) (.write offset data) = some qs) :
    Transition.run (logged step) (s, []) [.execWrite ogStamp gap backupStamp offset data] =
      some ({ s with master, requests := s.requests ++ qs },
        [.issued (.writeAIFunc uids.1 uids.2) (.write offset data)]) := by
  refine Simulation.run_step ?_
  simp only [step, hexec, Option.bind_eq_bind, Option.bind_some, hqs, Option.pure_def]

/-- A datagram that is lost or duplicated. -/
theorem run_loseRequest {q : Posted} (hq : q ∈ s.requests) :
    Transition.run (logged step) (s, []) [.loseRequest q] =
      some ({ s with requests := s.requests.erase q }, []) :=
  Simulation.run_step (if_pos hq)

theorem run_duplicateRequest {q : Posted} (hq : q ∈ s.requests) :
    Transition.run (logged step) (s, []) [.duplicateRequest q] =
      some ({ s with requests := s.requests ++ [q] }, []) :=
  Simulation.run_step (if_pos hq)

theorem run_loseResponse {r : Response} (hr : r ∈ s.responses) :
    Transition.run (logged step) (s, []) [.loseResponse r] =
      some ({ s with responses := s.responses.erase r }, []) :=
  Simulation.run_step (if_pos hr)

theorem run_duplicateResponse {r : Response} (hr : r ∈ s.responses) :
    Transition.run (logged step) (s, []) [.duplicateResponse r] =
      some ({ s with responses := s.responses ++ [r] }, []) :=
  Simulation.run_step (if_pos hr)

end StorageCluster

namespace WireCluster

variable {w w' : WireCluster} {s : StorageCluster} {out : List WireEvent}

/-- The step on the wire is matched by a run on arguments, and did not throw. -/
def Matched (s : StorageCluster) (w' : WireCluster) (out : List WireEvent) : Prop :=
  (∃ bs s', Transition.run (logged StorageCluster.step) (s, []) bs =
      some (s', out.flatMap WireEvent.observe) ∧ OnWire w' s') ∧ ∀ fault, .failed fault ∉ out

/-- A read command sends its request. -/
theorem matched_execRead (h : OnWire w s) {heap : Heap} {stamp : Stamp} {offset : UInt64}
    {size : UInt32} (hfit : ∀ e ∈ out, e.Fits)
    (hstep : w.step (.execRead heap stamp offset size) = some (w', out)) : Matched s w' out := by
  obtain ⟨⟨uid, master⟩, hexec, hstep⟩ := Option.bind_eq_some_iff.1 hstep
  obtain ⟨⟨i, t⟩, hsent, heq⟩ := Option.bind_eq_some_iff.1 hstep
  cases heq
  have hfit : (Request.read offset size).FitsStripe := hfit _ (List.mem_singleton_self _)
  obtain ⟨q, hposted, hbounded, hwire⟩ := ReadCommand.execute_wire hsent hfit
  dsimp only at hwire
  rw [h.master] at hexec
  refine ⟨⟨_, _, StorageCluster.run_execRead hexec hposted, ?_⟩, by simp⟩
  rw [hwire]
  exact (h.updateMaster master).appendRequests [q] (by simpa using hbounded)

/-- A write command sends its two requests, or they are too long and lost. -/
theorem matched_execWrite (h : OnWire w s) {heap : Heap} {ogStamp backupStamp : Stamp}
    {gap : List Stamp} {offset : UInt64} {size : UInt32} {data : List UInt8}
    {hdata : data.length = size.toNat} (hfit : ∀ e ∈ out, e.Fits)
    (hstep : w.step (.execWrite heap ogStamp gap backupStamp offset size data hdata) =
      some (w', out)) : Matched s w' out := by
  obtain ⟨⟨uids, master⟩, hexec, hstep⟩ := Option.bind_eq_some_iff.1 hstep
  obtain ⟨⟨⟨i, og⟩, ⟨j, backup⟩⟩, hsent, heq⟩ := Option.bind_eq_some_iff.1 hstep
  cases heq
  have hfit : (Request.write offset data).FitsStripe := hfit _ (List.mem_singleton_self _)
  obtain ⟨q, q', hposted, hq, hq', hwire⟩ := WriteCommand.execute_wire hdata hsent hfit
  dsimp only at hwire
  rw [h.master] at hexec
  have hissue := StorageCluster.run_execWrite hexec hposted
  refine ⟨?_, by simp⟩
  rcases hwire with hwire | hwire
  · refine ⟨_, _, hissue, ?_⟩
    rw [hwire]
    exact (h.updateMaster master).appendRequests [q, q'] (by simp [hq, hq'])
  · -- nothing went out, as if both datagrams had been lost at once
    have hmem : q ∈ s.requests ++ [q, q'] := by simp
    have hmem' : q' ∈ (s.requests ++ [q, q']).erase q := by
      have hperm : (s.requests ++ [q, q']).Perm (q :: (s.requests ++ [q'])) := List.perm_middle
      have herase := hperm.erase q
      rw [List.erase_cons_head] at herase
      exact herase.symm.subset (by simp)
    have hlose := Simulation.run_trans hissue (StorageCluster.run_loseRequest hmem)
    have hlose' := Simulation.run_trans hlose (StorageCluster.run_loseRequest hmem')
    refine ⟨_, _, hlose', ?_⟩
    have hboth : OnWire { w with master, requests := w.requests ++ [q.wire, q'.wire] }
        { s with master, requests := s.requests ++ [q, q'] } :=
      (h.updateMaster master).appendRequests [q, q'] (by simp [hq, hq'])
    have hnone := (hboth.eraseRequest hmem).eraseRequest hmem'
    refine ⟨hnone.master, hnone.minions, ?_, hnone.responses, hnone.bounded, hnone.answers⟩
    have hperm : ((w.requests ++ [q.wire, q'.wire]).erase q.wire).erase q'.wire |>.Perm
        w.requests := by
      have hfirst : (w.requests ++ [q.wire, q'.wire]).Perm (q.wire :: q'.wire :: w.requests) :=
        List.perm_append_comm
      have herase := (hfirst.erase q.wire).erase q'.wire
      rwa [List.erase_cons_head, List.erase_cons_head] at herase
    rw [hwire, List.append_nil]
    exact hperm.symm.trans hnone.requests

/-- A minion serves a request, and its response goes out, or is too long and lost. -/
theorem matched_serve (h : OnWire w s) {heap : Heap} {fresh : ThreadSafeUID} {i : ℕ} {d : Datagram}
    (hstep : w.step (.serve heap fresh i d) = some (w', out)) : Matched s w' out := by
  simp only [step, Option.ite_none_right_eq_some] at hstep
  obtain ⟨hd, hstep⟩ := hstep
  obtain ⟨q, hq, heq⟩ := h.requests.exists_of_mem hd
  cases heq
  have hbounded := h.bounded q hq
  have hdecode := MasterProxy.getArgsKey_wire hbounded heap fresh []
  obtain ⟨hbytes, hsuccess, hlen⟩ := StoreRequest.bytes_execute hbounded heap (w.minions q.minion)
  simp only [hdecode, StoreRequest.run_args, List.map_nil, List.append_nil, Option.some.injEq,
    Prod.mk.injEq] at hstep
  obtain ⟨rfl, rfl⟩ := hstep
  have hobserve : [WireEvent.executed q.minion q.request.args].flatMap WireEvent.observe =
      [.served q] := by
    simp [WireEvent.observe, StoreRequest.ofArgs_args]
  refine ⟨?_, by simp⟩
  rw [hobserve]
  have hserve : Transition.run (logged StorageCluster.step) (s, []) [.serve heap q] = some
      ({ s with
        minions := (s.minions.serve heap q).1
        requests := s.requests.erase q
        responses := s.responses ++ [(s.minions.serve heap q).2.response q.request] },
      [.served q]) :=
    Simulation.run_step (if_pos hq)
  obtain ⟨master, minions, requests, responses⟩ := w
  obtain rfl : minions = s.minions := h.minions
  have hserved := ((h.eraseRequest hq).updateMinions (s.minions.serve heap q).1).appendResponse
    hsuccess hlen
  unfold UDPSocket.send
  by_cases hfits : (q.request.execute heap (s.minions q.minion)).2.bytes.length ≤ 65507
  · rw [if_pos hfits, hbytes]
    exact ⟨_, _, hserve, hserved⟩
  · rw [if_neg hfits, List.append_nil]
    have hmem : (s.minions.serve heap q).2.response q.request ∈
        s.responses ++ [(s.minions.serve heap q).2.response q.request] := by simp
    refine ⟨_, _, Simulation.run_trans hserve (StorageCluster.run_loseResponse hmem), ?_⟩
    have hlost := hserved.eraseResponse hmem
    refine ⟨hlost.master, hlost.minions, hlost.requests, ?_, hlost.bounded, hlost.answers⟩
    have hperm := (List.perm_append_singleton
      ((s.minions.serve heap q).2.response q.request).wire responses).erase
        ((s.minions.serve heap q).2.response q.request).wire
    rw [List.erase_cons_head] at hperm
    exact hperm.symm.trans hlost.responses

/-- The master handles a response. -/
theorem matched_receive (h : OnWire w s) {heap : Heap} {stamp : Stamp} {d : Datagram}
    (hstep : w.step (.receive heap stamp d) = some (w', out)) : Matched s w' out := by
  simp only [step, Option.ite_none_right_eq_some, Option.map_eq_some_iff] at hstep
  obtain ⟨hd, ⟨fresh, master⟩, hnew, heq⟩ := hstep
  obtain ⟨r, hr, rfl⟩ := h.responses.exists_of_mem hd
  obtain ⟨hsuccess, hlen⟩ := h.answers r hr
  rw [ResponseProxy.getArgsKey_wire hlen heap fresh []] at heq
  simp only [List.append_nil, Prod.mk.injEq] at heq
  obtain ⟨rfl, rfl⟩ := heq
  have hobserve : [WireEvent.handled r.effects].flatMap WireEvent.observe = [.received r] := by
    simp [WireEvent.observe, Response.ofEffects_effects hsuccess]
  refine ⟨⟨[.receive stamp r], _, ?_, (h.eraseResponse hr).updateMaster _⟩, by simp⟩
  rw [hobserve]
  refine Simulation.run_step ?_
  rw [StorageCluster.step, if_pos hr, Master.receive, ← h.master, hnew]
  rfl

/-- Every step on the wire is matched. -/
theorem step_onWire (h : OnWire w s) {a : Action} (hfit : ∀ e ∈ out, e.Fits)
    (hstep : w.step a = some (w', out)) : Matched s w' out := by
  cases a with
  | execRead heap stamp offset size => exact matched_execRead h hfit hstep
  | execWrite heap ogStamp gap backupStamp offset size data hdata => exact matched_execWrite h hfit hstep
  | newUID stamp =>
      obtain ⟨⟨uid, master⟩, hnew, heq⟩ := Option.map_eq_some_iff.1 hstep
      cases heq
      refine ⟨⟨[.newUID stamp], _, Simulation.run_step ?_, h.updateMaster master⟩, nofun⟩
      rw [StorageCluster.step, ← h.master, hnew]
      rfl
  | poll p =>
      obtain ⟨⟨master, e⟩, hpoll, heq⟩ := Option.bind_eq_some_iff.1 hstep
      obtain ⟨reply, ret, rfl, -⟩ := Master.poll_cases hpoll
      cases heq
      refine ⟨⟨[.poll p], _, Simulation.run_step ?_, h.updateMaster master⟩, by simp⟩
      rw [StorageCluster.step, ← h.master, hpoll]
      rfl
  | receive heap stamp d => exact matched_receive h hstep
  | serve heap fresh i d => exact matched_serve h hstep
  | loseRequest i d =>
      simp only [step, Option.ite_none_right_eq_some] at hstep
      obtain ⟨hd, heq⟩ := hstep
      obtain ⟨q, hq, hwire⟩ := h.requests.exists_of_mem hd
      cases hwire
      cases heq
      exact ⟨⟨_, _, StorageCluster.run_loseRequest hq, h.eraseRequest hq⟩, nofun⟩
  | duplicateRequest i d =>
      simp only [step, Option.ite_none_right_eq_some] at hstep
      obtain ⟨hd, heq⟩ := hstep
      obtain ⟨q, hq, hwire⟩ := h.requests.exists_of_mem hd
      cases hwire
      cases heq
      refine ⟨⟨_, _, StorageCluster.run_duplicateRequest hq, ?_⟩, nofun⟩
      exact h.appendRequests [q] (by simpa using h.bounded q hq)
  | loseResponse d =>
      simp only [step, Option.ite_none_right_eq_some] at hstep
      obtain ⟨hd, heq⟩ := hstep
      obtain ⟨r, hr, rfl⟩ := h.responses.exists_of_mem hd
      cases heq
      exact ⟨⟨_, _, StorageCluster.run_loseResponse hr, h.eraseResponse hr⟩, nofun⟩
  | duplicateResponse d =>
      simp only [step, Option.ite_none_right_eq_some] at hstep
      obtain ⟨hd, heq⟩ := hstep
      obtain ⟨r, hr, rfl⟩ := h.responses.exists_of_mem hd
      cases heq
      refine ⟨⟨_, _, StorageCluster.run_duplicateResponse hr, ?_⟩, nofun⟩
      exact h.appendResponse (h.answers r hr).1 (h.answers r hr).2

theorem forward_onWire :
    Simulation.Forward step WireEvent.Fits StorageCluster.step OnWire WireEvent.observe :=
  fun _ _ _ _ _ h hfit hstep => (step_onWire h hfit hstep).1

end WireCluster

/-- **The refinement.** Every run on the wire of commands inside of the stripes is a run on
arguments: the same master, the same files, in flight the bytes of the same requests and responses,
and the history that the bytes mean.  No process throws in it. -/
theorem wire_refines_storage (minions : Minions) (actions : List WireCluster.Action)
    {w : WireCluster} {history : List WireEvent}
    (hrun : Transition.run (logged WireCluster.step) (.start minions, []) actions = some (w, history))
    (hfit : ∀ e ∈ history, e.Fits) :
    (∃ actions' s, Transition.run (logged StorageCluster.step) (.start minions, []) actions' =
      some (s, history.flatMap WireEvent.observe) ∧ OnWire w s) ∧
    ∀ fault, .failed fault ∉ history := by
  refine ⟨WireCluster.forward_onWire.run (onWire_start minions) hfit hrun, ?_⟩
  have hstep : ∀ (w : WireCluster) a w' out h,
      ((∀ e ∈ h, e.Fits) → (∃ s, OnWire w s) ∧ ∀ fault, .failed fault ∉ h) →
      w.step a = some (w', out) → (∀ e ∈ out ++ h, e.Fits) →
      (∃ s, OnWire w' s) ∧ ∀ fault, .failed fault ∉ out ++ h := by
    intro w a w' out h hI hstep hfit
    obtain ⟨⟨s, hs⟩, hnone⟩ := hI fun e he => hfit e (List.mem_append_right _ he)
    obtain ⟨⟨bs, s', -, hs'⟩, hout⟩ :=
      WireCluster.step_onWire hs (fun e he => hfit e (List.mem_append_left _ he)) hstep
    refine ⟨⟨s', hs'⟩, fun fault hin => ?_⟩
    rcases List.mem_append.1 hin with hin | hin
    · exact hout fault hin
    · exact hnone fault hin
  exact (invariant hstep (fun _ => ⟨⟨_, onWire_start minions⟩, fun _ => List.not_mem_nil⟩) hrun hfit).2

/-- The request that writes a seven, as it is in flight. -/
def sevenOnWire (offset : UInt64) (uid : ThreadSafeUID) : Datagram :=
  (StoreRequest.write offset 1 [7] uid length_seven).format

/-- A byte is written, and a copy of its first datagram lost. -/
def wireRun : List WireCluster.Action :=
  [.execWrite (fun _ _ => 0) ⟨0, 0⟩ [] ⟨0, 0⟩ 0 1 [7] length_seven,
    .serve (fun _ _ => 0) ⟨0, 0, 0, 0⟩ 1 (sevenOnWire 4194304 (nthUid 2)),
    .duplicateRequest 0 (sevenOnWire 0 (nthUid 1)), .loseRequest 0 (sevenOnWire 0 (nthUid 1)),
    .receive (fun _ _ => 0) ⟨0, 0⟩ (Response.write (nthUid 2) true).wire,
    .serve (fun _ _ => 0) ⟨0, 0, 0, 0⟩ 0 (sevenOnWire 0 (nthUid 1)),
    .receive (fun _ _ => 0) ⟨0, 0⟩ (Response.write (nthUid 1) true).wire,
    .poll (.writeAIFunc (nthUid 1) (nthUid 2))]

/-- Its events, the latest first. -/
def wireHistory : List WireEvent :=
  [.evaluated (.writeAIFunc (nthUid 1) (nthUid 2)) (some .success) true,
    .handled [.registerResponse (nthUid 1)],
    .executed 0 (.minionWriteArgsKey minionWriteCmdKey 0 1 (some [7]) (nthUid 1)),
    .handled [.registerResponse (nthUid 2)],
    .executed 1 (.minionWriteArgsKey minionWriteCmdKey 4194304 1 (some [7]) (nthUid 2)),
    .issued (.writeAIFunc (nthUid 1) (nthUid 2)) (.write 0 [7])]

theorem run_wireRun :
    ∃ w, Transition.run (logged WireCluster.step) (.start .opened, [])
      wireRun = some (w, wireHistory) ∧ w.master.constructed < 2 ^ 32 :=
  ⟨_, rfl, by decide⟩

theorem wire_refines_storage_wireRun :
    ∃ actions' s, Transition.run (logged StorageCluster.step)
      (.start .opened, []) actions' =
        some (s, wireHistory.flatMap WireEvent.observe) := by
  obtain ⟨w, hrun, -⟩ := run_wireRun
  obtain ⟨⟨actions', s, hrun', -⟩, -⟩ := wire_refines_storage _ wireRun hrun (by decide)
  exact ⟨actions', s, hrun'⟩

/-! ### What was acknowledged -/

/-- An event on the wire that stays inside of a stripe means events that do. -/
theorem WireEvent.Fits.observe {e : WireEvent} (h : e.Fits) : ∀ e' ∈ e.observe, e'.Fits := by
  intro e' he'
  cases e with
  | issued p r =>
      rw [List.mem_singleton.1 he']
      exact h
  | executed i args =>
      obtain ⟨r, -, rfl⟩ := Option.map_eq_some_iff.1 (Option.mem_toList.1 he')
      trivial
  | handled effects =>
      obtain ⟨r, -, rfl⟩ := Option.map_eq_some_iff.1 (Option.mem_toList.1 he')
      trivial
  | evaluated p reply ret =>
      rw [List.mem_singleton.1 he']
      trivial
  | failed fault => cases he'

/-- **Durability, on the wire.** In every run on bytes, once a write was acknowledged both copies
hold each of its bytes, unless another write of the byte was executed at the copy after it. -/
theorem wire_acknowledged_write_stored {minions : Minions} {actions : List WireCluster.Action}
    {w : WireCluster} {history : List WireEvent} (hready : minions.Ready)
    (hrun : Transition.run (logged WireCluster.step) (.start minions, []) actions = some (w, history))
    (hfit : ∀ e ∈ history, e.Fits) (hbound : w.master.constructed < 2 ^ 32)
    {ogUid backupUid : ThreadSafeUID} {offset : UInt64} {data : List UInt8} {ret : Bool}
    (hissued : .issued (.writeAIFunc ogUid backupUid) (.write offset data) ∈ history)
    (hack : .evaluated (.writeAIFunc ogUid backupUid) (some .success) ret ∈ history) (c : Bool)
    {k : ℕ} (hk : k < data.length) :
    w.minions.bytes (place c (offset.toNat + k)) = data[k] ∨
      Overwritten (history.flatMap WireEvent.observe) (.writeAIFunc ogUid backupUid) c
        (offset.toNat + k) := by
  obtain ⟨actions', s, hrun', hs⟩ := WireCluster.forward_onWire.run (onWire_start minions) hfit hrun
  have hfit' : ∀ e ∈ history.flatMap WireEvent.observe, e.Fits := by
    intro e he
    obtain ⟨e', he', hin⟩ := List.mem_flatMap.1 he
    exact (hfit e' he').observe e hin
  have h := traced_run hready hrun' hfit' (hs.master ▸ hbound)
  have hissued' : .issued (.writeAIFunc ogUid backupUid) (.write offset data) ∈
      history.flatMap WireEvent.observe :=
    List.mem_flatMap.2 ⟨_, hissued, List.mem_singleton_self _⟩
  have hack' : .evaluated (.writeAIFunc ogUid backupUid) (some .success) ret ∈
      history.flatMap WireEvent.observe :=
    List.mem_flatMap.2 ⟨_, hack, List.mem_singleton_self _⟩
  rw [hs.minions]
  exact h.acknowledged_stored hissued' hack' c hk

theorem wire_acknowledged_write_stored_wireRun :
    ∃ w : WireCluster, w.minions.bytes (place true 0) = 7 ∨
      Overwritten (wireHistory.flatMap WireEvent.observe) (.writeAIFunc (nthUid 1) (nthUid 2)) true
        0 := by
  obtain ⟨w, hrun, hbound⟩ := run_wireRun
  have hissued : .issued (.writeAIFunc (nthUid 1) (nthUid 2)) (.write 0 [7]) ∈ wireHistory := by
    simp [wireHistory]
  have hack : .evaluated (.writeAIFunc (nthUid 1) (nthUid 2)) (some .success) true ∈ wireHistory := by
    simp [wireHistory]
  exact ⟨w, wire_acknowledged_write_stored (fun _ => Minion.ready_opened) hrun (by decide) hbound
    hissued hack true (k := 0) (by decide)⟩

end IotDrive
