/-
The master, the minions' answers, and the datagrams in flight between them.

Datagrams may be lost, duplicated, delayed and reordered in both directions.  A minion answers a
request that reached it, with a success or not, and echoes its UID in the matching kind of
response.

Main definitions:

* `MinionRequest`, `MinionRequest.answer` — a request to a minion, and its answer;
* `Cluster.step` — the transitions of the master and of the network;
* `Cluster.flight` — the datagrams in flight, as the questions they ask or answer.

Main results:

* `Cluster.step_cases` — all that a step can do;
* `Minion.Sound.answers_read`, `Minion.Sound.answers_write` — the minions of the code answer in
  this way.
-/

import IotDrive.Master
import IotDrive.Minion

set_option relaxedAutoImplicit false
set_option autoImplicit false

namespace IotDrive

/-- A request that a minion can answer: what of a `ReadMsg` or a `WriteMsg` comes back. -/
inductive MinionRequest
  | read (uid : ThreadSafeUID) (size : UInt32)
  | write (uid : ThreadSafeUID)
  deriving DecidableEq

def MinionRequest.uid : MinionRequest → ThreadSafeUID
  | .read uid _ => uid
  | .write uid => uid

/-- The answer to a request: for a read, as many bytes as were asked for. -/
def MinionRequest.answer (isSuccess : Bool) (data : List UInt8) : MinionRequest → Option Response
  | .read uid size => if data.length = size.toNat then some (.read uid isSuccess data) else none
  | .write uid => some (.write uid isSuccess)

theorem MinionRequest.uid_of_answer {q : MinionRequest} {isSuccess : Bool} {data : List UInt8}
    {r : Response} (h : q.answer isSuccess data = some r) : r.uid = q.uid := by
  cases q with
  | read uid size =>
      simp only [MinionRequest.answer] at h
      split at h
      · cases h
        rfl
      · cases h
  | write uid =>
      cases h
      rfl

/-! ### The minions of the code -/

section Minions

variable {m : Minion} (h : m.Sound) (heap : Heap) (fresh : ThreadSafeUID) (hp : ℕ → UInt8)
  {offset : UInt64} (uid : ThreadSafeUID) {size : UInt32}

include h

/-- A minion that is reached by a read request sends an answer to it. -/
theorem Minion.Sound.answers_read (ho : offset.toNat ≤ fileSize + memory) :
    ∃ m' data r, (MinionRequest.read uid size).answer true data = some r ∧
      m.serve heap fresh (MinionProxy.readRequest hp offset size uid).bytes =
        some (m', r.transmission (heap 3)) := by
  obtain ⟨m', data, hexec, hlen, -⟩ := h.read heap ho size uid
  have hofNat : UInt32.ofNat data.length = size := by
    rw [hlen]
    exact UInt32.ofNat_toNat
  refine ⟨m', data, .read uid true data, if_pos hlen, ?_⟩
  rw [Minion.serve_readRequest, hexec, Response.transmission, hofNat]

/-- A minion that is reached by a write request sends an answer to it. -/
theorem Minion.Sound.answers_write (hend : offset.toNat + size.toNat ≤ fileSize + memory)
    {data : List UInt8} (hdata : Payload data size) :
    ∃ m' r, (MinionRequest.write uid).answer true [] = some r ∧
      m.serve heap fresh (MinionProxy.writeRequest hp offset size (some data) uid).bytes =
        some (m', r.transmission (heap 3)) := by
  obtain ⟨m', hexec, -⟩ := h.write heap hend hdata.length uid
  refine ⟨m', .write uid true, rfl, ?_⟩
  rw [Minion.serve_writeRequest _ _ _ _ _ hdata, hexec, Response.transmission]

end Minions

/-! ### The cluster -/

/-- The master, and the datagrams in flight to and from the minions. -/
structure Cluster where
  master : Master
  requests : List MinionRequest
  responses : List Response

namespace Cluster

def start : Cluster := { master := .start, requests := [], responses := [] }

/-- What happens in the cluster. -/
inductive Action
  | execRead (stamp : Stamp) (size : UInt32)
  | execWrite (ogStamp : Stamp) (gap : List Stamp) (backupStamp : Stamp)
  | newUID (stamp : Stamp)
  | poll (p : Poller)
  | receive (stamp : Stamp) (r : Response)
  | answer (q : MinionRequest) (isSuccess : Bool) (data : List UInt8)
  | loseRequest (q : MinionRequest)
  | duplicateRequest (q : MinionRequest)
  | loseResponse (r : Response)
  | duplicateResponse (r : Response)
  deriving DecidableEq

/-- The transitions of the cluster. -/
def step (s : Cluster) : Action → Option (Cluster × List Event)
  | .execRead stamp size =>
      (s.master.execRead stamp).map fun (uid, master) =>
        ({ s with master, requests := s.requests ++ [.read uid size] },
          [.issued (.readAIFunc uid)])
  | .execWrite ogStamp gap backupStamp =>
      (s.master.execWrite ogStamp gap backupStamp).map fun (uids, master) =>
        ({ s with master, requests := s.requests ++ [.write uids.1, .write uids.2] },
          [.issued (.writeAIFunc uids.1 uids.2)])
  | .newUID stamp => (s.master.newUID stamp).map fun (_, master) => ({ s with master }, [])
  | .poll p => (s.master.poll p).map fun (master, e) => ({ s with master }, [e])
  | .receive stamp r =>
      if r ∈ s.responses then
        (s.master.receive stamp r).map fun master =>
          ({ s with master, responses := s.responses.erase r }, [.received r])
      else none
  | .answer q isSuccess data =>
      if q ∈ s.requests then
        (q.answer isSuccess data).map fun r =>
          ({ s with requests := s.requests.erase q, responses := s.responses ++ [r] }, [])
      else none
  | .loseRequest q =>
      if q ∈ s.requests then some ({ s with requests := s.requests.erase q }, []) else none
  | .duplicateRequest q =>
      if q ∈ s.requests then some ({ s with requests := s.requests ++ [q] }, []) else none
  | .loseResponse r =>
      if r ∈ s.responses then some ({ s with responses := s.responses.erase r }, []) else none
  | .duplicateResponse r =>
      if r ∈ s.responses then some ({ s with responses := s.responses ++ [r] }, []) else none

/-- The transitions as a relation, with what each of them needs. -/
inductive Steps (s : Cluster) : Action → Cluster → List Event → Prop
  | execRead {stamp : Stamp} {size : UInt32} {uid : ThreadSafeUID} {master : Master}
      (h : s.master.execRead stamp = some (uid, master)) :
      Steps s (.execRead stamp size)
        { s with master, requests := s.requests ++ [.read uid size] }
        [.issued (.readAIFunc uid)]
  | execWrite {ogStamp backupStamp : Stamp} {gap : List Stamp}
      {uids : ThreadSafeUID × ThreadSafeUID} {master : Master}
      (h : s.master.execWrite ogStamp gap backupStamp = some (uids, master)) :
      Steps s (.execWrite ogStamp gap backupStamp)
        { s with master, requests := s.requests ++ [.write uids.1, .write uids.2] }
        [.issued (.writeAIFunc uids.1 uids.2)]
  | newUID {stamp : Stamp} {uid : ThreadSafeUID} {master : Master}
      (h : s.master.newUID stamp = some (uid, master)) : Steps s (.newUID stamp) { s with master } []
  | poll {p : Poller} {master : Master} {e : Event} (h : s.master.poll p = some (master, e)) :
      Steps s (.poll p) { s with master } [e]
  | receive {stamp : Stamp} {r : Response} {master : Master} (hr : r ∈ s.responses)
      (h : s.master.receive stamp r = some master) :
      Steps s (.receive stamp r) { s with master, responses := s.responses.erase r } [.received r]
  | answer {q : MinionRequest} {isSuccess : Bool} {data : List UInt8} {r : Response}
      (hq : q ∈ s.requests) (h : q.answer isSuccess data = some r) :
      Steps s (.answer q isSuccess data)
        { s with requests := s.requests.erase q, responses := s.responses ++ [r] } []
  | loseRequest {q : MinionRequest} (hq : q ∈ s.requests) :
      Steps s (.loseRequest q) { s with requests := s.requests.erase q } []
  | duplicateRequest {q : MinionRequest} (hq : q ∈ s.requests) :
      Steps s (.duplicateRequest q) { s with requests := s.requests ++ [q] } []
  | loseResponse {r : Response} (hr : r ∈ s.responses) :
      Steps s (.loseResponse r) { s with responses := s.responses.erase r } []
  | duplicateResponse {r : Response} (hr : r ∈ s.responses) :
      Steps s (.duplicateResponse r) { s with responses := s.responses ++ [r] } []

/-- A step is one of these. -/
theorem step_cases {s t : Cluster} {a : Action} {out : List Event}
    (h : s.step a = some (t, out)) : Steps s a t out := by
  cases a with
  | execRead stamp size =>
      obtain ⟨⟨uid, master⟩, hexec, heq⟩ := Option.map_eq_some_iff.1 h
      cases heq
      exact .execRead hexec
  | execWrite ogStamp gap backupStamp =>
      obtain ⟨⟨uids, master⟩, hexec, heq⟩ := Option.map_eq_some_iff.1 h
      cases heq
      exact .execWrite hexec
  | newUID stamp =>
      obtain ⟨⟨uid, master⟩, hnew, heq⟩ := Option.map_eq_some_iff.1 h
      cases heq
      exact .newUID hnew
  | poll p =>
      obtain ⟨⟨master, e⟩, hpoll, heq⟩ := Option.map_eq_some_iff.1 h
      cases heq
      exact .poll hpoll
  | receive stamp r =>
      simp only [step, Option.ite_none_right_eq_some, Option.map_eq_some_iff] at h
      obtain ⟨hr, master, hreceive, heq⟩ := h
      cases heq
      exact .receive hr hreceive
  | answer q isSuccess data =>
      simp only [step, Option.ite_none_right_eq_some, Option.map_eq_some_iff] at h
      obtain ⟨hq, r, hanswer, heq⟩ := h
      cases heq
      exact .answer hq hanswer
  | loseRequest q =>
      simp only [step, Option.ite_none_right_eq_some] at h
      obtain ⟨hq, heq⟩ := h
      cases heq
      exact .loseRequest hq
  | duplicateRequest q =>
      simp only [step, Option.ite_none_right_eq_some] at h
      obtain ⟨hq, heq⟩ := h
      cases heq
      exact .duplicateRequest hq
  | loseResponse r =>
      simp only [step, Option.ite_none_right_eq_some] at h
      obtain ⟨hr, heq⟩ := h
      cases heq
      exact .loseResponse hr
  | duplicateResponse r =>
      simp only [step, Option.ite_none_right_eq_some] at h
      obtain ⟨hr, heq⟩ := h
      cases heq
      exact .duplicateResponse hr

/-- No step takes back a UID. -/
theorem staticCounter_le_of_step {s t : Cluster} {a : Action} {out : List Event}
    (h : s.step a = some (t, out)) : s.master.staticCounter ≤ t.master.staticCounter := by
  cases step_cases h with
  | execRead hexec =>
      obtain ⟨-, rfl⟩ := Master.execRead_eq_some hexec
      exact Nat.le_succ _
  | execWrite hexec =>
      obtain ⟨-, -, rfl⟩ := Master.execWrite_eq_some hexec
      dsimp only
      omega
  | newUID hnew =>
      obtain ⟨-, rfl⟩ := Master.newUID_eq_some hnew
      exact Nat.le_succ _
  | poll hpoll =>
      obtain ⟨_, _, -, heval⟩ := Master.poll_cases hpoll
      exact heval.counter.ge
  | receive _ hreceive =>
      have hcounter := (Master.receive_eq_some hreceive).1
      dsimp only
      omega
  | answer _ _ => exact le_rfl
  | loseRequest _ => exact le_rfl
  | duplicateRequest _ => exact le_rfl
  | loseResponse _ => exact le_rfl
  | duplicateResponse _ => exact le_rfl

end Cluster

/-! ### Datagrams in flight -/

/-- What a request asks a minion, and a response answers. -/
inductive Question
  | read (uid : ThreadSafeUID)
  | write (uid : ThreadSafeUID)
  deriving DecidableEq

def MinionRequest.question : MinionRequest → Question
  | .read uid _ => .read uid
  | .write uid => .write uid

def Response.question : Response → Question
  | .read uid _ _ => .read uid
  | .write uid _ => .write uid

/-- What the command that left the poller behind asked. -/
def Poller.questions : Poller → List Question
  | .readAIFunc uid => [.read uid]
  | .writeAIFunc ogUid backupUid => [.write ogUid, .write backupUid]

theorem MinionRequest.question_of_answer {q : MinionRequest} {isSuccess : Bool} {data : List UInt8}
    {r : Response} (h : q.answer isSuccess data = some r) : r.question = q.question := by
  cases q with
  | read uid size =>
      simp only [MinionRequest.answer, Option.ite_none_right_eq_some] at h
      obtain ⟨-, heq⟩ := h
      cases heq
      rfl
  | write uid =>
      cases h
      rfl

/-- The questions in flight, asked or answered. -/
def Cluster.flight (s : Cluster) : List Question :=
  s.requests.map MinionRequest.question ++ s.responses.map Response.question

namespace Cluster

variable {s t : Cluster}

theorem flight_erase_request {q : MinionRequest} (hq : q ∈ s.requests)
    (hrequests : t.requests = s.requests.erase q) (hresponses : t.responses = s.responses) :
    s.flight.Perm (q.question :: t.flight) := by
  have hperm := (List.perm_cons_erase hq).map MinionRequest.question
  rw [flight, flight, hrequests, hresponses]
  exact hperm.append_right _

theorem flight_erase_response {r : Response} (hr : r ∈ s.responses)
    (hrequests : t.requests = s.requests) (hresponses : t.responses = s.responses.erase r) :
    s.flight.Perm (r.question :: t.flight) := by
  have hperm := (List.perm_cons_erase hr).map Response.question
  rw [flight, flight, hrequests, hresponses]
  exact (hperm.append_left _).trans List.perm_middle

/-- An answer stays in flight as the same question. -/
theorem flight_answer {q : MinionRequest} {isSuccess : Bool} {data : List UInt8} {r : Response}
    (hq : q ∈ s.requests) (h : q.answer isSuccess data = some r)
    (hrequests : t.requests = s.requests.erase q) (hresponses : t.responses = s.responses ++ [r]) :
    s.flight.Perm t.flight := by
  have hperm := (List.perm_cons_erase hq).map MinionRequest.question
  rw [flight, flight, hrequests, hresponses, List.map_append, ← List.append_assoc]
  refine (hperm.append_right _).trans ?_
  rw [List.map_cons, List.map_cons, MinionRequest.question_of_answer h]
  exact List.perm_append_singleton _ _ |>.symm

end Cluster

end IotDrive
