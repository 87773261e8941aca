/-
The block-device side over the cluster.

A call of `NBDRead` or `NBDWrite` sends its request and waits in one receive.  The master executes
the request at some point, and its replies go to the one TCP connection that all calls read from.

Main definitions:

* `Client.step` — calls, their execution by the master, the cluster, and the return of calls;
* `sinceCall` — the events since the last call;
* `calls`, `replies` — the numbers of calls and of replies in a history;
* `received` — the questions whose answers the master received.

Main results:

* `Client.step_cases` — all that a step can do.
-/

import IotDrive.Cluster
import IotDrive.RazNbd

set_option relaxedAutoImplicit false
set_option autoImplicit false

namespace IotDrive

/-- A call of `NBDRead` or `NBDWrite`, with its length. -/
inductive Call
  | read (len : UInt32)
  | write (len : UInt32)
  deriving DecidableEq

def Call.len : Call → UInt32
  | .read len => len
  | .write len => len

def Call.isWrite : Call → Bool
  | .read _ => false
  | .write _ => true

/-- The receiving half of the call. -/
def Call.receive (buf : ℕ → UInt8) (ready : ℕ) (stream : List UInt8) : Call → NBD.Returned
  | .read len => NBD.nbdReadReply buf len ready stream
  | .write len => NBD.nbdWriteReply buf len ready stream

/-- A receive leaves nothing on the stream exactly if it asks for and gets as many bytes as the
stream holds. -/
theorem TCPSocket.drop_recv_eq_nil {ready n : ℕ} {stream : List UInt8} :
    stream.drop (TCPSocket.recv ready n stream).length = [] ↔
      stream.length ≤ min ready (intArg n) := by
  rw [List.drop_eq_nil_iff, TCPSocket.recv, List.length_take]
  omega

theorem Call.stream_receive_eq_nil {c : Call} {buf : ℕ → UInt8} {ready : ℕ}
    {stream : List UInt8} :
    (c.receive buf ready stream).stream = [] ↔ stream.length ≤ min ready (intArg c.len.toNat) := by
  cases c with
  | read len => exact TCPSocket.drop_recv_eq_nil
  | write len => exact TCPSocket.drop_recv_eq_nil

/-- What can be observed on both sides of the connection. -/
inductive ClientEvent
  | called (c : Call)
  | master (e : Event)
  | returned (c : Call) (ret : ℤ)
  deriving DecidableEq

/-- The cluster, the requests that the master has not executed yet, the call that waits, and the
reply bytes that it has not received yet. -/
structure Client where
  cluster : Cluster
  sent : List Call
  waiting : Option Call
  stream : List UInt8

namespace Client

def start : Client := { cluster := .start, sent := [], waiting := none, stream := [] }

/-- The commands of the master are executed for the requests of calls only. -/
def isCommand : Cluster.Action → Bool
  | .execRead _ _ => true
  | .execWrite _ _ _ => true
  | _ => false

/-- The steps that put a datagram in flight once more. -/
def isDuplicate : Cluster.Action → Bool
  | .duplicateRequest _ => true
  | .duplicateResponse _ => true
  | _ => false

theorem flight_subperm_of_perm {s t : Cluster} {q : Question} (h : s.flight.Perm (q :: t.flight)) :
    t.flight.Subperm s.flight :=
  List.Subperm.cons_self.trans h.symm.subperm

/-- Only commands and duplication add to the questions in flight. -/
theorem flight_subperm {s t : Cluster} {a : Cluster.Action} {out : List Event}
    (h : s.Steps a t out) (ha : isCommand a = false) (hd : isDuplicate a = false) :
    t.flight.Subperm s.flight := by
  cases h with
  | execRead _ => cases ha
  | execWrite _ => cases ha
  | duplicateRequest _ => cases hd
  | duplicateResponse _ => cases hd
  | newUID _ => exact List.Subperm.refl _
  | poll _ => exact List.Subperm.refl _
  | receive hr _ => exact flight_subperm_of_perm (Cluster.flight_erase_response hr rfl rfl)
  | answer hq hanswer => exact (Cluster.flight_answer hq hanswer rfl rfl).symm.subperm
  | loseRequest hq => exact flight_subperm_of_perm (Cluster.flight_erase_request hq rfl rfl)
  | loseResponse hr => exact flight_subperm_of_perm (Cluster.flight_erase_response hr rfl rfl)

/-- Only commands put a question in flight that was not there. -/
theorem flight_subset {s t : Cluster} {a : Cluster.Action} {out : List Event}
    (h : s.Steps a t out) (ha : isCommand a = false) : t.flight ⊆ s.flight := by
  by_cases hd : isDuplicate a = false
  · exact (flight_subperm h ha hd).subset
  intro q hq
  cases h with
  | @duplicateRequest q' hq' =>
      have hin := List.mem_map_of_mem (f := MinionRequest.question) hq'
      simp only [Cluster.flight, List.map_append, List.map_cons, List.map_nil, List.mem_append,
        List.mem_singleton] at hq ⊢
      rcases hq with (hq | rfl) | hq
      · exact Or.inl hq
      · exact Or.inl hin
      · exact Or.inr hq
  | @duplicateResponse r hr =>
      have hin := List.mem_map_of_mem (f := Response.question) hr
      simp only [Cluster.flight, List.map_append, List.map_cons, List.map_nil, List.mem_append,
        List.mem_singleton] at hq ⊢
      rcases hq with hq | hq | rfl
      · exact Or.inl hq
      · exact Or.inr hq
      · exact Or.inr hin
  | _ => exact absurd rfl hd

/-- What happens on both sides of the connection. -/
inductive Action
  | call (c : Call)
  | execRead (stamp : Stamp) (len : UInt32)
  | execWrite (ogStamp : Stamp) (gap : List Stamp) (backupStamp : Stamp) (len : UInt32)
  | cluster (a : Cluster.Action)
  | recv (buf : ℕ → UInt8) (ready : ℕ)

/-- A step of the cluster, whose replies go to the stream. -/
def stepCluster (s : Client) (a : Cluster.Action) : Option (Client × List ClientEvent) :=
  (s.cluster.step a).map fun (cluster, out) =>
    ({ s with cluster, stream := s.stream ++ (out.flatMap Event.replies).flatten },
      out.map .master)

/-- The transitions.  A receive returns when it has got some bytes, or was asked for none. -/
def step (s : Client) : Action → Option (Client × List ClientEvent)
  | .call c =>
      if s.waiting = none then
        some ({ s with sent := s.sent ++ [c], waiting := some c }, [.called c])
      else none
  | .execRead stamp len =>
      if .read len ∈ s.sent then
        ({ s with sent := s.sent.erase (.read len) } : Client).stepCluster (.execRead stamp len)
      else none
  | .execWrite ogStamp gap backupStamp len =>
      if .write len ∈ s.sent then
        ({ s with sent := s.sent.erase (.write len) } : Client).stepCluster
          (.execWrite ogStamp gap backupStamp)
      else none
  | .cluster a => if isCommand a then none else s.stepCluster a
  | .recv buf ready =>
      match s.waiting with
      | none => none
      | some c =>
          let returned := c.receive buf ready s.stream
          if returned.stream.length < s.stream.length ∨ c.len = 0 then
            some ({ s with waiting := none, stream := returned.stream },
              [.returned c returned.ret])
          else none

/-- The transitions as a relation, with what each of them needs. -/
inductive Steps (s : Client) : Action → Client → List ClientEvent → Prop
  | call {c : Call} (h : s.waiting = none) :
      Steps s (.call c) { s with sent := s.sent ++ [c], waiting := some c } [.called c]
  | execRead {stamp : Stamp} {len : UInt32} {uid : ThreadSafeUID} {master : Master}
      (hsent : .read len ∈ s.sent) (h : s.cluster.master.execRead stamp = some (uid, master)) :
      Steps s (.execRead stamp len)
        { s with
          sent := s.sent.erase (.read len)
          cluster := { s.cluster with master, requests := s.cluster.requests ++ [.read uid len] } }
        [.master (.issued (.readAIFunc uid))]
  | execWrite {ogStamp backupStamp : Stamp} {gap : List Stamp} {len : UInt32}
      {uids : ThreadSafeUID × ThreadSafeUID} {master : Master} (hsent : .write len ∈ s.sent)
      (h : s.cluster.master.execWrite ogStamp gap backupStamp = some (uids, master)) :
      Steps s (.execWrite ogStamp gap backupStamp len)
        { s with
          sent := s.sent.erase (.write len)
          cluster := { s.cluster with
            master, requests := s.cluster.requests ++ [.write uids.1, .write uids.2] } }
        [.master (.issued (.writeAIFunc uids.1 uids.2))]
  | cluster {a : Cluster.Action} {cluster : Cluster} {out : List Event}
      (ha : isCommand a = false) (h : s.cluster.Steps a cluster out) :
      Steps s (.cluster a)
        { s with cluster, stream := s.stream ++ (out.flatMap Event.replies).flatten }
        (out.map .master)
  | recv {buf : ℕ → UInt8} {ready : ℕ} {c : Call} (hc : s.waiting = some c) :
      Steps s (.recv buf ready)
        { s with waiting := none, stream := (c.receive buf ready s.stream).stream }
        [.returned c (c.receive buf ready s.stream).ret]

/-- A step is one of these. -/
theorem step_cases {s t : Client} {a : Action} {out : List ClientEvent}
    (h : s.step a = some (t, out)) : Steps s a t out := by
  cases a with
  | call c =>
      simp only [step, Option.ite_none_right_eq_some] at h
      obtain ⟨hwaiting, heq⟩ := h
      cases heq
      exact .call hwaiting
  | execRead stamp len =>
      simp only [step, stepCluster, Option.ite_none_right_eq_some, Option.map_eq_some_iff] at h
      obtain ⟨hsent, ⟨cluster, out'⟩, hstep, heq⟩ := h
      cases Cluster.step_cases hstep
      rename_i hexec
      cases heq
      simpa [Event.replies] using Steps.execRead hsent hexec
  | execWrite ogStamp gap backupStamp len =>
      simp only [step, stepCluster, Option.ite_none_right_eq_some, Option.map_eq_some_iff] at h
      obtain ⟨hsent, ⟨cluster, out'⟩, hstep, heq⟩ := h
      cases Cluster.step_cases hstep
      rename_i hexec
      cases heq
      simpa [Event.replies] using Steps.execWrite hsent hexec
  | cluster a =>
      simp only [step, stepCluster, Option.ite_none_left_eq_some, Option.map_eq_some_iff] at h
      obtain ⟨ha, ⟨cluster, out'⟩, hstep, heq⟩ := h
      cases heq
      exact .cluster (Bool.eq_false_iff.2 ha) (Cluster.step_cases hstep)
  | recv buf ready =>
      simp only [step] at h
      split at h
      · cases h
      · rename_i c hc
        simp only [Option.ite_none_right_eq_some] at h
        obtain ⟨-, heq⟩ := h
        cases heq
        exact .recv hc

end Client

/-! ### Histories -/

/-- The events since the last call, in a history with the latest event first. -/
def sinceCall : List ClientEvent → List ClientEvent
  | [] => []
  | .called _ :: _ => []
  | e :: past => e :: sinceCall past

/-- The number of calls in a history. -/
def calls : List ClientEvent → ℕ
  | [] => 0
  | .called _ :: past => calls past + 1
  | _ :: past => calls past

/-- The replies that an event writes to the connection. -/
def ClientEvent.replies : ClientEvent → List (List UInt8)
  | .master e => e.replies
  | _ => []

/-- The number of replies in a history. -/
def replies (history : List ClientEvent) : ℕ := (history.flatMap ClientEvent.replies).length

theorem replies_cons (e : ClientEvent) (past : List ClientEvent) :
    replies (e :: past) = e.replies.length + replies past := by
  simp [replies]

@[simp] theorem sinceCall_master (e : Event) (past : List ClientEvent) :
    sinceCall (.master e :: past) = .master e :: sinceCall past := rfl

@[simp] theorem calls_master (e : Event) (past : List ClientEvent) :
    calls (.master e :: past) = calls past := rfl

theorem sinceCall_subset (history : List ClientEvent) : ∀ e ∈ sinceCall history, e ∈ history := by
  intro e he
  induction history with
  | nil => cases he
  | cons e' past ih =>
      cases e' with
      | called c => cases he
      | master e' =>
          rcases List.mem_cons.1 he with rfl | he
          · exact List.mem_cons_self ..
          · exact List.mem_cons_of_mem _ (ih he)
      | returned c ret =>
          rcases List.mem_cons.1 he with rfl | he
          · exact List.mem_cons_self ..
          · exact List.mem_cons_of_mem _ (ih he)

theorem sinceCall_append (out : List Event) (history : List ClientEvent) :
    sinceCall (out.map .master ++ history) = out.map .master ++ sinceCall history := by
  induction out with
  | nil => rfl
  | cons e out ih =>
      rw [List.map_cons, List.cons_append, sinceCall_master, ih]
      rfl

/-- The questions whose responses were received, the latest first. -/
def received (history : List ClientEvent) : List Question :=
  history.flatMap fun
    | .master (.received r) => [r.question]
    | _ => []

theorem received_append (later past : List ClientEvent) :
    received (later ++ past) = received later ++ received past := List.flatMap_append

/-- A response is replied with if it is a successful `MinionReadMsg`, and else is not. -/
theorem replies_received (r : Response) :
    (∃ uid data, r = .read uid true data ∧ (Event.received r).replies.length = 1) ∨
      (∀ uid data, r ≠ .read uid true data) ∧ (Event.received r).replies = [] := by
  cases r with
  | read uid isSuccess data =>
      cases isSuccess with
      | true => exact Or.inl ⟨uid, data, rfl, rfl⟩
      | false => exact Or.inr ⟨nofun, rfl⟩
  | write uid isSuccess =>
      cases isSuccess with
      | true => exact Or.inr ⟨nofun, rfl⟩
      | false => exact Or.inr ⟨nofun, rfl⟩

end IotDrive
