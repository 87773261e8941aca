/-
The drive as its user sees it.

Calls of `NBDRead` and `NBDWrite` are made one after another, each is executed by the master as one
command, and the replies come back on one connection.  Under conditions on the network, on the
pollers and on the receives, the whole drive is one array: a read returns what the calls before it
wrote.

Main definitions:

* `Drive`, `Drive.step` — the cluster with its files, the requests that were sent, and the call that
  waits;
* `written` — the array after the calls that returned in a history;
* `Drive.Orderly` — the conditions;
* `Returns` — what a call returns if the drive is one array;
* `Phase` — what has become of the call that waits.

Main results:

* `Drive.step_cases` — all that a step can do;
* `Serial.step` — every step under the conditions keeps the invariant;
* `every_call_returns` — **the drive is an array**.
-/

import IotDrive.SerialCommands
import IotDrive.Client

set_option relaxedAutoImplicit false
set_option autoImplicit false

namespace IotDrive

open History Mirroring

/-! ### The machine -/

deriving instance DecidableEq for Request

/-- The call that makes the request. -/
def Request.call : Request → Call
  | .read _ size => .read size
  | .write _ data => .write (UInt32.ofNat data.length)

/-- The request that the command executes. -/
def StorageCluster.Action.request : StorageCluster.Action → Option Request
  | .execRead _ offset size => some (.read offset size)
  | .execWrite _ _ _ offset data => some (.write offset data)
  | _ => none

/-- What can be observed of the calls and of the cluster. -/
inductive DriveEvent
  | called (r : Request)
  | storage (e : StorageEvent)
  | returned (r : Request) (result : NBD.Returned)

/-- The cluster and its files, the requests that the master has not executed yet, the call that
waits, and the reply bytes that it has not received yet. -/
structure Drive where
  storage : StorageCluster
  sent : List Request
  waiting : Option Request
  stream : List UInt8

namespace Drive

def start (minions : Minions) : Drive :=
  { storage := .start minions, sent := [], waiting := none, stream := [] }

/-- What happens on the drive. -/
inductive Action
  | call (r : Request)
  | storage (a : StorageCluster.Action)
  | recv (buf : ℕ → UInt8) (ready : ℕ)

/-- A step of the cluster, whose replies go to the stream. -/
def stepStorage (s : Drive) (a : StorageCluster.Action) : Option (Drive × List DriveEvent) :=
  (s.storage.step a).map fun (storage, out) =>
    ({ s with storage, stream := s.stream ++ (out.flatMap StorageEvent.replies).flatten },
      out.map .storage)

/-- The transitions.  A command is executed for a request that was sent; a receive returns when it
has got some bytes, or was asked for none. -/
def step (s : Drive) : Action → Option (Drive × List DriveEvent)
  | .call r =>
      if s.waiting = none then
        some ({ s with sent := s.sent ++ [r], waiting := some r }, [.called r])
      else none
  | .storage a =>
      match a.request with
      | none => s.stepStorage a
      | some r =>
          if r ∈ s.sent then ({ s with sent := s.sent.erase r } : Drive).stepStorage a else none
  | .recv buf ready =>
      match s.waiting with
      | none => none
      | some r =>
          let result := r.call.receive buf ready s.stream
          if result.stream.length < s.stream.length ∨ r.call.len = 0 then
            some ({ s with waiting := none, stream := result.stream }, [.returned r result])
          else none

/-- The transitions as a relation, with what each of them needs. -/
inductive Steps (s : Drive) : Action → Drive → List DriveEvent → Prop
  | call {r : Request} (h : s.waiting = none) :
      Steps s (.call r) { s with sent := s.sent ++ [r], waiting := some r } [.called r]
  | command {a : StorageCluster.Action} {p : Poller} {r : Request} {storage : StorageCluster}
      (hsent : r ∈ s.sent) (hstep : s.storage.step a = some (storage, [.issued p r])) :
      Steps s (.storage a) { s with storage, sent := s.sent.erase r } [.storage (.issued p r)]
  | quiet {a : StorageCluster.Action} {storage : StorageCluster}
      (hstep : s.storage.step a = some (storage, [])) : Steps s (.storage a) { s with storage } []
  | event {a : StorageCluster.Action} {storage : StorageCluster} {e : StorageEvent}
      (hplain : e.Plain) (hstep : s.storage.step a = some (storage, [e])) :
      Steps s (.storage a) { s with storage, stream := s.stream ++ e.replies.flatten } [.storage e]
  | recv {buf : ℕ → UInt8} {ready : ℕ} {r : Request} (hwaiting : s.waiting = some r)
      (hreceived : (r.call.receive buf ready s.stream).stream.length < s.stream.length ∨
        r.call.len = 0) :
      Steps s (.recv buf ready)
        { s with waiting := none, stream := (r.call.receive buf ready s.stream).stream }
        [.returned r (r.call.receive buf ready s.stream)]

end Drive

/-- A command outputs that it was issued; any other step outputs nothing, or one plain event. -/
theorem StorageCluster.out_cases {s t : StorageCluster} {a : Action} {out : List StorageEvent}
    (h : s.step a = some (t, out)) :
    (∃ p r, a.request = some r ∧ out = [.issued p r]) ∨
      a.request = none ∧ (out = [] ∨ ∃ e, e.Plain ∧ out = [e]) := by
  cases step_cases h with
  | execRead hexec hqs => exact Or.inl ⟨_, _, rfl, rfl⟩
  | execWrite hexec hqs => exact Or.inl ⟨_, _, rfl, rfl⟩
  | newUID hnew => exact Or.inr ⟨rfl, Or.inl rfl⟩
  | @poll p master reply ret hpoll heval =>
      refine Or.inr ⟨rfl, Or.inr ⟨_, ?_, rfl⟩⟩
      cases p with
      | readAIFunc uid => exact heval.read uid rfl
      | writeAIFunc ogUid backupUid => trivial
  | receive hr hreceive => exact Or.inr ⟨rfl, Or.inr ⟨.received _, trivial, rfl⟩⟩
  | serve hq => exact Or.inr ⟨rfl, Or.inr ⟨.served _, trivial, rfl⟩⟩
  | loseRequest hq => exact Or.inr ⟨rfl, Or.inl rfl⟩
  | duplicateRequest hq => exact Or.inr ⟨rfl, Or.inl rfl⟩
  | loseResponse hr => exact Or.inr ⟨rfl, Or.inl rfl⟩
  | duplicateResponse hr => exact Or.inr ⟨rfl, Or.inl rfl⟩

namespace Drive

/-- A step is one of these. -/
theorem step_cases {s t : Drive} {a : Action} {out : List DriveEvent}
    (h : s.step a = some (t, out)) : Steps s a t out := by
  cases a with
  | call r =>
      simp only [step, Option.ite_none_right_eq_some] at h
      obtain ⟨hwaiting, heq⟩ := h
      cases heq
      exact .call hwaiting
  | storage a =>
      simp only [step] at h
      split at h
      · rename_i hrequest
        obtain ⟨⟨storage, out'⟩, hstep, heq⟩ := Option.map_eq_some_iff.1 h
        cases heq
        rcases StorageCluster.out_cases hstep with ⟨p, r, hr, -⟩ | ⟨-, rfl | ⟨e, hplain, rfl⟩⟩
        · rw [hrequest] at hr
          cases hr
        · simpa using Steps.quiet hstep
        · simpa using Steps.event hplain hstep
      · rename_i r hrequest
        simp only [Option.ite_none_right_eq_some] at h
        obtain ⟨hsent, h⟩ := h
        obtain ⟨⟨storage, out'⟩, hstep, heq⟩ := Option.map_eq_some_iff.1 h
        cases heq
        rcases StorageCluster.out_cases hstep with ⟨p, r', hr, rfl⟩ | ⟨hr, -⟩
        · rw [hrequest] at hr
          cases hr
          simpa [StorageEvent.replies, StorageEvent.events, Event.replies] using
            Steps.command hsent hstep
        · rw [hrequest] at hr
          cases hr
  | recv buf ready =>
      simp only [step] at h
      split at h
      · cases h
      · rename_i r hr
        simp only [Option.ite_none_right_eq_some] at h
        obtain ⟨hreceived, heq⟩ := h
        cases heq
        exact .recv hr hreceived

end Drive

/-! ### The conditions, and what they give -/

/-- The events of the cluster in a history. -/
def storageEvents (history : List DriveEvent) : List StorageEvent :=
  history.flatMap fun
    | .storage e => [e]
    | _ => []

/-- The array after the calls that returned in a history, the latest first. -/
def written (disk : FlatDisk) : List DriveEvent → FlatDisk
  | [] => disk
  | .returned r _ :: past => ((written disk past).execute r).1
  | _ :: past => written disk past

/-- Given the events before it: a call asks for some bytes inside of a stripe, the cluster is
orderly, and a receive takes all that is on the stream. -/
def Drive.Orderly (past : List DriveEvent) : DriveEvent → Prop
  | .called r => r.FitsStripe ∧ 0 < r.length
  | .storage e => IotDrive.Orderly (storageEvents past) e
  | .returned _ result => result.stream = []

/-- A call returns zero, and a read returns the bytes of the array that the calls before have left.
-/
def Returns (disk : FlatDisk) (past : List DriveEvent) : DriveEvent → Prop
  | .returned r result => result.ret = 0 ∧ ∀ offset size, r = .read offset size →
      result.buf = Extent.extract (written disk past) offset.toNat size.toNat
  | _ => True

/-- A call asks for as many bytes as its request has. -/
theorem Request.FitsStripe.toNat_len_call {r : Request} (h : r.FitsStripe) :
    r.call.len.toNat = r.length := by
  cases r with
  | read offset size => rfl
  | write offset data =>
      have hlen : data.length ≤ memory := le_trans (Nat.le_add_left _ _) h.le
      exact UInt32.toNat_ofNat_of_lt' (lt_of_le_of_lt hlen (by decide))

/-- A read that takes the whole stream returns it. -/
theorem buf_receive_read {offset : UInt64} {size : UInt32} {buf : ℕ → UInt8} {ready : ℕ}
    {stream : List UInt8} (hlen : stream.length = size.toNat)
    (hall : ((Request.read offset size).call.receive buf ready stream).stream = []) :
    ((Request.read offset size).call.receive buf ready stream).buf = stream := by
  have htake : TCPSocket.recv ready size.toNat stream = stream := by
    have hle : stream.length ≤ min ready (intArg size.toNat) := Call.stream_receive_eq_nil.1 hall
    rw [TCPSocket.recv, List.take_of_length_le hle]
  have hbuf : ((Request.read offset size).call.receive buf ready stream).buf =
      fillBuffer buf size.toNat (TCPSocket.recv ready size.toNat stream) := rfl
  rw [hbuf, htake, fillBuffer_of_length hlen]

/-! ### The invariant -/

/-- What has become of the call that waits. -/
inductive Phase (bytes : ℕ × ℕ → UInt8) (disk : FlatDisk) (s : Drive) (history : List DriveEvent) :
    Prop
  /-- No call waits. -/
  | idle (hwaiting : s.waiting = none) (hsent : s.sent = []) (hstream : s.stream = [])
      (hcopies : Quiescent bytes (storageEvents history) (written disk history))
  /-- The master has not executed the request. -/
  | sent (r : Request) (hlen : 0 < r.call.len.toNat) (hwaiting : s.waiting = some r)
      (hsent : s.sent = [r]) (hstream : s.stream = [])
      (hcopies : Quiescent bytes (storageEvents history) (written disk history))
  /-- The master has executed the request and not replied. -/
  | working (r : Request) (p : Poller) (hlen : 0 < r.call.len.toNat) (hwaiting : s.waiting = some r)
      (hsent : s.sent = []) (hstream : s.stream = [])
      (hcopies : Working bytes (storageEvents history) (written disk history) p r)
  /-- The master has replied. -/
  | replied (r : Request) (hwaiting : s.waiting = some r) (hsent : s.sent = [])
      (hstream : s.stream = (written disk history).reply r)
      (hcopies : Quiescent bytes (storageEvents history) ((written disk history).execute r).1)

/-- The cluster is traced, the call that waits is followed, and so far every return was right. -/
structure Serial (bytes : ℕ × ℕ → UInt8) (disk : FlatDisk) (s : Drive) (history : List DriveEvent) :
    Prop where
  traced : Traced bytes s.storage (storageEvents history)
  phase : Phase bytes disk s history
  every : Every (Returns disk) history

namespace Serial

variable {bytes : ℕ × ℕ → UInt8} {disk : FlatDisk} {s : Drive} {history : List DriveEvent}

theorem start {minions : Minions} (h : minions.Ready)
    (hmirrors : Mirrors place device minions.bytes disk) :
    Serial minions.bytes disk (.start minions) [] :=
  ⟨traced_start h, .idle rfl rfl rfl ⟨nofun, hmirrors⟩, trivial⟩

/-- The master executes the request that was sent. -/
theorem command (h : Serial bytes disk s history) {p : Poller} {r : Request}
    {storage : StorageCluster} (hsent : r ∈ s.sent)
    (ht : Traced bytes storage (.issued p r :: storageEvents history)) :
    Serial bytes disk { s with storage, sent := s.sent.erase r } (.storage (.issued p r) :: history) := by
  refine ⟨ht, ?_, trivial, h.every⟩
  cases h.phase with
  | idle hwaiting hsent' hstream hcopies =>
      rw [hsent'] at hsent
      cases hsent
  | working r' p' hlen hwaiting hsent' hstream hcopies =>
      rw [hsent'] at hsent
      cases hsent
  | replied r' hwaiting hsent' hstream hcopies =>
      rw [hsent'] at hsent
      cases hsent
  | sent r' hlen hwaiting hsent' hstream hcopies =>
      rw [hsent'] at hsent
      obtain rfl := List.mem_singleton.1 hsent
      refine .working r p hlen hwaiting ?_ hstream (hcopies.issue h.traced ht)
      simp [hsent']

/-- An event of the cluster: nothing is replied, or the command in work is. -/
theorem event (h : Serial bytes disk s history) {e : StorageEvent} {storage : StorageCluster}
    (hplain : e.Plain) (hord : IotDrive.Orderly (storageEvents history) e)
    (ht : Traced bytes storage (e :: storageEvents history)) :
    Serial bytes disk { s with storage, stream := s.stream ++ e.replies.flatten }
      (.storage e :: history) := by
  refine ⟨ht, ?_, trivial, h.every⟩
  cases h.phase with
  | idle hwaiting hsent hstream hcopies =>
      obtain ⟨hcopies', hnone⟩ := hcopies.event ht hord hplain
      exact .idle hwaiting hsent (by simp [hstream, hnone]) hcopies'
  | sent r hlen hwaiting hsent hstream hcopies =>
      obtain ⟨hcopies', hnone⟩ := hcopies.event ht hord hplain
      exact .sent r hlen hwaiting hsent (by simp [hstream, hnone]) hcopies'
  | working r p hlen hwaiting hsent hstream hcopies =>
      rcases hcopies.event ht hord hplain with ⟨hcopies', hnone⟩ | ⟨hcopies', hreply⟩
      · exact .working r p hlen hwaiting hsent (by simp [hstream, hnone]) hcopies'
      · exact .replied r hwaiting hsent (by simp [hstream, hreply, written]) hcopies'
  | replied r hwaiting hsent hstream hcopies =>
      obtain ⟨hcopies', hnone⟩ := hcopies.event ht hord hplain
      exact .replied r hwaiting hsent (by simp [hstream, hnone, written]) hcopies'

/-- A call returns when the master has replied. -/
theorem recv (h : Serial bytes disk s history) {buf : ℕ → UInt8} {ready : ℕ} {r : Request}
    (hwaiting : s.waiting = some r)
    (hreceived : (r.call.receive buf ready s.stream).stream.length < s.stream.length ∨
      r.call.len = 0)
    (hall : (r.call.receive buf ready s.stream).stream = []) :
    Serial bytes disk { s with waiting := none, stream := (r.call.receive buf ready s.stream).stream }
      (.returned r (r.call.receive buf ready s.stream) :: history) := by
  have hwaits : 0 < r.call.len.toNat → s.stream ≠ [] := by
    intro hlen hstream
    rcases hreceived with hlt | hzero
    · rw [hstream] at hlt
      cases hlt
    · rw [hzero] at hlen
      cases hlen
  cases h.phase with
  | idle hwaiting' hsent hstream hcopies =>
      rw [hwaiting'] at hwaiting
      cases hwaiting
  | sent r' hlen hwaiting' hsent hstream hcopies =>
      rw [hwaiting'] at hwaiting
      cases hwaiting
      exact absurd hstream (hwaits hlen)
  | working r' p hlen hwaiting' hsent hstream hcopies =>
      rw [hwaiting'] at hwaiting
      cases hwaiting
      exact absurd hstream (hwaits hlen)
  | replied r' hwaiting' hsent hstream hcopies =>
      rw [hwaiting'] at hwaiting
      cases hwaiting
      refine ⟨h.traced, .idle rfl hsent hall hcopies, ⟨?_, ?_⟩, h.every⟩
      · cases r <;> rfl
      · rintro offset size rfl
        have hlen : s.stream.length = size.toNat := by
          rw [hstream]
          exact Extent.length_extract _ _ _
        rw [buf_receive_read hlen hall, hstream]
        rfl

/-- Every step under the conditions keeps the invariant, as long as no key is drawn twice. -/
theorem step (h : Serial bytes disk s history) {a : Drive.Action} {t : Drive} {out : List DriveEvent}
    (hord : ∀ e ∈ out, Drive.Orderly history e) (hstep : s.step a = some (t, out))
    (hbound : t.storage.master.staticCounter ≤ 2 ^ 32) : Serial bytes disk t (out ++ history) := by
  cases Drive.step_cases hstep with
  | @call r hwaiting =>
      obtain ⟨hfits, hlen⟩ := hord _ (List.mem_singleton_self _)
      refine ⟨h.traced, ?_, trivial, h.every⟩
      cases h.phase with
      | idle hwaiting' hsent hstream hcopies =>
          refine .sent r (hfits.toNat_len_call ▸ hlen) rfl ?_ hstream hcopies
          simp [hsent]
      | sent r' hlen hwaiting' hsent hstream hcopies =>
          rw [hwaiting'] at hwaiting
          cases hwaiting
      | working r' p hlen hwaiting' hsent hstream hcopies =>
          rw [hwaiting'] at hwaiting
          cases hwaiting
      | replied r' hwaiting' hsent hstream hcopies =>
          rw [hwaiting'] at hwaiting
          cases hwaiting
  | @command a p r storage hsent hstep' =>
      have hfits : r.FitsStripe := hord _ (List.mem_singleton_self _)
      refine h.command hsent (h.traced.step ?_ hstep' hbound)
      rintro e he
      obtain rfl := List.mem_singleton.1 he
      exact hfits
  | quiet hstep' =>
      have hnone : ∀ e ∈ ([] : List StorageEvent), e.Fits := nofun
      have ht : Traced bytes _ (storageEvents history) := h.traced.step hnone hstep' hbound
      refine ⟨ht, ?_, h.every⟩
      cases h.phase with
      | idle hwaiting hsent hstream hcopies => exact .idle hwaiting hsent hstream hcopies
      | sent r hlen hwaiting hsent hstream hcopies =>
          exact .sent r hlen hwaiting hsent hstream hcopies
      | working r p hlen hwaiting hsent hstream hcopies =>
          exact .working r p hlen hwaiting hsent hstream hcopies
      | replied r hwaiting hsent hstream hcopies => exact .replied r hwaiting hsent hstream hcopies
  | @event a storage e hplain hstep' =>
      refine h.event hplain (hord _ (List.mem_singleton_self _)) (h.traced.step ?_ hstep' hbound)
      rintro e' he
      obtain rfl := List.mem_singleton.1 he
      cases e' with
      | issued p r => exact hplain.elim
      | _ => trivial
  | recv hwaiting hreceived => exact h.recv hwaiting hreceived (hord _ (List.mem_singleton_self _))

end Serial

/-! ### Without duplicates -/

/-- The steps that put a datagram in flight once more. -/
def Drive.Action.isDuplicate : Drive.Action → Bool
  | .storage a => a.isDuplicate
  | _ => false

/-- What is left of the conditions if nothing is duplicated: a call asks for some bytes inside of a
stripe, no write is given up, and a receive takes all that is on the stream. -/
def Drive.Served : DriveEvent → Prop
  | .called r => r.FitsStripe ∧ 0 < r.length
  | .storage (.evaluated _ (some reply) _) => reply = .success
  | .storage _ => True
  | .returned _ result => result.stream = []

instance : ∀ e, Decidable (Drive.Served e)
  | .called _ => instDecidableAnd
  | .storage (.evaluated _ (some _) _) => inferInstanceAs (Decidable (_ = _))
  | .returned _ _ => inferInstanceAs (Decidable (_ = _))
  | .storage (.issued _ _) => instDecidableTrue
  | .storage (.served _) => instDecidableTrue
  | .storage (.received _) => instDecidableTrue
  | .storage (.evaluated _ none _) => instDecidableTrue

/-- No datagram is in flight twice, what was sent was called, and so far all was orderly. -/
structure Undisturbed (bytes : ℕ × ℕ → UInt8) (s : Drive) (history : List DriveEvent) : Prop where
  single : Single bytes s.storage (storageEvents history)
  called : ∀ r ∈ s.sent, .called r ∈ history
  every : Every Drive.Orderly history

namespace Undisturbed

variable {bytes : ℕ × ℕ → UInt8} {s t : Drive} {history : List DriveEvent}

theorem start {minions : Minions} (h : minions.Ready) : Undisturbed minions.bytes (.start minions) [] :=
  ⟨⟨traced_start h, fun _ => le_rfl⟩, nofun, trivial⟩

/-- Every step that duplicates nothing keeps the invariant. -/
theorem step (h : Undisturbed bytes s history) {a : Drive.Action} {out : List DriveEvent}
    (ha : a.isDuplicate = false) (hserved : ∀ e ∈ out ++ history, Drive.Served e)
    (hstep : s.step a = some (t, out)) (hbound : t.storage.master.staticCounter ≤ 2 ^ 32) :
    Undisturbed bytes t (out ++ history) := by
  cases Drive.step_cases hstep with
  | @call r hwaiting =>
      refine ⟨h.single, ?_, hserved _ (List.mem_cons_self ..), h.every⟩
      intro r' hr'
      rcases List.mem_append.1 hr' with hr' | hr'
      · exact List.mem_cons_of_mem _ (h.called r' hr')
      · rw [List.mem_singleton.1 hr']
        exact List.mem_cons_self ..
  | @command a p r storage hsent hstep' =>
      obtain ⟨hfits, -⟩ := hserved _ (List.mem_cons_of_mem _ (h.called r hsent))
      refine ⟨h.single.step ha ?_ hstep' hbound, ?_, hfits, h.every⟩
      · rintro e he
        obtain rfl := List.mem_singleton.1 he
        exact hfits
      · intro r' hr'
        exact List.mem_cons_of_mem _ (h.called r' (List.mem_of_mem_erase hr'))
  | @quiet a storage hstep' =>
      have hnone : ∀ e ∈ ([] : List StorageEvent), e.Fits := nofun
      exact ⟨h.single.step ha hnone hstep' hbound, h.called, h.every⟩
  | @event a storage e hplain hstep' =>
      have hfit : e.Fits := by
        cases e with
        | issued p r => exact hplain.elim
        | _ => trivial
      refine ⟨h.single.step ha ?_ hstep' hbound, ?_, ?_, h.every⟩
      · rintro e' he
        obtain rfl := List.mem_singleton.1 he
        exact hfit
      · exact fun r hr => List.mem_cons_of_mem _ (h.called r hr)
      · refine h.single.orderly hstep' (List.mem_singleton_self _) hfit ?_
        rintro p reply ret rfl
        exact hserved _ (List.mem_cons_self ..)
  | recv hwaiting hreceived =>
      exact ⟨h.single, fun r hr => List.mem_cons_of_mem _ (h.called r hr),
        hserved _ (List.mem_cons_self ..), h.every⟩

end Undisturbed

/-! ### The result -/

/-- No step takes back a UID. -/
theorem Drive.staticCounter_le_of_step {s t : Drive} {a : Action} {out : List DriveEvent}
    (h : s.step a = some (t, out)) :
    s.storage.master.staticCounter ≤ t.storage.master.staticCounter := by
  cases step_cases h with
  | call hwaiting => exact le_rfl
  | command hsent hstep => exact StorageCluster.staticCounter_le_of_step hstep
  | quiet hstep => exact StorageCluster.staticCounter_le_of_step hstep
  | event hplain hstep => exact StorageCluster.staticCounter_le_of_step hstep
  | recv hwaiting hreceived => exact le_rfl

section Results

variable {minions : Minions} {actions : List Drive.Action} {t : Drive} {history : List DriveEvent}
  (hready : minions.Ready)
  (hrun : Transition.run (logged Drive.step) (.start minions, []) actions = some (t, history))
  (hbound : t.storage.master.constructed < 2 ^ 32)

include hready hrun hbound

/-- Every run under the conditions keeps the invariant. -/
theorem serial_run {disk : FlatDisk} (hmirrors : Mirrors place device minions.bytes disk)
    (hord : Every Drive.Orderly history) : Serial minions.bytes disk t history := by
  -- both conditions on the end of the run hold at every moment of it
  have hstep : ∀ (s : Drive) a t out h,
      (Every Drive.Orderly h → s.storage.master.staticCounter ≤ 2 ^ 32 →
        Serial minions.bytes disk s h) → s.step a = some (t, out) →
      Every Drive.Orderly (out ++ h) → t.storage.master.staticCounter ≤ 2 ^ 32 →
      Serial minions.bytes disk t (out ++ h) := by
    intro s a t out h hI hstep hord ht
    have hs := (Drive.staticCounter_le_of_step hstep).trans ht
    cases Drive.step_cases hstep with
    | quiet _ => exact (hI hord hs).step nofun hstep ht
    | _ =>
        refine (hI hord.2 hs).step ?_ hstep ht
        intro e he
        obtain rfl := List.mem_singleton.1 he
        exact hord.1
  have hlast : t.storage.master.staticCounter ≤ 2 ^ 32 := by
    unfold Master.constructed at hbound
    omega
  exact invariant hstep (fun _ _ => .start hready hmirrors) hrun hord hlast

/-- Every run that duplicates nothing keeps the invariant. -/
theorem undisturbed_run (hsingle : ∀ a ∈ actions, a.isDuplicate = false)
    (hserved : ∀ e ∈ history, Drive.Served e) : Undisturbed minions.bytes t history := by
  have hstep : ∀ (s : Drive) a t out h,
      ((∀ e ∈ h, Drive.Served e) → s.storage.master.staticCounter ≤ 2 ^ 32 →
        Undisturbed minions.bytes s h) → a.isDuplicate = false → s.step a = some (t, out) →
      (∀ e ∈ out ++ h, Drive.Served e) → t.storage.master.staticCounter ≤ 2 ^ 32 →
      Undisturbed minions.bytes t (out ++ h) := by
    intro s a t out h hI ha hstep hserved ht
    have hs := (Drive.staticCounter_le_of_step hstep).trans ht
    exact (hI (fun e he => hserved e (List.mem_append_right _ he)) hs).step ha hserved hstep ht
  have hlast : t.storage.master.staticCounter ≤ 2 ^ 32 := by
    unfold Master.constructed at hbound
    omega
  exact invariant_along (fun _ _ a => a.isDuplicate = false) hstep (fun _ _ => .start hready)
    (Transition.along_of_forall (fun a ha _ => hsingle a ha) _) hrun hserved hlast

/-- **The drive is an array.** In every run under the conditions, on minions whose copies mirror an
array at the start, every call returns zero, and a read returns the bytes that the array has after
the calls that returned before. -/
theorem every_call_returns {disk : FlatDisk} (hmirrors : Mirrors place device minions.bytes disk)
    (hord : Every Drive.Orderly history) : Every (Returns disk) history :=
  (serial_run hready hrun hbound hmirrors hord).every

/-- **A network without duplicates is orderly.** In every run in which no datagram is duplicated,
calls stay inside of the stripes, no write is given up and receives take the whole stream, a response
to a read is received once, and a write is not served any more once it was acknowledged. -/
theorem orderly_of_not_duplicated (hsingle : ∀ a ∈ actions, a.isDuplicate = false)
    (hserved : ∀ e ∈ history, Drive.Served e) : Every Drive.Orderly history :=
  (undisturbed_run hready hrun hbound hsingle hserved).every

end Results

/-- Eight bytes are written, and some of them read back with two bytes before them; the network
takes the second request of the write first. -/
def arrayRun : List Drive.Action :=
  [.call (.write 4 [1, 2, 3, 4, 5, 6, 7, 8]),
    .storage (.execWrite ⟨0, 0⟩ [] ⟨0, 0⟩ 4 [1, 2, 3, 4, 5, 6, 7, 8]),
    .storage (.serve (fun _ _ => 0) ⟨1, .write 4194308 8 [1, 2, 3, 4, 5, 6, 7, 8] (nthUid 2) rfl⟩),
    .storage (.serve (fun _ _ => 0) ⟨0, .write 4 8 [1, 2, 3, 4, 5, 6, 7, 8] (nthUid 1) rfl⟩),
    .storage (.receive ⟨0, 0⟩ (.write (nthUid 2) true)),
    .storage (.receive ⟨0, 0⟩ (.write (nthUid 1) true)),
    .storage (.poll (.writeAIFunc (nthUid 1) (nthUid 2))), .recv (fun _ => 0) 8, .call (.read 2 4),
    .storage (.execRead ⟨0, 0⟩ 2 4), .storage (.serve (fun _ _ => 0) ⟨0, .read 2 4 (nthUid 5)⟩),
    .storage (.receive ⟨0, 0⟩ (.read (nthUid 5) true [0, 0, 1, 2])), .recv (fun _ => 0) 4]

/-- Its events before the last one, the latest first. -/
def arrayPast : List DriveEvent :=
  [.storage (.received (.read (nthUid 5) true [0, 0, 1, 2])),
    .storage (.served ⟨0, .read 2 4 (nthUid 5)⟩), .storage (.issued (.readAIFunc (nthUid 5)) (.read 2 4)),
    .called (.read 2 4),
    .returned (.write 4 [1, 2, 3, 4, 5, 6, 7, 8]) ⟨0, [83, 117, 99, 99, 101, 115, 115, 0], []⟩,
    .storage (.evaluated (.writeAIFunc (nthUid 1) (nthUid 2)) (some .success) true),
    .storage (.received (.write (nthUid 1) true)), .storage (.received (.write (nthUid 2) true)),
    .storage (.served ⟨0, .write 4 8 [1, 2, 3, 4, 5, 6, 7, 8] (nthUid 1) rfl⟩),
    .storage (.served ⟨1, .write 4194308 8 [1, 2, 3, 4, 5, 6, 7, 8] (nthUid 2) rfl⟩),
    .storage (.issued (.writeAIFunc (nthUid 1) (nthUid 2)) (.write 4 [1, 2, 3, 4, 5, 6, 7, 8])),
    .called (.write 4 [1, 2, 3, 4, 5, 6, 7, 8])]

theorem run_arrayRun :
    ∃ t, Transition.run (logged Drive.step) (.start .opened, []) arrayRun =
        some (t, .returned (.read 2 4) ⟨0, [0, 0, 1, 2], []⟩ :: arrayPast) ∧
      t.storage.master.constructed < 2 ^ 32 :=
  ⟨_, rfl, by decide⟩

theorem every_call_returns_arrayRun :
    (⟨0, [0, 0, 1, 2], []⟩ : NBD.Returned).buf = Extent.extract (written .zero arrayPast) 2 4 := by
  obtain ⟨t, hrun, hbound⟩ := run_arrayRun
  have hready : Minions.opened.Ready := fun _ => Minion.ready_opened
  have hmirrors : Mirrors place device Minions.opened.bytes
      FlatDisk.zero :=
    fun _ _ _ => rfl
  have hord := (undisturbed_run hready hrun hbound (by decide) (by decide)).every
  have hevery := every_call_returns hready hrun hbound hmirrors hord
  exact hevery.1.2 2 4 rfl

theorem orderly_of_not_duplicated_arrayRun : Every Drive.Orderly arrayPast := by
  obtain ⟨t, hrun, hbound⟩ := run_arrayRun
  have hevery := orderly_of_not_duplicated (fun _ => Minion.ready_opened) hrun hbound (by decide)
    (by decide)
  exact hevery.2

/-- Two writes of the same bytes, and a read; a duplicate of a request of the first write comes when
the second one has returned. -/
def staleRun : List Drive.Action :=
  [.call (.write 0 (List.replicate 8 1)),
    .storage (.execWrite ⟨0, 0⟩ [] ⟨0, 0⟩ 0 (List.replicate 8 1)),
    .storage (.duplicateRequest ⟨0, .write 0 8 (List.replicate 8 1) (nthUid 1) rfl⟩),
    .storage (.serve (fun _ _ => 0) ⟨0, .write 0 8 (List.replicate 8 1) (nthUid 1) rfl⟩),
    .storage (.serve (fun _ _ => 0) ⟨1, .write 4194304 8 (List.replicate 8 1) (nthUid 2) rfl⟩),
    .storage (.receive ⟨0, 0⟩ (.write (nthUid 1) true)),
    .storage (.receive ⟨0, 0⟩ (.write (nthUid 2) true)),
    .storage (.poll (.writeAIFunc (nthUid 1) (nthUid 2))), .recv (fun _ => 0) 8,
    .call (.write 0 (List.replicate 8 2)),
    .storage (.execWrite ⟨0, 0⟩ [] ⟨0, 0⟩ 0 (List.replicate 8 2)),
    .storage (.serve (fun _ _ => 0) ⟨0, .write 0 8 (List.replicate 8 2) (nthUid 5) rfl⟩),
    .storage (.serve (fun _ _ => 0) ⟨1, .write 4194304 8 (List.replicate 8 2) (nthUid 6) rfl⟩),
    .storage (.receive ⟨0, 0⟩ (.write (nthUid 5) true)),
    .storage (.receive ⟨0, 0⟩ (.write (nthUid 6) true)),
    .storage (.poll (.writeAIFunc (nthUid 5) (nthUid 6))), .recv (fun _ => 0) 8,
    .storage (.serve (fun _ _ => 0) ⟨0, .write 0 8 (List.replicate 8 1) (nthUid 1) rfl⟩),
    .call (.read 0 2), .storage (.execRead ⟨0, 0⟩ 0 2),
    .storage (.serve (fun _ _ => 0) ⟨0, .read 0 2 (nthUid 9)⟩),
    .storage (.receive ⟨0, 0⟩ (.read (nthUid 9) true [1, 1])), .recv (fun _ => 0) 2]

/-- The duplicate takes back the second write: a minion serves what it is sent, however old it is.
-/
theorem stale_request_served :
    ∃ t past, Transition.run (logged Drive.step) (.start .opened, [])
        staleRun = some (t, .returned (.read 0 2) ⟨0, [1, 1], []⟩ :: past) ∧
      Extent.extract (written .zero past) 0 2 = [2, 2] :=
  ⟨_, _, rfl, by decide⟩

end IotDrive
