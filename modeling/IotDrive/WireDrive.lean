/-
The drive on the wire.

A call of `NBDRead` or `NBDWrite` writes its request to the connection, `NBDProxy` takes it off and
decodes it, a worker runs the command for what was decoded, whose datagrams are those of
`IotDrive/WireCluster.lean`, and the replies are bytes on the connection.  As long as the requests have
arrived as a whole when they are received, every run of it is one of `IotDrive/Drive.lean`, so that the
drive is an array down to the bytes.

Main definitions:

* `WireDrive`, `WireDrive.step` — the cluster on the wire, and both directions of the connection;
* `WireDriveEvent.Fits` — calls stay inside of a stripe, and requests have arrived as a whole;
* `OnDrive` — what the bytes on the connection stand for.

Main results:

* `Drive.run_hear` — a run of the cluster is a run of the drive;
* `WireDrive.forward_onDrive` — every step on bytes is a few steps on requests;
* `wire_drive_refines_drive` — **the refinement**, in which nobody throws;
* `wire_call_returns` — **the drive on the wire is an array**.
-/

import IotDrive.Drive
import IotDrive.WireCluster

set_option relaxedAutoImplicit false
set_option autoImplicit false

namespace IotDrive

open History Mirroring

/-! ### Requests on the connection -/

/-- The bytes of a request. -/
def Request.format (uid : ThreadSafeUID) : Request → List UInt8
  | .read offset size => (NBDReadMsg.make offset size uid).format
  | .write offset data =>
      (NBDWriteMsg.make offset (UInt32.ofNat data.length) (some data) uid).format data

/-- What `NBDRead` and `NBDWrite` send. -/
def Request.transmission (heap : ℕ → UInt8) (fresh : ThreadSafeUID) : Request → Transmission
  | .read offset size => NBD.nbdReadRequest heap fresh size offset
  | .write offset data => NBD.nbdWriteRequest heap fresh data (UInt32.ofNat data.length) offset

/-- The arguments that a request is decoded to. -/
def Request.args : Request → IArgsKey
  | .read offset size => .readArgsKey readCmdKey offset size
  | .write offset data => .writeArgsKey writeCmdKey offset (UInt32.ofNat data.length) (some data)

theorem Request.args_injective : Function.Injective Request.args := by
  intro r r' h
  cases r with
  | read offset size =>
      cases r' with
      | read offset' size' =>
          simp only [Request.args, IArgsKey.readArgsKey.injEq, true_and] at h
          rw [h.1, h.2]
      | write offset' data' => cases h
  | write offset data =>
      cases r' with
      | read offset' size' => cases h
      | write offset' data' =>
          simp only [Request.args, IArgsKey.writeArgsKey.injEq, true_and, Option.some.injEq] at h
          rw [h.1, h.2.2]

variable {r : Request}

/-- The bytes of the request go out. -/
theorem Request.bytes_transmission (h : r.FitsStripe) (heap : ℕ → UInt8) (fresh : ThreadSafeUID) :
    (r.transmission heap fresh).bytes = r.format fresh := by
  cases r with
  | read offset size => exact (NBD.nbdReadRequest_carries heap fresh offset size).2
  | write offset data =>
      have hle : data.length ≤ memory := (Nat.le_add_left _ _).trans h.le
      exact (NBD.nbdWriteRequest_carries heap fresh offset _ (Payload.of_le hle)).2

/-- `NBDProxy` decodes a request that has arrived as a whole. -/
theorem Request.getArgsKey_format (h : r.FitsStripe) (uid : ThreadSafeUID) {c : NBDProxy.Call}
    (hpeek : 8 ≤ c.peekReady) {stream : List UInt8}
    (hready : (r.format uid ++ stream).length ≤ c.ready) :
    NBDProxy.getArgsKey c (r.format uid ++ stream) = (.ok r.args, stream) := by
  have hlen : (r.format uid).length ≤ c.ready :=
    (List.length_append ▸ Nat.le_add_right _ _).trans hready
  cases r with
  | read offset size => exact (NBDProxy.receives_nbdRead uid offset size c hpeek hlen stream).2
  | write offset data =>
      have hle : data.length ≤ memory := (Nat.le_add_left _ _).trans h.le
      exact (NBDProxy.receives_nbdWrite uid offset _ (Payload.of_le hle) c hpeek hlen stream).2

/-! ### Runs of the cluster in the drive -/

/-- The request whose command was issued. -/
def StorageEvent.executed : StorageEvent → Option Request
  | .issued _ r => some r
  | _ => none

namespace Drive

/-- The drive after events of its cluster, the latest first. -/
def hear (d : Drive) : List StorageEvent → Drive
  | [] => d
  | e :: past =>
      { d.hear past with
        sent := (e.executed.map ((d.hear past).sent.erase ·)).getD (d.hear past).sent
        stream := (d.hear past).stream ++ e.replies.flatten }

/-- A command is issued for a request that was sent. -/
def Awaits (d : Drive) (past : List StorageEvent) (e : StorageEvent) : Prop :=
  ∀ r, e.executed = some r → r ∈ (d.hear past).sent

/-- A step of the cluster is a step of the drive. -/
theorem step_hear (d : Drive) {history out : List StorageEvent} {a : StorageCluster.Action}
    {s t : StorageCluster} (hstep : s.step a = some (t, out))
    (hawaits : Every d.Awaits (out ++ history)) :
    Drive.step { d.hear history with storage := s } (.storage a) =
      some ({ d.hear (out ++ history) with storage := t }, out.map .storage) := by
  rcases StorageCluster.out_cases hstep with ⟨p, r, hr, rfl⟩ | ⟨hr, rfl | ⟨e, hplain, rfl⟩⟩
  · have hsent : r ∈ (d.hear history).sent := hawaits.1 r rfl
    simp only [Drive.step, hr, if_pos hsent, stepStorage, hstep]
    rfl
  · simp only [Drive.step, hr, stepStorage, hstep]
    simp
  · have hnone : e.executed = none := by
      cases e with
      | issued p r => exact hplain.elim
      | _ => rfl
    simp only [Drive.step, hr, stepStorage, hstep]
    simp [hear, hnone]

/-- A run of the cluster, whose commands are for requests that were sent, is a run of the drive. -/
theorem run_hear (d : Drive) {actions : List StorageCluster.Action} {t : StorageCluster}
    {out : List StorageEvent}
    (hrun : Transition.run (logged StorageCluster.step) (d.storage, []) actions = some (t, out))
    (hawaits : Every d.Awaits out) :
    ∃ actions', Transition.run (logged Drive.step) (d, []) actions' =
      some ({ d.hear out with storage := t }, out.map .storage) := by
  have hstep : ∀ (s : StorageCluster) a t new past,
      (Every d.Awaits past → ∃ actions', Transition.run (logged Drive.step) (d, []) actions' =
        some ({ d.hear past with storage := s }, past.map .storage)) →
      s.step a = some (t, new) → Every d.Awaits (new ++ past) →
        ∃ actions', Transition.run (logged Drive.step) (d, []) actions' =
          some ({ d.hear (new ++ past) with storage := t }, (new ++ past).map .storage) := by
    intro s a t new past hI hstep hawaits
    obtain ⟨actions', hrun⟩ := hI (hawaits.of_append)
    refine ⟨actions' ++ [.storage a], ?_⟩
    rw [List.map_append]
    exact Simulation.run_trans hrun (Simulation.run_step (d.step_hear hstep hawaits))
  exact invariant hstep (fun _ => ⟨[], rfl⟩) hrun hawaits

end Drive

/-! ### The machine -/

/-- The arguments that a command is run for. -/
def WireCluster.Action.args : WireCluster.Action → Option IArgsKey
  | .execRead _ _ offset size => some (.readArgsKey readCmdKey offset size)
  | .execWrite _ _ _ _ offset size data _ => some (.writeArgsKey writeCmdKey offset size (some data))
  | _ => none

/-- What an event on the wire writes to the connection. -/
def WireEvent.replies : WireEvent → List (List UInt8)
  | .evaluated _ reply _ => (reply.map WriteReply.bytes).toList
  | .handled effects => effects.filterMap ResponseEffect.notified
  | _ => []

/-- What can be observed of the calls, of `NBDProxy` and of the cluster. -/
inductive WireDriveEvent
  | called (r : Request)
  | decoded (c : NBDProxy.Call) (connection : List UInt8)
  | failed (fault : Fault)
  | cluster (e : WireEvent)
  | returned (r : Request) (result : NBD.Returned)

/-- A call stays inside of a stripe, and a request has arrived as a whole when it is received. -/
def WireDriveEvent.Fits : WireDriveEvent → Prop
  | .called r => r.FitsStripe
  | .decoded c connection => 8 ≤ c.peekReady ∧ connection.length ≤ c.ready
  | _ => True

instance : ∀ e : WireDriveEvent, Decidable e.Fits
  | .called r => inferInstanceAs (Decidable r.FitsStripe)
  | .decoded _ _ => inferInstanceAs (Decidable (_ ∧ _))
  | .failed _ | .cluster _ | .returned _ _ => instDecidableTrue

/-- What an event means for the drive. -/
def WireDriveEvent.observe : WireDriveEvent → List DriveEvent
  | .called r => [.called r]
  | .cluster e => e.observe.map .storage
  | .returned r result => [.returned r result]
  | _ => []

/-- The cluster, the request bytes that were not received, the tasks that no worker has run, the call
that waits, and the reply bytes that it has not received. -/
structure WireDrive where
  cluster : WireCluster
  connection : List UInt8
  tasks : List IArgsKey
  waiting : Option Request
  stream : List UInt8

namespace WireDrive

def start (minions : Minions) : WireDrive :=
  { cluster := .start minions, connection := [], tasks := [], waiting := none, stream := [] }

/-- What happens on the drive. -/
inductive Action
  | call (heap : ℕ → UInt8) (fresh : ThreadSafeUID) (r : Request)
  | getArgsKey (c : NBDProxy.Call)
  | cluster (a : WireCluster.Action)
  | recv (buf : ℕ → UInt8) (ready : ℕ)

/-- A step of the cluster, whose replies go to the stream. -/
def stepCluster (w : WireDrive) (a : WireCluster.Action) :
    Option (WireDrive × List WireDriveEvent) :=
  (w.cluster.step a).map fun (cluster, out) =>
    ({ w with cluster, stream := w.stream ++ (out.flatMap WireEvent.replies).flatten },
      out.map .cluster)

/-- The transitions.  `NBDProxy` is called when there are bytes to be received, and a worker runs the
command for a task that was added. -/
def step (w : WireDrive) : Action → Option (WireDrive × List WireDriveEvent)
  | .call heap fresh r =>
      if w.waiting = none then
        some ({ w with
          connection := w.connection ++ (r.transmission heap fresh).bytes
          waiting := some r }, [.called r])
      else none
  | .getArgsKey c =>
      if w.connection = [] then none
      else
        match NBDProxy.getArgsKey c w.connection with
        | (.ok args, connection) =>
            some ({ w with connection, tasks := w.tasks ++ [args] }, [.decoded c w.connection])
        | (.error fault, connection) =>
            some ({ w with connection }, [.failed fault, .decoded c w.connection])
  | .cluster a =>
      match a.args with
      | none => w.stepCluster a
      | some args =>
          if args ∈ w.tasks then ({ w with tasks := w.tasks.erase args } : WireDrive).stepCluster a
          else none
  | .recv buf ready =>
      match w.waiting with
      | none => none
      | some r =>
          let result := r.call.receive buf ready w.stream
          if result.stream.length < w.stream.length ∨ r.call.len = 0 then
            some ({ w with waiting := none, stream := result.stream }, [.returned r result])
          else none

end WireDrive

/-! ### What the bytes stand for -/

/-- The requests that were sent are on the connection, as their bytes, or were decoded to their
arguments. -/
structure InTransit (connection : List UInt8) (tasks : List IArgsKey) (sent : List Request)
    (onWire : List (Request × ThreadSafeUID)) (decoded : List Request) : Prop where
  bytes : connection = onWire.flatMap fun x => x.1.format x.2
  args : tasks = decoded.map Request.args
  perm : sent.Perm (onWire.map Prod.fst ++ decoded)
  fits : ∀ r ∈ sent, r.FitsStripe

/-- The drive on the wire, and the drive. -/
structure OnDrive (w : WireDrive) (d : Drive) : Prop where
  cluster : OnWire w.cluster d.storage
  pending : ∃ onWire decoded, InTransit w.connection w.tasks d.sent onWire decoded
  waiting : w.waiting = d.waiting
  stream : w.stream = d.stream

theorem onDrive_start (minions : Minions) : OnDrive (.start minions) (.start minions) :=
  ⟨onWire_start minions, ⟨[], [], rfl, rfl, .nil, nofun⟩, rfl, rfl⟩

/-- The events of a step on the wire, and what it is run for. -/
theorem WireCluster.out_cases {w w' : WireCluster} {a : Action} {out : List WireEvent}
    (h : w.step a = some (w', out)) :
    (∃ p r, a.args = some r.args ∧ out = [.issued p r]) ∨
      a.args = none ∧ (out = [] ∨ ∃ e, out = [e] ∧ (∀ p r, e ≠ .issued p r) ∧
        ∀ effects, e = .handled effects → ∃ heap stamp d, a = .receive heap stamp d) := by
  cases a with
  | execRead heap stamp offset size =>
      obtain ⟨⟨uid, master⟩, hexec, hstep⟩ := Option.bind_eq_some_iff.1 h
      obtain ⟨⟨i, t⟩, hsent, heq⟩ := Option.bind_eq_some_iff.1 hstep
      cases heq
      exact .inl ⟨_, _, rfl, rfl⟩
  | execWrite heap ogStamp gap backupStamp offset size data hdata =>
      obtain ⟨⟨uids, master⟩, hexec, hstep⟩ := Option.bind_eq_some_iff.1 h
      obtain ⟨⟨⟨i, og⟩, ⟨j, backup⟩⟩, hsent, heq⟩ := Option.bind_eq_some_iff.1 hstep
      cases heq
      refine .inl ⟨_, .write offset data, ?_, rfl⟩
      have hsize : UInt32.ofNat data.length = size := by
        rw [hdata]
        exact UInt32.ofNat_toNat
      rw [Request.args, hsize]
      rfl
  | newUID stamp =>
      obtain ⟨⟨uid, master⟩, hnew, heq⟩ := Option.map_eq_some_iff.1 h
      cases heq
      exact .inr ⟨rfl, .inl rfl⟩
  | poll p =>
      obtain ⟨⟨master, e⟩, hpoll, heq⟩ := Option.bind_eq_some_iff.1 h
      obtain ⟨reply, ret, rfl, -⟩ := Master.poll_cases hpoll
      cases heq
      exact .inr ⟨rfl, .inr ⟨_, rfl, by simp, by simp⟩⟩
  | receive heap stamp d =>
      simp only [step, Option.ite_none_right_eq_some, Option.map_eq_some_iff] at h
      obtain ⟨-, ⟨fresh, master⟩, -, heq⟩ := h
      refine .inr ⟨rfl, .inr ?_⟩
      split at heq <;> cases heq <;> exact ⟨_, rfl, by simp, fun _ _ => ⟨_, _, _, rfl⟩⟩
  | serve heap fresh i d =>
      simp only [step, Option.ite_none_right_eq_some] at h
      obtain ⟨-, heq⟩ := h
      refine .inr ⟨rfl, .inr ?_⟩
      split at heq
      · split at heq <;> cases heq <;> exact ⟨_, rfl, by simp, by simp⟩
      · cases heq
        exact ⟨_, rfl, by simp, by simp⟩
  | _ =>
      simp only [step, Option.ite_none_right_eq_some] at h
      obtain ⟨-, heq⟩ := h
      cases heq
      exact .inr ⟨rfl, .inl rfl⟩

/-- What the events of a step write to the connection. -/
theorem OnWire.replies_eq {w w' : WireCluster} {s : StorageCluster} (h : OnWire w s)
    {a : WireCluster.Action} {out : List WireEvent} (hstep : w.step a = some (w', out)) :
    out.flatMap WireEvent.replies = (out.flatMap WireEvent.observe).flatMap StorageEvent.replies := by
  rcases WireCluster.out_cases hstep with ⟨p, r, -, rfl⟩ | ⟨-, rfl | ⟨e, rfl, -, hreceive⟩⟩
  · rfl
  · rfl
  · cases e with
    | issued p r => rfl
    | executed i args =>
        simp only [List.flatMap_singleton, WireEvent.replies, WireEvent.observe]
        cases StoreRequest.ofArgs args <;> rfl
    | handled effects =>
        obtain ⟨heap, stamp, d, rfl⟩ := hreceive effects rfl
        simp only [WireCluster.step, Option.ite_none_right_eq_some, Option.map_eq_some_iff] at hstep
        obtain ⟨hd, ⟨fresh, master⟩, hnew, heq⟩ := hstep
        obtain ⟨r, hr, rfl⟩ := h.responses.exists_of_mem hd
        obtain ⟨hsuccess, hlen⟩ := h.answers r hr
        rw [ResponseProxy.getArgsKey_wire hlen heap fresh []] at heq
        cases heq
        simp only [List.flatMap_singleton, WireEvent.replies, WireEvent.observe,
          Response.ofEffects_effects hsuccess]
        simp [StorageEvent.replies, StorageEvent.events, Event.replies]
    | evaluated p reply ret =>
        simp [WireEvent.replies, WireEvent.observe, StorageEvent.replies, StorageEvent.events,
          Event.replies]
    | failed fault => rfl

namespace InTransit

variable {connection : List UInt8} {tasks : List IArgsKey} {sent : List Request}
  {onWire : List (Request × ThreadSafeUID)} {decoded : List Request}

/-- A request is sent. -/
theorem call (h : InTransit connection tasks sent onWire decoded) {r : Request} (hr : r.FitsStripe)
    (heap : ℕ → UInt8) (fresh : ThreadSafeUID) :
    InTransit (connection ++ (r.transmission heap fresh).bytes) tasks (sent ++ [r])
      (onWire ++ [(r, fresh)]) decoded where
  bytes := by
    rw [h.bytes, Request.bytes_transmission hr, List.flatMap_append]
    simp
  args := h.args
  perm := by
    rw [List.map_append, List.append_assoc]
    have hmove := h.perm.append_right [r]
    rw [List.append_assoc] at hmove
    exact hmove.trans (List.perm_append_comm.append_left _)
  fits r' hr' := by
    rcases List.mem_append.1 hr' with hr' | hr'
    · exact h.fits r' hr'
    · rw [List.mem_singleton.1 hr']
      exact hr

/-- The first request on the connection is decoded. -/
theorem getArgsKey (h : InTransit connection tasks sent onWire decoded) (hne : connection ≠ [])
    {c : NBDProxy.Call} (hpeek : 8 ≤ c.peekReady) (hready : connection.length ≤ c.ready) :
    ∃ r rest later, NBDProxy.getArgsKey c connection = (.ok r.args, rest) ∧
      InTransit rest (tasks ++ [r.args]) sent later (decoded ++ [r]) := by
  cases onWire with
  | nil => exact absurd h.bytes hne
  | cons x later =>
      obtain ⟨r, uid⟩ := x
      have hr : r.FitsStripe := h.fits r (h.perm.symm.subset (List.mem_cons_self ..))
      have hbytes := h.bytes
      rw [List.flatMap_cons] at hbytes
      refine ⟨r, later.flatMap fun x => x.1.format x.2, later, ?_, rfl, ?_, ?_, h.fits⟩
      · rw [hbytes] at hready ⊢
        exact r.getArgsKey_format hr uid hpeek hready
      · rw [h.args, List.map_append]
        rfl
      · refine h.perm.trans ?_
        rw [List.map_cons, List.cons_append, ← List.append_assoc]
        exact (List.perm_append_singleton _ _).symm

/-- A decoded request is one that was sent, and its task is run once. -/
theorem run (h : InTransit connection tasks sent onWire decoded) {r : Request}
    (hr : r.args ∈ tasks) : r ∈ sent ∧
      InTransit connection (tasks.erase r.args) (sent.erase r) onWire (decoded.erase r) := by
  have hdecoded : r ∈ decoded := by
    rw [h.args] at hr
    obtain ⟨r', hr', heq⟩ := List.mem_map.1 hr
    rwa [← Request.args_injective heq]
  refine ⟨h.perm.symm.subset (List.mem_append_right _ hdecoded), h.bytes, ?_, ?_, ?_⟩
  · rw [h.args, ← List.map_erase Request.args_injective]
  · have herase := h.perm.erase r
    refine herase.trans ?_
    have hmove : (onWire.map Prod.fst ++ decoded).Perm
        (r :: (onWire.map Prod.fst ++ decoded.erase r)) :=
      ((List.perm_cons_erase hdecoded).append_left _).trans List.perm_middle
    have hboth := hmove.erase r
    rwa [List.erase_cons_head] at hboth
  · exact fun r' hr' => h.fits r' (List.mem_of_mem_erase hr')

end InTransit

/-! ### The simulation -/

/-- An event other than that of a command means at most one event of the cluster, which is not that of
a command either. -/
theorem WireEvent.observe_cases {e : WireEvent} (h : ∀ p r, e ≠ .issued p r) :
    e.observe = [] ∨ ∃ x : StorageEvent, x.executed = none ∧ e.observe = [x] := by
  cases e with
  | issued p r => exact absurd rfl (h p r)
  | executed i args =>
      simp only [WireEvent.observe]
      cases StoreRequest.ofArgs args with
      | none => exact .inl rfl
      | some r => exact .inr ⟨_, rfl, rfl⟩
  | handled effects =>
      simp only [WireEvent.observe]
      cases Response.ofEffects effects with
      | none => exact .inl rfl
      | some r => exact .inr ⟨_, rfl, rfl⟩
  | evaluated p reply ret => exact .inr ⟨_, rfl, rfl⟩
  | failed fault => exact .inl rfl

namespace WireDrive

variable {w w' : WireDrive} {d : Drive}

/-- What a step of the cluster means for the drive. -/
structure Heard (d d' : Drive) (cluster : WireCluster) (out : List WireEvent) : Prop where
  cluster : OnWire cluster d'.storage
  waiting : d'.waiting = d.waiting
  stream : d'.stream = d.stream ++ (out.flatMap WireEvent.replies).flatten
  quiet : (∀ p r, out ≠ [.issued p r]) → d'.sent = d.sent
  issued : ∀ p r, out = [.issued p r] → d'.sent = d.sent.erase r

/-- A step of the cluster on the wire is a few steps of the drive. -/
theorem exists_heard {c c' : WireCluster} {a : WireCluster.Action} {out : List WireEvent}
    (h : OnWire c d.storage) (hstep : c.step a = some (c', out)) (hfit : ∀ e ∈ out, e.Fits)
    (hsent : ∀ p r, out = [.issued p r] → r ∈ d.sent) :
    (∃ bs d', Transition.run (logged Drive.step) (d, []) bs =
      some (d', (out.flatMap WireEvent.observe).map .storage) ∧ Heard d d' c' out) ∧
      ∀ fault, .failed fault ∉ out := by
  obtain ⟨⟨bs, s', hrun, hs'⟩, hnone⟩ := WireCluster.step_onWire h hfit hstep
  refine ⟨?_, hnone⟩
  have hreplies := h.replies_eq hstep
  rcases WireCluster.out_cases hstep with ⟨p, r, -, rfl⟩ | ⟨-, rfl | ⟨e, rfl, hother, -⟩⟩
  · -- a command for a request that was sent
    have hawaits : Every d.Awaits [.issued p r] := by
      refine ⟨fun r' heq => ?_, trivial⟩
      cases heq
      exact hsent p r rfl
    obtain ⟨bs', hdrive⟩ := d.run_hear hrun hawaits
    refine ⟨bs', _, hdrive, hs', rfl, rfl, fun hne => absurd rfl (hne p r), ?_⟩
    intro p' r' heq
    cases heq
    rfl
  · obtain ⟨bs', hdrive⟩ := d.run_hear hrun trivial
    exact ⟨bs', _, hdrive, hs', rfl, (List.append_nil _).symm, fun _ => rfl, nofun⟩
  · have hquiet : ∀ p r, [e] = [.issued p r] → False := by
      intro p r heq
      exact hother p r (List.singleton_inj.1 heq)
    have hmeans : [e].flatMap WireEvent.observe = e.observe := List.flatMap_singleton ..
    rw [hmeans] at hrun hreplies ⊢
    rcases WireEvent.observe_cases hother with hobserve | ⟨x, hx, hobserve⟩
    · rw [hobserve] at hrun ⊢
      obtain ⟨bs', hdrive⟩ := d.run_hear hrun trivial
      refine ⟨bs', _, hdrive, hs', rfl, ?_, fun _ => rfl, fun p r heq => (hquiet p r heq).elim⟩
      rw [hreplies, hobserve]
      exact (List.append_nil _).symm
    · rw [hobserve] at hrun ⊢
      have hawaits : Every d.Awaits [x] := by
        refine ⟨fun r' heq => ?_, trivial⟩
        rw [hx] at heq
        cases heq
      obtain ⟨bs', hdrive⟩ := d.run_hear hrun hawaits
      refine ⟨bs', _, hdrive, hs', rfl, ?_, fun _ => ?_, fun p r heq => (hquiet p r heq).elim⟩
      · rw [hreplies, hobserve, List.flatMap_singleton]
        rfl
      · simp [Drive.hear, hx]

/-- The step on the wire is matched by a run of the drive, and nobody throws in it. -/
def Matched (d : Drive) (w' : WireDrive) (out : List WireDriveEvent) : Prop :=
  (∃ bs d', Transition.run (logged Drive.step) (d, []) bs =
    some (d', out.flatMap WireDriveEvent.observe) ∧ OnDrive w' d') ∧
    ∀ fault, .failed fault ∉ out ∧ .cluster (.failed fault) ∉ out

/-- A request is decoded. -/
theorem matched_getArgsKey (h : OnDrive w d) {c : NBDProxy.Call} {out : List WireDriveEvent}
    (hfit : ∀ e ∈ out, e.Fits) (hstep : w.step (.getArgsKey c) = some (w', out)) :
    Matched d w' out := by
  obtain ⟨onWire, decoded, hpending⟩ := h.pending
  simp only [step, Option.ite_none_left_eq_some] at hstep
  obtain ⟨hne, hstep⟩ := hstep
  have hdecoded : .decoded c w.connection ∈ out := by
    split at hstep <;> cases hstep <;> simp
  obtain ⟨hpeek, hready⟩ := hfit _ hdecoded
  obtain ⟨r, rest, later, hdecode, hnext⟩ := hpending.getArgsKey hne hpeek hready
  rw [hdecode] at hstep
  cases hstep
  exact ⟨⟨[], d, rfl, h.cluster, ⟨_, _, hnext⟩, h.waiting, h.stream⟩, by simp⟩

theorem observe_cluster (out : List WireEvent) :
    (out.map WireDriveEvent.cluster).flatMap WireDriveEvent.observe =
      (out.flatMap WireEvent.observe).map .storage := by
  rw [List.flatMap_map, List.map_flatMap]
  rfl

/-- The cluster goes on alike on both sides. -/
theorem Heard.onDrive {d' : Drive} {c' : WireCluster} {out : List WireEvent}
    (hheard : Heard d d' c' out) (h : OnDrive w d) {tasks : List IArgsKey}
    {onWire : List (Request × ThreadSafeUID)} {decoded : List Request}
    (hpending : InTransit w.connection tasks d'.sent onWire decoded) :
    OnDrive { w with
      cluster := c'
      tasks
      stream := w.stream ++ (out.flatMap WireEvent.replies).flatten } d' where
  cluster := hheard.cluster
  pending := ⟨_, _, hpending⟩
  waiting := h.waiting.trans hheard.waiting.symm
  stream := by rw [hheard.stream, h.stream]

/-- A step of the cluster that is no command. -/
theorem matched_quiet (h : OnDrive w d) {a : WireCluster.Action} {out : List WireDriveEvent}
    (hargs : a.args = none) (hstep : w.stepCluster a = some (w', out)) : Matched d w' out := by
  obtain ⟨onWire, decoded, hpending⟩ := h.pending
  obtain ⟨⟨c', out'⟩, hcluster, heq⟩ := Option.map_eq_some_iff.1 hstep
  cases heq
  have hother : ∀ p r, .issued p r ∉ out' := by
    intro p r hmem
    rcases WireCluster.out_cases hcluster with ⟨p', r', hr, -⟩ | ⟨-, rfl | ⟨e, rfl, hother, -⟩⟩
    · rw [hargs] at hr
      cases hr
    · cases hmem
    · exact hother p r (List.mem_singleton.1 hmem).symm
  have hfits : ∀ e ∈ out', e.Fits := by
    intro e he
    cases e with
    | issued p r => exact absurd he (hother p r)
    | _ => trivial
  have hne : ∀ p r, out' ≠ [.issued p r] := by
    rintro p r rfl
    exact hother p r (List.mem_singleton_self _)
  obtain ⟨⟨bs, d', hrun, hheard⟩, hnone⟩ :=
    exists_heard h.cluster hcluster hfits fun p r heq => absurd heq (hne p r)
  rw [← hheard.quiet hne] at hpending
  rw [← observe_cluster] at hrun
  refine ⟨⟨bs, d', hrun, hheard.onDrive h hpending⟩, fun fault => ⟨by simp, ?_⟩⟩
  simpa using hnone fault

/-- A command is run for a task. -/
theorem matched_command (h : OnDrive w d) {a : WireCluster.Action} {args : IArgsKey}
    {out : List WireDriveEvent} (hargs : a.args = some args) (htask : args ∈ w.tasks)
    (hstep : ({ w with tasks := w.tasks.erase args } : WireDrive).stepCluster a = some (w', out)) :
    Matched d w' out := by
  obtain ⟨onWire, decoded, hpending⟩ := h.pending
  obtain ⟨⟨c', out'⟩, hcluster, heq⟩ := Option.map_eq_some_iff.1 hstep
  cases heq
  rcases WireCluster.out_cases hcluster with ⟨p, r, hr, rfl⟩ | ⟨hr, -⟩
  · rw [hargs] at hr
    cases hr
    obtain ⟨hsent, hnext⟩ := hpending.run htask
    have hfits : ∀ e ∈ [WireEvent.issued p r], e.Fits := by
      intro e he
      rw [List.mem_singleton.1 he]
      exact hpending.fits r hsent
    have hissued : ∀ p' r', [WireEvent.issued p r] = [.issued p' r'] → r' ∈ d.sent := by
      intro p' r' heq
      cases heq
      exact hsent
    obtain ⟨⟨bs, d', hrun, hheard⟩, -⟩ := exists_heard h.cluster hcluster hfits hissued
    rw [← hheard.issued p r rfl] at hnext
    rw [← observe_cluster] at hrun
    exact ⟨⟨bs, d', hrun, hheard.onDrive h hnext⟩, by simp⟩
  · rw [hargs] at hr
    cases hr

/-- Every step on the wire is matched. -/
theorem step_onDrive (h : OnDrive w d) {a : Action} {out : List WireDriveEvent}
    (hfit : ∀ e ∈ out, e.Fits) (hstep : w.step a = some (w', out)) : Matched d w' out := by
  cases a with
  | call heap fresh r =>
      obtain ⟨onWire, decoded, hpending⟩ := h.pending
      simp only [step, Option.ite_none_right_eq_some] at hstep
      obtain ⟨hwaiting, heq⟩ := hstep
      cases heq
      have hr : r.FitsStripe := hfit _ (List.mem_singleton_self _)
      rw [h.waiting] at hwaiting
      refine ⟨⟨[.call r], _, Simulation.run_step (if_pos hwaiting), ?_⟩, by simp⟩
      exact ⟨h.cluster, ⟨_, _, hpending.call hr heap fresh⟩, rfl, h.stream⟩
  | getArgsKey c => exact matched_getArgsKey h hfit hstep
  | cluster a =>
      simp only [step] at hstep
      split at hstep
      · exact matched_quiet h ‹_› hstep
      · simp only [Option.ite_none_right_eq_some] at hstep
        exact matched_command h ‹_› hstep.1 hstep.2
  | recv buf ready =>
      simp only [step] at hstep
      split at hstep
      · cases hstep
      · rename_i r hwaiting
        simp only [Option.ite_none_right_eq_some] at hstep
        obtain ⟨hreceived, heq⟩ := hstep
        cases heq
        rw [h.stream] at hreceived ⊢
        rw [h.waiting] at hwaiting
        have hdrive : d.step (.recv buf ready) = some
            ({ d with waiting := none, stream := (r.call.receive buf ready d.stream).stream },
              [.returned r (r.call.receive buf ready d.stream)]) := by
          simp only [Drive.step, hwaiting, if_pos hreceived]
        refine ⟨⟨[.recv buf ready], _, Simulation.run_step hdrive, ?_⟩, by simp⟩
        exact ⟨h.cluster, h.pending, rfl, rfl⟩

theorem forward_onDrive :
    Simulation.Forward step WireDriveEvent.Fits Drive.step OnDrive WireDriveEvent.observe :=
  fun _ _ _ _ _ h hfit hstep => (step_onDrive h hfit hstep).1

end WireDrive

/-- **The drive refines to bytes.** As long as calls stay inside of a stripe and requests have arrived
as a whole when they are received, every run on the wire has the events of a run of the drive, and
neither `NBDProxy` nor the cluster throws in it. -/
theorem wire_drive_refines_drive (minions : Minions) (actions : List WireDrive.Action)
    {w : WireDrive} {history : List WireDriveEvent}
    (hrun : Transition.run (logged WireDrive.step) (.start minions, []) actions = some (w, history))
    (hfit : ∀ e ∈ history, e.Fits) :
    (∃ actions' d, Transition.run (logged Drive.step) (.start minions, []) actions' =
      some (d, history.flatMap WireDriveEvent.observe) ∧ OnDrive w d) ∧
    ∀ fault, .failed fault ∉ history ∧ .cluster (.failed fault) ∉ history := by
  refine ⟨WireDrive.forward_onDrive.run (onDrive_start minions) hfit hrun, ?_⟩
  have hstep : ∀ (w : WireDrive) a w' out h,
      ((∀ e ∈ h, e.Fits) → (∃ d, OnDrive w d) ∧
        ∀ fault, .failed fault ∉ h ∧ .cluster (.failed fault) ∉ h) →
      w.step a = some (w', out) → (∀ e ∈ out ++ h, e.Fits) →
      (∃ d, OnDrive w' d) ∧
        ∀ fault, .failed fault ∉ out ++ h ∧ .cluster (.failed fault) ∉ out ++ h := by
    intro w a w' out h hI hstep hfit
    obtain ⟨⟨d, hd⟩, hnone⟩ := hI fun e he => hfit e (List.mem_append_right _ he)
    obtain ⟨⟨bs, d', -, hd'⟩, hout⟩ :=
      WireDrive.step_onDrive hd (fun e he => hfit e (List.mem_append_left _ he)) hstep
    refine ⟨⟨d', hd'⟩, fun fault => ⟨?_, ?_⟩⟩
    · exact fun hin => (List.mem_append.1 hin).elim (hout fault).1 (hnone fault).1
    · exact fun hin => (List.mem_append.1 hin).elim (hout fault).2 (hnone fault).2
  exact (invariant hstep (fun _ => ⟨⟨_, onDrive_start minions⟩,
    fun _ => ⟨List.not_mem_nil, List.not_mem_nil⟩⟩) hrun hfit).2

/-- **The drive on the wire is an array.** In every run on bytes whose meaning is orderly, on minions
whose copies mirror an array at the start, every call returns zero, and a read returns the bytes that
the array has after the calls that returned before. -/
theorem wire_call_returns {minions : Minions} {actions : List WireDrive.Action} {w : WireDrive}
    {history : List WireDriveEvent} (hready : minions.Ready)
    (hrun : Transition.run (logged WireDrive.step) (.start minions, []) actions = some (w, history))
    (hfit : ∀ e ∈ history, e.Fits) (hbound : w.cluster.master.constructed < 2 ^ 32)
    {disk : FlatDisk} (hmirrors : Mirrors place device minions.bytes disk)
    (hord : Every Drive.Orderly (history.flatMap WireDriveEvent.observe)) :
    Every (Returns disk) (history.flatMap WireDriveEvent.observe) := by
  obtain ⟨actions', d, hrun', hd⟩ := WireDrive.forward_onDrive.run (onDrive_start minions) hfit hrun
  rw [hd.cluster.master] at hbound
  exact (serial_run hready hrun' hbound hmirrors hord).every

/-- A call of `NBDProxy` when all is there. -/
def nbdCall : NBDProxy.Call :=
  { heap := fun _ _ => 0, fresh := ⟨0, 0, 0, 0⟩, peekReady := 8, ready := 64 }

theorem length_arrayData : ([1, 2, 3, 4, 5, 6, 7, 8] : List UInt8).length = (8 : UInt32).toNat :=
  rfl

/-- The calls of `arrayRun`, on the wire. -/
def wireArrayRun : List WireDrive.Action :=
  [.call (fun _ => 0) ⟨0, 0, 0, 0⟩ (.write 4 [1, 2, 3, 4, 5, 6, 7, 8]), .getArgsKey nbdCall,
    .cluster (.execWrite (fun _ _ => 0) ⟨0, 0⟩ [] ⟨0, 0⟩ 4 8 [1, 2, 3, 4, 5, 6, 7, 8]
      length_arrayData),
    .cluster (.serve (fun _ _ => 0) ⟨0, 0, 0, 0⟩ 1
      (StoreRequest.write 4194308 8 [1, 2, 3, 4, 5, 6, 7, 8] (nthUid 2) length_arrayData).format),
    .cluster (.serve (fun _ _ => 0) ⟨0, 0, 0, 0⟩ 0
      (StoreRequest.write 4 8 [1, 2, 3, 4, 5, 6, 7, 8] (nthUid 1) length_arrayData).format),
    .cluster (.receive (fun _ _ => 0) ⟨0, 0⟩ (Response.write (nthUid 2) true).wire),
    .cluster (.receive (fun _ _ => 0) ⟨0, 0⟩ (Response.write (nthUid 1) true).wire),
    .cluster (.poll (.writeAIFunc (nthUid 1) (nthUid 2))), .recv (fun _ => 0) 8,
    .call (fun _ => 0) ⟨0, 0, 0, 0⟩ (.read 2 4), .getArgsKey nbdCall,
    .cluster (.execRead (fun _ _ => 0) ⟨0, 0⟩ 2 4),
    .cluster (.serve (fun _ _ => 0) ⟨0, 0, 0, 0⟩ 0 (StoreRequest.read 2 4 (nthUid 5)).format),
    .cluster (.receive (fun _ _ => 0) ⟨0, 0⟩ (Response.read (nthUid 5) true [0, 0, 1, 2]).wire),
    .recv (fun _ => 0) 4]

/-- Its events before the last one, the latest first. -/
def wireArrayPast : List WireDriveEvent :=
  [.cluster (.handled [.registerResponse (nthUid 5), .notifySucces (some [0, 0, 1, 2]) 4]),
    .cluster (.executed 0 (.minionReadArgsKey minionReadCmdKey 2 4 (nthUid 5))),
    .cluster (.issued (.readAIFunc (nthUid 5)) (.read 2 4)),
    .decoded nbdCall (Request.format ⟨0, 0, 0, 0⟩ (.read 2 4)), .called (.read 2 4),
    .returned (.write 4 [1, 2, 3, 4, 5, 6, 7, 8]) ⟨0, [83, 117, 99, 99, 101, 115, 115, 0], []⟩,
    .cluster (.evaluated (.writeAIFunc (nthUid 1) (nthUid 2)) (some .success) true),
    .cluster (.handled [.registerResponse (nthUid 1)]),
    .cluster (.handled [.registerResponse (nthUid 2)]),
    .cluster (.executed 0
      (.minionWriteArgsKey minionWriteCmdKey 4 8 (some [1, 2, 3, 4, 5, 6, 7, 8]) (nthUid 1))),
    .cluster (.executed 1
      (.minionWriteArgsKey minionWriteCmdKey 4194308 8 (some [1, 2, 3, 4, 5, 6, 7, 8]) (nthUid 2))),
    .cluster (.issued (.writeAIFunc (nthUid 1) (nthUid 2)) (.write 4 [1, 2, 3, 4, 5, 6, 7, 8])),
    .decoded nbdCall (Request.format ⟨0, 0, 0, 0⟩ (.write 4 [1, 2, 3, 4, 5, 6, 7, 8])),
    .called (.write 4 [1, 2, 3, 4, 5, 6, 7, 8])]

theorem run_wireArrayRun :
    ∃ w, Transition.run (logged WireDrive.step) (.start .opened, [])
        wireArrayRun = some (w, .returned (.read 2 4) ⟨0, [0, 0, 1, 2], []⟩ :: wireArrayPast) ∧
      w.cluster.master.constructed < 2 ^ 32 :=
  ⟨_, rfl, by decide⟩

theorem wire_drive_refines_drive_wireArrayRun :
    ∃ actions' d, Transition.run (logged Drive.step)
      (.start .opened, []) actions' =
        some (d, .returned (.read 2 4) ⟨0, [0, 0, 1, 2], []⟩ :: arrayPast) := by
  obtain ⟨w, hrun, -⟩ := run_wireArrayRun
  obtain ⟨⟨actions', d, hrun', -⟩, -⟩ := wire_drive_refines_drive _ wireArrayRun hrun (by decide)
  exact ⟨actions', d, hrun'⟩

theorem wire_call_returns_wireArrayRun :
    (⟨0, [0, 0, 1, 2], []⟩ : NBD.Returned).buf = Extent.extract (written .zero arrayPast) 2 4 := by
  obtain ⟨w, hrun, hbound⟩ := run_wireArrayRun
  have hready : Minions.opened.Ready := fun _ => Minion.ready_opened
  have hmirrors : Mirrors place device Minions.opened.bytes
      FlatDisk.zero :=
    fun _ _ _ => rfl
  -- the run means the events of `arrayRun`, which duplicates nothing
  obtain ⟨t, hdrive, hconstructed⟩ := run_arrayRun
  have hord := (undisturbed_run hready hdrive hconstructed (by decide) (by decide)).every
  have hevery := wire_call_returns hready hrun (by decide) hbound hmirrors hord
  exact hevery.1.2 2 4 rfl

end IotDrive
