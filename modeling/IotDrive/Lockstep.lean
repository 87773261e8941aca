/-
One reply per request, in step.

The block-device side waits for the reply to a request before it makes the next one.  The replies to
writes come from their pollers, of which at most one is held; but read data is forwarded whenever a
successful `MinionReadMsg` arrives, so a second copy of one is a reply that nothing asked for.  As
long as no second copy arrives, every reply answers the request that is outstanding.

Main definitions:

* `RepliesInStep` — what is required of a reply, given the events before it;
* `Client.InTurn` — the condition on a step;
* `Serving` — the invariant: no request is outstanding, or one that is sent, or one that is issued.

Main results:

* `Serving.cluster`, `InStep.step` — every step in turn preserves the invariant;
* `every_reply_in_step` — **one reply per request**, in all runs in turn;
* `duplicated_read_out_of_step` — a run with a reply too many.
-/

import IotDrive.Client

set_option relaxedAutoImplicit false
set_option autoImplicit false

namespace IotDrive

open History

/-! ### Replies and requests -/

/-- The event replies to the request whose command left the poller behind. -/
def ClientEvent.Answers (p : Poller) : ClientEvent → Prop
  | .master (.received (.read uid true _)) => p = .readAIFunc uid
  | .master (.evaluated q (some _) _) => p = q
  | _ => False

/-- A reply is written while a request is outstanding, and answers the one command that was issued
since it was made. -/
def RepliesInStep (past : List ClientEvent) (e : ClientEvent) : Prop :=
  e.replies ≠ [] → replies past < calls past ∧
    ∃ p, (∀ q, .master (.issued q) ∈ sinceCall past ↔ q = p) ∧ e.Answers p

/-- A call waits for the reply to the call before; and no successful response to a read arrives
that has arrived before. -/
def Client.InTurn (history : List ClientEvent) : Client.Action → Prop
  | .call _ => calls history ≤ replies history
  | .cluster (.receive _ (.read uid true _)) =>
      uid ∉ history.filterMap fun
        | .master (.received (.read uid true _)) => some uid
        | _ => none
  | _ => True

instance (history : List ClientEvent) : ∀ a, Decidable (Client.InTurn history a)
  | .call _ => Nat.decLe _ _
  | .cluster (.receive _ (.read _ true _)) => instDecidableNot
  | .cluster (.receive _ (.read _ false _)) => instDecidableTrue
  | .cluster (.receive _ (.write _ _)) => instDecidableTrue
  | .cluster (.poll _) => instDecidableTrue
  | .recv _ _ => instDecidableTrue
  | .execRead _ _ => instDecidableTrue
  | .execWrite _ _ _ _ => instDecidableTrue
  | .cluster (.execRead _ _) => instDecidableTrue
  | .cluster (.execWrite _ _ _) => instDecidableTrue
  | .cluster (.newUID _) => instDecidableTrue
  | .cluster (.answer _ _ _) => instDecidableTrue
  | .cluster (.loseRequest _) => instDecidableTrue
  | .cluster (.loseResponse _) => instDecidableTrue
  | .cluster (.duplicateRequest _) => instDecidableTrue
  | .cluster (.duplicateResponse _) => instDecidableTrue

/-! ### The invariant -/

/-- A successful response to the read was received. -/
def Answered (history : List ClientEvent) (uid : ThreadSafeUID) : Prop :=
  ∃ data, .master (.received (.read uid true data)) ∈ history

/-- What has become of the last request.  Reads that are still in flight were answered before,
unless they are the request that is outstanding. -/
inductive Serving (s : Client) (history : List ClientEvent) : Prop
  | idle (hcount : calls history = replies history) (hsent : s.sent = [])
      (hpollers : s.cluster.master.writePollers = [])
      (hreads : ∀ uid, .read uid ∈ s.cluster.flight → Answered history uid)
  | sent (c : Call) (hcount : calls history = replies history + 1) (hsent : s.sent = [c])
      (hissued : ∀ q, .master (.issued q) ∉ sinceCall history)
      (hpollers : s.cluster.master.writePollers = [])
      (hreads : ∀ uid, .read uid ∈ s.cluster.flight → Answered history uid)
  | issued (p : Poller) (hcount : calls history = replies history + 1) (hsent : s.sent = [])
      (hissued : ∀ q, .master (.issued q) ∈ sinceCall history ↔ q = p)
      (hpollers : s.cluster.master.writePollers = [p].filter Poller.isWrite)
      (hreads : ∀ uid, .read uid ∈ s.cluster.flight →
        Answered history uid ∨ p = .readAIFunc uid)

/-- The request is followed, and so far every reply was in step. -/
structure InStep (s : Client) (history : List ClientEvent) : Prop where
  serving : Serving s history
  every : Every RepliesInStep history

variable {s t : Client} {history : List ClientEvent}

theorem Answered.append {uid : ThreadSafeUID} (h : Answered history uid) (out : List ClientEvent) :
    Answered (out ++ history) uid := by
  obtain ⟨data, hin⟩ := h
  exact ⟨data, List.mem_append_right _ hin⟩

/-- A response in turn answers no read that was answered before. -/
theorem not_answered_of_inTurn {stamp : Stamp} {uid : ThreadSafeUID} {data : List UInt8}
    (h : Client.InTurn history (.cluster (.receive stamp (.read uid true data)))) :
    ¬ Answered history uid := by
  rintro ⟨data', hin⟩
  exact h (List.mem_filterMap.2 ⟨_, hin, rfl⟩)

/-- A step that makes no call, issues nothing, replies nothing and puts nothing in flight leaves the
request where it is. -/
theorem Serving.quiet (h : Serving s history) {out : List ClientEvent} (hsent : t.sent = s.sent)
    (hpollers : t.cluster.master.writePollers = s.cluster.master.writePollers)
    (hflight : ∀ q ∈ t.cluster.flight, q ∈ s.cluster.flight)
    (hcalls : calls (out ++ history) = calls history)
    (hreplies : replies (out ++ history) = replies history)
    (hissued : ∀ q, .master (.issued q) ∈ sinceCall (out ++ history) ↔
      .master (.issued q) ∈ sinceCall history) : Serving t (out ++ history) := by
  cases h with
  | idle hcount hsent' hpollers' hreads =>
      refine .idle ?_ (hsent.trans hsent') (hpollers.trans hpollers') ?_
      · rw [hcalls, hreplies, hcount]
      · intro uid huid
        exact (hreads uid (hflight _ huid)).append out
  | sent c hcount hsent' hissued' hpollers' hreads =>
      refine .sent c ?_ (hsent.trans hsent') ?_ (hpollers.trans hpollers') ?_
      · rw [hcalls, hreplies, hcount]
      · intro q hq
        exact hissued' q ((hissued q).1 hq)
      · intro uid huid
        exact (hreads uid (hflight _ huid)).append out
  | issued p hcount hsent' hissued' hpollers' hreads =>
      refine .issued p ?_ (hsent.trans hsent') ?_ (hpollers.trans hpollers') ?_
      · rw [hcalls, hreplies, hcount]
      · intro q
        exact (hissued q).trans (hissued' q)
      · intro uid huid
        exact (hreads uid (hflight _ huid)).imp_left fun h => h.append out

/-- A write that is replied to was the request outstanding, and none is any more. -/
theorem Serving.reply_write (h : Serving s history) {ogUid backupUid : ThreadSafeUID}
    {reply : WriteReply} {ret : Bool} {m : Master} {stream : List UInt8}
    (heval : s.cluster.master.Evaluates (.writeAIFunc ogUid backupUid) m (some reply) ret) :
    RepliesInStep history (.master (.evaluated (.writeAIFunc ogUid backupUid) (some reply) ret)) ∧
      Serving { s with cluster := { s.cluster with master := m }, stream := stream }
        (.master (.evaluated (.writeAIFunc ogUid backupUid) (some reply) ret) :: history) := by
  obtain ⟨hmem, hwrites⟩ := heval.writePollers_write
  cases h with
  | idle _ _ hpollers _ =>
      rw [hpollers] at hmem
      cases hmem
  | sent _ _ _ _ hpollers _ =>
      rw [hpollers] at hmem
      cases hmem
  | issued p hcount hsent hissued hpollers hreads =>
      rw [hpollers] at hmem
      have hp := List.mem_singleton.1 (List.mem_filter.1 hmem).1
      subst hp
      refine ⟨fun _ => ⟨by omega, _, hissued, rfl⟩, .idle ?_ hsent ?_ ?_⟩
      · rw [replies_cons, calls_master, hcount]
        exact Nat.add_comm _ _
      · rw [hwrites, hpollers]
        simp [Poller.isWrite]
      · intro uid huid
        rcases hreads uid huid with hold | hread
        · exact hold.append [_]
        · cases hread

/-- A read that is replied to was the request outstanding, and none is any more. -/
theorem Serving.reply_read (h : Serving s history) {uid : ThreadSafeUID} {data : List UInt8}
    {m : Master} {stream : List UInt8} (hr : .read uid true data ∈ s.cluster.responses)
    (hnew : ¬ Answered history uid)
    (hwrites : m.writePollers = s.cluster.master.writePollers) :
    RepliesInStep history (.master (.received (.read uid true data))) ∧
      Serving
        { s with
          cluster := { s.cluster with
            master := m, responses := s.cluster.responses.erase (.read uid true data) }
          stream := stream }
        (.master (.received (.read uid true data)) :: history) := by
  have hperm : s.cluster.flight.Perm (.read uid :: ({ s.cluster with
      master := m, responses := s.cluster.responses.erase (.read uid true data) } :
        Cluster).flight) := Cluster.flight_erase_response hr rfl rfl
  have hin : .read uid ∈ s.cluster.flight := hperm.symm.subset (List.mem_cons_self ..)
  cases h with
  | idle _ _ _ hreads => exact absurd (hreads uid hin) hnew
  | sent _ _ _ _ _ hreads => exact absurd (hreads uid hin) hnew
  | issued p hcount hsent hissued hpollers hreads =>
      obtain rfl := (hreads uid hin).resolve_left hnew
      refine ⟨fun _ => ⟨by omega, _, hissued, rfl⟩, .idle ?_ hsent ?_ ?_⟩
      · rw [replies_cons, calls_master, hcount]
        exact Nat.add_comm _ _
      · rw [hwrites, hpollers]
        rfl
      · intro uid' huid'
        rcases hreads uid' (hperm.symm.subset (List.mem_cons_of_mem _ huid')) with hold | hread
        · exact hold.append [_]
        · -- other copies of this response have been answered now
          cases hread
          exact ⟨data, List.mem_cons_self ..⟩

/-- The master executes the request that was sent. -/
theorem Serving.issue (h : Serving s history) {c : Call} {p : Poller} {m : Master}
    {requests : List MinionRequest} (hsent : c ∈ s.sent)
    (hpollers : m.pollers = s.cluster.master.pollers ++ [p])
    (hrequests : requests.map MinionRequest.question = p.questions) :
    Serving
      { s with
        sent := s.sent.erase c
        cluster := { s.cluster with
          master := m, requests := s.cluster.requests ++ requests } }
      (.master (.issued p) :: history) := by
  cases h with
  | idle _ hsent' _ _ =>
      rw [hsent'] at hsent
      cases hsent
  | issued _ _ hsent' _ _ _ =>
      rw [hsent'] at hsent
      cases hsent
  | sent c' hcount hsent' hissued hwrites hreads =>
      rw [hsent'] at hsent
      obtain rfl := List.mem_singleton.1 hsent
      refine .issued p hcount ?_ ?_ ?_ ?_
      · rw [hsent']
        simp
      · intro q
        rw [sinceCall_master, List.mem_cons]
        constructor
        · rintro (heq | hq)
          · cases heq
            rfl
          · exact absurd hq (hissued q)
        · rintro rfl
          exact Or.inl rfl
      · have hold : s.cluster.master.pollers.filter Poller.isWrite = [] := hwrites
        dsimp only
        rw [Master.writePollers, hpollers, List.filter_append, hold, List.nil_append]
      · intro uid huid
        have hsplit : .read uid ∈ s.cluster.flight ∨ .read uid ∈ p.questions := by
          rw [← hrequests]
          simp only [Cluster.flight, List.map_append, List.mem_append] at huid ⊢
          tauto
        rcases hsplit with hold | hnew
        · exact Or.inl ((hreads uid hold).append [_])
        · right
          cases p with
          | readAIFunc uid' => simpa [Poller.questions, eq_comm] using hnew
          | writeAIFunc ogUid backupUid => simp [Poller.questions] at hnew

/-- An event that is no reply is in step. -/
theorem repliesInStep_of_nil {e : ClientEvent} (h : e.replies = []) : RepliesInStep history e :=
  fun hne => absurd h hne

/-- Every step of the cluster in turn preserves the invariant. -/
theorem InStep.cluster (h : InStep s history) {a : Cluster.Action} {cluster : Cluster}
    {out : List Event} (ha : Client.isCommand a = false) (hturn : Client.InTurn history (.cluster a))
    (hstep : s.cluster.Steps a cluster out) :
    InStep { s with cluster, stream := s.stream ++ (out.flatMap Event.replies).flatten }
      (out.map .master ++ history) := by
  have hflight := Client.flight_subset hstep ha
  cases hstep with
  | execRead _ => cases ha
  | execWrite _ => cases ha
  | newUID hnew =>
      obtain ⟨-, rfl⟩ := Master.newUID_eq_some hnew
      exact ⟨h.serving.quiet rfl rfl hflight rfl rfl fun _ => Iff.rfl, h.every⟩
  | @receive stamp r m hr hreceive =>
      have hwrites := Master.writePollers_receive hreceive
      rcases replies_received r with ⟨uid, data, rfl, -⟩ | ⟨-, hreplies⟩
      · obtain ⟨hinStep, hserving⟩ := h.serving.reply_read hr (not_answered_of_inTurn hturn) hwrites
        exact ⟨hserving, hinStep, h.every⟩
      · refine ⟨h.serving.quiet rfl hwrites hflight ?_ ?_ ?_, repliesInStep_of_nil hreplies, h.every⟩
        · rfl
        · refine (replies_cons _ _).trans ?_
          rw [ClientEvent.replies, hreplies]
          exact Nat.zero_add _
        · intro q
          simp
  | answer _ _ => exact ⟨h.serving.quiet rfl rfl hflight rfl rfl fun _ => Iff.rfl, h.every⟩
  | loseRequest _ => exact ⟨h.serving.quiet rfl rfl hflight rfl rfl fun _ => Iff.rfl, h.every⟩
  | loseResponse _ => exact ⟨h.serving.quiet rfl rfl hflight rfl rfl fun _ => Iff.rfl, h.every⟩
  | duplicateRequest _ => exact ⟨h.serving.quiet rfl rfl hflight rfl rfl fun _ => Iff.rfl, h.every⟩
  | duplicateResponse _ => exact ⟨h.serving.quiet rfl rfl hflight rfl rfl fun _ => Iff.rfl, h.every⟩
  | @poll p m e hpoll =>
      obtain ⟨reply, ret, rfl, heval⟩ := Master.poll_cases hpoll
      cases p with
      | readAIFunc uid =>
          cases heval.read uid rfl
          refine ⟨h.serving.quiet rfl heval.writePollers_read hflight rfl rfl ?_,
            repliesInStep_of_nil rfl, h.every⟩
          intro q
          simp
      | writeAIFunc ogUid backupUid =>
          cases reply with
          | none =>
              refine ⟨h.serving.quiet rfl heval.writePollers_write.2 hflight rfl rfl
                ?_, repliesInStep_of_nil rfl, h.every⟩
              intro q
              simp
          | some reply =>
              obtain ⟨hinStep, hserving⟩ := h.serving.reply_write heval
              exact ⟨hserving, hinStep, h.every⟩

/-- Every step in turn preserves the invariant. -/
theorem InStep.step (h : InStep s history) {a : Client.Action} {out : List ClientEvent}
    (hturn : Client.InTurn history a) (hstep : s.step a = some (t, out)) :
    InStep t (out ++ history) := by
  cases Client.step_cases hstep with
  | @call c hwaiting =>
      refine ⟨?_, repliesInStep_of_nil rfl, h.every⟩
      have hle : calls history ≤ replies history := hturn
      cases h.serving with
      | idle hcount hsent hpollers hreads =>
          refine .sent c ?_ (by simp [hsent]) (fun _ => nofun) hpollers ?_
          · exact congrArg (· + 1) hcount
          · intro uid huid
            exact (hreads uid huid).append [_]
      | sent _ hcount _ _ _ _ => omega
      | issued _ hcount _ _ _ _ => omega
  | @execRead stamp len uid m hsent hexec =>
      obtain ⟨-, rfl⟩ := Master.execRead_eq_some hexec
      exact ⟨h.serving.issue hsent rfl rfl, repliesInStep_of_nil rfl, h.every⟩
  | @execWrite ogStamp backupStamp gap len uids m hsent hexec =>
      obtain ⟨-, -, rfl⟩ := Master.execWrite_eq_some hexec
      exact ⟨h.serving.issue hsent rfl rfl, repliesInStep_of_nil rfl, h.every⟩
  | cluster ha hsteps => exact h.cluster ha hturn hsteps
  | @recv buf ready c hc =>
      refine ⟨h.serving.quiet rfl rfl (fun _ hq => hq) rfl rfl ?_,
        repliesInStep_of_nil rfl, h.every⟩
      intro q
      exact ⟨fun hq => (List.mem_cons.1 hq).resolve_left nofun, List.mem_cons_of_mem _⟩

/-! ### The result -/

/-- **One reply per request.** In every run in which calls wait for the reply to the call before
and no successful response to a read arrives twice, every reply is written while a request is
outstanding, at most one to each, and answers the command that was issued for it: a read is
replied to with the data of the response to it. -/
theorem every_reply_in_step (actions : List Client.Action)
    (hturn : Transition.Along (logged Client.step) (fun s a => Client.InTurn s.2 a)
      (Client.start, []) actions)
    (hrun : Transition.run (logged Client.step) (Client.start, []) actions = some (t, history)) :
    Every RepliesInStep history := by
  have hstart : InStep Client.start [] := ⟨.idle rfl rfl rfl nofun, trivial⟩
  have hstep : ∀ (s : Client) a t out h, InStep s h → Client.InTurn h a →
      s.step a = some (t, out) → InStep t (out ++ h) := by
    intro s a t out h hI hturn hstep
    exact hI.step hturn hstep
  exact (invariant_along (fun _ h a => Client.InTurn h a) hstep hstart hturn hrun).every

/-- A read of one byte, and another. -/
def twoReadsRun : List Client.Action :=
  [.call (.read 1), .execRead ⟨0, 0⟩ 1, .cluster (.answer (.read (nthUid 1) 1) true [5]),
    .cluster (.receive ⟨0, 0⟩ (.read (nthUid 1) true [5])), .recv (fun _ => 0) 1,
    .call (.read 1), .execRead ⟨0, 0⟩ 1, .cluster (.answer (.read (nthUid 3) 1) true [6]),
    .cluster (.receive ⟨0, 0⟩ (.read (nthUid 3) true [6]))]

theorem every_reply_in_step_twoReadsRun :
    ∃ t past, Transition.run (logged Client.step) (Client.start, []) twoReadsRun =
        some (t, .master (.received (.read (nthUid 3) true [6])) :: past) ∧
      RepliesInStep past (.master (.received (.read (nthUid 3) true [6]))) := by
  refine ⟨_, _, rfl, ?_⟩
  have hevery := every_reply_in_step twoReadsRun (by decide) rfl
  exact hevery.1

/-- A read whose response is duplicated by the network. -/
def duplicatedReadRun : List Client.Action :=
  [.call (.read 1), .execRead ⟨0, 0⟩ 1, .cluster (.answer (.read (nthUid 1) 1) true [5]),
    .cluster (.duplicateResponse (.read (nthUid 1) true [5])),
    .cluster (.receive ⟨0, 0⟩ (.read (nthUid 1) true [5])),
    .cluster (.receive ⟨0, 0⟩ (.read (nthUid 1) true [5]))]

/-- The second copy of the response is a second reply to the read. -/
theorem duplicated_read_out_of_step :
    ∃ t past, Transition.run (logged Client.step) (Client.start, []) duplicatedReadRun =
        some (t, .master (.received (.read (nthUid 1) true [5])) :: past) ∧
      ¬ RepliesInStep past (.master (.received (.read (nthUid 1) true [5]))) := by
  refine ⟨_, _, rfl, ?_⟩
  intro h
  exact absurd (h nofun).1 (by decide)

end IotDrive
