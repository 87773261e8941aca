/-
What a write reports to the kernel.

`NBDWrite` returns zero whatever it receives, so the failure replies of the master are lost on the
way.  A run in which the master gives no write up, no datagram is duplicated and every call gets the
whole of its reply is different: there the only reply to a write is the success reply, and a write
that returns zero was confirmed by both minions.

Main definitions:

* `ReturnsConfirmed` — what is required of the return of a write;
* `Client.Orderly` — the condition on a step;
* `Answering` — the invariant, by what has become of the request of the call that waits.

Main results:

* `Answering.cluster`, `Reported.step` — an orderly step preserves the invariant;
* `every_return_confirmed` — **zero means confirmed**, in all orderly runs;
* `failed_write_returns_zero` — a run in which it does not.
-/

import IotDrive.Client
import Mathlib.Data.List.Perm.Subperm

set_option relaxedAutoImplicit false
set_option autoImplicit false

namespace IotDrive

open History

/-! ### Confirmed writes -/

/-- A write was issued, and a success response of each of its two minions was received. -/
def Confirmed (events : List ClientEvent) : Prop :=
  ∃ ogUid backupUid, ogUid ≠ backupUid ∧
    .master (.issued (.writeAIFunc ogUid backupUid)) ∈ events ∧
    ∀ uid ∈ [ogUid, backupUid], .master (.received (.write uid true)) ∈ events

/-- `NBDWrite` of at least 512 bytes returns zero only if its write was confirmed, and not if the
master answered it with a failure reply. -/
def ReturnsConfirmed (past : List ClientEvent) : ClientEvent → Prop
  | .returned (.write len) ret => 512 ≤ len.toNat →
      (ret = 0 → Confirmed (sinceCall past)) ∧
      ∀ p reply ret', .master (.issued p) ∈ sinceCall past →
        .master (.evaluated p (some reply) ret') ∈ sinceCall past → reply ≠ .success → ret ≠ 0
  | _ => True

/-- No datagram is duplicated, the master does not give up, and a call that returns receives all
that has been replied, and something. -/
def Client.Orderly (s : Client) : Client.Action → Prop
  | .cluster (.duplicateRequest _) => False
  | .cluster (.duplicateResponse _) => False
  | .cluster (.poll p) => ¬ s.cluster.master.GivesUp p
  | .recv _ ready => s.stream ≠ [] ∧
      ∀ c ∈ s.waiting, s.stream.length ≤ min ready (intArg c.len.toNat)
  | _ => True

instance (s : Client) : ∀ a, Decidable (s.Orderly a)
  | .cluster (.duplicateRequest _) => instDecidableFalse
  | .cluster (.duplicateResponse _) => instDecidableFalse
  | .cluster (.poll _) => instDecidableNot
  | .recv _ _ => instDecidableAnd
  | .call _ => instDecidableTrue
  | .execRead _ _ => instDecidableTrue
  | .execWrite _ _ _ _ => instDecidableTrue
  | .cluster (.execRead _ _) => instDecidableTrue
  | .cluster (.execWrite _ _ _) => instDecidableTrue
  | .cluster (.newUID _) => instDecidableTrue
  | .cluster (.receive _ _) => instDecidableTrue
  | .cluster (.answer _ _ _) => instDecidableTrue
  | .cluster (.loseRequest _) => instDecidableTrue
  | .cluster (.loseResponse _) => instDecidableTrue

/-! ### The invariant -/

/-- What has become of the request of the call that waits. -/
inductive Answering (s : Client) (history : List ClientEvent) : Prop
  /-- No call waits. -/
  | idle (hwaiting : s.waiting = none) (hsent : s.sent = []) (hstream : s.stream = [])
      (hflight : s.cluster.flight = []) (hpollers : s.cluster.master.writePollers = [])
  /-- The master has not executed the request. -/
  | sent (c : Call) (hwaiting : s.waiting = some c) (hsent : s.sent = [c]) (hstream : s.stream = [])
      (hflight : s.cluster.flight = []) (hpollers : s.cluster.master.writePollers = [])
      (hreceived : received (sinceCall history) = [])
  /-- The master has executed the request and not replied: every question of it is at most once in
  flight or answered, and entries that are `DONE` come from answers to it. -/
  | issued (c : Call) (p : Poller) (hc : p.isWrite = c.isWrite) (hwaiting : s.waiting = some c)
      (hsent : s.sent = []) (hstream : s.stream = [])
      (hissued : .master (.issued p) ∈ sinceCall history)
      (hflight : (s.cluster.flight ++ received (sinceCall history)).Subperm p.questions)
      (hdone : ∀ uid, .write uid ∈ p.questions →
        IsDone s.cluster.master.watchlist uid.getUniqueCounter →
        ∃ uid', .write uid' ∈ p.questions ∧ uid'.getUniqueCounter = uid.getUniqueCounter ∧
          .master (.received (.write uid' true)) ∈ sinceCall history)
      (hpollers : s.cluster.master.writePollers = [p].filter Poller.isWrite)
  /-- The master has replied. -/
  | replied (c : Call) (hwaiting : s.waiting = some c) (hsent : s.sent = [])
      (hflight : s.cluster.flight = []) (hpollers : s.cluster.master.writePollers = [])
      (hconfirmed : c.isWrite = true → Confirmed (sinceCall history))

/-- The request is followed, no write was given up, and so far every return was right. -/
structure Reported (s : Client) (history : List ClientEvent) : Prop where
  answering : Answering s history
  successes : ∀ p reply ret, .master (.evaluated p (some reply) ret) ∈ history → reply = .success
  every : Every ReturnsConfirmed history

variable {s t : Client} {history : List ClientEvent}

/-- A step that replies nothing, receives nothing and puts nothing in flight leaves the request
where it is. -/
theorem Answering.quiet (h : Answering s history) {out : List Event}
    (hwaiting : t.waiting = s.waiting) (hsent : t.sent = s.sent) (hstream : t.stream = s.stream)
    (hpollers : t.cluster.master.writePollers = s.cluster.master.writePollers)
    (hdone : ∀ key, IsDone t.cluster.master.watchlist key → IsDone s.cluster.master.watchlist key)
    (hflight : t.cluster.flight.Subperm s.cluster.flight)
    (hout : received (out.map .master) = []) : Answering t (out.map .master ++ history) := by
  have hreceived : received (sinceCall (out.map .master ++ history)) =
      received (sinceCall history) := by
    rw [sinceCall_append, received_append, hout, List.nil_append]
  have hmem : ∀ e ∈ sinceCall history, e ∈ sinceCall (out.map .master ++ history) := by
    intro e he
    rw [sinceCall_append]
    exact List.mem_append_right _ he
  cases h with
  | idle hwaiting' hsent' hstream' hflight' hpollers' =>
      rw [hflight', List.subperm_nil] at hflight
      exact .idle (hwaiting.trans hwaiting') (hsent.trans hsent') (hstream.trans hstream') hflight
        (hpollers.trans hpollers')
  | sent c hwaiting' hsent' hstream' hflight' hpollers' hreceived' =>
      rw [hflight', List.subperm_nil] at hflight
      exact .sent c (hwaiting.trans hwaiting') (hsent.trans hsent') (hstream.trans hstream')
        hflight (hpollers.trans hpollers') (hreceived.trans hreceived')
  | issued c p hc hwaiting' hsent' hstream' hissued hflight' hdone' hpollers' =>
      refine .issued c p hc (hwaiting.trans hwaiting') (hsent.trans hsent')
        (hstream.trans hstream') (hmem _ hissued) ?_ ?_ (hpollers.trans hpollers')
      · rw [hreceived]
        exact ((List.subperm_append_right _).2 hflight).trans hflight'
      · intro uid huid hkey
        obtain ⟨uid', huid', heq, hin⟩ := hdone' uid huid (hdone _ hkey)
        exact ⟨uid', huid', heq, hmem _ hin⟩
  | replied c hwaiting' hsent' hflight' hpollers' hconfirmed =>
      rw [hflight', List.subperm_nil] at hflight
      refine .replied c (hwaiting.trans hwaiting') (hsent.trans hsent') hflight
        (hpollers.trans hpollers') ?_
      intro hc
      obtain ⟨ogUid, backupUid, hne, hissued, hin⟩ := hconfirmed hc
      exact ⟨ogUid, backupUid, hne, hmem _ hissued, fun uid huid => hmem _ (hin uid huid)⟩

/-- A response that is received answers the request of the call that waits. -/
theorem Answering.receive (h : Answering s history) {stamp : Stamp} {r : Response} {m : Master}
    (hr : r ∈ s.cluster.responses) (hreceive : s.cluster.master.receive stamp r = some m) :
    Answering
      { s with
        cluster := { s.cluster with master := m, responses := s.cluster.responses.erase r }
        stream := s.stream ++ ((Event.received r).replies).flatten }
      (.master (.received r) :: history) := by
  obtain ⟨-, -, hdone⟩ := Master.receive_eq_some hreceive
  have hwrites := Master.writePollers_receive hreceive
  have hperm : s.cluster.flight.Perm (r.question ::
      ({ s.cluster with master := m, responses := s.cluster.responses.erase r } : Cluster).flight) :=
    Cluster.flight_erase_response hr rfl rfl
  generalize hcluster :
    ({ s.cluster with master := m, responses := s.cluster.responses.erase r } : Cluster) = t at hperm
  have hmaster : t.master = m := by rw [← hcluster]
  cases h with
  | idle _ _ _ hflight _ =>
      rw [hflight] at hperm
      exact absurd hperm.nil_eq nofun
  | sent _ _ _ _ hflight _ _ =>
      rw [hflight] at hperm
      exact absurd hperm.nil_eq nofun
  | replied _ _ _ hflight _ _ =>
      rw [hflight] at hperm
      exact absurd hperm.nil_eq nofun
  | issued c p hc hwaiting hsent hstream hissued hflight hdone' hpollers' =>
      have hsub : (t.flight ++ (r.question :: received (sinceCall history))).Subperm
          p.questions := by
        have hmiddle := hperm.append_right (received (sinceCall history))
        exact (List.perm_middle.trans hmiddle.symm).subperm.trans hflight
      have hin : r.question ∈ p.questions := hsub.subset (by simp)
      rcases replies_received r with ⟨uid, data, rfl, -⟩ | ⟨hnot, hreplies⟩
      · -- a read is replied to, and nothing of it is left in flight
        cases p with
        | writeAIFunc ogUid backupUid => simp [Response.question, Poller.questions] at hin
        | readAIFunc uid' =>
            have hlen : t.flight.length + ((received (sinceCall history)).length + 1) ≤ 1 := by
              simpa [Poller.questions] using hsub.length_le
            have hempty : t.flight.length = 0 := by omega
            refine .replied c hwaiting hsent (List.length_eq_zero_iff.1 hempty) ?_ ?_
            · rw [hmaster, hwrites, hpollers']
              rfl
            · intro hwrite
              rw [hwrite] at hc
              cases hc
      · refine .issued c p hc hwaiting hsent ?_ (List.mem_cons_of_mem _ hissued) hsub ?_ ?_
        · rw [hreplies, hstream]
          rfl
        · intro uid huid hkey
          rw [hmaster, hdone] at hkey
          rcases hkey with hkey | ⟨hsuccess, hkey⟩
          · obtain ⟨uid', huid', heq, hin'⟩ := hdone' uid huid hkey
            exact ⟨uid', huid', heq, List.mem_cons_of_mem _ hin'⟩
          · cases r with
            | read uid' isSuccess data =>
                cases hsuccess
                exact absurd rfl (hnot uid' data)
            | write uid' isSuccess =>
                cases hsuccess
                exact ⟨uid', hin, hkey.symm, List.mem_cons_self ..⟩
        · rw [hmaster, hwrites, hpollers']

/-- The success reply to a write confirms it, and nothing of it is left in flight. -/
theorem Answering.acknowledge (h : Answering s history) {ogUid backupUid : ThreadSafeUID}
    {m : Master} {ret : Bool} {stream : List UInt8}
    (heval : s.cluster.master.Evaluates (.writeAIFunc ogUid backupUid) m (some .success) ret) :
    Answering { s with cluster := { s.cluster with master := m }, stream := stream }
      (.master (.evaluated (.writeAIFunc ogUid backupUid) (some .success) ret) :: history) := by
  obtain ⟨hmem, hwrites⟩ := heval.writePollers_write
  obtain ⟨hnodup, hdone⟩ := heval.success rfl
  cases h with
  | idle _ _ _ _ hpollers =>
      rw [hpollers] at hmem
      cases hmem
  | sent _ _ _ _ _ hpollers _ =>
      rw [hpollers] at hmem
      cases hmem
  | replied _ _ _ _ hpollers _ =>
      rw [hpollers] at hmem
      cases hmem
  | issued c p hc hwaiting hsent hstream hissued hflight hdone' hpollers =>
      rw [hpollers] at hmem
      have hp := List.mem_singleton.1 (List.mem_filter.1 hmem).1
      subst hp
      have hne : ogUid.getUniqueCounter ≠ backupUid.getUniqueCounter := by
        simpa [Poller.keys, Poller.uids] using hnodup
      -- an answer with the key of one of the two UIDs is an answer to that one
      have hconfirmed : ∀ uid ∈ [ogUid, backupUid],
          .master (.received (.write uid true)) ∈ sinceCall history := by
        intro uid huid
        have huid' : uid = ogUid ∨ uid = backupUid := by simpa using huid
        have hquestion : .write uid ∈ (Poller.writeAIFunc ogUid backupUid).questions := by
          simpa [Poller.questions] using huid'
        obtain ⟨uid', hin, hkey, hreceived⟩ :=
          hdone' uid hquestion (hdone _ (List.mem_map_of_mem huid))
        have hin' : uid' = ogUid ∨ uid' = backupUid := by simpa [Poller.questions] using hin
        rcases huid' with rfl | rfl
        · rcases hin' with rfl | rfl
          · exact hreceived
          · exact absurd hkey.symm hne
        · rcases hin' with rfl | rfl
          · exact absurd hkey hne
          · exact hreceived
      have hsub : ([.write ogUid, .write backupUid] : List Question).Subperm
          (received (sinceCall history)) := by
        refine List.subperm_of_subset ?_ ?_
        · have huids : ogUid ≠ backupUid := fun heq => hne (by rw [heq])
          simpa using huids
        · intro q hq
          obtain ⟨uid, huid, rfl⟩ : ∃ uid ∈ [ogUid, backupUid], q = .write uid := by
            simpa using hq
          exact List.mem_flatMap.2 ⟨_, hconfirmed uid huid, List.mem_singleton.2 rfl⟩
      have hempty : s.cluster.flight.length = 0 := by
        have htotal := hflight.length_le
        have htwo := hsub.length_le
        rw [List.length_append] at htotal
        simp only [Poller.questions, List.length_cons, List.length_nil] at htotal htwo
        omega
      refine .replied c hwaiting hsent (List.length_eq_zero_iff.1 hempty) ?_ ?_
      · rw [hwrites, hpollers]
        simp [Poller.isWrite]
      · intro _
        refine ⟨ogUid, backupUid, fun heq => hne (by rw [heq]), List.mem_cons_of_mem _ hissued, ?_⟩
        intro uid huid
        exact List.mem_cons_of_mem _ (hconfirmed uid huid)

/-- The master executes the request of the call that waits. -/
theorem Answering.issue (h : Answering s history) {c : Call} {p : Poller} {m : Master}
    {requests : List MinionRequest} (hsent : c ∈ s.sent) (hc : p.isWrite = c.isWrite)
    (hpollers : m.pollers = s.cluster.master.pollers ++ [p])
    (hdone : ∀ uid, .write uid ∈ p.questions → ¬ IsDone m.watchlist uid.getUniqueCounter)
    (hrequests : requests.map MinionRequest.question = p.questions) :
    Answering
      { s with
        sent := s.sent.erase c
        cluster := { s.cluster with
          master := m, requests := s.cluster.requests ++ requests } }
      (.master (.issued p) :: history) := by
  cases h with
  | idle _ hsent' _ _ _ =>
      rw [hsent'] at hsent
      cases hsent
  | issued _ _ _ _ hsent' _ _ _ _ _ =>
      rw [hsent'] at hsent
      cases hsent
  | replied _ _ hsent' _ _ _ =>
      rw [hsent'] at hsent
      cases hsent
  | sent c' hwaiting hsent' hstream hflight hwrites hreceived =>
      rw [hsent'] at hsent
      obtain rfl := List.mem_singleton.1 hsent
      obtain ⟨hnone, hnone'⟩ := List.append_eq_nil_iff.1 hflight
      have hquestions : ({ s.cluster with
          master := m, requests := s.cluster.requests ++ requests } : Cluster).flight =
          p.questions := by
        simp only [Cluster.flight, List.map_append, hnone, hnone', hrequests, List.nil_append,
          List.append_nil]
      refine .issued c p hc hwaiting ?_ hstream (List.mem_cons_self ..) ?_ ?_ ?_
      · rw [hsent']
        simp
      · rw [hquestions]
        have hsame : received (sinceCall (.master (.issued p) :: history)) =
            received (sinceCall history) := rfl
        rw [hsame, hreceived, List.append_nil]
      · intro uid huid hkey
        exact absurd hkey (hdone uid huid)
      · have hold : s.cluster.master.pollers.filter Poller.isWrite = [] := hwrites
        dsimp only
        rw [Master.writePollers, hpollers, List.filter_append, hold, List.nil_append]

/-- Every step of the cluster that duplicates nothing and gives no write up preserves the
invariant. -/
theorem Answering.cluster (h : Answering s history) {a : Cluster.Action} {cluster : Cluster}
    {out : List Event} (ha : Client.isCommand a = false) (horderly : s.Orderly (.cluster a))
    (hstep : s.cluster.Steps a cluster out) :
    Answering { s with cluster, stream := s.stream ++ (out.flatMap Event.replies).flatten }
      (out.map .master ++ history) := by
  have hdup : Client.isDuplicate a = false := by
    cases a with
    | duplicateRequest _ => cases horderly
    | duplicateResponse _ => cases horderly
    | _ => rfl
  have hflight := Client.flight_subperm hstep ha hdup
  cases hstep with
  | execRead _ => cases ha
  | execWrite _ => cases ha
  | duplicateRequest _ => cases horderly
  | duplicateResponse _ => cases horderly
  | newUID hnew =>
      obtain ⟨-, rfl⟩ := Master.newUID_eq_some hnew
      exact h.quiet rfl rfl (List.append_nil _) rfl (fun _ hdone => hdone) hflight rfl
  | receive hr hreceive => simpa using h.receive hr hreceive
  | answer _ _ => exact h.quiet rfl rfl (List.append_nil _) rfl (fun _ hdone => hdone) hflight rfl
  | loseRequest _ => exact h.quiet rfl rfl (List.append_nil _) rfl (fun _ hdone => hdone) hflight rfl
  | loseResponse _ =>
      exact h.quiet rfl rfl (List.append_nil _) rfl (fun _ hdone => hdone) hflight rfl
  | @poll p m e hpoll =>
      obtain ⟨reply, ret, rfl, heval⟩ := Master.poll_cases hpoll
      have hdone : ∀ key, IsDone m.watchlist key → IsDone s.cluster.master.watchlist key := by
        intro key hkey
        exact ((heval.done key).1 hkey).2
      rcases heval.reply_of_not_givesUp horderly with rfl | rfl
      · refine h.quiet rfl rfl (List.append_nil _) ?_ hdone hflight rfl
        cases p with
        | readAIFunc uid => exact heval.writePollers_read
        | writeAIFunc ogUid backupUid => exact heval.writePollers_write.2
      · cases p with
        | readAIFunc uid => cases heval.read uid rfl
        | writeAIFunc ogUid backupUid => exact h.acknowledge heval

/-- A step of the cluster that gives no write up replies only with a success. -/
theorem reply_of_orderly {a : Cluster.Action} {cluster : Cluster} {out : List Event}
    (ha : Client.isCommand a = false) (horderly : s.Orderly (.cluster a))
    (hsteps : s.cluster.Steps a cluster out) {p : Poller} {reply : WriteReply} {ret : Bool}
    (he : .evaluated p (some reply) ret ∈ out) : reply = .success := by
  cases hsteps with
  | poll hpoll =>
      obtain ⟨reply', ret', rfl, heval⟩ := Master.poll_cases hpoll
      cases List.mem_singleton.1 he
      rcases heval.reply_of_not_givesUp horderly with hreply | hreply
      · cases hreply
      · exact Option.some.inj hreply
  | receive _ _ => cases List.mem_singleton.1 he
  | execRead _ => cases ha
  | execWrite _ => cases ha
  | newUID _ => cases he
  | answer _ _ => cases he
  | loseRequest _ => cases he
  | duplicateRequest _ => cases he
  | loseResponse _ => cases he
  | duplicateResponse _ => cases he

/-- Every orderly step preserves the invariant. -/
theorem Reported.step (h : Reported s history) {a : Client.Action} {out : List ClientEvent}
    (horderly : s.Orderly a) (hstep : s.step a = some (t, out)) : Reported t (out ++ history) := by
  cases Client.step_cases hstep with
  | @call c hwaiting =>
      refine ⟨?_, by simpa using h.successes, trivial, h.every⟩
      cases h.answering with
      | idle _ hsent hstream hflight hpollers =>
          exact .sent c rfl (by simp [hsent]) hstream hflight hpollers rfl
      | sent _ hwaiting' _ _ _ _ _ =>
          rw [hwaiting] at hwaiting'
          cases hwaiting'
      | issued _ _ _ hwaiting' _ _ _ _ _ _ =>
          rw [hwaiting] at hwaiting'
          cases hwaiting'
      | replied _ hwaiting' _ _ _ _ =>
          rw [hwaiting] at hwaiting'
          cases hwaiting'
  | @execRead stamp len uid m hsent hexec =>
      obtain ⟨-, rfl⟩ := Master.execRead_eq_some hexec
      refine ⟨h.answering.issue hsent rfl rfl ?_ rfl, by simpa using h.successes, trivial, h.every⟩
      intro uid' hquestion
      simp [Poller.questions] at hquestion
  | @execWrite ogStamp backupStamp gap len uids m hsent hexec =>
      obtain ⟨-, -, rfl⟩ := Master.execWrite_eq_some hexec
      refine ⟨h.answering.issue hsent rfl rfl ?_ rfl, by simpa using h.successes, trivial, h.every⟩
      -- both entries were just registered
      intro uid hquestion hkey
      have huid : uid = uids.1 ∨ uid = uids.2 := by simpa [Poller.questions] using hquestion
      obtain ⟨hbackup, hkey⟩ := (isDone_registerCommand _ _ _).1 hkey
      obtain ⟨hog, -⟩ := (isDone_registerCommand _ _ _).1 hkey
      rcases huid with rfl | rfl
      · exact hog rfl
      · exact hbackup rfl
  | @cluster a cluster out ha hsteps =>
      refine ⟨h.answering.cluster ha horderly hsteps, ?_, ?_⟩
      · intro p reply ret he
        rcases List.mem_append.1 he with he | he
        · obtain ⟨e, he, heq⟩ := List.mem_map.1 he
          cases heq
          exact reply_of_orderly ha horderly hsteps he
        · exact h.successes p reply ret he
      · clear hsteps hstep
        induction out with
        | nil => exact h.every
        | cons e out ih => exact ⟨trivial, ih⟩
  | @recv buf ready c hc =>
      obtain ⟨hstream, hwhole⟩ := horderly
      cases h.answering with
      | idle hwaiting _ _ _ _ =>
          rw [hc] at hwaiting
          cases hwaiting
      | sent _ _ _ hempty _ _ _ => exact absurd hempty hstream
      | issued _ _ _ _ _ hempty _ _ _ _ => exact absurd hempty hstream
      | replied c' hwaiting hsent hflight hpollers hconfirmed =>
          rw [hc] at hwaiting
          cases hwaiting
          refine ⟨.idle rfl hsent (Call.stream_receive_eq_nil.2 (hwhole c hc)) hflight hpollers,
            by simpa using h.successes, ?_, h.every⟩
          cases c with
          | read len => trivial
          | write len =>
              intro _
              refine ⟨fun _ => hconfirmed rfl, ?_⟩
              intro p reply ret' _ he hfail
              exact absurd (h.successes p reply ret' (sinceCall_subset _ _ he)) hfail

/-! ### The result -/

/-- **Zero means confirmed.** In every run in which no datagram is duplicated, the master gives no
write up and every call receives all that has been replied, every write of at least 512 bytes
returns zero only if both minions confirmed it, and not if it was answered with a failure reply. -/
theorem every_return_confirmed (actions : List Client.Action)
    (horderly : Transition.Along (logged Client.step) (fun s a => s.1.Orderly a)
      (Client.start, []) actions)
    (hrun : Transition.run (logged Client.step) (Client.start, []) actions = some (t, history)) :
    Every ReturnsConfirmed history := by
  have hstart : Reported Client.start [] := ⟨.idle rfl rfl rfl rfl rfl, nofun, trivial⟩
  have hstep : ∀ (s : Client) a t out h, Reported s h → s.Orderly a →
      s.step a = some (t, out) → Reported t (out ++ h) := by
    intro s a t out h hI horderly hstep
    exact hI.step horderly hstep
  exact (invariant_along (fun s _ a => s.Orderly a) hstep hstart horderly hrun).every

/-- A write that both minions confirm. -/
def writeRun : List Client.Action :=
  [.call (.write 512), .execWrite ⟨0, 0⟩ [] ⟨0, 0⟩ 512,
    .cluster (.answer (.write (nthUid 1)) true []), .cluster (.answer (.write (nthUid 2)) true []),
    .cluster (.receive ⟨0, 0⟩ (.write (nthUid 2) true)),
    .cluster (.receive ⟨0, 0⟩ (.write (nthUid 1) true)),
    .cluster (.poll (.writeAIFunc (nthUid 1) (nthUid 2))), .recv (fun _ => 0) 8]

theorem every_return_confirmed_writeRun :
    ∃ t past, Transition.run (logged Client.step) (Client.start, []) writeRun =
        some (t, .returned (.write 512) 0 :: past) ∧
      ReturnsConfirmed past (.returned (.write 512) 0) := by
  refine ⟨_, _, rfl, ?_⟩
  have hevery := every_return_confirmed writeRun (by decide) rfl
  exact hevery.1

/-- A write whose request to the second minion is lost, evaluated until it is given up. -/
def lostBackupRun : List Client.Action :=
  [.call (.write 512), .execWrite ⟨0, 0⟩ [] ⟨0, 0⟩ 512,
    .cluster (.answer (.write (nthUid 1)) true []), .cluster (.loseRequest (.write (nthUid 2))),
    .cluster (.receive ⟨0, 0⟩ (.write (nthUid 1) true))] ++
  List.replicate 50 (.cluster (.poll (.writeAIFunc (nthUid 1) (nthUid 2)))) ++
  [.recv (fun _ => 0) 20]

set_option maxRecDepth 8000 in
/-- A write that the master answered with a failure reply returns zero. -/
theorem failed_write_returns_zero :
    ∃ t past, Transition.run (logged Client.step) (Client.start, []) lostBackupRun =
        some (t, .returned (.write 512) 0 :: past) ∧
      ¬ ReturnsConfirmed past (.returned (.write 512) 0) := by
  refine ⟨_, _, rfl, ?_⟩
  intro h
  have hne := (h (by decide)).2 (.writeAIFunc (nthUid 1) (nthUid 2)) .couldntWriteBackup true
    (by decide) (by decide) nofun
  exact hne rfl

end IotDrive
