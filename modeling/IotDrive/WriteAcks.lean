/-
When a write that both replicas confirmed is acknowledged.

`HasResponseRecived` erases the entry it finds `DONE`, and `WriteAIFunc` asks for both entries even
if the first is not `DONE`.  An evaluation between the two responses therefore loses the first of
them, and the write is never acknowledged.  Without such an evaluation, and as long as no key is
handed out twice, every confirmed write is acknowledged by its next evaluation.

Main definitions:

* `RegisteredSince` — a response was registered since a command left its poller;
* `AcknowledgesConfirmed` — an evaluation of a confirmed write replies with a success;
* `Master.Undisturbed` — the condition on a step.

Main results:

* `Confirms.step` — what an undisturbed step preserves;
* `acknowledges_confirmed` — **the acknowledgement**, in all undisturbed runs;
* `poll_between_responses` — a run in which it is lost.
-/

import IotDrive.Master
import Mathlib.Data.List.Nodup

set_option relaxedAutoImplicit false
set_option autoImplicit false

namespace IotDrive

open History

/-! ### Confirmed writes -/

/-- In a history, the latest event first: a response for the UID was registered after the poller
was left behind. -/
def RegisteredSince (p : Poller) (uid : ThreadSafeUID) : List Event → Prop
  | [] => False
  | .issued q :: past => q ≠ p ∧ RegisteredSince p uid past
  | .received r :: past => (r.isSuccess = true ∧ r.uid = uid) ∨ RegisteredSince p uid past
  | .evaluated _ _ _ :: past => RegisteredSince p uid past

/-- An evaluation of a write whose two responses were registered replies with a success and
returns true. -/
def AcknowledgesConfirmed (past : List Event) : Event → Prop
  | .evaluated (.writeAIFunc ogUid backupUid) reply ret =>
      RegisteredSince (.writeAIFunc ogUid backupUid) ogUid past →
      RegisteredSince (.writeAIFunc ogUid backupUid) backupUid past →
      reply = some .success ∧ ret = true
  | _ => True

namespace Master

/-- The keys of all UIDs that the pollers ask for. -/
def liveKeys (s : Master) : List UInt32 := s.pollers.flatMap Poller.keys

/-- The keys that an action registers. -/
def newKeys (s : Master) : Action → List UInt32
  | .execRead _ => [UInt32.ofNat s.staticCounter]
  | .execWrite _ gap _ =>
      [UInt32.ofNat s.staticCounter, UInt32.ofNat (s.staticCounter + gap.length + 1)]
  | _ => []

/-- The two entries of a write that is evaluated are `DONE` together or not at all. -/
def BothOrNone (s : Master) : Action → Prop
  | .poll (.writeAIFunc ogUid backupUid) =>
      IsDone s.watchlist ogUid.getUniqueCounter ↔ IsDone s.watchlist backupUid.getUniqueCounter
  | _ => True

/-- No write is evaluated between its two responses, and no key is registered that is in use. -/
structure Undisturbed (s : Master) (a : Action) : Prop where
  nodup : (s.newKeys a).Nodup
  fresh : ∀ key ∈ s.newKeys a, key ∉ s.liveKeys
  bothOrNone : s.BothOrNone a

instance (s : Master) : ∀ a, Decidable (s.BothOrNone a)
  | .poll (.writeAIFunc _ _) => inferInstanceAs (Decidable (_ ↔ _))
  | .poll (.readAIFunc _) | .execRead _ | .execWrite _ _ _ | .newUID _ | .receive _ _ =>
      instDecidableTrue

instance (s : Master) (a : Action) : Decidable (s.Undisturbed a) :=
  have : Decidable (∀ key ∈ s.newKeys a, key ∉ s.liveKeys) := List.decidableBAll _ _
  decidable_of_iff ((s.newKeys a).Nodup ∧ (∀ key ∈ s.newKeys a, key ∉ s.liveKeys) ∧
    s.BothOrNone a) ⟨fun h => ⟨h.1, h.2.1, h.2.2⟩, fun h => ⟨h.1, h.2, h.3⟩⟩

end Master

/-! ### The invariant -/

/-- The pollers share no key, the responses registered for a write that waits are `DONE`, and so
far every confirmed write was acknowledged. -/
structure Confirms (s : Master) (history : List Event) : Prop where
  keys : s.liveKeys.Nodup
  done : ∀ p ∈ s.pollers, ∀ ogUid backupUid, p = .writeAIFunc ogUid backupUid → ∀ uid ∈ p.uids,
    RegisteredSince p uid history → IsDone s.watchlist uid.getUniqueCounter
  every : Every AcknowledgesConfirmed history

variable {s t : Master} {history : List Event}

theorem mem_liveKeys {p : Poller} (hp : p ∈ s.pollers) {uid : ThreadSafeUID} (huid : uid ∈ p.uids) :
    uid.getUniqueCounter ∈ s.liveKeys :=
  List.mem_flatMap.2 ⟨p, hp, List.mem_map_of_mem huid⟩

/-- A poller shares no key with the others, if no key is in use twice. -/
theorem Master.disjoint_keys (h : s.liveKeys.Nodup) {p q : Poller} (hp : p ∈ s.pollers)
    (hq : q ∈ s.pollers.erase p) {key : UInt32} (hkey : key ∈ q.keys) : key ∉ p.keys := by
  intro hkey'
  have hperm : s.liveKeys.Perm (p.keys ++ (s.pollers.erase p).flatMap Poller.keys) :=
    (List.perm_cons_erase hp).flatMap_right Poller.keys
  have hnodup := hperm.nodup_iff.1 h
  have hlive : key ∈ (s.pollers.erase p).flatMap Poller.keys := List.mem_flatMap.2 ⟨q, hq, hkey⟩
  exact List.disjoint_of_nodup_append hnodup hkey' hlive

/-- A poller shares no key with the others. -/
theorem Confirms.disjoint (h : Confirms s history) {p q : Poller} (hp : p ∈ s.pollers)
    (hq : q ∈ s.pollers.erase p) {uid : ThreadSafeUID} (huid : uid ∈ q.uids) :
    uid.getUniqueCounter ∉ p.keys :=
  Master.disjoint_keys h.keys hp hq (List.mem_map_of_mem huid)

/-- A command that registers new keys keeps the keys apart. -/
theorem Master.nodup_issue {p : Poller} {newKeys : List UInt32} (hkeys : s.liveKeys.Nodup)
    (hnodup : newKeys.Nodup) (hfresh : ∀ key ∈ newKeys, key ∉ s.liveKeys) (hp : p.keys = newKeys)
    (hpollers : t.pollers = s.pollers ++ [p]) : t.liveKeys.Nodup := by
  subst hp
  have hlive : t.liveKeys = s.liveKeys ++ p.keys := by simp [Master.liveKeys, hpollers]
  rw [hlive]
  exact hkeys.append hnodup fun key hkey hnew => hfresh key hnew hkey

/-- Registering keys that are not in use, for a poller that waits for them, keeps the
invariant. -/
theorem Confirms.issue (h : Confirms s history) {p : Poller} (newKeys : List UInt32)
    (hkeys : p.keys = newKeys) (hnodup : newKeys.Nodup)
    (hfresh : ∀ key ∈ newKeys, key ∉ s.liveKeys) (hpollers : t.pollers = s.pollers ++ [p])
    (hdone : ∀ key, key ∉ newKeys → IsDone s.watchlist key → IsDone t.watchlist key) :
    Confirms t (.issued p :: history) := by
  subst hkeys
  refine ⟨?_, ?_, trivial, h.every⟩
  · exact Master.nodup_issue h.keys hnodup hfresh rfl hpollers
  · intro q hq ogUid backupUid hwrite uid huid hregistered
    obtain ⟨hne, hregistered⟩ := hregistered
    rw [hpollers] at hq
    rcases List.mem_append.1 hq with hq | hq
    · refine hdone _ ?_ (h.done q hq ogUid backupUid hwrite uid huid hregistered)
      intro hkey
      exact hfresh _ hkey (mem_liveKeys hq huid)
    · exact absurd (List.mem_singleton.1 hq).symm hne

/-- A response that is registered keeps the invariant. -/
theorem Confirms.receive (h : Confirms s history) {stamp : Stamp} {r : Response}
    (hstep : s.receive stamp r = some t) : Confirms t (.received r :: history) := by
  obtain ⟨-, hpollers, hdone⟩ := Master.receive_eq_some hstep
  refine ⟨?_, ?_, trivial, h.every⟩
  · simpa only [Master.liveKeys, hpollers] using h.keys
  · intro p hp ogUid backupUid hwrite uid huid hregistered
    rw [hpollers] at hp
    rw [hdone]
    rcases hregistered with ⟨hsuccess, rfl⟩ | hregistered
    · exact Or.inr ⟨hsuccess, rfl⟩
    · exact Or.inl (h.done p hp ogUid backupUid hwrite uid huid hregistered)

/-- An evaluation that finds both entries of a write or none keeps the invariant, and acknowledges
the write if it is confirmed. -/
theorem Confirms.poll (h : Confirms s history) {p : Poller} {e : Event}
    (hC : s.BothOrNone (.poll p)) (hstep : s.poll p = some (t, e)) :
    Confirms t (e :: history) := by
  obtain ⟨reply, ret, rfl, heval⟩ := Master.poll_cases hstep
  have hp := heval.mem
  have hpkeys : ∀ ogUid backupUid, p = .writeAIFunc ogUid backupUid →
      ogUid.getUniqueCounter ≠ backupUid.getUniqueCounter := by
    rintro ogUid backupUid rfl
    have hnodup := (List.nodup_flatMap.1 h.keys).1 _ hp
    simpa [Poller.keys, Poller.uids] using hnodup
  have hconfirmed : AcknowledgesConfirmed history (.evaluated p reply ret) := by
    cases p with
    | readAIFunc uid => trivial
    | writeAIFunc ogUid backupUid =>
        intro hog hbackup
        have hsuccess : reply = some .success := by
          refine heval.acknowledges ogUid backupUid rfl (hpkeys _ _ rfl) ?_ ?_
          · exact h.done _ hp ogUid backupUid rfl ogUid (by simp [Poller.uids]) hog
          · exact h.done _ hp ogUid backupUid rfl backupUid (by simp [Poller.uids]) hbackup
        exact ⟨hsuccess, heval.ret_of_reply (by rw [hsuccess]; rfl)⟩
  refine ⟨?_, ?_, hconfirmed, h.every⟩
  · unfold Master.liveKeys
    rw [heval.pollers]
    split
    · have hperm := (List.perm_cons_erase hp).flatMap_right Poller.keys
      exact (List.nodup_append.1 (hperm.nodup_iff.1 h.keys)).2.1
    · exact h.keys
  · intro q hq ogUid backupUid hwrite uid huid hregistered
    have hkept : q ∈ s.pollers.erase p ∨ q = p ∧ ret ≠ true := by
      rw [heval.pollers] at hq
      by_cases hret : ret = true
      · rw [if_pos hret] at hq
        exact Or.inl hq
      · rw [if_neg hret] at hq
        by_cases hqp : q = p
        · exact Or.inr ⟨hqp, hret⟩
        · exact Or.inl ((List.mem_erase_of_ne hqp).2 hq)
    rcases hkept with hq' | ⟨rfl, hret⟩
    · rw [heval.done]
      have hqs := List.mem_of_mem_erase hq'
      exact ⟨h.disjoint hp hq' huid, h.done q hqs ogUid backupUid hwrite uid huid hregistered⟩
    · -- had one of the two entries been `DONE`, both had been and the poller would be deleted
      exfalso
      have hqdone := h.done q hp ogUid backupUid hwrite uid huid hregistered
      subst hwrite
      have huid' : uid = ogUid ∨ uid = backupUid := by simpa [Poller.uids] using huid
      have hboth : IsDone s.watchlist ogUid.getUniqueCounter ∧
          IsDone s.watchlist backupUid.getUniqueCounter := by
        rcases huid' with rfl | rfl
        · exact ⟨hqdone, hC.1 hqdone⟩
        · exact ⟨hC.2 hqdone, hqdone⟩
      have hsuccess := heval.acknowledges ogUid backupUid rfl (hpkeys _ _ rfl) hboth.1 hboth.2
      exact hret (heval.ret_of_reply (by rw [hsuccess]; rfl))

/-- An undisturbed step keeps the invariant. -/
theorem Confirms.step (h : Confirms s history) {a : Master.Action} {out : List Event}
    (hC : s.Undisturbed a) (hstep : s.step a = some (t, out)) : Confirms t (out ++ history) := by
  cases a with
  | execRead stamp =>
      obtain ⟨⟨uid, s'⟩, hexec, heq⟩ := Option.map_eq_some_iff.1 hstep
      cases heq
      obtain ⟨hkey, rfl⟩ := Master.execRead_eq_some hexec
      refine h.issue (s.newKeys (.execRead stamp)) ?_ hC.nodup hC.fresh rfl ?_
      · simp [Poller.keys, Poller.uids, Master.newKeys, hkey]
      · intro key hnew hdone
        refine (isDone_registerCommand _ _ _).2 ⟨?_, hdone⟩
        simpa [Master.newKeys, hkey] using hnew
  | execWrite ogStamp gap backupStamp =>
      obtain ⟨⟨uids, s'⟩, hexec, heq⟩ := Option.map_eq_some_iff.1 hstep
      cases heq
      obtain ⟨hogKey, hbackupKey, rfl⟩ := Master.execWrite_eq_some hexec
      refine h.issue (s.newKeys (.execWrite ogStamp gap backupStamp)) ?_ hC.nodup
        hC.fresh rfl ?_
      · simp [Poller.keys, Poller.uids, Master.newKeys, hogKey, hbackupKey]
      · intro key hnew hdone
        have hne : key ≠ uids.1.getUniqueCounter ∧ key ≠ uids.2.getUniqueCounter := by
          simpa [Master.newKeys, ← hogKey, ← hbackupKey] using hnew
        refine (isDone_registerCommand _ _ _).2 ⟨hne.2, ?_⟩
        exact (isDone_registerCommand _ _ _).2 ⟨hne.1, hdone⟩
  | newUID stamp =>
      obtain ⟨⟨uid, s'⟩, hnew, heq⟩ := Option.map_eq_some_iff.1 hstep
      cases heq
      obtain ⟨-, rfl⟩ := Master.newUID_eq_some hnew
      exact ⟨h.keys, h.done, h.every⟩
  | receive stamp r =>
      obtain ⟨s', hreceive, heq⟩ := Option.map_eq_some_iff.1 hstep
      cases heq
      exact h.receive hreceive
  | poll p =>
      obtain ⟨⟨s', e⟩, hpoll, heq⟩ := Option.map_eq_some_iff.1 hstep
      cases heq
      exact h.poll hC.bothOrNone hpoll

/-! ### The result -/

/-- **A confirmed write is acknowledged.** In every run in which no write is evaluated between its
two responses and no key is registered that is in use, every evaluation of a write whose two
responses were registered replies with a success. -/
theorem acknowledges_confirmed (actions : List Master.Action)
    (hC : Transition.Along (logged Master.step) (fun s a => s.1.Undisturbed a)
      (Master.start, []) actions)
    (hrun : Transition.run (logged Master.step) (Master.start, []) actions = some (t, history)) :
    Every AcknowledgesConfirmed history := by
  have hstart : Confirms Master.start [] := ⟨List.nodup_nil, nofun, trivial⟩
  have hstep : ∀ (s : Master) a t out h, Confirms s h → s.Undisturbed a →
      Master.step s a = some (t, out) → Confirms t (out ++ h) := by
    intro s a t out h hI hC hstep
    exact hI.step hC hstep
  exact (invariant_along (fun s _ a => s.Undisturbed a) hstep hstart hC hrun).every

/-- A write that is evaluated before and after its two responses, and acknowledged. -/
def confirmedRun : List Master.Action :=
  [.execWrite ⟨0, 0⟩ [] ⟨0, 0⟩, .poll (.writeAIFunc (nthUid 1) (nthUid 2)),
    .receive ⟨0, 0⟩ (.write (nthUid 1) true), .receive ⟨0, 0⟩ (.write (nthUid 2) true),
    .poll (.writeAIFunc (nthUid 1) (nthUid 2))]

theorem acknowledges_confirmed_run :
    ∃ t past, Transition.run (logged Master.step) (Master.start, []) confirmedRun =
        some (t, .evaluated (.writeAIFunc (nthUid 1) (nthUid 2)) (some .success) true :: past) ∧
      AcknowledgesConfirmed past
        (.evaluated (.writeAIFunc (nthUid 1) (nthUid 2)) (some .success) true) := by
  refine ⟨_, _, rfl, ?_⟩
  have hevery := acknowledges_confirmed confirmedRun (by decide) rfl
  exact hevery.1

/-- A write that is evaluated between its two responses, and again after both. -/
def disturbedRun : List Master.Action :=
  [.execWrite ⟨0, 0⟩ [] ⟨0, 0⟩, .receive ⟨0, 0⟩ (.write (nthUid 1) true),
    .poll (.writeAIFunc (nthUid 1) (nthUid 2)),
    .receive ⟨0, 0⟩ (.write (nthUid 2) true),
    .poll (.writeAIFunc (nthUid 1) (nthUid 2))]

/-- The evaluation between the two responses loses the first: the evaluation after both replies
nothing and returns false. -/
theorem poll_between_responses :
    ∃ t past, Transition.run (logged Master.step) (Master.start, []) disturbedRun =
        some (t, .evaluated (.writeAIFunc (nthUid 1) (nthUid 2)) none false :: past) ∧
      ¬ AcknowledgesConfirmed past
        (.evaluated (.writeAIFunc (nthUid 1) (nthUid 2)) none false) := by
  refine ⟨_, _, rfl, ?_⟩
  intro hack
  have hog : RegisteredSince (.writeAIFunc (nthUid 1) (nthUid 2)) (nthUid 1)
      [.received (.write (nthUid 2) true),
        .evaluated (.writeAIFunc (nthUid 1) (nthUid 2)) none false,
        .received (.write (nthUid 1) true),
        .issued (.writeAIFunc (nthUid 1) (nthUid 2))] := Or.inr (Or.inl ⟨rfl, rfl⟩)
  exact absurd (hack hog (Or.inl ⟨rfl, rfl⟩)).2 (by decide)

end IotDrive
