/-
No write is acknowledged falsely or twice.

As long as no UID is handed out again, a success reply to a write means that a success response
for each of its two UIDs was received before; and once a write was replied to, its poller is gone
for good.  The network may lose, duplicate and reorder what it likes.

Main definitions:

* `issuedUids` — the UIDs that commands registered;
* `Justified` — what is required of an event, given the events before it;
* `Tracked` — the invariant.

Main results:

* `Tracked.step` — every step of the cluster preserves the invariant;
* `every_event_justified` — **no false and no double acknowledgement**.
-/

import IotDrive.Cluster
import Mathlib.Data.List.Nodup

set_option relaxedAutoImplicit false
set_option autoImplicit false

namespace IotDrive

open History

/-- The UIDs that an event registered. -/
def Event.issuedUids : Event → List ThreadSafeUID
  | .issued p => p.uids
  | _ => []

/-- The UIDs that were registered in a history. -/
def issuedUids (history : List Event) : List ThreadSafeUID := history.flatMap Event.issuedUids

/-- Given the events before it: a command is issued once; a write is acknowledged only after a
success was received for each of its UIDs, and is evaluated only while it has had no reply. -/
def Justified (past : List Event) : Event → Prop
  | .issued p => .issued p ∉ past
  | .evaluated (.writeAIFunc ogUid backupUid) reply _ =>
      (reply = some .success → ∀ uid ∈ [ogUid, backupUid],
        ∃ r, .received r ∈ past ∧ r.isSuccess = true ∧ r.uid = uid) ∧
      ∀ reply' ret', .evaluated (.writeAIFunc ogUid backupUid) reply' ret' ∈ past → reply' = none
  | _ => True

/-! ### The invariant -/

/-- The registered UIDs have different keys below the counter; only they are in flight; entries
that are `DONE` come from received successes; pollers were issued, are held once, and not any more
once they returned true. -/
structure Tracked (s : Cluster) (history : List Event) : Prop where
  counted : ∀ uid ∈ issuedUids history, uid.getUniqueCounter.toNat < s.master.staticCounter
  distinct : ((issuedUids history).map ThreadSafeUID.getUniqueCounter).Nodup
  requests : ∀ q ∈ s.requests, q.uid ∈ issuedUids history
  responses : ∀ r ∈ s.responses, r.uid ∈ issuedUids history
  done : ∀ key, IsDone s.master.watchlist key → ∃ r, .received r ∈ history ∧
    r.isSuccess = true ∧ r.uid ∈ issuedUids history ∧ key = r.uid.getUniqueCounter
  pollers : ∀ p ∈ s.master.pollers, .issued p ∈ history
  once : s.master.pollers.Nodup
  evaluated : ∀ p reply ret, .evaluated p reply ret ∈ history → .issued p ∈ history ∧
    (ret = true → p ∉ s.master.pollers) ∧ (reply.isSome = true → ret = true)
  every : Every Justified history

variable {s t : Cluster} {history : List Event}

theorem tracked_start : Tracked Cluster.start [] where
  counted := nofun
  distinct := List.nodup_nil
  requests := nofun
  responses := nofun
  done := nofun
  pollers := nofun
  once := List.nodup_nil
  evaluated := nofun
  every := trivial

theorem issuedUids_cons (e : Event) (history : List Event) :
    issuedUids (e :: history) = e.issuedUids ++ issuedUids history := rfl

theorem mem_issuedUids {p : Poller} (hp : .issued p ∈ history) {uid : ThreadSafeUID}
    (huid : uid ∈ p.uids) : uid ∈ issuedUids history :=
  List.mem_flatMap.2 ⟨_, hp, huid⟩

/-- Registered UIDs with the same key are the same. -/
theorem Tracked.uid_eq (h : Tracked s history) {u v : ThreadSafeUID} (hu : u ∈ issuedUids history)
    (hv : v ∈ issuedUids history) (hkey : u.getUniqueCounter = v.getUniqueCounter) : u = v :=
  List.inj_on_of_nodup_map h.distinct hu hv hkey

/-- A poller whose keys are not below the counter was never issued. -/
theorem Tracked.not_issued (h : Tracked s history) {p : Poller}
    (hnew : ∀ uid ∈ p.uids, s.master.staticCounter ≤ uid.getUniqueCounter.toNat) :
    .issued p ∉ history := by
  intro hp
  obtain ⟨uid, huid⟩ : ∃ uid, uid ∈ p.uids := by
    cases p with
    | readAIFunc uid => exact ⟨uid, by simp [Poller.uids]⟩
    | writeAIFunc ogUid backupUid => exact ⟨ogUid, by simp [Poller.uids]⟩
  have hlt := h.counted uid (mem_issuedUids hp huid)
  have hge := hnew uid huid
  omega

/-- A step that leaves the master alone and puts nothing new in flight keeps the invariant. -/
theorem Tracked.network (h : Tracked s history) (hmaster : t.master = s.master)
    (hrequests : ∀ q ∈ t.requests, q ∈ s.requests)
    (hresponses : ∀ r ∈ t.responses, r ∈ s.responses ∨ ∃ q ∈ s.requests, r.uid = q.uid) :
    Tracked t history where
  counted := hmaster ▸ h.counted
  distinct := h.distinct
  requests q hq := h.requests q (hrequests q hq)
  responses r hr := by
    rcases hresponses r hr with hr | ⟨q, hq, huid⟩
    · exact h.responses r hr
    · rw [huid]
      exact h.requests q hq
  done := hmaster ▸ h.done
  pollers := hmaster ▸ h.pollers
  once := hmaster ▸ h.once
  evaluated := hmaster ▸ h.evaluated
  every := h.every

/-- A command that registers new keys and leaves a poller for them keeps the invariant. -/
theorem Tracked.issue (h : Tracked s history) {p : Poller}
    (hcounter : s.master.staticCounter ≤ t.master.staticCounter)
    (hnew : ∀ uid ∈ p.uids, s.master.staticCounter ≤ uid.getUniqueCounter.toNat ∧
      uid.getUniqueCounter.toNat < t.master.staticCounter)
    (hkeys : p.keys.Nodup) (hpollers : t.master.pollers = s.master.pollers ++ [p])
    (hdone : ∀ key, IsDone t.master.watchlist key → IsDone s.master.watchlist key)
    (hrequests : ∀ q ∈ t.requests, q ∈ s.requests ∨ q.uid ∈ p.uids)
    (hresponses : t.responses = s.responses) : Tracked t (.issued p :: history) := by
  have hfresh : .issued p ∉ history := h.not_issued fun uid huid => (hnew uid huid).1
  have huids : ∀ uid ∈ issuedUids history, uid ∈ issuedUids (.issued p :: history) := by
    intro uid huid
    rw [issuedUids_cons]
    exact List.mem_append_right _ huid
  refine ⟨?_, ?_, ?_, ?_, ?_, ?_, ?_, ?_, hfresh, h.every⟩
  · intro uid huid
    rw [issuedUids_cons] at huid
    rcases List.mem_append.1 huid with huid | huid
    · exact (hnew uid huid).2
    · exact lt_of_lt_of_le (h.counted uid huid) hcounter
  · rw [issuedUids_cons, List.map_append]
    refine List.nodup_append'.2 ⟨hkeys, h.distinct, ?_⟩
    -- the old keys are below the counter, the new ones are not
    intro key hkey hold
    obtain ⟨uid, huid, rfl⟩ := List.mem_map.1 hkey
    obtain ⟨uid', huid', heq⟩ := List.mem_map.1 hold
    have hlt := h.counted uid' huid'
    have hge := (hnew uid huid).1
    rw [heq] at hlt
    omega
  · intro q hq
    rw [issuedUids_cons]
    rcases hrequests q hq with hq | hq
    · exact List.mem_append_right _ (h.requests q hq)
    · exact List.mem_append_left _ hq
  · intro r hr
    rw [hresponses] at hr
    exact huids _ (h.responses r hr)
  · intro key hkey
    obtain ⟨r, hr, hsuccess, hissued, heq⟩ := h.done key (hdone key hkey)
    exact ⟨r, List.mem_cons_of_mem _ hr, hsuccess, huids _ hissued, heq⟩
  · intro q hq
    rw [hpollers] at hq
    rcases List.mem_append.1 hq with hq | hq
    · exact List.mem_cons_of_mem _ (h.pollers q hq)
    · rw [List.mem_singleton.1 hq]
      exact List.mem_cons_self ..
  · rw [hpollers]
    refine List.nodup_append'.2 ⟨h.once, List.nodup_singleton p, ?_⟩
    intro q hq hqp
    rw [List.mem_singleton.1 hqp] at hq
    exact hfresh (h.pollers p hq)
  · intro q reply ret he
    have he' : .evaluated q reply ret ∈ history := by
      simpa using he
    obtain ⟨hissued, hgone, hret⟩ := h.evaluated q reply ret he'
    refine ⟨List.mem_cons_of_mem _ hissued, ?_, hret⟩
    intro htrue hq
    rw [hpollers] at hq
    rcases List.mem_append.1 hq with hq | hq
    · exact hgone htrue hq
    · rw [List.mem_singleton.1 hq] at hissued
      exact hfresh hissued

/-- A response that is received keeps the invariant. -/
theorem Tracked.receive (h : Tracked s history) {stamp : Stamp} {r : Response} {m : Master}
    (hr : r ∈ s.responses) (hreceive : s.master.receive stamp r = some m) :
    Tracked { s with master := m, responses := s.responses.erase r } (.received r :: history) := by
  obtain ⟨hcounter, hpollers, hdone⟩ := Master.receive_eq_some hreceive
  have huids : issuedUids (.received r :: history) = issuedUids history := rfl
  refine ⟨?_, h.distinct, h.requests, ?_, ?_, ?_, ?_, ?_, trivial, h.every⟩
  · intro uid huid
    have hlt := h.counted uid huid
    dsimp only
    omega
  · intro r' hr'
    exact h.responses r' (List.mem_of_mem_erase hr')
  · intro key hkey
    rw [huids]
    rcases (hdone key).1 hkey with hkey | ⟨hsuccess, rfl⟩
    · obtain ⟨r', hr', hsuccess, hissued, heq⟩ := h.done key hkey
      exact ⟨r', List.mem_cons_of_mem _ hr', hsuccess, hissued, heq⟩
    · exact ⟨r, List.mem_cons_self .., hsuccess, h.responses r hr, rfl⟩
  · intro p hp
    rw [hpollers] at hp
    exact List.mem_cons_of_mem _ (h.pollers p hp)
  · rw [hpollers]
    exact h.once
  · intro p reply ret he
    have he' : .evaluated p reply ret ∈ history := by
      simpa using he
    obtain ⟨hissued, hgone, hret⟩ := h.evaluated p reply ret he'
    rw [hpollers]
    exact ⟨List.mem_cons_of_mem _ hissued, hgone, hret⟩

/-- An evaluation is justified, and keeps the invariant. -/
theorem Tracked.poll (h : Tracked s history) {p : Poller} {m : Master} {e : Event}
    (hpoll : s.master.poll p = some (m, e)) : Tracked { s with master := m } (e :: history) := by
  obtain ⟨reply, ret, rfl, heval⟩ := Master.poll_cases hpoll
  have hp := heval.mem
  have hjustified : Justified history (.evaluated p reply ret) := by
    cases p with
    | readAIFunc uid => trivial
    | writeAIFunc ogUid backupUid =>
        refine ⟨?_, ?_⟩
        · intro hreply uid huid
          have hissued := mem_issuedUids (h.pollers _ hp) huid
          have hkey : uid.getUniqueCounter ∈ (Poller.writeAIFunc ogUid backupUid).keys :=
            List.mem_map_of_mem huid
          obtain ⟨r, hr, hsucceeded, hrissued, heq⟩ := h.done _ ((heval.success hreply).2 _ hkey)
          exact ⟨r, hr, hsucceeded, (h.uid_eq hissued hrissued heq).symm⟩
        · intro reply' ret' he
          -- it was replied to before, so it had returned true and was not held any more
          obtain ⟨-, hgone, hret'⟩ := h.evaluated _ _ _ he
          by_contra hne
          have hsome := Option.isSome_iff_ne_none.2 hne
          exact hgone (hret' hsome) hp
  refine ⟨?_, h.distinct, h.requests, h.responses, ?_, ?_, ?_, ?_, hjustified, h.every⟩
  · intro uid huid
    dsimp only
    rw [heval.counter]
    exact h.counted uid huid
  · intro key hkey
    obtain ⟨r, hr, hsucceeded, hissued, heq⟩ := h.done key ((heval.done key).1 hkey).2
    exact ⟨r, List.mem_cons_of_mem _ hr, hsucceeded, hissued, heq⟩
  · intro q hq
    exact List.mem_cons_of_mem _ (h.pollers q (heval.mem_of_mem hq))
  · dsimp only
    rw [heval.pollers]
    split
    · exact h.once.erase p
    · exact h.once
  · intro q reply' ret' he
    rcases List.mem_cons.1 he with heq | he
    · cases heq
      refine ⟨List.mem_cons_of_mem _ (h.pollers _ hp), ?_, heval.ret_of_reply⟩
      intro htrue hq
      dsimp only at hq
      rw [heval.pollers, if_pos htrue] at hq
      exact h.once.not_mem_erase hq
    · obtain ⟨hissued, hgone, hret'⟩ := h.evaluated q reply' ret' he
      exact ⟨List.mem_cons_of_mem _ hissued, fun htrue hq => hgone htrue (heval.mem_of_mem hq), hret'⟩

/-! ### Steps and runs -/

theorem toNat_ofNat_counter {n : ℕ} (h : n < 2 ^ 32) : (UInt32.ofNat n).toNat = n :=
  UInt32.toNat_ofNat_of_lt' h

/-- Every step of the cluster keeps the invariant, as long as no key is drawn twice. -/
theorem Tracked.step (h : Tracked s history) {a : Cluster.Action} {out : List Event}
    (hstep : s.step a = some (t, out)) (hbound : t.master.staticCounter ≤ 2 ^ 32) :
    Tracked t (out ++ history) := by
  cases Cluster.step_cases hstep with
  | @execRead stamp size uid m hexec =>
      obtain ⟨hkey, rfl⟩ := Master.execRead_eq_some hexec
      dsimp only at hbound
      have hnat := congrArg UInt32.toNat hkey
      rw [toNat_ofNat_counter (by omega)] at hnat
      refine h.issue (Nat.le_succ _) ?_ (by simp [Poller.keys, Poller.uids]) rfl ?_ ?_ rfl
      · intro uid' huid'
        obtain rfl : uid' = uid := by simpa [Poller.uids] using huid'
        dsimp only
        omega
      · intro key hdone
        exact ((isDone_registerCommand _ _ _).1 hdone).2
      · intro q hq
        rcases List.mem_append.1 hq with hq | hq
        · exact Or.inl hq
        · rw [List.mem_singleton.1 hq]
          exact Or.inr (by simp [MinionRequest.uid, Poller.uids])
  | @execWrite ogStamp backupStamp gap uids m hexec =>
      obtain ⟨hogKey, hbackupKey, rfl⟩ := Master.execWrite_eq_some hexec
      dsimp only at hbound
      have hog := congrArg UInt32.toNat hogKey
      have hbackup := congrArg UInt32.toNat hbackupKey
      rw [toNat_ofNat_counter (by omega)] at hog hbackup
      have hne : uids.1.getUniqueCounter ≠ uids.2.getUniqueCounter := by
        intro heq
        rw [heq] at hog
        omega
      refine h.issue (by dsimp only; omega) ?_ (by simpa [Poller.keys, Poller.uids] using hne)
        rfl ?_ ?_ rfl
      · intro uid huid
        have huid' : uid = uids.1 ∨ uid = uids.2 := by simpa [Poller.uids] using huid
        dsimp only
        rcases huid' with rfl | rfl
        · omega
        · omega
      · intro key hdone
        have hdone' := ((isDone_registerCommand _ _ _).1 hdone).2
        exact ((isDone_registerCommand _ _ _).1 hdone').2
      · intro q hq
        rcases List.mem_append.1 hq with hq | hq
        · exact Or.inl hq
        · right
          have hq' : q = .write uids.1 ∨ q = .write uids.2 := by simpa using hq
          rcases hq' with rfl | rfl <;> simp [MinionRequest.uid, Poller.uids]
  | newUID hnew =>
      obtain ⟨-, rfl⟩ := Master.newUID_eq_some hnew
      exact { h with counted := fun uid huid => Nat.lt_succ_of_lt (h.counted uid huid) }
  | poll hpoll => exact h.poll hpoll
  | receive hr hreceive => exact h.receive hr hreceive
  | answer hq hanswer =>
      refine h.network rfl (fun _ => List.mem_of_mem_erase) ?_
      intro r hr
      rcases List.mem_append.1 hr with hr | hr
      · exact Or.inl hr
      · rw [List.mem_singleton.1 hr]
        exact Or.inr ⟨_, hq, MinionRequest.uid_of_answer hanswer⟩
  | loseRequest _ =>
      exact h.network rfl (fun _ => List.mem_of_mem_erase) fun _ hr => Or.inl hr
  | duplicateRequest hq =>
      refine h.network rfl ?_ fun _ hr => Or.inl hr
      intro q' hq'
      rcases List.mem_append.1 hq' with hq' | hq'
      · exact hq'
      · rw [List.mem_singleton.1 hq']
        exact hq
  | loseResponse _ =>
      exact h.network rfl (fun _ hq => hq) fun _ hr => Or.inl (List.mem_of_mem_erase hr)
  | duplicateResponse hr =>
      refine h.network rfl (fun _ hq => hq) fun r' hr' => Or.inl ?_
      rcases List.mem_append.1 hr' with hr' | hr'
      · exact hr'
      · rw [List.mem_singleton.1 hr']
        exact hr

/-- **No false and no double acknowledgement.** In every run in which fewer than `2 ^ 32` UIDs are
constructed, every event is justified by the events before it. -/
theorem every_event_justified (actions : List Cluster.Action)
    (hrun : Transition.run (logged Cluster.step) (Cluster.start, []) actions = some (t, history))
    (hbound : t.master.constructed < 2 ^ 32) : Every Justified history := by
  -- the counter only grows, so a bound on its last value is a bound on all of them
  have hstep : ∀ (s : Cluster) a t out h, (s.master.staticCounter ≤ 2 ^ 32 → Tracked s h) →
      s.step a = some (t, out) → t.master.staticCounter ≤ 2 ^ 32 → Tracked t (out ++ h) := by
    intro s a t out h hI hstep ht
    have hs := (Cluster.staticCounter_le_of_step hstep).trans ht
    exact (hI hs).step hstep ht
  have hlast : t.master.staticCounter ≤ 2 ^ 32 := by
    unfold Master.constructed at hbound
    omega
  exact (invariant hstep (fun _ => tracked_start) hrun hlast).every

/-- A write whose first response is duplicated and overtaken by the second, and whose late copy
arrives after the reply. -/
def duplicatedRun : List Cluster.Action :=
  [.execWrite ⟨0, 0⟩ [] ⟨0, 0⟩, .answer (.write (nthUid 1)) true [],
    .answer (.write (nthUid 2)) true [], .duplicateResponse (.write (nthUid 1) true),
    .receive ⟨0, 0⟩ (.write (nthUid 2) true), .receive ⟨0, 0⟩ (.write (nthUid 1) true),
    .poll (.writeAIFunc (nthUid 1) (nthUid 2)), .receive ⟨0, 0⟩ (.write (nthUid 1) true)]

theorem every_event_justified_duplicatedRun :
    ∃ t past, Transition.run (logged Cluster.step) (Cluster.start, []) duplicatedRun =
        some (t, .received (.write (nthUid 1) true) ::
          .evaluated (.writeAIFunc (nthUid 1) (nthUid 2)) (some .success) true :: past) ∧
      Justified past (.evaluated (.writeAIFunc (nthUid 1) (nthUid 2)) (some .success) true) := by
  refine ⟨_, _, rfl, ?_⟩
  have hevery := every_event_justified duplicatedRun rfl (by decide)
  exact hevery.2.1

end IotDrive
