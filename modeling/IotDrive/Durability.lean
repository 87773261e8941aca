/-
What the cluster has stored when it says so, and what it returns.

A minion answers a request when it has executed it, and the master acknowledges a write when both
answers have come.  So the files hold what was acknowledged, and a read returns what the files held
at some moment between its command and its response, whatever is lost, duplicated, delayed and
reordered on the way.

Main definitions:

* `Posted.Writes`, `Request.Covers` — the bytes that a datagram, or a block request, writes;
* `stored` — the bytes of all files after the requests that were served in a history;
* `AnsweredFrom` — a response to a datagram that was served in a history;
* `Traced` — the invariant.

Main results:

* `stored_cases` — a stored byte is from the datagram that wrote it last;
* `Traced.step` — every step keeps the invariant;
* `acknowledged_write_stored` — **durability**;
* `read_after_acknowledged_write` — **a read that starts later returns it**;
* `read_byte_cases` — a read returns nothing that was not written.
-/

import IotDrive.AckSafety
import IotDrive.StorageCluster
import Mathlib.Data.List.Pairwise

set_option relaxedAutoImplicit false
set_option autoImplicit false

namespace IotDrive

open History Mirroring

/-! ### Bytes that are written -/

/-- The datagram writes the byte at the site, if it is served. -/
def Posted.Writes (q : Posted) (site : ℕ × ℕ) : Prop :=
  match q.request with
  | .read _ _ _ => False
  | .write offset _ data _ _ =>
      site.1 = q.minion ∧ offset.toNat ≤ site.2 ∧ site.2 < offset.toNat + data.length

/-- The block request writes the byte at the address. -/
def Request.Covers (a : ℕ) : Request → Prop
  | .read _ _ => False
  | .write offset data => offset.toNat ≤ a ∧ a < offset.toNat + data.length

/-- The bytes that are not written stay as they are. -/
theorem Posted.store_of_not_writes {q : Posted} {site : ℕ × ℕ} (h : ¬ q.Writes site)
    (bytes : ℕ × ℕ → UInt8) : q.store bytes site = bytes site := by
  obtain ⟨i, request⟩ := q
  obtain ⟨j, p⟩ := site
  cases request with
  | read offset size uid => rfl
  | write offset size data uid hdata =>
      simp only [Posted.Writes] at h
      simp only [Posted.store]
      split
      · rename_i hj
        subst hj
        exact Extent.overwrite_of_notMem _ _ _ (by omega)
      · rfl

/-- The copies of the bytes of a write are next to each other. -/
theorem Request.FitsStripe.place_write {offset : UInt64} {data : List UInt8}
    (h : (Request.write offset data).FitsStripe) (c : Bool) {k : ℕ} (hk : k < data.length) :
    place c (offset.toNat + k) = ((place c offset.toNat).1, (place c offset.toNat).2 + k) :=
  place_add c h.2 hk

namespace ForCopy

variable {p : Poller} {r : Request} {c : Bool} {q : Posted}

/-- A datagram writes its copy of the addresses that the block request covers. -/
theorem writes_iff (h : ForCopy p r c q) (hr : r.FitsStripe) {site : ℕ × ℕ} :
    q.Writes site ↔ ∃ a, r.Covers a ∧ site = place c a := by
  cases h with
  | read hsite =>
      refine iff_of_false id ?_
      rintro ⟨a, hcovers, -⟩
      exact hcovers
  | @write ogUid backupUid offset offset' size data hdata i c hsite =>
      have hadd : ∀ k < data.length, place c (offset.toNat + k) = (i, offset'.toNat + k) := by
        intro k hk
        rw [hr.place_write c hk, ← hsite]
      constructor
      · rintro ⟨hi, hle, hlt⟩
        refine ⟨offset.toNat + (site.2 - offset'.toNat), ⟨by omega, by omega⟩, ?_⟩
        rw [hadd _ (by omega)]
        exact Prod.ext hi (by dsimp only; omega)
      · rintro ⟨a, ⟨hle, hlt⟩, rfl⟩
        have ha := hadd (a - offset.toNat) (by omega)
        rw [Nat.add_sub_cancel' hle] at ha
        rw [ha]
        exact ⟨rfl, by dsimp only; omega, by dsimp only; omega⟩

/-- The byte that a datagram leaves at its copy of an address. -/
theorem store_place {ogUid backupUid : ThreadSafeUID} {offset : UInt64} {data : List UInt8}
    (h : ForCopy (.writeAIFunc ogUid backupUid) (.write offset data) c q)
    (hr : (Request.write offset data).FitsStripe) (bytes : ℕ × ℕ → UInt8) {k : ℕ}
    (hk : k < data.length) : q.store bytes (place c (offset.toNat + k)) = data[k] := by
  cases h with
  | write c hsite =>
      rw [hr.place_write c hk, ← hsite]
      simp only [Posted.store, if_true]
      exact Extent.overwrite_add _ _ _ hk

end ForCopy

/-! ### Files as what was served -/

/-- The bytes of all files after the requests that were served in a history, the latest first. -/
def stored (bytes : ℕ × ℕ → UInt8) : List StorageEvent → ℕ × ℕ → UInt8
  | [] => bytes
  | .served q :: past => q.store (stored bytes past)
  | _ :: past => stored bytes past

section Stored

variable {bytes : ℕ × ℕ → UInt8} {history : List StorageEvent} {site : ℕ × ℕ}

/-- A byte is as it was before events that do not write it. -/
theorem stored_append {later : List StorageEvent}
    (h : ∀ q, .served q ∈ later → ¬ q.Writes site) :
    stored bytes (later ++ history) site = stored bytes history site := by
  -- induction on the later events, the latest of which is undone first
  induction later with
  | nil => rfl
  | cons e later ih =>
      have ih := ih fun q hq => h q (List.mem_cons_of_mem _ hq)
      cases e with
      | served q => exact (Posted.store_of_not_writes (h q (List.mem_cons_self ..)) _).trans ih
      | issued p r => exact ih
      | received r => exact ih
      | evaluated p reply ret => exact ih

/-- A byte is from the datagram that was the last to write it, if one was. -/
theorem stored_cases (bytes : ℕ × ℕ → UInt8) (history : List StorageEvent) (site : ℕ × ℕ) :
    (∀ q, .served q ∈ history → ¬ q.Writes site) ∧ stored bytes history site = bytes site ∨
      ∃ later q past, history = later ++ .served q :: past ∧ q.Writes site ∧
        (∀ q', .served q' ∈ later → ¬ q'.Writes site) ∧
        stored bytes history site = q.store (stored bytes past) site := by
  -- induction on the history; its latest event wrote the byte, or the last writer is in its past
  induction history with
  | nil => exact Or.inl ⟨nofun, rfl⟩
  | cons e history ih =>
      by_cases he : ∃ q, e = .served q ∧ q.Writes site
      · obtain ⟨q, rfl, hwrites⟩ := he
        exact Or.inr ⟨[], q, history, rfl, hwrites, nofun, rfl⟩
      · have hskip : stored bytes ([e] ++ history) site = stored bytes history site := by
          refine stored_append fun q hq hwrites => he ⟨q, ?_, hwrites⟩
          exact (List.mem_singleton.1 hq).symm
        rcases ih with ⟨hnone, heq⟩ | ⟨later, q, past, rfl, hwrites, hlater, heq⟩
        · refine Or.inl ⟨?_, hskip.trans heq⟩
          intro q hq hwrites
          rcases List.mem_cons.1 hq with rfl | hq
          · exact he ⟨q, rfl, hwrites⟩
          · exact hnone q hq hwrites
        · refine Or.inr ⟨e :: later, q, past, rfl, hwrites, ?_, hskip.trans heq⟩
          intro q' hq' hwrites'
          rcases List.mem_cons.1 hq' with rfl | hq'
          · exact he ⟨q', rfl, hwrites'⟩
          · exact hlater q' hq' hwrites'

end Stored

/-! ### Where datagrams come from -/

/-- The datagram is one of a command that was issued in the history. -/
def Commanded (history : List StorageEvent) (q : Posted) : Prop :=
  ∃ p r c, .issued p r ∈ history ∧ ForCopy p r c q

/-- The response answers a datagram that was served in the history; that of a read carries what was
stored at its copy then. -/
def AnsweredFrom (bytes : ℕ × ℕ → UInt8) (history : List StorageEvent) (res : Response) : Prop :=
  ∃ p r c q past, .served q :: past <:+ history ∧ .issued p r ∈ past ∧ ForCopy p r c q ∧
    res.question = q.asked.question ∧ res.isSuccess = true ∧
    ∀ offset size, r = .read offset size → res.data = Extent.extract
      (fun k => stored bytes past ((place c offset.toNat).1, k)) (place c offset.toNat).2 size.toNat

/-- Given the events before it: a command stays inside of a stripe, a datagram is served only if it
was sent, and a response is received only if it answers a datagram that was served. -/
def Traceable (bytes : ℕ × ℕ → UInt8) (past : List StorageEvent) : StorageEvent → Prop
  | .issued _ r => r.FitsStripe
  | .served q => Commanded past q
  | .received res => AnsweredFrom bytes past res
  | .evaluated _ _ _ => True

theorem Commanded.append {history : List StorageEvent} {q : Posted} (h : Commanded history q)
    (out : List StorageEvent) : Commanded (out ++ history) q := by
  obtain ⟨p, r, c, hissued, hq⟩ := h
  exact ⟨p, r, c, List.mem_append_right _ hissued, hq⟩

theorem AnsweredFrom.append {bytes : ℕ × ℕ → UInt8} {history : List StorageEvent} {res : Response}
    (h : AnsweredFrom bytes history res) (out : List StorageEvent) :
    AnsweredFrom bytes (out ++ history) res := by
  obtain ⟨p, r, c, q, past, hserved, hrest⟩ := h
  exact ⟨p, r, c, q, past, hserved.trans (List.suffix_append _ _), hrest⟩

namespace StorageCluster

/-- The cluster without the files. -/
def forget (s : StorageCluster) : Cluster :=
  { master := s.master, requests := s.requests.map Posted.asked, responses := s.responses }

theorem forgets_forget (s : StorageCluster) : Forgets s s.forget := ⟨rfl, .of_map rfl, rfl⟩

/-- No step takes back a UID. -/
theorem staticCounter_le_of_step {s t : StorageCluster} {a : Action} {out : List StorageEvent}
    (h : s.step a = some (t, out)) : s.master.staticCounter ≤ t.master.staticCounter := by
  obtain ⟨b, d, hstep, hd⟩ := step_forgets s.forgets_forget h
  exact hd.master ▸ Cluster.staticCounter_le_of_step hstep

end StorageCluster

/-- The UIDs, the watch-list and the pollers are as they are without files; the files are what was
served, and every datagram in flight is one of a command, or an answer to one. -/
structure Traced (bytes : ℕ × ℕ → UInt8) (s : StorageCluster) (history : List StorageEvent) :
    Prop where
  tracked : ∃ c, Forgets s c ∧ Tracked c (history.flatMap StorageEvent.events)
  ready : s.minions.Ready
  files : s.minions.bytes = stored bytes history
  requests : ∀ q ∈ s.requests, Commanded history q
  responses : ∀ res ∈ s.responses, AnsweredFrom bytes history res
  every : Every (Traceable bytes) history

section Traced

variable {bytes : ℕ × ℕ → UInt8} {s t : StorageCluster} {history : List StorageEvent}

theorem traced_start {minions : Minions} (h : minions.Ready) :
    Traced minions.bytes (.start minions) [] :=
  ⟨⟨.start, .start minions, tracked_start⟩, h, rfl, nofun, nofun, trivial⟩

/-- Serving a datagram keeps the files what was served, and answers with what is stored. -/
theorem Traced.serve (h : Traced bytes s history) (heap : Heap) {q : Posted} (hq : q ∈ s.requests) :
    (s.minions.serve heap q).1.Ready ∧
      (s.minions.serve heap q).1.bytes = stored bytes (.served q :: history) ∧
      AnsweredFrom bytes (.served q :: history) ((s.minions.serve heap q).2.response q.request) := by
  obtain ⟨p, r, c, hissued, hcopy⟩ := h.requests q hq
  obtain ⟨past, hpast⟩ := exists_suffix hissued
  have hfits : r.FitsStripe := h.every.of_suffix hpast
  obtain ⟨hready, hbytes, hsuccess, hdata⟩ := h.ready.serve heap hcopy hfits
  refine ⟨hready, hbytes.trans (by rw [h.files]; rfl), p, r, c, q, history, List.suffix_refl _,
    hissued, hcopy, q.request.question_response _, ?_, ?_⟩
  · cases hrequest : q.request <;> exact hsuccess
  · intro offset size hr
    rw [← h.files, ← hdata offset size hr]
    subst hr
    cases hcopy
    rfl

/-- Every step keeps the invariant, as long as no key is drawn twice. -/
theorem Traced.step (h : Traced bytes s history) {a : StorageCluster.Action}
    {out : List StorageEvent} (hfit : ∀ e ∈ out, e.Fits)
    (hstep : s.step a = some (t, out)) (hbound : t.master.staticCounter ≤ 2 ^ 32) :
    Traced bytes t (out ++ history) := by
  have htracked : ∃ c, Forgets t c ∧ Tracked c ((out ++ history).flatMap StorageEvent.events) := by
    obtain ⟨c, hc, htracked⟩ := h.tracked
    obtain ⟨b, d, hstep', hd⟩ := StorageCluster.step_forgets hc hstep
    refine ⟨d, hd, ?_⟩
    rw [List.flatMap_append]
    exact htracked.step hstep' (hd.master ▸ hbound)
  have hsent : ∀ q ∈ s.requests, Commanded (out ++ history) q := fun q hq => (h.requests q hq).append out
  have hanswered : ∀ res ∈ s.responses, AnsweredFrom bytes (out ++ history) res :=
    fun res hres => (h.responses res hres).append out
  cases StorageCluster.step_cases hstep with
  | @execRead stamp offset size uid master qs hexec hqs =>
      refine ⟨htracked, h.ready, h.files, ?_, hanswered, hfit _ (List.mem_cons_self ..), h.every⟩
      intro q hq
      rcases List.mem_append.1 hq with hq | hq
      · exact hsent q hq
      · obtain ⟨c, hcopy⟩ := forCopy_of_posted hqs q hq
        exact ⟨_, _, c, List.mem_cons_self .., hcopy⟩
  | @execWrite ogStamp backupStamp gap offset data uids master qs hexec hqs =>
      refine ⟨htracked, h.ready, h.files, ?_, hanswered, hfit _ (List.mem_cons_self ..), h.every⟩
      intro q hq
      rcases List.mem_append.1 hq with hq | hq
      · exact hsent q hq
      · obtain ⟨c, hcopy⟩ := forCopy_of_posted hqs q hq
        exact ⟨_, _, c, List.mem_cons_self .., hcopy⟩
  | newUID _ => exact ⟨htracked, h.ready, h.files, hsent, hanswered, h.every⟩
  | poll _ _ => exact ⟨htracked, h.ready, h.files, hsent, hanswered, trivial, h.every⟩
  | receive hr _ =>
      exact ⟨htracked, h.ready, h.files, hsent,
        fun res hres => hanswered res (List.mem_of_mem_erase hres), h.responses _ hr, h.every⟩
  | @serve heap q hq =>
      obtain ⟨hready, hfiles, hanswer⟩ := h.serve heap hq
      refine ⟨htracked, hready, hfiles, fun q' hq' => hsent q' (List.mem_of_mem_erase hq'), ?_,
        h.requests q hq, h.every⟩
      intro res hres
      rcases List.mem_append.1 hres with hres | hres
      · exact hanswered res hres
      · rw [List.mem_singleton.1 hres]
        exact hanswer
  | loseRequest _ =>
      exact ⟨htracked, h.ready, h.files, fun q hq => hsent q (List.mem_of_mem_erase hq), hanswered,
        h.every⟩
  | duplicateRequest hq =>
      refine ⟨htracked, h.ready, h.files, ?_, hanswered, h.every⟩
      intro q' hq'
      rcases List.mem_append.1 hq' with hq' | hq'
      · exact hsent q' hq'
      · rw [List.mem_singleton.1 hq']
        exact hsent _ hq
  | loseResponse _ =>
      exact ⟨htracked, h.ready, h.files, hsent,
        fun res hres => hanswered res (List.mem_of_mem_erase hres), h.every⟩
  | duplicateResponse hr =>
      refine ⟨htracked, h.ready, h.files, hsent, ?_, h.every⟩
      intro res hres
      rcases List.mem_append.1 hres with hres | hres
      · exact hanswered res hres
      · rw [List.mem_singleton.1 hres]
        exact hanswered _ hr

/-- Every run of commands inside of the stripes keeps the invariant, if fewer than `2 ^ 32` UIDs are
constructed in it. -/
theorem traced_run {minions : Minions} (hready : minions.Ready) {actions : List StorageCluster.Action}
    (hrun : Transition.run (logged StorageCluster.step) (.start minions, []) actions =
      some (t, history)) (hfit : ∀ e ∈ history, e.Fits)
    (hbound : t.master.constructed < 2 ^ 32) : Traced minions.bytes t history := by
  -- both conditions on the end of the run hold at every moment of it
  have hstep : ∀ (s : StorageCluster) a t out h,
      ((∀ e ∈ h, e.Fits) → s.master.staticCounter ≤ 2 ^ 32 →
        Traced minions.bytes s h) → s.step a = some (t, out) →
      (∀ e ∈ out ++ h, e.Fits) → t.master.staticCounter ≤ 2 ^ 32 →
      Traced minions.bytes t (out ++ h) := by
    intro s a t out h hI hstep hfit ht
    have hs := (StorageCluster.staticCounter_le_of_step hstep).trans ht
    have hbefore := hI (fun e he => hfit e (List.mem_append_right _ he)) hs
    exact hbefore.step (fun e he => hfit e (List.mem_append_left _ he)) hstep ht
  have hlast : t.master.staticCounter ≤ 2 ^ 32 := by
    unfold Master.constructed at hbound
    omega
  exact invariant hstep (fun _ _ => traced_start hready) hrun hfit hlast

/-! ### Commands and their UIDs -/

/-- The UIDs that an event registered. -/
def StorageEvent.issuedUids (e : StorageEvent) : List ThreadSafeUID := IotDrive.issuedUids e.events

theorem issuedUids_events (history : List StorageEvent) :
    issuedUids (history.flatMap StorageEvent.events) = history.flatMap StorageEvent.issuedUids :=
  List.flatMap_assoc

theorem StorageEvent.issuedUids_issued (p : Poller) (r : Request) :
    (StorageEvent.issued p r).issuedUids = p.uids := List.append_nil _

namespace Traced

variable (h : Traced bytes s history)

include h

/-- A UID belongs to one command. -/
theorem command_eq {p p' : Poller} {r r' : Request} (hp : .issued p r ∈ history)
    (hp' : .issued p' r' ∈ history) {uid : ThreadSafeUID} (huid : uid ∈ p.uids)
    (huid' : uid ∈ p'.uids) : p = p' ∧ r = r' := by
  obtain ⟨c, -, htracked⟩ := h.tracked
  have hnodup := htracked.distinct.of_map
  rw [issuedUids_events, List.nodup_flatMap] at hnodup
  have : Std.Symm (Function.onFun List.Disjoint StorageEvent.issuedUids) :=
    ⟨fun _ _ hdisjoint => hdisjoint.symm⟩
  by_contra hne
  have hdisjoint : List.Disjoint _ _ := hnodup.2.forall hp hp' (by simpa using hne)
  rw [StorageEvent.issuedUids_issued, StorageEvent.issuedUids_issued] at hdisjoint
  exact hdisjoint huid huid'

/-- The two UIDs of a write are different. -/
theorem uids_ne {ogUid backupUid : ThreadSafeUID} {r : Request}
    (hp : .issued (.writeAIFunc ogUid backupUid) r ∈ history) : ogUid ≠ backupUid := by
  obtain ⟨c, -, htracked⟩ := h.tracked
  have hnodup := htracked.distinct.of_map
  rw [issuedUids_events, List.nodup_flatMap] at hnodup
  have hpair := hnodup.1 _ hp
  rw [StorageEvent.issuedUids_issued] at hpair
  simpa [Poller.uids] using hpair

/-- A command is issued once. -/
theorem issued_once {p : Poller} {r : Request} {past : List StorageEvent}
    (hp : .issued p r :: past <:+ history) : .issued p r ∉ past := by
  obtain ⟨c, -, htracked⟩ := h.tracked
  have hjustified : Justified (past.flatMap StorageEvent.events) (.issued p) :=
    htracked.every.of_suffix (flatMap_suffix StorageEvent.events hp)
  intro hmem
  exact hjustified (List.mem_flatMap.2 ⟨_, hmem, List.mem_cons_self ..⟩)

/-- A response to a UID of a command answers a datagram of this command that was served. -/
theorem served_of_received {p : Poller} {r : Request} (hp : .issued p r ∈ history)
    {res : Response} {past : List StorageEvent} (hres : .received res :: past <:+ history)
    (huid : res.uid ∈ p.uids) :
    ∃ c q older, .served q :: older <:+ past ∧ .issued p r ∈ older ∧ ForCopy p r c q ∧
      q.request.uid = res.uid ∧ ∀ offset size, r = .read offset size → res.data = Extent.extract
        (fun k => stored bytes older ((place c offset.toNat).1, k)) (place c offset.toNat).2
          size.toNat := by
  obtain ⟨p', r', c, q, older, hserved, hissued, hcopy, hquestion, -, hdata⟩ := h.every.of_suffix hres
  have huid' : q.request.uid = res.uid := by
    have hkind : ∀ (m : MinionRequest) (res : Response), res.question = m.question → m.uid = res.uid := by
      intro m res heq
      cases m <;> cases res <;> cases heq <;> rfl
    exact (StoreRequest.uid_minionRequest q.request).symm.trans (hkind _ _ hquestion)
  have hissued' : .issued p' r' ∈ history :=
    (tail_suffix hres).subset ((tail_suffix hserved).subset hissued)
  obtain ⟨rfl, rfl⟩ := h.command_eq hissued' hp (huid' ▸ hcopy.uid_mem) huid
  exact ⟨c, q, older, hserved, hissued, hcopy, huid', hdata⟩

/-- Both copies of a write that was acknowledged were served before. -/
theorem served_of_acknowledged {ogUid backupUid : ThreadSafeUID} {r : Request} {ret : Bool}
    {past : List StorageEvent} (hp : .issued (.writeAIFunc ogUid backupUid) r ∈ history)
    (hack : .evaluated (.writeAIFunc ogUid backupUid) (some .success) ret :: past <:+ history)
    (c : Bool) :
    ∃ q older, .served q :: older <:+ past ∧ ForCopy (.writeAIFunc ogUid backupUid) r c q := by
  obtain ⟨cluster, -, htracked⟩ := h.tracked
  have hjustified : Justified (past.flatMap StorageEvent.events)
      (.evaluated (.writeAIFunc ogUid backupUid) (some .success) ret) :=
    htracked.every.of_suffix (flatMap_suffix StorageEvent.events hack)
  have huid : (if c then backupUid else ogUid) ∈ (Poller.writeAIFunc ogUid backupUid).uids := by
    cases c <;> simp [Poller.uids]
  obtain ⟨res, hres, -, hresuid⟩ := hjustified.1 rfl _ huid
  obtain ⟨e, he, hevent⟩ := List.mem_flatMap.1 hres
  obtain rfl : e = .received res := by
    cases e <;> simp [StorageEvent.events] at hevent
    rw [hevent]
  obtain ⟨older, holder⟩ := exists_suffix he
  obtain ⟨c', q, first, hserved, -, hcopy, hquid, -⟩ :=
    h.served_of_received hp (holder.trans (tail_suffix hack)) (hresuid ▸ huid)
  refine ⟨q, first, hserved.trans (tail_suffix holder), ?_⟩
  -- the response has the UID of the copy `c`, and the two UIDs are different
  have hne := h.uids_ne hp
  cases hcopy with
  | write c' hsite =>
      have heq : (if c' then backupUid else ogUid) = if c then backupUid else ogUid :=
        hquid.trans hresuid
      obtain rfl : c' = c := by
        cases c <;> cases c'
        · rfl
        · exact absurd heq.symm hne
        · exact absurd heq hne
        · rfl
      exact .write c' hsite

end Traced

/-! ### What is stored -/

/-- After it was served for the command of `p`, the copy `c` of the address `a` was served for
another command, which writes it too. -/
def Overwritten (history : List StorageEvent) (p : Poller) (c : Bool) (a : ℕ) : Prop :=
  ∃ p' r' q past, .served q :: past <:+ history ∧ p' ≠ p ∧ .issued p' r' ∈ past ∧ r'.Covers a ∧
    ForCopy p' r' c q ∧ ∃ r q', .served q' ∈ past ∧ ForCopy p r c q'

theorem Overwritten.of_suffix {moment history : List StorageEvent} {p : Poller} {c : Bool} {a : ℕ}
    (h : Overwritten moment p c a) (hmoment : moment <:+ history) : Overwritten history p c a := by
  obtain ⟨p', r', q, past, hserved, hrest⟩ := h
  exact ⟨p', r', q, past, hserved.trans hmoment, hrest⟩

theorem Request.Covers.lt_memory {r : Request} {a : ℕ} (h : r.Covers a) (hr : r.FitsStripe) :
    a < memory := by
  cases r with
  | read offset size => exact h.elim
  | write offset data => exact h.2.trans_le hr.le

namespace Traced

/-- What is stored at a site is from a write that was issued, unless the site was never written. -/
theorem stored_cases (h : Traced bytes s history) {moment : List StorageEvent}
    (hmoment : moment <:+ history) (site : ℕ × ℕ) :
    (∀ q, .served q ∈ moment → ¬ q.Writes site) ∧ stored bytes moment site = bytes site ∨
      ∃ ogUid backupUid offset data c k q later past, moment = later ++ .served q :: past ∧
        (∀ q', .served q' ∈ later → ¬ q'.Writes site) ∧
        .issued (.writeAIFunc ogUid backupUid) (.write offset data) ∈ past ∧
        (Request.write offset data).FitsStripe ∧
        ForCopy (.writeAIFunc ogUid backupUid) (.write offset data) c q ∧
        ∃ hk : k < data.length, site = place c (offset.toNat + k) ∧
          stored bytes moment site = data[k] := by
  rcases IotDrive.stored_cases bytes moment site with hnone | ⟨later, q, past, rfl, hwrites, hlater, heq⟩
  · exact Or.inl hnone
  · right
    have hserved : .served q :: past <:+ history := (List.suffix_append _ _).trans hmoment
    obtain ⟨p, r, c, hissued, hcopy⟩ := h.every.of_suffix hserved
    obtain ⟨older, holder⟩ := exists_suffix ((tail_suffix hserved).subset hissued)
    have hfits : r.FitsStripe := h.every.of_suffix holder
    obtain ⟨a, hcovers, hsite⟩ := (hcopy.writes_iff hfits).1 hwrites
    cases r with
    | read offset size => exact hcovers.elim
    | write offset data =>
        cases p with
        | readAIFunc uid => cases hcopy
        | writeAIFunc ogUid backupUid =>
            obtain ⟨k, rfl⟩ := Nat.exists_eq_add_of_le hcovers.1
            have hk : k < data.length := by
              have hlt := hcovers.2
              omega
            refine ⟨ogUid, backupUid, offset, data, c, k, q, later, past, rfl, hlater, hissued, hfits,
              hcopy, hk, hsite, heq.trans ?_⟩
            rw [hsite]
            exact hcopy.store_place hfits _ hk

/-- Once a copy of a write was served, its bytes are stored there until they are overwritten. -/
theorem stored_of_served (h : Traced bytes s history) {ogUid backupUid : ThreadSafeUID}
    {offset : UInt64} {data : List UInt8} {c : Bool} {q : Posted} {moment : List StorageEvent}
    (hissued : .issued (.writeAIFunc ogUid backupUid) (.write offset data) ∈ history)
    (hmoment : moment <:+ history) (hserved : .served q ∈ moment)
    (hcopy : ForCopy (.writeAIFunc ogUid backupUid) (.write offset data) c q) {k : ℕ}
    (hk : k < data.length) :
    stored bytes moment (place c (offset.toNat + k)) = data[k] ∨
      Overwritten moment (.writeAIFunc ogUid backupUid) c (offset.toNat + k) := by
  obtain ⟨before, hbefore⟩ := exists_suffix hissued
  have hfits : (Request.write offset data).FitsStripe := h.every.of_suffix hbefore
  have hcovers : (Request.write offset data).Covers (offset.toNat + k) := by
    constructor <;> omega
  have hwrites : q.Writes (place c (offset.toNat + k)) :=
    (hcopy.writes_iff hfits).2 ⟨_, hcovers, rfl⟩
  rcases h.stored_cases hmoment (place c (offset.toNat + k)) with ⟨hnone, -⟩ |
    ⟨og, bk, offset', data', c', k', q', later, past, rfl, hlater, hissued', hfits', hcopy', hk', hsite,
      hstored⟩
  · exact absurd hwrites (hnone q hserved)
  · have hcovers' : (Request.write offset' data').Covers (offset'.toNat + k') := by
      constructor <;> omega
    obtain ⟨rfl, haddr⟩ := separate_place c c' _ (hcovers.lt_memory hfits) _
      (hcovers'.lt_memory hfits') hsite
    have hserved' : .served q' :: past <:+ later ++ .served q' :: past := List.suffix_append _ _
    have hpast : past <:+ history := (tail_suffix hserved').trans hmoment
    by_cases hp : Poller.writeAIFunc og bk = .writeAIFunc ogUid backupUid
    · left
      obtain ⟨-, hr⟩ := h.command_eq (hpast.subset hissued') hissued
        (List.mem_cons_self ..) (hp ▸ List.mem_cons_self ..)
      cases hr
      obtain rfl : k = k' := by omega
      exact hstored
    · right
      refine ⟨_, _, q', past, hserved', hp, hissued', haddr ▸ hcovers', hcopy', _, q, ?_, hcopy⟩
      rcases List.mem_append.1 hserved with hin | hin
      · exact absurd hwrites (hlater q hin)
      · rcases List.mem_cons.1 hin with heq | hin
        · -- it would be a datagram of both commands
          cases heq
          exact absurd (h.command_eq (hpast.subset hissued') hissued hcopy'.uid_mem hcopy.uid_mem).1 hp
        · exact hin

/-- A write that was acknowledged is stored at both copies, or was overwritten. -/
theorem acknowledged_stored (h : Traced bytes s history) {ogUid backupUid : ThreadSafeUID}
    {offset : UInt64} {data : List UInt8} {ret : Bool}
    (hissued : .issued (.writeAIFunc ogUid backupUid) (.write offset data) ∈ history)
    (hack : .evaluated (.writeAIFunc ogUid backupUid) (some .success) ret ∈ history) (c : Bool)
    {k : ℕ} (hk : k < data.length) :
    s.minions.bytes (place c (offset.toNat + k)) = data[k] ∨
      Overwritten history (.writeAIFunc ogUid backupUid) c (offset.toNat + k) := by
  obtain ⟨past, hpast⟩ := exists_suffix hack
  obtain ⟨q, older, hserved, hcopy⟩ := h.served_of_acknowledged hissued hpast c
  rw [h.files]
  exact h.stored_of_served hissued (List.suffix_refl _)
    (mem_of_suffix (hserved.trans (tail_suffix hpast))) hcopy hk

/-- A response to a read carries what was stored at its first copy at a moment after the command and
before the response. -/
theorem read_returns (h : Traced bytes s history) {uid : ThreadSafeUID} {offset : UInt64}
    {size : UInt32} {before : List StorageEvent}
    (hissued : .issued (.readAIFunc uid) (.read offset size) :: before <:+ history)
    {res : Response} {past : List StorageEvent} (hres : .received res :: past <:+ history)
    (huid : res.uid = uid) :
    ∃ moment, moment <:+ past ∧ .issued (.readAIFunc uid) (.read offset size) :: before <:+ moment ∧
      res.data.length = size.toNat ∧
      ∀ j (hj : j < res.data.length),
        res.data[j] = stored bytes moment (place false (offset.toNat + j)) := by
  obtain ⟨c, q, moment, hserved, hin, hcopy, -, hdata⟩ := h.served_of_received
    (mem_of_suffix hissued) hres (huid ▸ List.mem_singleton_self _)
  have hdata := hdata offset size rfl
  cases hcopy with
  | read hsite =>
      have hmoment : moment <:+ history := (tail_suffix hserved).trans (tail_suffix hres)
      -- the command has one moment, and the datagram was served after it
      obtain ⟨before', hbefore'⟩ := exists_suffix hin
      obtain rfl := suffix_unique hissued (hbefore'.trans hmoment) (h.issued_once hissued)
        (h.issued_once (hbefore'.trans hmoment))
      have hfits : (Request.read offset size).FitsStripe := h.every.of_suffix hissued
      have hlen : res.data.length = size.toNat := by
        rw [hdata]
        exact Extent.length_extract _ _ _
      refine ⟨moment, tail_suffix hserved, hbefore', hlen, ?_⟩
      intro j hj
      have hadd : place false (offset.toNat + j) =
          ((place false offset.toNat).1, (place false offset.toNat).2 + j) :=
        place_add false hfits.2 (hj.trans_eq hlen)
      simp only [hdata, hadd, Extent.getElem_extract]

end Traced

end Traced

/-! ### Main results -/

section Results

/-- A process that has opened a full file is ready. -/
theorem Minion.ready_opened {volume : Volume} :
    (Minion.opened volume.fs (.zeros fileSize)).Ready :=
  Minion.ready_of_full volume.fits ⟨rfl, rfl⟩ rfl (le_refl _)

variable {minions : Minions} {actions : List StorageCluster.Action} {t : StorageCluster}
  {history : List StorageEvent} (hready : minions.Ready)
  (hrun : Transition.run (logged StorageCluster.step) (.start minions, []) actions = some (t, history))
  (hfit : ∀ e ∈ history, e.Fits) (hbound : t.master.constructed < 2 ^ 32)

include hready hrun hfit hbound

/-- **Durability.** In every run, once a write was acknowledged both copies hold each of its bytes,
unless another write of the byte was served at the copy after it. -/
theorem acknowledged_write_stored {ogUid backupUid : ThreadSafeUID} {offset : UInt64}
    {data : List UInt8} {ret : Bool}
    (hissued : .issued (.writeAIFunc ogUid backupUid) (.write offset data) ∈ history)
    (hack : .evaluated (.writeAIFunc ogUid backupUid) (some .success) ret ∈ history) (c : Bool)
    {k : ℕ} (hk : k < data.length) :
    t.minions.bytes (place c (offset.toNat + k)) = data[k] ∨
      Overwritten history (.writeAIFunc ogUid backupUid) c (offset.toNat + k) :=
  (traced_run hready hrun hfit hbound).acknowledged_stored hissued hack c hk

omit hready hrun hfit hbound in
theorem acknowledged_write_stored_savedRun :
    ∃ t : StorageCluster, t.minions.bytes (place true 0) = 7 ∨
      Overwritten (savedRead ++ savedWrite) (.writeAIFunc (nthUid 1) (nthUid 2)) true 0 := by
  obtain ⟨t, hrun, hbound⟩ := run_savedRun
  have hissued : .issued (.writeAIFunc (nthUid 1) (nthUid 2)) (.write 0 [7]) ∈
      savedRead ++ savedWrite := by simp [savedRead, savedWrite]
  have hack : .evaluated (.writeAIFunc (nthUid 1) (nthUid 2)) (some .success) true ∈
      savedRead ++ savedWrite := by simp [savedRead, savedWrite]
  exact ⟨t, acknowledged_write_stored (fun _ => Minion.ready_opened) hrun (by decide) hbound hissued
    hack true (k := 0) (by decide)⟩

/-- **A read sees the writes that were acknowledged before it.** In every run, the response to a
read has each byte of a write that was acknowledged before the read was issued, unless another write
of the byte was served after it, and before the response was received. -/
theorem read_after_acknowledged_write {ogUid backupUid uid : ThreadSafeUID} {offset readOffset : UInt64}
    {data : List UInt8} {size : UInt32} {ret : Bool} {res : Response} {before past : List StorageEvent}
    (hwrite : .issued (.writeAIFunc ogUid backupUid) (.write offset data) ∈ history)
    (hack : .evaluated (.writeAIFunc ogUid backupUid) (some .success) ret ∈ before)
    (hread : .issued (.readAIFunc uid) (.read readOffset size) :: before <:+ history)
    (hres : .received res :: past <:+ history) (huid : res.uid = uid) :
    res.data.length = size.toNat ∧ ∀ j (hj : j < res.data.length) k (hk : k < data.length),
      readOffset.toNat + j = offset.toNat + k →
        res.data[j] = data[k] ∨
          Overwritten past (.writeAIFunc ogUid backupUid) false (offset.toNat + k) := by
  have h := traced_run hready hrun hfit hbound
  obtain ⟨moment, hmoment, hbefore, hlen, hdata⟩ := h.read_returns hread hres huid
  refine ⟨hlen, ?_⟩
  intro j hj k hk haddr
  obtain ⟨earlier, hearlier⟩ := exists_suffix ((tail_suffix hbefore).subset hack)
  have hin : moment <:+ history := hmoment.trans (tail_suffix hres)
  obtain ⟨q, older, hserved, hcopy⟩ := h.served_of_acknowledged hwrite (hearlier.trans hin) false
  rw [hdata j hj, haddr]
  rcases h.stored_of_served hwrite hin (mem_of_suffix (hserved.trans (tail_suffix hearlier))) hcopy hk
    with heq | hover
  · exact Or.inl heq
  · exact Or.inr (hover.of_suffix hmoment)

omit hready hrun hfit hbound in
theorem read_after_acknowledged_write_savedRun :
    (Response.read (nthUid 5) true [7]).data[0]? = some 7 ∨
      Overwritten (savedRead.tail ++ savedWrite) (.writeAIFunc (nthUid 1) (nthUid 2)) false 0 := by
  obtain ⟨t, hrun, hbound⟩ := run_savedRun
  have hissued : .issued (.writeAIFunc (nthUid 1) (nthUid 2)) (.write 0 [7]) ∈
      savedRead ++ savedWrite := by simp [savedRead, savedWrite]
  have hack : .evaluated (.writeAIFunc (nthUid 1) (nthUid 2)) (some .success) true ∈ savedWrite := by
    simp [savedWrite]
  obtain ⟨-, hdata⟩ := read_after_acknowledged_write (fun _ => Minion.ready_opened) hrun
    (by decide) hbound hissued hack ⟨[_, _], rfl⟩ ⟨[], rfl⟩ rfl
  rcases hdata 0 (by decide) 0 (by decide) rfl with hbyte | hover
  · exact Or.inl (congrArg some hbyte)
  · exact Or.inr hover

/-- **Reads make nothing up.** In every run, each byte of the response to a read is the byte that a
write has for its address, which was issued before, or what the file held at the start. -/
theorem read_byte_cases {uid : ThreadSafeUID} {offset : UInt64} {size : UInt32} {res : Response}
    {before past : List StorageEvent}
    (hread : .issued (.readAIFunc uid) (.read offset size) :: before <:+ history)
    (hres : .received res :: past <:+ history) (huid : res.uid = uid) :
    ∀ j (hj : j < res.data.length),
      res.data[j] = minions.bytes (place false (offset.toNat + j)) ∨
        ∃ p writeOffset data k, .issued p (.write writeOffset data) ∈ past ∧
          ∃ hk : k < data.length, offset.toNat + j = writeOffset.toNat + k ∧ res.data[j] = data[k] := by
  have h := traced_run hready hrun hfit hbound
  obtain ⟨moment, hmoment, -, hlen, hdata⟩ := h.read_returns hread hres huid
  intro j hj
  have hfits : (Request.read offset size).FitsStripe := h.every.of_suffix hread
  have hlt : offset.toNat + j < memory :=
    lt_of_lt_of_le (Nat.add_lt_add_left (hj.trans_eq hlen) _) hfits.le
  rw [hdata j hj]
  rcases h.stored_cases (hmoment.trans (tail_suffix hres)) (place false (offset.toNat + j)) with
    ⟨-, heq⟩ | ⟨og, bk, offset', data, c, k, q, later, older, rfl, -, hissued, hfits', -, hk, hsite,
      hstored⟩
  · exact Or.inl heq
  · right
    have hlt' : offset'.toNat + k < memory :=
      lt_of_lt_of_le (Nat.add_lt_add_left hk _) hfits'.le
    obtain ⟨-, haddr⟩ := separate_place false c _ hlt _ hlt' hsite
    have hsuffix : older <:+ past :=
      (tail_suffix (List.suffix_append later (.served q :: older))).trans hmoment
    exact ⟨_, offset', data, k, hsuffix.subset hissued, hk, haddr, hstored⟩

omit hready hrun hfit hbound in
theorem read_byte_cases_savedRun :
    (Response.read (nthUid 5) true [7]).data[0] = 0 ∨
      ∃ p writeOffset data k, .issued p (.write writeOffset data) ∈ savedRead.tail ++ savedWrite ∧
        ∃ hk : k < data.length, 0 = writeOffset.toNat + k ∧
          (Response.read (nthUid 5) true [7]).data[0] = data[k] := by
  obtain ⟨t, hrun, hbound⟩ := run_savedRun
  exact read_byte_cases (fun _ => Minion.ready_opened) hrun (by decide) hbound ⟨[_, _], rfl⟩ ⟨[], rfl⟩
    rfl 0 (by decide)

end Results

end IotDrive
