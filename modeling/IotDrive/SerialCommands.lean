/-
Commands that are executed one at a time.

If a command is issued only when the one before has been replied to, then between two commands both
copies mirror one array, and while a write is under way each copy is either as before or written.
This is about histories only: a step of the cluster outputs at most one event.

Main definitions:

* `Finished` — the command of a poller has been replied to;
* `Orderly` — what the network and the poller may not do: a read response that comes twice, a write
  that is served after its reply, a write that is given up;
* `Quiescent`, `Working` — between two commands, and in one;
* `StorageEvent.replies` — what an event writes to the connection.

Main results:

* `ForCopy.holds_store` — what serving a datagram does to each copy;
* `Quiescent.event`, `Working.event` — **what one event does**: a command in work stays so, or is
  replied to with what an array returns;
* `Quiescent.issue` — a command is issued.
-/

import IotDrive.Durability
import IotDrive.FlatDisk

set_option relaxedAutoImplicit false
set_option autoImplicit false

namespace IotDrive

open History Mirroring

/-! ### Copies -/

namespace ForCopy

variable {p : Poller} {r : Request} {c : Bool} {q : Posted}

/-- A datagram is for one of the copies only. -/
theorem copy_eq (h : ForCopy p r c q) {c' : Bool} (h' : ForCopy p r c' q) : c' = c := by
  have hminion := h.minion_eq.symm.trans h'.minion_eq
  cases c <;> cases c'
  · rfl
  · exact absurd hminion.symm (Minions.backup_ne_primary _)
  · exact absurd hminion (Minions.backup_ne_primary _)
  · rfl

/-- Serving a datagram of a read leaves the files alone. -/
theorem store_read {offset : UInt64} {size : UInt32} (h : ForCopy p (.read offset size) c q)
    (bytes : ℕ × ℕ → UInt8) : q.store bytes = bytes := by
  cases h
  rfl

/-- Serving a datagram overwrites its copy, and leaves the other one alone. -/
theorem holds_store (h : ForCopy p r c q) (hr : r.FitsStripe) {bytes : ℕ × ℕ → UInt8} {c' : Bool}
    {disk : FlatDisk} (hd : Holds place device bytes c' disk) :
    Holds place device (q.store bytes) c' (if c' = c then (disk.execute r).1 else disk) := by
  intro a ha
  by_cases hwrites : q.Writes (place c' a)
  · obtain ⟨a', hcovers, hsite⟩ := (h.writes_iff hr).1 hwrites
    obtain ⟨rfl, rfl⟩ := separate_place c' c a ha a' (hcovers.lt_memory hr) hsite
    rw [if_pos rfl]
    cases h with
    | read hsite => exact hcovers.elim
    | @write ogUid backupUid offset offset' size data hdata i c' hsite' =>
        obtain ⟨k, rfl⟩ := Nat.exists_eq_add_of_le hcovers.1
        have hk : k < data.length := by
          have hlt := hcovers.2
          omega
        rw [(ForCopy.write c' hsite').store_place hr bytes hk]
        exact (Extent.overwrite_add disk offset.toNat data hk).symm
  · rw [Posted.store_of_not_writes hwrites, hd a ha]
    split
    · rename_i hc
      subst hc
      cases r with
      | read offset size => rfl
      | write offset data =>
          -- the datagram would write the address if the request covered it
          refine (Extent.overwrite_of_notMem disk offset.toNat data ?_).symm
          by_contra hin
          exact hwrites ((h.writes_iff hr).2 ⟨a, ⟨by omega, by omega⟩, rfl⟩)
    · rfl

end ForCopy

/-- Executing a request twice leaves the array as executing it once. -/
theorem FlatDisk.execute_execute (disk : FlatDisk) (r : Request) :
    ((disk.execute r).1.execute r).1 = (disk.execute r).1 := by
  cases r with
  | read offset size => rfl
  | write offset data => exact Extent.overwrite_overwrite disk offset.toNat data

/-! ### Histories in order -/

/-- The command of the poller was replied to: a response to the read was received, or the write was
acknowledged. -/
def Finished (history : List StorageEvent) : Poller → Prop
  | .readAIFunc uid => ∃ res, .received res ∈ history ∧ res.uid = uid
  | .writeAIFunc ogUid backupUid =>
      ∃ ret, .evaluated (.writeAIFunc ogUid backupUid) (some .success) ret ∈ history

theorem Finished.mono {history : List StorageEvent} {p : Poller} (h : Finished history p)
    (e : StorageEvent) : Finished (e :: history) p := by
  cases p with
  | readAIFunc uid =>
      obtain ⟨res, hres, huid⟩ := h
      exact ⟨res, List.mem_cons_of_mem _ hres, huid⟩
  | writeAIFunc ogUid backupUid =>
      obtain ⟨ret, he⟩ := h
      exact ⟨ret, List.mem_cons_of_mem _ he⟩

/-- Given the events before it: commands stay inside of the stripes; a response to a read is
received once; a write is not served any more once it was acknowledged; no write is given up. -/
def Orderly (past : List StorageEvent) : StorageEvent → Prop
  | .issued _ r => r.FitsStripe
  | .received (.read uid _ _) => ¬ Finished past (.readAIFunc uid)
  | .received (.write _ _) => True
  | .served q => ∀ ogUid backupUid r c, ForCopy (.writeAIFunc ogUid backupUid) r c q →
      ¬ Finished past (.writeAIFunc ogUid backupUid)
  | .evaluated _ reply _ => reply = none ∨ reply = some .success

/-- What an event writes to the connection. -/
def StorageEvent.replies (e : StorageEvent) : List (List UInt8) := e.events.flatMap Event.replies

/-- The reply to a request: the bytes that were read, or the text of a success. -/
def FlatDisk.reply (disk : FlatDisk) (r : Request) : List UInt8 :=
  match r with
  | .read _ _ => (disk.execute r).2
  | .write _ _ => WriteReply.success.bytes

/-- Between two commands: all commands were replied to, and both copies mirror the array. -/
structure Quiescent (bytes : ℕ × ℕ → UInt8) (history : List StorageEvent) (disk : FlatDisk) :
    Prop where
  finished : ∀ p r, .issued p r ∈ history → Finished history p
  mirrors : Mirrors place device (stored bytes history) disk

/-- In the command of the poller `p`: ever since it was issued each copy has been as before, and its
datagram not served, or as the command leaves it. -/
structure Working (bytes : ℕ × ℕ → UInt8) (history : List StorageEvent) (disk : FlatDisk)
    (p : Poller) (r : Request) : Prop where
  issued : .issued p r ∈ history
  fits : r.FitsStripe
  unfinished : ¬ Finished history p
  others : ∀ p' r', .issued p' r' ∈ history → p' ≠ p → Finished history p'
  copies : ∀ moment, .issued p r ∈ moment → moment <:+ history → ∀ c,
    Holds place device (stored bytes moment) c (disk.execute r).1 ∨
      Holds place device (stored bytes moment) c disk ∧
        ∀ q, .served q ∈ moment → ¬ ForCopy p r c q

/-! ### What an event tells -/

section Events

variable {bytes : ℕ × ℕ → UInt8} {s : StorageCluster} {history : List StorageEvent}

/-- A response is one to a read, or one to a write. -/
theorem AnsweredFrom.cases {res : Response} (h : AnsweredFrom bytes history res) :
    (∃ uid data offset size, res = .read uid true data ∧
      .issued (.readAIFunc uid) (.read offset size) ∈ history) ∨
    ∃ uid ogUid backupUid r, res = .write uid true ∧
      .issued (.writeAIFunc ogUid backupUid) r ∈ history ∧
      uid ∈ (Poller.writeAIFunc ogUid backupUid).uids := by
  obtain ⟨p, r, c, q, past, hserved, hissued, hcopy, hquestion, hsuccess, -⟩ := h
  have hin := (tail_suffix hserved).subset hissued
  have huid := hcopy.uid_mem
  cases hcopy with
  | @read uid offset offset' size i hsite =>
      left
      cases res with
      | read uid' isSuccess data =>
          cases hquestion
          cases hsuccess
          exact ⟨_, data, offset, size, rfl, hin⟩
      | write uid' isSuccess => cases hquestion
  | @write ogUid backupUid offset offset' size data hdata i c hsite =>
      right
      cases res with
      | read uid' isSuccess data => cases hquestion
      | write uid' isSuccess =>
          cases hquestion
          cases hsuccess
          exact ⟨_, ogUid, backupUid, _, rfl, hin, huid⟩

/-- A response to a write is not passed on. -/
theorem replies_received_write (uid : ThreadSafeUID) (isSuccess : Bool) :
    (StorageEvent.received (.write uid isSuccess)).replies = [] := by
  cases isSuccess <;> rfl

/-- A response to a read is passed on. -/
theorem replies_received_read (uid : ThreadSafeUID) {data : List UInt8}
    (hlen : data.length < 2 ^ 32) :
    (StorageEvent.received (.read uid true data)).replies = [data] := by
  have hsize : (UInt32.ofNat data.length).toNat = data.length := UInt32.toNat_ofNat_of_lt' hlen
  have htake : data.take (UInt32.ofNat data.length).toNat = data := by
    rw [hsize, List.take_length]
  have heq : (StorageEvent.received (.read uid true data)).replies =
      [data.take (UInt32.ofNat data.length).toNat] := rfl
  rw [heq, htake]

/-- A poller that was evaluated was issued. -/
theorem Traced.issued_of_evaluated {p : Poller} {reply : Option WriteReply} {ret : Bool}
    (h : Traced bytes s history) (he : .evaluated p reply ret ∈ history) :
    ∃ r, .issued p r ∈ history := by
  obtain ⟨c, -, htracked⟩ := h.tracked
  obtain ⟨hissued, -⟩ := htracked.evaluated p reply ret
    (List.mem_flatMap.2 ⟨_, he, List.mem_singleton_self _⟩)
  obtain ⟨e, hin, hevent⟩ := List.mem_flatMap.1 hissued
  cases e with
  | issued p' r =>
      obtain rfl := Event.issued.inj (List.mem_singleton.1 hevent)
      exact ⟨r, hin⟩
  | served q => cases hevent
  | received res => cases List.mem_singleton.1 hevent
  | evaluated p' reply' ret' => cases List.mem_singleton.1 hevent

/-- A write that is evaluated has not been acknowledged. -/
theorem Traced.not_finished_of_evaluated {ogUid backupUid : ThreadSafeUID}
    {reply : Option WriteReply} {ret : Bool}
    (h : Traced bytes s (.evaluated (.writeAIFunc ogUid backupUid) reply ret :: history)) :
    ¬ Finished history (.writeAIFunc ogUid backupUid) := by
  rintro ⟨ret', hin⟩
  obtain ⟨c, -, htracked⟩ := h.tracked
  have hjustified : Justified (history.flatMap StorageEvent.events)
      (.evaluated (.writeAIFunc ogUid backupUid) reply ret) := htracked.every.1
  have hnone := hjustified.2 (some .success) ret'
    (List.mem_flatMap.2 ⟨_, hin, List.mem_singleton_self _⟩)
  cases hnone

/-- The files after a datagram was served whose command has been replied to. -/
theorem stored_served_of_finished (bytes : ℕ × ℕ → UInt8) {p : Poller} {r : Request} {c : Bool} {q : Posted}
    (hcopy : ForCopy p r c q) (hord : Orderly history (.served q)) (hp : Finished history p) :
    stored bytes (.served q :: history) = stored bytes history := by
  cases p with
  | readAIFunc uid =>
      cases r with
      | read offset size => exact hcopy.store_read _
      | write offset data => cases hcopy
  | writeAIFunc ogUid backupUid => exact absurd hp (hord ogUid backupUid r c hcopy)

end Events

/-! ### Without duplicates -/

/-- The steps that put a datagram in flight once more. -/
def StorageCluster.Action.isDuplicate : StorageCluster.Action → Bool
  | .duplicateRequest _ => true
  | .duplicateResponse _ => true
  | _ => false

/-- The UIDs of the datagrams in flight. -/
def StorageCluster.flight (s : StorageCluster) : List ThreadSafeUID :=
  s.requests.map (fun q => q.request.uid) ++ s.responses.map Response.uid

/-- The UID of a response that was received. -/
def StorageEvent.receivedUids : StorageEvent → List ThreadSafeUID
  | .received res => [res.uid]
  | _ => []

/-- The datagrams of a command carry the UIDs of its poller. -/
theorem uids_of_posted {p : Poller} {r : Request} {qs : List Posted} (h : posted p r = some qs) :
    qs.map (fun q => q.request.uid) = p.uids := by
  cases p with
  | readAIFunc uid =>
      cases r with
      | read offset size =>
          obtain ⟨places, -, heq⟩ := Option.bind_eq_some_iff.1 h
          cases heq
          rfl
      | write offset data => cases h
  | writeAIFunc ogUid backupUid =>
      cases r with
      | read offset size => cases h
      | write offset data =>
          simp only [posted] at h
          split at h
          · obtain ⟨places, -, heq⟩ := Option.bind_eq_some_iff.1 h
            cases heq
            rfl
          · cases h

namespace StorageCluster

variable {s t : StorageCluster}

theorem count_flight (s : StorageCluster) (uid : ThreadSafeUID) : s.flight.count uid =
    (s.requests.map fun q => q.request.uid).count uid + (s.responses.map Response.uid).count uid :=
  List.count_append

theorem count_erase_request {q : Posted} (hq : q ∈ s.requests) (uid : ThreadSafeUID) :
    (s.requests.map fun q => q.request.uid).count uid =
      ((s.requests.erase q).map fun q => q.request.uid).count uid + [q.request.uid].count uid := by
  have hperm := (List.perm_cons_erase hq).map fun q => q.request.uid
  rw [hperm.count_eq, List.map_cons, List.count_cons, List.count_singleton]

theorem count_erase_response {res : Response} (hr : res ∈ s.responses) (uid : ThreadSafeUID) :
    (s.responses.map Response.uid).count uid =
      ((s.responses.erase res).map Response.uid).count uid + [res.uid].count uid := by
  have hperm := (List.perm_cons_erase hr).map Response.uid
  rw [hperm.count_eq, List.map_cons, List.count_cons, List.count_singleton]

/-- Only commands and duplication add to the datagrams in flight, and a response that is received is
not in flight any more. -/
theorem count_flight_step {a : Action} {out : List StorageEvent} (ha : a.isDuplicate = false)
    (hstep : s.step a = some (t, out)) (uid : ThreadSafeUID) :
    t.flight.count uid + (out.flatMap StorageEvent.receivedUids).count uid ≤
      s.flight.count uid + (out.flatMap StorageEvent.issuedUids).count uid := by
  have hissued : ∀ {p r qs}, posted p r = some qs →
      (qs.map fun q => q.request.uid).count uid =
        ([StorageEvent.issued p r].flatMap StorageEvent.issuedUids).count uid := by
    intro p r qs hqs
    rw [uids_of_posted hqs, List.flatMap_singleton, StorageEvent.issuedUids_issued]
  rw [count_flight, count_flight]
  cases step_cases hstep with
  | execRead hexec hqs =>
      rw [← hissued hqs, List.map_append, List.count_append]
      change _ + 0 ≤ _
      dsimp only
      omega
  | execWrite hexec hqs =>
      rw [← hissued hqs, List.map_append, List.count_append]
      change _ + 0 ≤ _
      dsimp only
      omega
  | newUID hnew => exact le_rfl
  | poll hpoll heval => exact le_rfl
  | receive hr hreceive =>
      rw [count_erase_response hr]
      exact (Nat.add_assoc _ _ _).le
  | @serve heap q hq =>
      rw [count_erase_request hq, List.map_append, List.count_append, List.map_singleton,
        StoreRequest.uid_response]
      change _ + 0 ≤ _ + 0
      dsimp only
      omega
  | loseRequest hq =>
      rw [count_erase_request hq]
      change _ + 0 ≤ _ + 0
      dsimp only
      omega
  | duplicateRequest hq => cases ha
  | loseResponse hr =>
      rw [count_erase_response hr]
      change _ + 0 ≤ _ + 0
      dsimp only
      omega
  | duplicateResponse hr => cases ha

end StorageCluster

/-- A UID is in flight or was received at most as often as it was issued. -/
structure Single (bytes : ℕ × ℕ → UInt8) (s : StorageCluster) (history : List StorageEvent) : Prop where
  traced : Traced bytes s history
  counted : ∀ uid, s.flight.count uid + (history.flatMap StorageEvent.receivedUids).count uid ≤
    (history.flatMap StorageEvent.issuedUids).count uid

namespace Single

variable {bytes : ℕ × ℕ → UInt8} {s t : StorageCluster} {history : List StorageEvent}

/-- What is in flight was not received. -/
theorem not_received (h : Single bytes s history) {uid : ThreadSafeUID} (huid : uid ∈ s.flight)
    {res : Response} (hres : .received res ∈ history) : res.uid ≠ uid := by
  rintro rfl
  obtain ⟨c, -, htracked⟩ := h.traced.tracked
  have hnodup := htracked.distinct.of_map
  rw [issuedUids_events] at hnodup
  have hin : res.uid ∈ history.flatMap StorageEvent.receivedUids :=
    List.mem_flatMap.2 ⟨_, hres, List.mem_singleton_self _⟩
  have htwice := h.counted res.uid
  have honce := List.nodup_iff_count_le_one.1 hnodup res.uid
  have hflight := List.count_pos_iff.2 huid
  have hreceived := List.count_pos_iff.2 hin
  omega

/-- The first response to a read is the only one. -/
theorem not_finished_of_response (h : Single bytes s history) {uid : ThreadSafeUID} {isSuccess : Bool}
    {data : List UInt8} (hr : .read uid isSuccess data ∈ s.responses) :
    ¬ Finished history (.readAIFunc uid) := by
  rintro ⟨res, hres, huid⟩
  exact h.not_received (List.mem_append_right _ (List.mem_map_of_mem hr)) hres huid

/-- A write that was acknowledged has no datagram in flight. -/
theorem not_finished_of_request (h : Single bytes s history) {q : Posted} (hq : q ∈ s.requests)
    {ogUid backupUid : ThreadSafeUID} {r : Request} {c : Bool}
    (hcopy : ForCopy (.writeAIFunc ogUid backupUid) r c q) :
    ¬ Finished history (.writeAIFunc ogUid backupUid) := by
  rintro ⟨ret, hack⟩
  obtain ⟨r', hissued⟩ := h.traced.issued_of_evaluated hack
  obtain ⟨past, hpast⟩ := exists_suffix hack
  obtain ⟨cluster, -, htracked⟩ := h.traced.tracked
  have hjustified : Justified (past.flatMap StorageEvent.events)
      (.evaluated (.writeAIFunc ogUid backupUid) (some .success) ret) :=
    htracked.every.of_suffix (flatMap_suffix StorageEvent.events hpast)
  obtain ⟨res, hres, -, huid⟩ := hjustified.1 rfl _ hcopy.uid_mem
  obtain ⟨e, he, hevent⟩ := List.mem_flatMap.1 hres
  obtain rfl : e = .received res := by
    cases e <;> simp [StorageEvent.events] at hevent
    rw [hevent]
  exact h.not_received (List.mem_append_left _ (List.mem_map_of_mem hq))
    ((tail_suffix hpast).subset he) huid

/-- Every step that duplicates nothing keeps the invariant. -/
theorem step (h : Single bytes s history) {a : StorageCluster.Action} {out : List StorageEvent}
    (ha : a.isDuplicate = false) (hfit : ∀ e ∈ out, e.Fits) (hstep : s.step a = some (t, out))
    (hbound : t.master.staticCounter ≤ 2 ^ 32) : Single bytes t (out ++ history) := by
  refine ⟨h.traced.step hfit hstep hbound, ?_⟩
  intro uid
  have hbefore := h.counted uid
  have hstep := StorageCluster.count_flight_step ha hstep uid
  rw [List.flatMap_append, List.flatMap_append, List.count_append, List.count_append]
  omega

/-- An event that fits is orderly, unless it gives up a write. -/
theorem orderly (h : Single bytes s history) {a : StorageCluster.Action} {out : List StorageEvent}
    (hstep : s.step a = some (t, out)) {e : StorageEvent} (he : e ∈ out) (hfit : e.Fits)
    (hgives : ∀ p reply ret, e = .evaluated p (some reply) ret → reply = .success) :
    Orderly history e := by
  cases StorageCluster.step_cases hstep with
  | execRead hexec hqs =>
      obtain rfl := List.mem_singleton.1 he
      exact hfit
  | execWrite hexec hqs =>
      obtain rfl := List.mem_singleton.1 he
      exact hfit
  | @poll p master reply ret hpoll heval =>
      obtain rfl := List.mem_singleton.1 he
      cases reply with
      | none => exact Or.inl rfl
      | some reply => exact Or.inr (congrArg some (hgives p reply ret rfl))
  | @receive stamp res master hr hreceive =>
      obtain rfl := List.mem_singleton.1 he
      cases res with
      | read uid isSuccess data => exact h.not_finished_of_response hr
      | write uid isSuccess => trivial
  | serve hq =>
      obtain rfl := List.mem_singleton.1 he
      exact fun ogUid backupUid r c hcopy => h.not_finished_of_request hq hcopy
  | newUID hnew => cases he
  | loseRequest hq => cases he
  | duplicateRequest hq => cases he
  | loseResponse hr => cases he
  | duplicateResponse hr => cases he

end Single

/-! ### Between two commands -/

variable {bytes : ℕ × ℕ → UInt8} {s : StorageCluster} {history : List StorageEvent} {disk : FlatDisk}
  {e : StorageEvent}

/-- The event is not a command, and no read is acknowledged by its poller. -/
def StorageEvent.Plain : StorageEvent → Prop
  | .issued _ _ => False
  | .evaluated (.readAIFunc _) reply _ => reply = none
  | _ => True

theorem StorageEvent.Plain.mem_of_issued (h : e.Plain) {p : Poller} {r : Request}
    (hin : .issued p r ∈ e :: history) : .issued p r ∈ history := by
  refine (List.mem_cons.1 hin).resolve_left ?_
  rintro rfl
  exact h

/-- Between two commands nothing is written, and nothing is replied. -/
theorem Quiescent.event (hq : Quiescent bytes history disk) (ht : Traced bytes s (e :: history))
    (hord : Orderly history e) (hplain : e.Plain) :
    Quiescent bytes (e :: history) disk ∧ e.replies = [] := by
  have hfinished : ∀ p r, .issued p r ∈ e :: history → Finished (e :: history) p :=
    fun p r hin => (hq.finished p r (hplain.mem_of_issued hin)).mono e
  cases e with
  | issued p r => exact hplain.elim
  | served q =>
      obtain ⟨p, r, c, hissued, hcopy⟩ := ht.every.1
      have hstored := stored_served_of_finished bytes hcopy hord (hq.finished p r hissued)
      exact ⟨⟨hfinished, hstored ▸ hq.mirrors⟩, rfl⟩
  | received res =>
      refine ⟨⟨hfinished, hq.mirrors⟩, ?_⟩
      obtain hres : AnsweredFrom bytes history res := ht.every.1
      rcases hres.cases with ⟨uid, data, offset, size, rfl, hissued⟩ | ⟨uid, _, _, _, rfl, -, -⟩
      · exact absurd (hq.finished _ _ hissued) hord
      · exact replies_received_write uid true
  | evaluated p reply ret =>
      refine ⟨⟨hfinished, hq.mirrors⟩, ?_⟩
      obtain ⟨r, hissued⟩ := ht.issued_of_evaluated (List.mem_cons_self ..)
      have hfin := hq.finished p r (hplain.mem_of_issued hissued)
      cases p with
      | readAIFunc uid =>
          obtain rfl : reply = none := hplain
          rfl
      | writeAIFunc ogUid backupUid => exact absurd hfin ht.not_finished_of_evaluated

/-- A command is issued when the one before has been replied to. -/
theorem Quiescent.issue {s' : StorageCluster} (hq : Quiescent bytes history disk)
    (h : Traced bytes s' history) {p : Poller} {r : Request}
    (ht : Traced bytes s (.issued p r :: history)) :
    Working bytes (.issued p r :: history) disk p r := by
  have hnew : .issued p r ∉ history := ht.issued_once (List.suffix_refl _)
  -- a UID of the command is not one of an earlier command
  have hother : ∀ {p' r' uid}, .issued p' r' ∈ history → uid ∈ p'.uids → uid ∉ p.uids := by
    intro p' r' uid hissued huid' huid
    obtain ⟨rfl, rfl⟩ := ht.command_eq (List.mem_cons_of_mem _ hissued) (List.mem_cons_self ..) huid'
      huid
    exact hnew hissued
  refine ⟨List.mem_cons_self .., ht.every.1, ?_, ?_, ?_⟩
  · intro hfin
    cases p with
    | readAIFunc uid =>
        obtain ⟨res, hres, huid⟩ := hfin
        obtain ⟨past, hpast⟩ := exists_suffix ((List.mem_cons.1 hres).resolve_left nofun)
        have hanswered : AnsweredFrom bytes past res := h.every.of_suffix hpast
        have huid : res.uid ∈ (Poller.readAIFunc uid).uids := huid ▸ List.mem_singleton_self _
        rcases hanswered.cases with ⟨uid', data, offset, size, rfl, hissued⟩ |
          ⟨uid', og, bk, r', rfl, hissued, huid'⟩
        · exact hother ((tail_suffix hpast).subset hissued) (List.mem_singleton_self _) huid
        · exact hother ((tail_suffix hpast).subset hissued) huid' huid
    | writeAIFunc ogUid backupUid =>
        obtain ⟨ret, he⟩ := hfin
        obtain ⟨r', hissued⟩ := h.issued_of_evaluated ((List.mem_cons.1 he).resolve_left nofun)
        exact hother hissued (List.mem_cons_self ..) (List.mem_cons_self ..)
  · intro p' r' hissued hne
    refine (hq.finished p' r' ((List.mem_cons.1 hissued).resolve_left ?_)).mono _
    rintro heq
    cases heq
    exact hne rfl
  · intro moment hissued hmoment c
    rcases List.suffix_cons_iff.1 hmoment with rfl | hmoment
    · refine Or.inr ⟨hq.mirrors c, ?_⟩
      intro q hserved hcopy
      obtain ⟨past, hpast⟩ := exists_suffix ((List.mem_cons.1 hserved).resolve_left nofun)
      obtain ⟨p', r', c', hissued', hcopy'⟩ := h.every.of_suffix hpast
      exact hother ((tail_suffix hpast).subset hissued') hcopy'.uid_mem hcopy.uid_mem
    · exact absurd (hmoment.subset hissued) hnew

/-! ### In a command -/

namespace Working

variable {p : Poller} {r : Request}

/-- A command stays in work through an event that leaves each copy as before or as the command
leaves it. -/
theorem extend (hw : Working bytes history disk p r) (hplain : e.Plain)
    (hunfinished : ¬ Finished (e :: history) p)
    (hnow : ∀ c, Holds place device (stored bytes (e :: history)) c (disk.execute r).1 ∨
      Holds place device (stored bytes (e :: history)) c disk ∧
        ∀ q, .served q ∈ e :: history → ¬ ForCopy p r c q) :
    Working bytes (e :: history) disk p r where
  issued := List.mem_cons_of_mem _ hw.issued
  fits := hw.fits
  unfinished := hunfinished
  others p' r' hissued hne := (hw.others p' r' (hplain.mem_of_issued hissued) hne).mono e
  copies moment hissued hmoment c := by
    rcases List.suffix_cons_iff.1 hmoment with rfl | hmoment
    · exact hnow c
    · exact hw.copies moment hissued hmoment c

/-- An event that serves nothing. -/
theorem extend_of_stored (hw : Working bytes history disk p r) (hplain : e.Plain)
    (hserved : ∀ q, e ≠ .served q) (hstored : stored bytes (e :: history) = stored bytes history)
    (hunfinished : ¬ Finished (e :: history) p) : Working bytes (e :: history) disk p r := by
  refine hw.extend hplain hunfinished fun c => ?_
  rw [hstored]
  refine (hw.copies history hw.issued (List.suffix_refl _) c).imp id (And.imp id ?_)
  intro hnone q hin
  exact hnone q ((List.mem_cons.1 hin).resolve_left fun heq => hserved q heq.symm)

/-- A command is replied to once both copies are as it leaves them. -/
theorem finish (hw : Working bytes history disk p r) (hplain : e.Plain)
    (hfinished : Finished (e :: history) p)
    (hmirrors : Mirrors place device (stored bytes (e :: history)) (disk.execute r).1) :
    Quiescent bytes (e :: history) (disk.execute r).1 := by
  refine ⟨?_, hmirrors⟩
  intro p' r' hissued
  by_cases hp : p' = p
  · exact hp ▸ hfinished
  · exact (hw.others p' r' (hplain.mem_of_issued hissued) hp).mono e

/-- A read leaves the array alone, so both copies are as before. -/
theorem mirrors_of_read {offset : UInt64} {size : UInt32}
    (hw : Working bytes history disk p (.read offset size)) {moment : List StorageEvent}
    (hissued : .issued p (.read offset size) ∈ moment) (hmoment : moment <:+ history) :
    Mirrors place device (stored bytes moment) disk :=
  fun c => (hw.copies moment hissued hmoment c).elim id And.left

/-- A datagram is served: of the command in work, or of an earlier one that was replied to. -/
theorem serve {q : Posted} (hw : Working bytes history disk p r)
    (ht : Traced bytes s (.served q :: history)) (hord : Orderly history (.served q)) :
    Working bytes (.served q :: history) disk p r := by
  obtain ⟨p', r', c', hissued, hcopy⟩ := ht.every.1
  have hunfinished : ¬ Finished (.served q :: history) p := by
    intro hfin
    refine hw.unfinished ?_
    cases p with
    | readAIFunc uid =>
        obtain ⟨res, hres, huid⟩ := hfin
        exact ⟨res, (List.mem_cons.1 hres).resolve_left nofun, huid⟩
    | writeAIFunc ogUid backupUid =>
        obtain ⟨ret, he⟩ := hfin
        exact ⟨ret, (List.mem_cons.1 he).resolve_left nofun⟩
  refine hw.extend (e := .served q) trivial hunfinished fun c => ?_
  have hbefore := hw.copies history hw.issued (List.suffix_refl _) c
  by_cases hp : p' = p
  · subst hp
    -- the command in work: its copy is written, and the other one left alone
    obtain ⟨-, rfl⟩ := ht.command_eq (List.mem_cons_of_mem _ hissued)
      (List.mem_cons_of_mem _ hw.issued) hcopy.uid_mem hcopy.uid_mem
    by_cases hc : c = c'
    · left
      rcases hbefore with hdone | ⟨htodo, -⟩
      · have hstep := hcopy.holds_store hw.fits hdone
        rwa [if_pos hc, FlatDisk.execute_execute] at hstep
      · have hstep := hcopy.holds_store hw.fits htodo
        rwa [if_pos hc] at hstep
    · refine hbefore.imp ?_ (And.imp ?_ ?_)
      · intro hdone
        have hstep := hcopy.holds_store hw.fits hdone
        rwa [if_neg hc] at hstep
      · intro htodo
        have hstep := hcopy.holds_store hw.fits htodo
        rwa [if_neg hc] at hstep
      · intro hnone q' hin hcopy'
        rcases List.mem_cons.1 hin with heq | hin
        · cases heq
          exact hc (hcopy.copy_eq hcopy')
        · exact hnone q' hin hcopy'
  · -- an earlier command: it was replied to
    have hstored := stored_served_of_finished bytes hcopy hord (hw.others p' r' hissued hp)
    rw [hstored]
    refine hbefore.imp id (And.imp id ?_)
    intro hnone q' hin hcopy'
    rcases List.mem_cons.1 hin with heq | hin
    · cases heq
      exact hp (ht.command_eq (List.mem_cons_of_mem _ hissued) (List.mem_cons_of_mem _ hw.issued)
        hcopy.uid_mem hcopy'.uid_mem).1
    · exact hnone q' hin hcopy'

/-- A response is received: to the read in work, or to one of the datagrams of a write. -/
theorem receive {res : Response} (hw : Working bytes history disk p r)
    (ht : Traced bytes s (.received res :: history)) (hord : Orderly history (.received res)) :
    Working bytes (.received res :: history) disk p r ∧
        (StorageEvent.received res).replies = [] ∨
      Quiescent bytes (.received res :: history) (disk.execute r).1 ∧
        (StorageEvent.received res).replies = [disk.reply r] := by
  obtain hres : AnsweredFrom bytes history res := ht.every.1
  rcases hres.cases with ⟨uid, data, offset, size, rfl, hissued⟩ |
    ⟨uid, og, bk, r', rfl, hissued, huid⟩
  · right
    -- it is the read in work, since all others were replied to
    have hp : .readAIFunc uid = p := by
      by_contra hne
      exact hord (hw.others _ _ hissued hne)
    subst hp
    obtain ⟨-, rfl⟩ := ht.command_eq (List.mem_cons_of_mem _ hissued)
      (List.mem_cons_of_mem _ hw.issued) (List.mem_singleton_self _) (List.mem_singleton_self _)
    obtain ⟨before, hbefore⟩ := exists_suffix hw.issued
    obtain ⟨moment, hmoment, hin, hlen, hdata⟩ := ht.read_returns
      (hbefore.trans (List.suffix_cons ..)) (List.suffix_refl _) rfl
    have hmirrors := hw.mirrors_of_read (mem_of_suffix hin) hmoment
    have hlast : Mirrors place device (stored bytes history) disk :=
      hw.mirrors_of_read hw.issued (List.suffix_refl _)
    have hextract : data = Extent.extract disk offset.toNat size.toNat := by
      refine List.ext_getElem (hlen.trans (Extent.length_extract _ _ _).symm) ?_
      intro j hj _
      have hlt : offset.toNat + j < memory :=
        lt_of_lt_of_le (Nat.add_lt_add_left (hj.trans_eq hlen) _) hw.fits.le
      rw [Extent.getElem_extract]
      exact (hdata j hj).trans (hmirrors false _ hlt)
    have hsize : data.length < 2 ^ 32 := hlen.trans_lt size.toNat_lt
    refine ⟨hw.finish trivial ⟨_, List.mem_cons_self .., rfl⟩ hlast, ?_⟩
    rw [replies_received_read uid hsize]
    exact congrArg (fun l => [l]) hextract
  · left
    refine ⟨hw.extend_of_stored trivial nofun rfl ?_, replies_received_write uid true⟩
    intro hfin
    refine hw.unfinished ?_
    cases p with
    | readAIFunc uid' =>
        obtain ⟨res', hin, huid'⟩ := hfin
        rcases List.mem_cons.1 hin with heq | hin
        · -- the UID of a write is not one of a read
          cases heq
          obtain ⟨hne, -⟩ := ht.command_eq (List.mem_cons_of_mem _ hissued)
            (List.mem_cons_of_mem _ hw.issued) huid (huid' ▸ List.mem_singleton_self _)
          cases hne
        · exact ⟨res', hin, huid'⟩
    | writeAIFunc ogUid backupUid =>
        obtain ⟨ret, he⟩ := hfin
        exact ⟨ret, (List.mem_cons.1 he).resolve_left nofun⟩

/-- A poller is evaluated: if it acknowledges a write, this is the write in work. -/
theorem evaluate {p' : Poller} {reply : Option WriteReply} {ret : Bool}
    (hw : Working bytes history disk p r) (ht : Traced bytes s (.evaluated p' reply ret :: history))
    (hord : Orderly history (.evaluated p' reply ret))
    (hplain : (StorageEvent.evaluated p' reply ret).Plain) :
    Working bytes (.evaluated p' reply ret :: history) disk p r ∧
        (StorageEvent.evaluated p' reply ret).replies = [] ∨
      Quiescent bytes (.evaluated p' reply ret :: history) (disk.execute r).1 ∧
        (StorageEvent.evaluated p' reply ret).replies = [disk.reply r] := by
  rcases hord with rfl | rfl
  · left
    refine ⟨hw.extend_of_stored hplain nofun rfl ?_, rfl⟩
    intro hfin
    refine hw.unfinished ?_
    cases p with
    | readAIFunc uid =>
        obtain ⟨res, hres, huid⟩ := hfin
        exact ⟨res, (List.mem_cons.1 hres).resolve_left nofun, huid⟩
    | writeAIFunc ogUid backupUid =>
        obtain ⟨ret', he⟩ := hfin
        exact ⟨ret', (List.mem_cons.1 he).resolve_left nofun⟩
  · right
    cases p' with
    | readAIFunc uid => cases hplain
    | writeAIFunc ogUid backupUid =>
        obtain ⟨r', hin⟩ := ht.issued_of_evaluated (List.mem_cons_self ..)
        have hissued := hplain.mem_of_issued hin
        have hp : .writeAIFunc ogUid backupUid = p := by
          by_contra hne
          exact ht.not_finished_of_evaluated (hw.others _ _ hissued hne)
        subst hp
        obtain ⟨-, rfl⟩ := ht.command_eq hin (List.mem_cons_of_mem _ hw.issued)
          (List.mem_cons_self ..) (List.mem_cons_self ..)
        have hserved := ht.served_of_acknowledged hin (List.suffix_refl _)
        refine ⟨hw.finish hplain ⟨ret, List.mem_cons_self ..⟩ fun c => ?_, ?_⟩
        · -- a copy that was not served would not have been acknowledged
          obtain ⟨q, older, hq, hcopy⟩ := hserved c
          rcases hw.copies history hw.issued (List.suffix_refl _) c with hdone | ⟨-, hnone⟩
          · exact hdone
          · exact absurd hcopy (hnone q (mem_of_suffix hq))
        · obtain ⟨q, older, -, hcopy⟩ := hserved false
          cases hcopy
          rfl

/-- What an event does to the command in work: it stays so and nothing is replied, or it is replied
to with what the array returns. -/
theorem event (hw : Working bytes history disk p r) (ht : Traced bytes s (e :: history))
    (hord : Orderly history e) (hplain : e.Plain) :
    Working bytes (e :: history) disk p r ∧ e.replies = [] ∨
      Quiescent bytes (e :: history) (disk.execute r).1 ∧ e.replies = [disk.reply r] := by
  cases e with
  | issued p' r' => exact hplain.elim
  | served q => exact Or.inl ⟨hw.serve ht hord, rfl⟩
  | received res => exact hw.receive ht hord
  | evaluated p' reply ret => exact hw.evaluate ht hord hplain

end Working

end IotDrive
