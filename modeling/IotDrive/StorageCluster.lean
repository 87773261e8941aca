/-
The cluster with the files of its minions.

`IotDrive/Cluster.lean` follows the UIDs of requests and responses only, and lets a minion answer
what it likes.  Here a request in flight is what `WriteCommand` or `ReadCommand` sent, with its
place and its bytes, and a minion that is reached by it executes the storage command on its file.
Datagrams may be lost, duplicated, delayed and reordered as before.

A storage command is one step: the runs are those in which a minion executes one command at a time.
Commands on several workers that do not disturb each other are such runs, too; others are not.

Main definitions:

* `Posted`, `posted` — a request datagram with the minion it is sent to, and those of a command;
* `StorageCluster`, `StorageCluster.step` — the master, the files and the datagrams in flight;
* `ForCopy` — a request datagram for one of the two copies of a block request.

Main results:

* `forCopy_of_posted` — the datagrams of a command go to the places of the address map;
* `Minions.Ready.serve` — what serving one does to files that are ready;
* `StorageCluster.step_cases` — all that a step can do;
* `storage_refines_cluster` — **the refinement**: every run is one of the cluster without files;
* `serves_of_undisturbed` — workers that do not disturb each other serve their requests one by one.
-/

import IotDrive.Cluster
import IotDrive.ByteStore
import IotDrive.Placement
import IotDrive.Workers
import IotDrive.Library.InFlight
import IotDrive.Library.Simulation

set_option relaxedAutoImplicit false
set_option autoImplicit false

namespace IotDrive

open History InFlight

/-! ### Requests with what they ask for -/

deriving instance DecidableEq for StoreRequest

/-- The response to a request that says `a`. -/
def Answer.response (a : Answer) : StoreRequest → Response
  | .read _ _ uid => .read uid a.isSuccess a.data
  | .write _ _ _ uid _ => .write uid a.isSuccess

namespace StoreRequest

def uid : StoreRequest → ThreadSafeUID
  | .read _ _ uid => uid
  | .write _ _ _ uid _ => uid

/-- What of the request comes back. -/
def minionRequest : StoreRequest → MinionRequest
  | .read _ size uid => .read uid size
  | .write _ _ _ uid _ => .write uid

@[simp] theorem uid_minionRequest (r : StoreRequest) : r.minionRequest.uid = r.uid := by
  cases r with
  | read offset size uid => rfl
  | write offset size data uid hdata => rfl

/-- A response is an answer to what the request asked. -/
theorem answer_minionRequest (r : StoreRequest) {a : Answer} (ha : a.data.length = r.replySize) :
    r.minionRequest.answer a.isSuccess a.data = some (a.response r) := by
  cases r with
  | read offset size uid => exact if_pos ha
  | write offset size data uid hdata => rfl

/-- Whatever the stream does, a minion answers with a success of the length that was asked for. -/
theorem length_data_answer (heap : Heap) (m : Minion) (r : StoreRequest) :
    (r.answer heap m).data.length = r.replySize := by
  obtain ⟨data, hlen, hsuccess⟩ := r.execute_succeeds heap m
  rw [answer, hsuccess, Answer.answer_transmission (heap 3) hlen]
  exact hlen

/-- The question of a response is that of its request. -/
theorem question_response (r : StoreRequest) (a : Answer) :
    (a.response r).question = r.minionRequest.question := by
  cases r with
  | read offset size uid => rfl
  | write offset size data uid hdata => rfl

theorem uid_response (r : StoreRequest) (a : Answer) : (a.response r).uid = r.uid := by
  cases r with
  | read offset size uid => rfl
  | write offset size data uid hdata => rfl

end StoreRequest

/-- A request datagram, and the index in `m_minion_proxy_vector` of the minion it is sent to. -/
structure Posted where
  minion : ℕ
  request : StoreRequest
  deriving DecidableEq

/-- What the cluster without files knows of it. -/
def Posted.asked (q : Posted) : MinionRequest := q.request.minionRequest

/-- The request datagrams of the command that executes `r` and leaves the poller `p`. -/
def posted : Poller → Request → Option (List Posted)
  | .readAIFunc uid, .read offset size => do
      let (og, _) ← Raid01.offsetToProxy offset
      return [⟨og.1, .read og.2 size uid⟩]
  | .writeAIFunc ogUid backupUid, .write offset data =>
      if h : data.length = (UInt32.ofNat data.length).toNat then do
        let (og, backup) ← Raid01.offsetToProxy offset
        return [⟨og.1, .write og.2 (UInt32.ofNat data.length) data ogUid h⟩,
          ⟨backup.1, .write backup.2 (UInt32.ofNat data.length) data backupUid h⟩]
      else none
  | _, _ => none

/-! ### Copies -/

/-- `q` is the request datagram for the copy `c` of the block request `r`, sent for the poller `p`.
-/
inductive ForCopy : Poller → Request → Bool → Posted → Prop
  | read {uid : ThreadSafeUID} {offset offset' : UInt64} {size : UInt32} {i : ℕ}
      (hsite : (i, offset'.toNat) = place false offset.toNat) :
      ForCopy (.readAIFunc uid) (.read offset size) false ⟨i, .read offset' size uid⟩
  | write {ogUid backupUid : ThreadSafeUID} {offset offset' : UInt64} {size : UInt32}
      {data : List UInt8} {hdata : data.length = size.toNat} {i : ℕ} (c : Bool)
      (hsite : (i, offset'.toNat) = place c offset.toNat) :
      ForCopy (.writeAIFunc ogUid backupUid) (.write offset data) c
        ⟨i, .write offset' size data (if c then backupUid else ogUid) hdata⟩

/-- The datagrams of a command go to the places of the address map, a write to both of them. -/
theorem forCopy_of_posted {p : Poller} {r : Request} {qs : List Posted}
    (h : posted p r = some qs) : ∀ q ∈ qs, ∃ c, ForCopy p r c q := by
  have hplaces : ∀ {offset : UInt64} {og bk : Place},
      Raid01.offsetToProxy offset = some (og, bk) →
        Place.toNat og = place false offset.toNat ∧ Place.toNat bk = place true offset.toNat := by
    intro offset og bk hoffset
    have ho : offset.toNat < memory := by
      by_contra ho
      rw [Raid01.offsetToProxy_eq_none (not_lt.1 ho)] at hoffset
      cases hoffset
    obtain ⟨_, _, hoffset', hog, hbk⟩ := Raid01.offsetToProxy_eq ho
    rw [hoffset] at hoffset'
    cases hoffset'
    exact ⟨hog, hbk⟩
  cases p with
  | readAIFunc uid =>
      cases r with
      | read offset size =>
          obtain ⟨⟨og, bk⟩, hoffset, heq⟩ := Option.bind_eq_some_iff.1 h
          cases heq
          intro q hq
          obtain rfl := List.mem_singleton.1 hq
          exact ⟨false, .read (hplaces hoffset).1⟩
      | write offset data => cases h
  | writeAIFunc ogUid backupUid =>
      cases r with
      | read offset size => cases h
      | write offset data =>
          simp only [posted] at h
          split at h
          · obtain ⟨⟨og, bk⟩, hoffset, heq⟩ := Option.bind_eq_some_iff.1 h
            cases heq
            intro q hq
            rcases List.mem_cons.1 hq with rfl | hq
            · exact ⟨false, .write false (hplaces hoffset).1⟩
            · obtain rfl := List.mem_singleton.1 hq
              exact ⟨true, .write true (hplaces hoffset).2⟩
          · cases h

namespace ForCopy

variable {p : Poller} {r : Request} {c : Bool} {q : Posted}

/-- A request carries a UID of the poller that waits for its answer. -/
theorem uid_mem (h : ForCopy p r c q) : q.request.uid ∈ p.uids := by
  cases h with
  | read _ => exact List.mem_singleton_self _
  | write c _ =>
      cases c with
      | false => exact List.mem_cons_self ..
      | true => exact List.mem_cons_of_mem _ (List.mem_singleton_self _)

theorem minion_eq (h : ForCopy p r c q) : q.minion = (place c r.offset).1 := by
  cases h with
  | read hsite => exact congrArg Prod.fst hsite
  | write c hsite => exact congrArg Prod.fst hsite

end ForCopy

/-! ### Serving a request -/

/-- The bytes of all files after the request was served by a minion that is ready. -/
def Posted.store (q : Posted) (bytes : ℕ × ℕ → UInt8) (site : ℕ × ℕ) : UInt8 :=
  match q.request with
  | .read _ _ _ => bytes site
  | .write offset _ data _ _ =>
      if site.1 = q.minion then Extent.overwrite (fun p => bytes (q.minion, p)) offset.toNat data site.2
      else bytes site

/-- The files after `q` was served, and what was answered. -/
def Minions.serve (heap : Heap) (minions : Minions) (q : Posted) : Minions × Answer :=
  (Function.update minions q.minion (q.request.execute heap (minions q.minion)).1,
    q.request.answer heap (minions q.minion))

/-- Serving a datagram of a request inside of a stripe, on minions that are ready: they stay ready,
a write is stored, and a read returns what is stored at the place of its copy. -/
theorem Minions.Ready.serve {minions : Minions} (h : minions.Ready) (heap : Heap) {p : Poller}
    {r : Request} {c : Bool} {q : Posted} (hq : ForCopy p r c q) (hr : r.FitsStripe) :
    (minions.serve heap q).1.Ready ∧ (minions.serve heap q).1.bytes = q.store minions.bytes ∧
      (minions.serve heap q).2.isSuccess = true ∧
      ∀ offset size, r = .read offset size →
        (minions.serve heap q).2.data = Extent.extract
          (fun k => minions.bytes ((place c offset.toNat).1, k)) (place c offset.toNat).2 size.toNat := by
  have hsuccess := q.request.isSuccess_answer heap (minions q.minion)
  cases hq with
  | @read uid offset offset' size i hsite =>
      have hlower : (place false offset.toNat).2 = offset.toNat % minionSize := rfl
      have hoffset' : offset'.toNat = offset.toNat % minionSize := congrArg Prod.snd hsite
      have hin : offset'.toNat + size.toNat ≤ fileSize := by
        rw [hoffset']
        exact hr.2.trans (by decide)
      obtain ⟨m', hexec, hready, hbyte⟩ := (h i).read heap hin uid
      have hexec' : (StoreRequest.read offset' size uid).execute heap (minions i) = _ := hexec
      refine ⟨?_, ?_, hsuccess, ?_⟩
      · intro j
        by_cases hj : j = i
        · subst hj
          simpa [Minions.serve, hexec'] using hready
        · simpa [Minions.serve, hj] using h j
      · funext site
        by_cases hsite' : site.1 = i
        · simp [Minions.serve, bytes, Posted.store, hsite', hexec', hbyte]
        · simp [Minions.serve, bytes, Posted.store, hsite']
      · intro _ _ heq
        cases heq
        have hlen := Extent.length_extract (minions i).byte offset'.toNat size.toNat
        have hanswer := Answer.answer_transmission (a := ⟨true, _⟩)
          (r := .read offset' size uid) (heap 3) hlen
        have hdata : (minions.serve heap ⟨i, .read offset' size uid⟩).2 =
            ⟨true, Extent.extract (minions i).byte offset'.toNat size.toNat⟩ := by
          rw [Minions.serve, StoreRequest.answer, hexec']
          exact hanswer
        rw [hdata, ← hsite]
        rfl
  | @write ogUid backupUid offset offset' size data hdata i c hsite =>
      have hoffset' : offset'.toNat = (place c offset.toNat).2 := congrArg Prod.snd hsite
      have hsize : size.toNat ≤ memory := by
        rw [← hdata]
        exact ((Nat.le_add_left _ _).trans hr.2).trans (by decide)
      obtain ⟨m', hexec, hready, hbyte⟩ := (h i).write heap
        (Minions.place_add_le c _ hoffset' hsize) hdata (if c then backupUid else ogUid)
      have hexec' : (StoreRequest.write offset' size data (if c then backupUid else ogUid)
        hdata).execute heap (minions i) = _ := hexec
      refine ⟨?_, ?_, hsuccess, ?_⟩
      · intro j
        by_cases hj : j = i
        · subst hj
          simpa [Minions.serve, hexec'] using hready
        · simpa [Minions.serve, hj] using h j
      · funext site
        by_cases hsite' : site.1 = i
        · simp only [Minions.serve, bytes, Posted.store, hsite', hexec', Function.update_self, hbyte,
            if_true]
        · simp [Minions.serve, bytes, Posted.store, hsite']
      · intro _ _ heq
        cases heq

/-! ### The machine -/

/-- What can be observed of the cluster and of its files. -/
inductive StorageEvent
  | issued (p : Poller) (r : Request)
  | served (q : Posted)
  | received (r : Response)
  | evaluated (p : Poller) (reply : Option WriteReply) (ret : Bool)

/-- A command stays inside of one stripe. -/
def StorageEvent.Fits : StorageEvent → Prop
  | .issued _ r => r.FitsStripe
  | _ => True

instance : ∀ e : StorageEvent, Decidable e.Fits
  | .issued _ r => inferInstanceAs (Decidable r.FitsStripe)
  | .served _ | .received _ | .evaluated _ _ _ => instDecidableTrue

/-- What is observed without the files. -/
def StorageEvent.events : StorageEvent → List Event
  | .issued p _ => [.issued p]
  | .served _ => []
  | .received r => [.received r]
  | .evaluated p reply ret => [.evaluated p reply ret]

/-- The master, the minions, and the datagrams in flight to and from them. -/
structure StorageCluster where
  master : Master
  minions : Minions
  requests : List Posted
  responses : List Response

namespace StorageCluster

def start (minions : Minions) : StorageCluster :=
  { master := .start, minions, requests := [], responses := [] }

/-- What happens in the cluster. -/
inductive Action
  | execRead (stamp : Stamp) (offset : UInt64) (size : UInt32)
  | execWrite (ogStamp : Stamp) (gap : List Stamp) (backupStamp : Stamp) (offset : UInt64)
      (data : List UInt8)
  | newUID (stamp : Stamp)
  | poll (p : Poller)
  | receive (stamp : Stamp) (r : Response)
  | serve (heap : Heap) (q : Posted)
  | loseRequest (q : Posted)
  | duplicateRequest (q : Posted)
  | loseResponse (r : Response)
  | duplicateResponse (r : Response)

/-- The transitions of the cluster.  A minion executes one storage command at a time. -/
def step (s : StorageCluster) : Action → Option (StorageCluster × List StorageEvent)
  | .execRead stamp offset size => do
      let (uid, master) ← s.master.execRead stamp
      let requests ← posted (.readAIFunc uid) (.read offset size)
      return ({ s with master, requests := s.requests ++ requests },
        [.issued (.readAIFunc uid) (.read offset size)])
  | .execWrite ogStamp gap backupStamp offset data => do
      let (uids, master) ← s.master.execWrite ogStamp gap backupStamp
      let requests ← posted (.writeAIFunc uids.1 uids.2) (.write offset data)
      return ({ s with master, requests := s.requests ++ requests },
        [.issued (.writeAIFunc uids.1 uids.2) (.write offset data)])
  | .newUID stamp => (s.master.newUID stamp).map fun (_, master) => ({ s with master }, [])
  | .poll p =>
      (s.master.poll p).bind fun
        | (master, .evaluated p reply ret) => some ({ s with master }, [.evaluated p reply ret])
        | _ => none
  | .receive stamp r =>
      if r ∈ s.responses then
        (s.master.receive stamp r).map fun master =>
          ({ s with master, responses := s.responses.erase r }, [.received r])
      else none
  | .serve heap q =>
      if q ∈ s.requests then
        let (minions, a) := s.minions.serve heap q
        some ({ s with
          minions
          requests := s.requests.erase q
          responses := s.responses ++ [a.response q.request] }, [.served q])
      else none
  | .loseRequest q =>
      if q ∈ s.requests then some ({ s with requests := s.requests.erase q }, []) else none
  | .duplicateRequest q =>
      if q ∈ s.requests then some ({ s with requests := s.requests ++ [q] }, []) else none
  | .loseResponse r =>
      if r ∈ s.responses then some ({ s with responses := s.responses.erase r }, []) else none
  | .duplicateResponse r =>
      if r ∈ s.responses then some ({ s with responses := s.responses ++ [r] }, []) else none

/-- The transitions as a relation, with what each of them needs. -/
inductive Steps (s : StorageCluster) : Action → StorageCluster → List StorageEvent → Prop
  | execRead {stamp : Stamp} {offset : UInt64} {size : UInt32} {uid : ThreadSafeUID}
      {master : Master} {qs : List Posted} (h : s.master.execRead stamp = some (uid, master))
      (hqs : posted (.readAIFunc uid) (.read offset size) = some qs) :
      Steps s (.execRead stamp offset size) { s with master, requests := s.requests ++ qs }
        [.issued (.readAIFunc uid) (.read offset size)]
  | execWrite {ogStamp backupStamp : Stamp} {gap : List Stamp} {offset : UInt64}
      {data : List UInt8} {uids : ThreadSafeUID × ThreadSafeUID} {master : Master} {qs : List Posted}
      (h : s.master.execWrite ogStamp gap backupStamp = some (uids, master))
      (hqs : posted (.writeAIFunc uids.1 uids.2) (.write offset data) = some qs) :
      Steps s (.execWrite ogStamp gap backupStamp offset data)
        { s with master, requests := s.requests ++ qs }
        [.issued (.writeAIFunc uids.1 uids.2) (.write offset data)]
  | newUID {stamp : Stamp} {uid : ThreadSafeUID} {master : Master}
      (h : s.master.newUID stamp = some (uid, master)) : Steps s (.newUID stamp) { s with master } []
  | poll {p : Poller} {master : Master} {reply : Option WriteReply} {ret : Bool}
      (h : s.master.poll p = some (master, .evaluated p reply ret))
      (heval : s.master.Evaluates p master reply ret) :
      Steps s (.poll p) { s with master } [.evaluated p reply ret]
  | receive {stamp : Stamp} {r : Response} {master : Master} (hr : r ∈ s.responses)
      (h : s.master.receive stamp r = some master) :
      Steps s (.receive stamp r) { s with master, responses := s.responses.erase r } [.received r]
  | serve {heap : Heap} {q : Posted} (hq : q ∈ s.requests) :
      Steps s (.serve heap q)
        { s with
          minions := (s.minions.serve heap q).1
          requests := s.requests.erase q
          responses := s.responses ++ [(s.minions.serve heap q).2.response q.request] }
        [.served q]
  | loseRequest {q : Posted} (hq : q ∈ s.requests) :
      Steps s (.loseRequest q) { s with requests := s.requests.erase q } []
  | duplicateRequest {q : Posted} (hq : q ∈ s.requests) :
      Steps s (.duplicateRequest q) { s with requests := s.requests ++ [q] } []
  | loseResponse {r : Response} (hr : r ∈ s.responses) :
      Steps s (.loseResponse r) { s with responses := s.responses.erase r } []
  | duplicateResponse {r : Response} (hr : r ∈ s.responses) :
      Steps s (.duplicateResponse r) { s with responses := s.responses ++ [r] } []

/-- A step is one of these. -/
theorem step_cases {s t : StorageCluster} {a : Action} {out : List StorageEvent}
    (h : s.step a = some (t, out)) : Steps s a t out := by
  cases a with
  | execRead stamp offset size =>
      obtain ⟨⟨uid, master⟩, hexec, h⟩ := Option.bind_eq_some_iff.1 h
      obtain ⟨qs, hqs, heq⟩ := Option.bind_eq_some_iff.1 h
      cases heq
      exact .execRead hexec hqs
  | execWrite ogStamp gap backupStamp offset data =>
      obtain ⟨⟨uids, master⟩, hexec, h⟩ := Option.bind_eq_some_iff.1 h
      obtain ⟨qs, hqs, heq⟩ := Option.bind_eq_some_iff.1 h
      cases heq
      exact .execWrite hexec hqs
  | newUID stamp =>
      obtain ⟨⟨uid, master⟩, hnew, heq⟩ := Option.map_eq_some_iff.1 h
      cases heq
      exact .newUID hnew
  | poll p =>
      obtain ⟨⟨master, e⟩, hpoll, heq⟩ := Option.bind_eq_some_iff.1 h
      obtain ⟨reply, ret, rfl, heval⟩ := Master.poll_cases hpoll
      cases heq
      exact .poll hpoll heval
  | receive stamp r =>
      simp only [step, Option.ite_none_right_eq_some, Option.map_eq_some_iff] at h
      obtain ⟨hr, master, hreceive, heq⟩ := h
      cases heq
      exact .receive hr hreceive
  | serve heap q =>
      simp only [step, Option.ite_none_right_eq_some] at h
      obtain ⟨hq, heq⟩ := h
      cases heq
      exact .serve hq
  | loseRequest q =>
      simp only [step, Option.ite_none_right_eq_some] at h
      obtain ⟨hq, heq⟩ := h
      cases heq
      exact .loseRequest hq
  | duplicateRequest q =>
      simp only [step, Option.ite_none_right_eq_some] at h
      obtain ⟨hq, heq⟩ := h
      cases heq
      exact .duplicateRequest hq
  | loseResponse r =>
      simp only [step, Option.ite_none_right_eq_some] at h
      obtain ⟨hr, heq⟩ := h
      cases heq
      exact .loseResponse hr
  | duplicateResponse r =>
      simp only [step, Option.ite_none_right_eq_some] at h
      obtain ⟨hr, heq⟩ := h
      cases heq
      exact .duplicateResponse hr

end StorageCluster

/-! ### The cluster without files -/

/-- `c` is the cluster `s` with the files and the payloads of requests left out. -/
structure Forgets (s : StorageCluster) (c : Cluster) : Prop where
  master : c.master = s.master
  requests : Coded Posted.asked c.requests s.requests
  responses : c.responses = s.responses

theorem Forgets.start (minions : Minions) : Forgets (.start minions) .start := ⟨rfl, .nil, rfl⟩

/-- What the datagrams of a command ask, whatever their places. -/
theorem asked_of_posted_read {uid : ThreadSafeUID} {offset : UInt64} {size : UInt32}
    {qs : List Posted} (h : posted (.readAIFunc uid) (.read offset size) = some qs) :
    Coded Posted.asked [.read uid size] qs := by
  obtain ⟨places, -, heq⟩ := Option.bind_eq_some_iff.1 h
  cases heq
  exact .of_map rfl

theorem asked_of_posted_write {ogUid backupUid : ThreadSafeUID} {offset : UInt64}
    {data : List UInt8} {qs : List Posted}
    (h : posted (.writeAIFunc ogUid backupUid) (.write offset data) = some qs) :
    Coded Posted.asked [.write ogUid, .write backupUid] qs := by
  simp only [posted] at h
  split at h
  · obtain ⟨places, -, heq⟩ := Option.bind_eq_some_iff.1 h
    cases heq
    exact .of_map rfl
  · cases h

namespace StorageCluster

/-- One step with files is one step without. -/
theorem step_forgets {s t : StorageCluster} {c : Cluster} {a : Action} {out : List StorageEvent}
    (h : Forgets s c) (hstep : s.step a = some (t, out)) :
    ∃ b d, c.step b = some (d, out.flatMap StorageEvent.events) ∧ Forgets t d := by
  obtain ⟨master, requests, responses⟩ := c
  obtain ⟨hmaster, hrequests, hresponses⟩ := id h
  dsimp only at hmaster hrequests hresponses
  subst hmaster hresponses
  cases step_cases hstep with
  | @execRead stamp offset size uid master qs hexec hqs =>
      refine ⟨.execRead stamp size, _, by rw [Cluster.step, hexec]; rfl, rfl, ?_, rfl⟩
      exact h.requests.append (asked_of_posted_read hqs)
  | @execWrite ogStamp backupStamp gap offset data uids master qs hexec hqs =>
      refine ⟨.execWrite ogStamp gap backupStamp, _, by rw [Cluster.step, hexec]; rfl, rfl, ?_, rfl⟩
      exact h.requests.append (asked_of_posted_write hqs)
  | @newUID stamp uid master hnew =>
      exact ⟨.newUID stamp, _, by rw [Cluster.step, hnew]; rfl, rfl, hrequests, rfl⟩
  | @poll p master reply ret hpoll heval =>
      exact ⟨.poll p, _, by rw [Cluster.step, hpoll]; rfl, rfl, hrequests, rfl⟩
  | @receive stamp r master hr hreceive =>
      exact ⟨.receive stamp r, _, by rw [Cluster.step, if_pos hr, hreceive]; rfl, rfl, hrequests,
        rfl⟩
  | @serve heap q hq =>
      -- what the minion computes is one of the answers that the cluster without files allows
      have hanswer := q.request.answer_minionRequest
        (StoreRequest.length_data_answer heap (s.minions q.minion) q.request)
      refine ⟨.answer q.asked (s.minions.serve heap q).2.isSuccess (s.minions.serve heap q).2.data,
        ⟨s.master, requests.erase q.asked,
          s.responses ++ [(s.minions.serve heap q).2.response q.request]⟩,
        ?_, rfl, h.requests.erase hq, rfl⟩
      rw [Cluster.step, if_pos (h.requests.mem hq)]
      exact congrArg (Option.map _) hanswer
  | @loseRequest q hq =>
      exact ⟨.loseRequest q.asked, _, by rw [Cluster.step, if_pos (h.requests.mem hq)]; rfl, rfl,
        h.requests.erase hq, rfl⟩
  | @duplicateRequest q hq =>
      refine ⟨.duplicateRequest q.asked, _, by rw [Cluster.step, if_pos (h.requests.mem hq)]; rfl,
        rfl, ?_, rfl⟩
      exact h.requests.append (.of_map rfl)
  | @loseResponse r hr =>
      exact ⟨.loseResponse r, _, by rw [Cluster.step, if_pos hr]; rfl, rfl, hrequests, rfl⟩
  | @duplicateResponse r hr =>
      exact ⟨.duplicateResponse r, _, by rw [Cluster.step, if_pos hr]; rfl, rfl, hrequests, rfl⟩

theorem forward_forgets :
    Simulation.Forward step (fun _ => True) Cluster.step Forgets StorageEvent.events :=
  Simulation.Forward.of_step fun _ _ _ _ _ h _ hstep => step_forgets h hstep

end StorageCluster

/-- **The refinement.** Every run of the cluster with its files is, without them, a run of the
cluster: the same master, the same responses in flight, the same requests but for their payload, and
the same history. -/
theorem storage_refines_cluster (minions : Minions) (actions : List StorageCluster.Action)
    {t : StorageCluster} {history : List StorageEvent}
    (hrun : Transition.run (logged StorageCluster.step) (.start minions, []) actions =
      some (t, history)) :
    ∃ actions' c, Transition.run (logged Cluster.step) (Cluster.start, []) actions' =
      some (c, history.flatMap StorageEvent.events) ∧ Forgets t c :=
  StorageCluster.forward_forgets.run (.start minions) (fun _ _ => trivial) hrun

/-! ### Several workers -/

section Workers

variable {ι : Type} [DecidableEq ι] {c : Commands ι} {w : StorageCluster} {history : List StorageEvent}

/-- The request that the worker `i` of the minion `k` executes. -/
def Commands.posted (c : Commands ι) (k : ℕ) (i : ι) : Posted := ⟨k, c.request i⟩

/-- The response to it that says what `t` says. -/
def Commands.answered (c : Commands ι) (i : ι) (t : Transmission) : Response :=
  (t.answer (c.request i)).response (c.request i)

omit [DecidableEq ι] in
/-- Serving requests in flight one after another is the serial execution of the commands. -/
theorem StorageCluster.run_serves (w : StorageCluster) (history : List StorageEvent) (k : ℕ)
    {order : List ι} (hin : (order.map (c.posted k)).Subperm w.requests) :
    ∃ t, Transition.run (logged StorageCluster.step) (w, history)
        (order.map fun i => .serve (c.heap i) (c.posted k i)) =
          some (t, (order.map fun i => .served (c.posted k i)).reverse ++ history) ∧
      t.master = w.master ∧
      t.minions = Function.update w.minions k (Threads.serial c.execute (w.minions k) order).1 ∧
      t.requests = w.requests.diff (order.map (c.posted k)) ∧
      t.responses = w.responses ++
        (Threads.serial c.execute (w.minions k) order).2.map fun x => c.answered x.1 x.2 := by
  -- induction on the order, from any state and history
  induction order generalizing w history with
  | nil => exact ⟨w, rfl, rfl, by simp [Threads.serial], rfl, by simp [Threads.serial]⟩
  | cons i order ih =>
      have hmem : c.posted k i ∈ w.requests := hin.subset List.mem_cons_self
      have hrest : (order.map (c.posted k)).Subperm (w.requests.erase (c.posted k i)) := by
        have herase := hin.erase (c.posted k i)
        rwa [List.map_cons, List.erase_cons_head] at herase
      let next : StorageCluster :=
        { w with
          minions := (w.minions.serve (c.heap i) (c.posted k i)).1
          requests := w.requests.erase (c.posted k i)
          responses := w.responses ++
            [(w.minions.serve (c.heap i) (c.posted k i)).2.response (c.request i)] }
      have hstep : w.step (.serve (c.heap i) (c.posted k i)) = some (next, [.served (c.posted k i)]) :=
        if_pos hmem
      obtain ⟨t, hrun, hmaster, hminions, hrequests, hresponses⟩ :=
        ih next (.served (c.posted k i) :: history) hrest
      have hnext : next.minions k = (c.execute i (w.minions k)).1 := Function.update_self _ _ _
      rw [hnext] at hminions hresponses
      refine ⟨t, ?_, hmaster, ?_, ?_, ?_⟩
      · rw [List.map_cons, Transition.run_cons, logged, hstep]
        simpa using hrun
      · rw [hminions, Threads.serial_cons]
        exact Function.update_idem _ _ _
      · rw [hrequests, List.map_cons, List.diff_cons]
      · rw [hresponses, Threads.serial_cons, List.map_cons, List.append_assoc]
        rfl

/-- **Several workers.** If the requests of the workers of a minion are in flight, and the workers
execute them without disturbing each other, then what they leave and respond is what the cluster
leaves and responds when it serves these requests one after another in some order. -/
theorem serves_of_undisturbed (worker : ι) {k : ℕ} (hm : (w.minions k).Idle) (actions : List ι)
    {s : Workers ι}
    (hundisturbed : Transition.Along (Threads.step c.thread) (Workers.Undisturbed c)
      (Workers.start (w.minions k)) actions)
    (hrun : Transition.run (Threads.step c.thread) (Workers.start (w.minions k)) actions = some s)
    {response : ι → Transmission} (hdone : ∀ i, s.phase i = .done (response i)) {workers : List ι}
    (hworkers : workers.Nodup) (hall : ∀ i, i ∈ workers)
    (hin : (workers.map (c.posted k)).Subperm w.requests) :
    ∃ (order : List ι) (t : StorageCluster), Transition.run (logged StorageCluster.step) (w, history)
        (order.map fun i => .serve (c.heap i) (c.posted k i)) =
          some (t, (order.map fun i => .served (c.posted k i)).reverse ++ history) ∧
      order.Perm workers ∧ t.master = w.master ∧
      t.minions = Function.update w.minions k s.shared ∧
      t.requests = w.requests.diff (order.map (c.posted k)) ∧
      t.responses = w.responses ++ order.map fun i => c.answered i (response i) := by
  obtain ⟨order, hnodup, horder, hshared, hresponses⟩ :=
    Workers.exists_order hm hundisturbed hrun (fun i => ⟨_, hdone i⟩) worker
  have hperm : order.Perm workers :=
    (List.perm_ext_iff_of_nodup hnodup hworkers).2 fun i => iff_of_true (horder i) (hall i)
  obtain ⟨t, hserves, hmaster, hminions, hrequests, hout⟩ := w.run_serves history k
    ((hperm.map (c.posted k)).subperm.trans hin)
  have hserial := Threads.serial_snd hnodup fun i => hresponses i _ (hdone i)
  refine ⟨order, t, hserves, hperm, hmaster, by rw [hminions, hshared], hrequests, ?_⟩
  rw [hout, hserial, List.map_map]
  rfl

end Workers

/-- Minions whose files are 8 MiB of zeros, open and filled. -/
def Minions.opened : Minions := fun _ => .opened Volume.ext4.fs (.zeros fileSize)

/-- The two writes of `twoWrites` are on their way to the first minion. -/
def twoWritesPosted : StorageCluster :=
  { StorageCluster.start .opened with requests := [false, true].map (twoWrites.posted 0) }

theorem serves_of_undisturbed_seekAfterWrite :
    ∃ (order : List Bool) (t : StorageCluster),
      Transition.run (logged StorageCluster.step) (twoWritesPosted, [])
          (order.map fun i => .serve (twoWrites.heap i) (twoWrites.posted 0 i)) =
        some (t, (order.map fun i => .served (twoWrites.posted 0 i)).reverse ++ []) ∧
      order.Perm [false, true] ∧ (t.minions 0).byte 0 = 1 ∧ (t.minions 0).byte 1 = 2 := by
  obtain ⟨s, hrun, hdone, hone, htwo⟩ : ∃ s : Workers Bool,
      Transition.run (Threads.step twoWrites.thread) (Workers.start (twoWritesPosted.minions 0))
          seekAfterWrite = some s ∧
        (∀ i, ∃ response, s.phase i = .done response) ∧ s.shared.byte 0 = 1 ∧ s.shared.byte 1 = 2 :=
    ⟨_, rfl, Bool.forall_bool.2 ⟨⟨_, rfl⟩, ⟨_, rfl⟩⟩, rfl, rfl⟩
  choose response hresponse using hdone
  have hundisturbed : Transition.Along (Threads.step twoWrites.thread)
      (Workers.Undisturbed twoWrites) (Workers.start (twoWritesPosted.minions 0)) seekAfterWrite :=
    ⟨nofun, nofun, trivial, rfl, trivial, rfl, trivial, trivial, trivial⟩
  obtain ⟨order, t, hserves, hperm, -, hminions, -⟩ :=
    serves_of_undisturbed (w := twoWritesPosted) false (.opened .ext4 le_rfl) seekAfterWrite
      hundisturbed hrun hresponse (by decide) (by decide) (List.Subperm.refl _)
  refine ⟨order, t, hserves, hperm, ?_, ?_⟩
  · rw [hminions, Function.update_self]
    exact hone
  · rw [hminions, Function.update_self]
    exact htwo

theorem length_seven : ([7] : List UInt8).length = (1 : UInt32).toNat := rfl

/-- A byte is written, its first datagram served twice, and read back. -/
def savedRun : List StorageCluster.Action :=
  [.execWrite ⟨0, 0⟩ [] ⟨0, 0⟩ 0 [7], .duplicateRequest ⟨0, .write 0 1 [7] (nthUid 1) length_seven⟩,
    .serve (fun _ _ => 0) ⟨0, .write 0 1 [7] (nthUid 1) length_seven⟩,
    .serve (fun _ _ => 0) ⟨1, .write 4194304 1 [7] (nthUid 2) length_seven⟩,
    .serve (fun _ _ => 0) ⟨0, .write 0 1 [7] (nthUid 1) length_seven⟩,
    .receive ⟨0, 0⟩ (.write (nthUid 2) true), .receive ⟨0, 0⟩ (.write (nthUid 1) true),
    .poll (.writeAIFunc (nthUid 1) (nthUid 2)), .execRead ⟨0, 0⟩ 0 1,
    .serve (fun _ _ => 0) ⟨0, .read 0 1 (nthUid 5)⟩, .receive ⟨0, 0⟩ (.read (nthUid 5) true [7])]

/-- The events of its write, the latest first. -/
def savedWrite : List StorageEvent :=
  [.evaluated (.writeAIFunc (nthUid 1) (nthUid 2)) (some .success) true,
    .received (.write (nthUid 1) true), .received (.write (nthUid 2) true),
    .served ⟨0, .write 0 1 [7] (nthUid 1) length_seven⟩,
    .served ⟨1, .write 4194304 1 [7] (nthUid 2) length_seven⟩,
    .served ⟨0, .write 0 1 [7] (nthUid 1) length_seven⟩,
    .issued (.writeAIFunc (nthUid 1) (nthUid 2)) (.write 0 [7])]

/-- The events of its read after these. -/
def savedRead : List StorageEvent :=
  [.received (.read (nthUid 5) true [7]), .served ⟨0, .read 0 1 (nthUid 5)⟩,
    .issued (.readAIFunc (nthUid 5)) (.read 0 1)]

theorem run_savedRun :
    ∃ t, Transition.run (logged StorageCluster.step) (.start .opened, [])
        savedRun = some (t, savedRead ++ savedWrite) ∧ t.master.constructed < 2 ^ 32 :=
  ⟨_, rfl, by decide⟩

theorem storage_refines_cluster_savedRun :
    ∃ actions' c, Transition.run (logged Cluster.step) (Cluster.start, []) actions' =
      some (c, (savedRead ++ savedWrite).flatMap StorageEvent.events) := by
  obtain ⟨t, hrun, -⟩ := run_savedRun
  obtain ⟨actions', c, hrun', -⟩ := storage_refines_cluster _ savedRun hrun
  exact ⟨actions', c, hrun'⟩

end IotDrive
