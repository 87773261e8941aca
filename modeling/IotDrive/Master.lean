/-
The master between the commands it executes and the responses it receives.

A command registers the UIDs of its requests and leaves a poller behind.  `ResponseProxy` marks the
UIDs of the successes it receives.  The scheduler evaluates the pollers again and again; a poller
that returns true is deleted.  All of them share the watch-list, and all pollers of writes share
two counters.

A command registers its UIDs, sends its requests and leaves its poller in one step here; what other
threads do in between commutes with it, except that they draw UIDs as well.

An evaluation of a poller is one step here.  `Polling` takes it apart, for what depends on evaluations
that overlap.

Main definitions:

* `Response` — what a minion answers, and its effects in `ResponseProxy`;
* `WriteAIFunc.call`, `ReadAIFunc.call` — the pollers;
* `Master.step` — the transitions.

Main results:

* `WriteAIFunc.call_cases`, `Master.poll_cases` — all that an evaluation can do.
-/

import IotDrive.Agreement
import IotDrive.ResponseManeger
import IotDrive.Library.History

set_option relaxedAutoImplicit false
set_option autoImplicit false

namespace IotDrive

open ResponseManeger

/-! ### Responses -/

/-- A `MinionReadMsg` or a `MinionWriteMsg`. -/
inductive Response
  | read (uid : ThreadSafeUID) (isSuccess : Bool) (data : List UInt8)
  | write (uid : ThreadSafeUID) (isSuccess : Bool)
  deriving DecidableEq

namespace Response

def uid : Response → ThreadSafeUID
  | .read uid _ _ => uid
  | .write uid _ => uid

def isSuccess : Response → Bool
  | .read _ isSuccess _ => isSuccess
  | .write _ isSuccess => isSuccess

/-- The data of a `MinionReadMsg`. -/
def data : Response → List UInt8
  | .read _ _ data => data
  | .write _ _ => []

/-- The message as a minion sends it. -/
def transmission (heap : ℕ → UInt8) : Response → Transmission
  | .read uid isSuccess data =>
      MasterProxy.readResponse heap uid isSuccess (some data) (UInt32.ofNat data.length)
  | .write uid isSuccess => MasterProxy.writeResponse heap uid isSuccess

/-- What `ResponseProxy` does with it. -/
def effects : Response → List ResponseEffect
  | .read uid isSuccess data =>
      if isSuccess then
        [.registerResponse uid, .notifySucces (some data) (UInt32.ofNat data.length)]
      else []
  | .write uid isSuccess => if isSuccess then [.registerResponse uid] else []

end Response

/-- `NotifySucces` does not touch the watch-list. -/
def ResponseEffect.watch (watchlist : Watchlist) : ResponseEffect → Watchlist
  | .registerResponse uid => ResponseManeger.registerResponse watchlist uid
  | .notifySucces _ _ => watchlist

/-! ### Pollers -/

/-- What a command leaves with the scheduler. -/
inductive Poller
  | readAIFunc (uid : ThreadSafeUID)
  | writeAIFunc (ogUid backupUid : ThreadSafeUID)
  deriving DecidableEq

/-- The UIDs that a poller asks for. -/
def Poller.uids : Poller → List ThreadSafeUID
  | .readAIFunc uid => [uid]
  | .writeAIFunc ogUid backupUid => [ogUid, backupUid]

/-- The keys of these UIDs in the watch-list. -/
def Poller.keys (p : Poller) : List UInt32 := p.uids.map ThreadSafeUID.getUniqueCounter

/-- What `WriteAIFunc` passes to `NotifySucces`. -/
inductive WriteReply
  | success | couldntWriteOg | couldntWriteBackup
  deriving DecidableEq

namespace WriteReply

/-- The C string passed as data. -/
def text : WriteReply → String
  | .success => "Success"
  | .couldntWriteOg => "couldnt write og"
  | .couldntWriteBackup => "couldnt write backup"

/-- The size passed with it. -/
def size : WriteReply → ℕ
  | .success => 8
  | .couldntWriteOg => 15
  | .couldntWriteBackup => 20

/-- The bytes that go out: as many of the string and its terminating zero as the size says. -/
def bytes (r : WriteReply) : List UInt8 :=
  (r.text.toList.map (fun c : Char => UInt8.ofNat c.toNat) ++ [0]).take r.size

end WriteReply

/-- The state of the master: the count of UIDs, the watch-list, the two static counters of
`WriteAIFunc`, and the pollers that the scheduler holds. -/
structure Master where
  staticCounter : ℕ
  watchlist : Watchlist
  ogCounter : ℕ
  backupCounter : ℕ
  pollers : List Poller

/-- The master before its first command. -/
def Master.start : Master :=
  { staticCounter := 1, watchlist := fun _ => none, ogCounter := 0, backupCounter := 0,
    pollers := [] }

/-- The number of UIDs constructed so far. -/
def Master.constructed (s : Master) : ℕ := s.staticCounter - 1

/-- `ReadAIFunc::operator()`: whether it returns true. -/
def ReadAIFunc.call (s : Master) (uid : ThreadSafeUID) : Bool × Master :=
  let (ret, watchlist) := hasResponseRecived s.watchlist uid
  (ret, { s with watchlist })

/-- The end of `WriteAIFunc::operator()`, when not both responses have come: the misses are counted,
and a counter that reaches 50 ends the write and resets both. -/
def WriteAIFunc.countMisses (s : Master) (og backup : Bool) : Option WriteReply × Bool × Master :=
  let ogCounter := if og = false then s.ogCounter + 1 else s.ogCounter
  let backupCounter := if backup = false then s.backupCounter + 1 else s.backupCounter
  if ogCounter = 50 ∨ backupCounter = 50 then
    (some (if ogCounter = 50 then .couldntWriteOg else .couldntWriteBackup), true,
      { s with ogCounter := 0, backupCounter := 0 })
  else (none, false, { s with ogCounter, backupCounter })

/-- `WriteAIFunc::operator()`: the reply, if there is one, and whether it returns true. -/
def WriteAIFunc.call (s : Master) (ogUid backupUid : ThreadSafeUID) :
    Option WriteReply × Bool × Master :=
  let (og, watchlist) := hasResponseRecived s.watchlist ogUid
  let (backup, watchlist) := hasResponseRecived watchlist backupUid
  let s := { s with watchlist }
  if og && backup then (some .success, true, s) else countMisses s og backup

/-- The evaluation of a poller. -/
def Poller.call (s : Master) : Poller → Option WriteReply × Bool × Master
  | .readAIFunc uid => (none, ReadAIFunc.call s uid)
  | .writeAIFunc ogUid backupUid => WriteAIFunc.call s ogUid backupUid

/-- The poller of a write. -/
def Poller.isWrite : Poller → Bool
  | .readAIFunc _ => false
  | .writeAIFunc _ _ => true

namespace Master

/-- The pollers of writes that the scheduler holds. -/
def writePollers (s : Master) : List Poller := s.pollers.filter Poller.isWrite

/-- An evaluation of the poller would not find both responses, and count a fiftieth miss. -/
def GivesUp (s : Master) : Poller → Prop
  | .readAIFunc _ => False
  | .writeAIFunc ogUid backupUid =>
      let og := IsDone s.watchlist ogUid.getUniqueCounter
      let backup := backupUid.getUniqueCounter ≠ ogUid.getUniqueCounter ∧
        IsDone s.watchlist backupUid.getUniqueCounter
      ¬ (og ∧ backup) ∧ ((if og then s.ogCounter else s.ogCounter + 1) = 50 ∨
        (if backup then s.backupCounter else s.backupCounter + 1) = 50)

instance (s : Master) : ∀ p, Decidable (s.GivesUp p)
  | .readAIFunc _ => instDecidableFalse
  | .writeAIFunc _ _ => inferInstanceAs (Decidable (_ ∧ _))

end Master

/-! ### Transitions -/

/-- What can be observed of the master. -/
inductive Event
  | issued (p : Poller)
  | received (r : Response)
  | evaluated (p : Poller) (reply : Option WriteReply) (ret : Bool)
  deriving DecidableEq

/-- What is written to the TCP connection, reply by reply: a read is replied to as soon as its
response is received, a write when it is evaluated. -/
def Event.replies : Event → List (List UInt8)
  | .issued _ => []
  | .received r => r.effects.filterMap ResponseEffect.notified
  | .evaluated _ reply _ => (reply.map WriteReply.bytes).toList

namespace Master

variable (s : Master)

/-- A UID is constructed. -/
def newUID (stamp : Stamp) : Option (ThreadSafeUID × Master) :=
  (ThreadSafeUID.new s.staticCounter stamp).map fun uid =>
    (uid, { s with staticCounter := s.staticCounter + 1 })

/-- UIDs are constructed by other threads. -/
def newUIDs : List Stamp → Master → Option Master
  | [], s => some s
  | stamp :: rest, s => (s.newUID stamp).bind fun t => newUIDs rest t.2

/-- `ResponseManeger::RegisterCommand`. -/
def registerCommand (stamp : Stamp) : Option (ThreadSafeUID × Master) :=
  (s.newUID stamp).map fun (uid, s) =>
    (uid, { s with watchlist := ResponseManeger.registerCommand s.watchlist uid })

/-- `ReadCommand::Execute`, and the `AI` that schedules its poller. -/
def execRead (stamp : Stamp) : Option (ThreadSafeUID × Master) := do
  let (uid, s) ← s.registerCommand stamp
  return (uid, { s with pollers := s.pollers ++ [.readAIFunc uid] })

/-- `WriteCommand::Execute`, and the `AI` that schedules its poller.  Other threads construct UIDs
between its two. -/
def execWrite (ogStamp : Stamp) (gap : List Stamp) (backupStamp : Stamp) :
    Option ((ThreadSafeUID × ThreadSafeUID) × Master) := do
  let (ogUid, s) ← s.registerCommand ogStamp
  let s ← newUIDs gap s
  let (backupUid, s) ← s.registerCommand backupStamp
  return ((ogUid, backupUid), { s with pollers := s.pollers ++ [.writeAIFunc ogUid backupUid] })

/-- `ResponseProxy::GetArgsKey` on a response; its factory constructs a UID. -/
def receive (stamp : Stamp) (r : Response) : Option Master :=
  (s.newUID stamp).map fun (_, s) =>
    { s with watchlist := r.effects.foldl ResponseEffect.watch s.watchlist }

/-- `AI::Perform` of a poller that the scheduler holds. -/
def poll (p : Poller) : Option (Master × Event) :=
  if p ∈ s.pollers then
    let (reply, ret, s) := p.call s
    some ({ s with pollers := if ret then s.pollers.erase p else s.pollers },
      .evaluated p reply ret)
  else none

/-- What happens to the master. -/
inductive Action
  | execRead (stamp : Stamp)
  | execWrite (ogStamp : Stamp) (gap : List Stamp) (backupStamp : Stamp)
  | newUID (stamp : Stamp)
  | receive (stamp : Stamp) (r : Response)
  | poll (p : Poller)
  deriving DecidableEq

/-- The transitions of the master, under any responses. -/
def step (s : Master) : Action → Option (Master × List Event)
  | .execRead stamp =>
      (s.execRead stamp).map fun (uid, s) => (s, [.issued (.readAIFunc uid)])
  | .execWrite ogStamp gap backupStamp =>
      (s.execWrite ogStamp gap backupStamp).map fun (uids, s) =>
        (s, [.issued (.writeAIFunc uids.1 uids.2)])
  | .newUID stamp => (s.newUID stamp).map fun (_, s) => (s, [])
  | .receive stamp r => (s.receive stamp r).map fun s => (s, [.received r])
  | .poll p => (s.poll p).map fun (s, e) => (s, [e])

/-! ### What a transition can do -/

variable {s} {t : Master} {stamp : Stamp} {uid : ThreadSafeUID}

theorem newUID_eq_some (h : s.newUID stamp = some (uid, t)) :
    uid.getUniqueCounter = UInt32.ofNat s.staticCounter ∧
      t = { s with staticCounter := s.staticCounter + 1 } := by
  unfold newUID at h
  obtain ⟨uid', hnew, heq⟩ := Option.map_eq_some_iff.1 h
  cases heq
  exact ⟨ThreadSafeUID.key_of_new hnew, rfl⟩

theorem newUIDs_eq_some {gap : List Stamp} (h : newUIDs gap s = some t) :
    t = { s with staticCounter := s.staticCounter + gap.length } := by
  induction gap generalizing s with
  | nil =>
      cases h
      rfl
  | cons stamp rest ih =>
      obtain ⟨⟨uid, s'⟩, hnew, hrest⟩ := Option.bind_eq_some_iff.1 h
      obtain ⟨-, rfl⟩ := newUID_eq_some hnew
      rw [ih hrest, List.length_cons]
      simp only [Nat.add_assoc, Nat.add_comm 1]

theorem registerCommand_eq_some (h : s.registerCommand stamp = some (uid, t)) :
    uid.getUniqueCounter = UInt32.ofNat s.staticCounter ∧
      t = { s with
        staticCounter := s.staticCounter + 1
        watchlist := ResponseManeger.registerCommand s.watchlist uid } := by
  unfold registerCommand at h
  obtain ⟨⟨uid', s'⟩, hnew, heq⟩ := Option.map_eq_some_iff.1 h
  cases heq
  obtain ⟨hkey, rfl⟩ := newUID_eq_some hnew
  exact ⟨hkey, rfl⟩

theorem execRead_eq_some (h : s.execRead stamp = some (uid, t)) :
    uid.getUniqueCounter = UInt32.ofNat s.staticCounter ∧
      t = { s with
        staticCounter := s.staticCounter + 1
        watchlist := ResponseManeger.registerCommand s.watchlist uid
        pollers := s.pollers ++ [.readAIFunc uid] } := by
  unfold execRead at h
  obtain ⟨⟨uid', s'⟩, hregister, heq⟩ := Option.bind_eq_some_iff.1 h
  cases heq
  obtain ⟨hkey, rfl⟩ := registerCommand_eq_some hregister
  exact ⟨hkey, rfl⟩

theorem execWrite_eq_some {ogStamp backupStamp : Stamp} {gap : List Stamp}
    {uids : ThreadSafeUID × ThreadSafeUID}
    (h : s.execWrite ogStamp gap backupStamp = some (uids, t)) :
    uids.1.getUniqueCounter = UInt32.ofNat s.staticCounter ∧
      uids.2.getUniqueCounter = UInt32.ofNat (s.staticCounter + gap.length + 1) ∧
      t = { s with
        staticCounter := s.staticCounter + gap.length + 2
        watchlist := ResponseManeger.registerCommand
          (ResponseManeger.registerCommand s.watchlist uids.1) uids.2
        pollers := s.pollers ++ [.writeAIFunc uids.1 uids.2] } := by
  unfold execWrite at h
  obtain ⟨⟨ogUid, s₁⟩, hog, h⟩ := Option.bind_eq_some_iff.1 h
  obtain ⟨s₂, hgap, h⟩ := Option.bind_eq_some_iff.1 h
  obtain ⟨⟨backupUid, s₃⟩, hbackup, heq⟩ := Option.bind_eq_some_iff.1 h
  cases heq
  obtain ⟨hogKey, rfl⟩ := registerCommand_eq_some hog
  obtain rfl := newUIDs_eq_some hgap
  obtain ⟨hbackupKey, rfl⟩ := registerCommand_eq_some hbackup
  have hcount : s.staticCounter + 1 + gap.length = s.staticCounter + gap.length + 1 := by omega
  refine ⟨hogKey, ?_, ?_⟩
  · rw [hbackupKey]
    simp only [hcount]
  · simp only [hcount]

/-- The entries that are `DONE` after the effects of a response. -/
theorem isDone_effects (watchlist : Watchlist) (r : Response) (key : UInt32) :
    IsDone (r.effects.foldl ResponseEffect.watch watchlist) key ↔
      IsDone watchlist key ∨ r.isSuccess = true ∧ key = r.uid.getUniqueCounter := by
  cases r with
  | read uid isSuccess data =>
      cases isSuccess with
      | true =>
          refine (isDone_registerResponse watchlist uid key).trans ?_
          simp [Response.isSuccess, Response.uid, or_comm]
      | false => simp [Response.effects, Response.isSuccess]
  | write uid isSuccess =>
      cases isSuccess with
      | true =>
          refine (isDone_registerResponse watchlist uid key).trans ?_
          simp [Response.isSuccess, Response.uid, or_comm]
      | false => simp [Response.effects, Response.isSuccess]

theorem receive_eq_some {r : Response} (h : s.receive stamp r = some t) :
    t.staticCounter = s.staticCounter + 1 ∧ t.pollers = s.pollers ∧
      ∀ key, IsDone t.watchlist key ↔
        IsDone s.watchlist key ∨ r.isSuccess = true ∧ key = r.uid.getUniqueCounter := by
  unfold receive at h
  obtain ⟨⟨uid', s'⟩, hnew, heq⟩ := Option.map_eq_some_iff.1 h
  cases heq
  obtain ⟨-, rfl⟩ := newUID_eq_some hnew
  exact ⟨rfl, rfl, isDone_effects s.watchlist r⟩

/-- A response leaves the pollers alone. -/
theorem writePollers_receive {r : Response} (h : s.receive stamp r = some t) :
    t.writePollers = s.writePollers := by
  obtain ⟨-, hpollers, -⟩ := receive_eq_some h
  rw [writePollers, hpollers, writePollers]

end Master

/-- Counting misses leaves the watch-list and the pollers alone; it ends with a failure reply or
with none. -/
theorem WriteAIFunc.countMisses_cases (s : Master) (og backup : Bool) :
    ∃ reply t, countMisses s og backup = (reply, reply.isSome, t) ∧ reply ≠ some .success ∧
      t.staticCounter = s.staticCounter ∧ t.watchlist = s.watchlist ∧ t.pollers = s.pollers := by
  by_cases hfull : (if og = false then s.ogCounter + 1 else s.ogCounter) = 50 ∨
      (if backup = false then s.backupCounter + 1 else s.backupCounter) = 50
  · have hne : ∀ (p : Prop) [Decidable p],
        (if p then WriteReply.couldntWriteOg else .couldntWriteBackup) ≠ .success := by
      intro p _
      split
      · exact nofun
      · exact nofun
    exact ⟨_, _, if_pos hfull, fun heq => hne _ (Option.some.inj heq), rfl, rfl, rfl⟩
  · exact ⟨none, _, if_neg hfull, nofun, rfl, rfl, rfl⟩

/-- The watch-list after `WriteAIFunc` has asked for both UIDs. -/
def WriteAIFunc.asked (watchlist : Watchlist) (ogUid backupUid : ThreadSafeUID) : Watchlist :=
  (hasResponseRecived (hasResponseRecived watchlist ogUid).2 backupUid).2

theorem WriteAIFunc.isDone_asked (watchlist : Watchlist) (ogUid backupUid : ThreadSafeUID)
    (key : UInt32) : IsDone (asked watchlist ogUid backupUid) key ↔
      key ≠ backupUid.getUniqueCounter ∧ key ≠ ogUid.getUniqueCounter ∧ IsDone watchlist key := by
  rw [asked, isDone_hasResponseRecived, isDone_hasResponseRecived]

/-- The evaluation with the results of its two queries; the second one finds nothing if the first
one has erased its entry. -/
theorem WriteAIFunc.call_eq (s : Master) (ogUid backupUid : ThreadSafeUID) :
    WriteAIFunc.call s ogUid backupUid =
      if IsDone s.watchlist ogUid.getUniqueCounter ∧
          backupUid.getUniqueCounter ≠ ogUid.getUniqueCounter ∧
          IsDone s.watchlist backupUid.getUniqueCounter then
        (some .success, true, { s with watchlist := asked s.watchlist ogUid backupUid })
      else
        countMisses { s with watchlist := asked s.watchlist ogUid backupUid }
          (decide (IsDone s.watchlist ogUid.getUniqueCounter))
          (decide (backupUid.getUniqueCounter ≠ ogUid.getUniqueCounter ∧
            IsDone s.watchlist backupUid.getUniqueCounter)) := by
  have hog := hasResponseRecived_fst s.watchlist ogUid
  have hbackup := hasResponseRecived_fst (hasResponseRecived s.watchlist ogUid).2 backupUid
  simp only [isDone_hasResponseRecived] at hbackup
  unfold WriteAIFunc.call asked
  generalize hasResponseRecived s.watchlist ogUid = q at hog hbackup ⊢
  obtain ⟨og, w⟩ := q
  dsimp only at hog hbackup ⊢
  generalize hasResponseRecived w backupUid = q' at hbackup ⊢
  obtain ⟨backup, w'⟩ := q'
  dsimp only at hbackup ⊢
  subst hog hbackup
  simp only [Bool.and_eq_true, decide_eq_true_eq]

/-- All that an evaluation of `WriteAIFunc` can do: both entries are `DONE` and it replies with a
success, or not both are, unless they are one entry, and the misses are counted. -/
theorem WriteAIFunc.call_cases (s : Master) (ogUid backupUid : ThreadSafeUID) :
    ∃ reply ret t, WriteAIFunc.call s ogUid backupUid = (reply, ret, t) ∧
      t.staticCounter = s.staticCounter ∧ t.pollers = s.pollers ∧
      (∀ key, IsDone t.watchlist key ↔ key ≠ backupUid.getUniqueCounter ∧
        key ≠ ogUid.getUniqueCounter ∧ IsDone s.watchlist key) ∧
      (reply = some .success ∧ ret = true ∧
          ogUid.getUniqueCounter ≠ backupUid.getUniqueCounter ∧
          IsDone s.watchlist ogUid.getUniqueCounter ∧
          IsDone s.watchlist backupUid.getUniqueCounter ∨
        ret = reply.isSome ∧ reply ≠ some .success ∧
          (ogUid.getUniqueCounter ≠ backupUid.getUniqueCounter →
            IsDone s.watchlist ogUid.getUniqueCounter →
            ¬ IsDone s.watchlist backupUid.getUniqueCounter)) := by
  have hdone := isDone_asked s.watchlist ogUid backupUid
  rw [call_eq]
  split
  · rename_i hboth
    obtain ⟨hog, hne, hbackup⟩ := hboth
    exact ⟨_, _, _, rfl, rfl, rfl, hdone, Or.inl ⟨rfl, rfl, hne.symm, hog, hbackup⟩⟩
  · rename_i hmissed
    obtain ⟨reply, t, hcount, hreply, hcounter, hwatch, hpollers⟩ :=
      countMisses_cases { s with watchlist := asked s.watchlist ogUid backupUid }
        (decide (IsDone s.watchlist ogUid.getUniqueCounter))
        (decide (backupUid.getUniqueCounter ≠ ogUid.getUniqueCounter ∧
          IsDone s.watchlist backupUid.getUniqueCounter))
    refine ⟨reply, _, t, hcount, hcounter, hpollers, ?_, Or.inr ⟨rfl, hreply, ?_⟩⟩
    · rw [hwatch]
      exact hdone
    · exact fun hne hog hbackup => hmissed ⟨hog, hne.symm, hbackup⟩

/-- An evaluation that does not count a fiftieth miss replies with a success or not at all. -/
theorem WriteAIFunc.call_of_not_givesUp {s : Master} {ogUid backupUid : ThreadSafeUID}
    (h : ¬ s.GivesUp (.writeAIFunc ogUid backupUid)) :
    (WriteAIFunc.call s ogUid backupUid).1 = none ∨
      (WriteAIFunc.call s ogUid backupUid).1 = some .success := by
  rw [call_eq]
  split
  · exact Or.inr rfl
  · rename_i hmissed
    left
    rw [countMisses, if_neg]
    intro hfull
    refine h ⟨hmissed, ?_⟩
    simpa only [decide_eq_false_iff_not, ite_not] using hfull

namespace Master

variable {s t : Master}

/-- All that an evaluation of a poller can do. -/
structure Evaluates (s : Master) (p : Poller) (t : Master) (reply : Option WriteReply)
    (ret : Bool) : Prop where
  mem : p ∈ s.pollers
  call : (p.call s).1 = reply
  counter : t.staticCounter = s.staticCounter
  pollers : t.pollers = if ret then s.pollers.erase p else s.pollers
  done : ∀ key, IsDone t.watchlist key ↔ key ∉ p.keys ∧ IsDone s.watchlist key
  read : ∀ uid, p = .readAIFunc uid → reply = none
  write : ∀ ogUid backupUid, p = .writeAIFunc ogUid backupUid → ret = reply.isSome
  success : reply = some .success → p.keys.Nodup ∧ ∀ key ∈ p.keys, IsDone s.watchlist key
  acknowledges : ∀ ogUid backupUid, p = .writeAIFunc ogUid backupUid →
    ogUid.getUniqueCounter ≠ backupUid.getUniqueCounter →
    IsDone s.watchlist ogUid.getUniqueCounter → IsDone s.watchlist backupUid.getUniqueCounter →
    reply = some .success

theorem Evaluates.ret_of_reply {p : Poller} {reply : Option WriteReply} {ret : Bool}
    (h : s.Evaluates p t reply ret) (hreply : reply.isSome = true) : ret = true := by
  cases p with
  | readAIFunc uid =>
      rw [h.read uid rfl] at hreply
      cases hreply
  | writeAIFunc ogUid backupUid => exact (h.write _ _ rfl).trans hreply

theorem Evaluates.mem_of_mem {p : Poller} {reply : Option WriteReply} {ret : Bool}
    (h : s.Evaluates p t reply ret) {q : Poller} (hq : q ∈ t.pollers) : q ∈ s.pollers := by
  rw [h.pollers] at hq
  split at hq
  · exact List.mem_of_mem_erase hq
  · exact hq

/-- An evaluation of a read leaves the pollers of writes alone. -/
theorem Evaluates.writePollers_read {uid : ThreadSafeUID} {reply : Option WriteReply} {ret : Bool}
    (h : s.Evaluates (.readAIFunc uid) t reply ret) : t.writePollers = s.writePollers := by
  unfold Master.writePollers
  rw [h.pollers]
  split
  · rw [← List.erase_filter, List.erase_of_not_mem]
    simp [Poller.isWrite]
  · rfl

/-- An evaluation of a write removes its poller if it replies. -/
theorem Evaluates.writePollers_write {ogUid backupUid : ThreadSafeUID} {reply : Option WriteReply}
    {ret : Bool} (h : s.Evaluates (.writeAIFunc ogUid backupUid) t reply ret) :
    .writeAIFunc ogUid backupUid ∈ s.writePollers ∧ t.writePollers =
      if reply.isSome then s.writePollers.erase (.writeAIFunc ogUid backupUid)
      else s.writePollers := by
  refine ⟨List.mem_filter.2 ⟨h.mem, rfl⟩, ?_⟩
  unfold Master.writePollers
  rw [h.pollers, h.write _ _ rfl]
  split
  · exact List.erase_filter.symm
  · rfl

/-- An evaluation that does not give up replies with a success or not at all. -/
theorem Evaluates.reply_of_not_givesUp {p : Poller} {reply : Option WriteReply} {ret : Bool}
    (h : s.Evaluates p t reply ret) (hgives : ¬ s.GivesUp p) :
    reply = none ∨ reply = some .success := by
  rw [← h.call]
  cases p with
  | readAIFunc uid => exact Or.inl rfl
  | writeAIFunc ogUid backupUid => exact WriteAIFunc.call_of_not_givesUp hgives

/-- An evaluation of `ReadAIFunc`. -/
theorem evaluates_read {uid : ThreadSafeUID} (hp : .readAIFunc uid ∈ s.pollers) {ret : Bool}
    {watchlist : Watchlist} (hcall : hasResponseRecived s.watchlist uid = (ret, watchlist)) :
    s.Evaluates (.readAIFunc uid)
      { s with
        watchlist
        pollers := if ret then s.pollers.erase (.readAIFunc uid) else s.pollers } none ret where
  mem := hp
  call := rfl
  counter := rfl
  pollers := rfl
  done key := by
    have hdone := isDone_hasResponseRecived s.watchlist uid key
    rw [hcall] at hdone
    simpa [Poller.keys, Poller.uids] using hdone
  read := fun _ _ => rfl
  write := nofun
  success := nofun
  acknowledges := nofun

/-- An evaluation of `WriteAIFunc`. -/
theorem evaluates_write {ogUid backupUid : ThreadSafeUID}
    (hp : .writeAIFunc ogUid backupUid ∈ s.pollers) {reply : Option WriteReply} {ret : Bool}
    (hcall : WriteAIFunc.call s ogUid backupUid = (reply, ret, t)) :
    s.Evaluates (.writeAIFunc ogUid backupUid)
      { t with
        pollers := if ret then t.pollers.erase (.writeAIFunc ogUid backupUid) else t.pollers }
      reply ret := by
  obtain ⟨_, _, _, hcall', hcounter, hpollers, hdone, hreply⟩ :=
    WriteAIFunc.call_cases s ogUid backupUid
  rw [hcall] at hcall'
  cases hcall'
  refine ⟨hp, congrArg Prod.fst hcall, hcounter, by rw [hpollers], ?_, nofun, ?_, ?_, ?_⟩
  · intro key
    rw [hdone]
    simp [Poller.keys, Poller.uids, and_assoc, and_left_comm]
  · intro _ _ _
    rcases hreply with ⟨hsuccess, hret, -⟩ | ⟨hret, -⟩
    · rw [hsuccess, hret]
      rfl
    · exact hret
  · intro hsuccess
    rcases hreply with ⟨-, -, hne, hog, hbackup⟩ | ⟨-, hnot, -⟩
    · refine ⟨by simpa [Poller.keys, Poller.uids] using hne, fun key hkey => ?_⟩
      have hkeys : key = ogUid.getUniqueCounter ∨ key = backupUid.getUniqueCounter := by
        simpa [Poller.keys, Poller.uids] using hkey
      rcases hkeys with rfl | rfl
      · exact hog
      · exact hbackup
    · exact absurd hsuccess hnot
  · intro og backup heq hne hog hbackup
    cases heq
    rcases hreply with ⟨hsuccess, -⟩ | ⟨-, -, hnot⟩
    · exact hsuccess
    · exact absurd hbackup (hnot hne hog)

theorem poll_cases {p : Poller} {e : Event} (h : s.poll p = some (t, e)) :
    ∃ reply ret, e = .evaluated p reply ret ∧ s.Evaluates p t reply ret := by
  unfold poll at h
  split at h
  · rename_i hp
    cases p with
    | readAIFunc uid =>
        cases h
        exact ⟨none, _, rfl, evaluates_read hp rfl⟩
    | writeAIFunc ogUid backupUid =>
        cases h
        exact ⟨_, _, rfl, evaluates_write hp rfl⟩
  · cases h

end Master

end IotDrive
