/-
What the watch-list holds.

An entry is made when a command registers a UID, when a response is received, and by the query for
either UID of a poller; and it is erased only by a query that finds it `DONE`.  A write that gives
up leaves the entries of the responses that it has missed, and a response that comes after its
command is finished makes an entry that nothing will erase.

Here a command registers its UIDs one by one, and then leaves its poller.

Main definitions:

* `Present` — there is an entry for a key;
* `Outstanding`, `Outstanding.step` — the master with the commands that are still executing;
* `Outstanding.liveKeys` — the keys of the outstanding commands;
* `Outstanding.CleansUp` — the condition on a step.

Main results:

* `Outstanding.run_of_step` — what a master does in one step is a run of this machine;
* `Poller.present_call`, `Poller.present_of_givesUp` — the entries after an evaluation;
* `Outstanding.OnlyLive.step` — what a step that cleans up preserves;
* `Outstanding.OnlyLive.cleansUp` — a step that does not clean up leaves a dead entry;
* `watchlist_live` — **live entries**, in every run of such steps;
* `entry_of_duplicateResponse` — a run after which an entry is left.
-/

import IotDrive.Master
import Mathlib.Data.Set.Card

set_option relaxedAutoImplicit false
set_option autoImplicit false

namespace IotDrive

open ResponseManeger

/-! ### Entries -/

/-- There is an entry for the key. -/
def Present (watchlist : Watchlist) (key : UInt32) : Prop := watchlist key ≠ none

variable {watchlist : Watchlist} {uid : ThreadSafeUID} {key : UInt32}

theorem present_registerCommand (h : Present (registerCommand watchlist uid) key) :
    key = uid.getUniqueCounter ∨ Present watchlist key := by
  by_cases hkey : key = uid.getUniqueCounter
  · exact Or.inl hkey
  · right
    rwa [Present, registerCommand, Function.update_of_ne hkey] at h

theorem present_registerResponse (h : Present (registerResponse watchlist uid) key) :
    key = uid.getUniqueCounter ∨ Present watchlist key := by
  by_cases hkey : key = uid.getUniqueCounter
  · exact Or.inl hkey
  · right
    rwa [Present, registerResponse, Function.update_of_ne hkey] at h

/-- A query leaves an entry for its own UID exactly if it returns false. -/
theorem present_hasResponseRecived (watchlist : Watchlist) (uid : ThreadSafeUID) (key : UInt32) :
    Present (hasResponseRecived watchlist uid).2 key ↔
      key = uid.getUniqueCounter ∧ (hasResponseRecived watchlist uid).1 = false ∨
        key ≠ uid.getUniqueCounter ∧ Present watchlist key := by
  by_cases hkey : key = uid.getUniqueCounter
  · subst hkey
    rcases hasResponseRecived_cases watchlist uid with ⟨-, h⟩ | ⟨-, h⟩ <;> simp [h, Present]
  · rcases hasResponseRecived_cases watchlist uid with ⟨-, h⟩ | ⟨-, h⟩ <;>
      simp [h, Present, hkey]

/-- The effects of a response make an entry for its UID at most, if it is a success. -/
theorem present_effects {r : Response}
    (h : Present (r.effects.foldl ResponseEffect.watch watchlist) key) :
    r.isSuccess = true ∧ key = r.uid.getUniqueCounter ∨ Present watchlist key := by
  cases r with
  | read uid isSuccess data =>
      cases isSuccess with
      | true => exact (present_registerResponse h).imp_left fun hkey => ⟨rfl, hkey⟩
      | false => exact Or.inr h
  | write uid isSuccess =>
      cases isSuccess with
      | true => exact (present_registerResponse h).imp_left fun hkey => ⟨rfl, hkey⟩
      | false => exact Or.inr h

/-! ### Evaluations -/

/-- After both queries there are the entries of those that returned false, and the others as
before. -/
theorem present_asked (watchlist : Watchlist) (ogUid backupUid : ThreadSafeUID) (key : UInt32) :
    Present (WriteAIFunc.asked watchlist ogUid backupUid) key ↔
      (key = backupUid.getUniqueCounter ∧ ¬ (backupUid.getUniqueCounter ≠ ogUid.getUniqueCounter ∧
          IsDone watchlist backupUid.getUniqueCounter)) ∨
        key ≠ backupUid.getUniqueCounter ∧
          (key = ogUid.getUniqueCounter ∧ ¬ IsDone watchlist ogUid.getUniqueCounter ∨
            key ≠ ogUid.getUniqueCounter ∧ Present watchlist key) := by
  rw [WriteAIFunc.asked, present_hasResponseRecived, present_hasResponseRecived,
    hasResponseRecived_fst, hasResponseRecived_fst]
  simp only [isDone_hasResponseRecived, decide_eq_false_iff_not]

/-- An evaluation of a write that does not give up leaves entries for its UIDs only if it returns
false, and makes no others. -/
theorem WriteAIFunc.present_call {s : Master} {ogUid backupUid : ThreadSafeUID}
    (hgives : ¬ s.GivesUp (.writeAIFunc ogUid backupUid))
    (h : Present (WriteAIFunc.call s ogUid backupUid).2.2.watchlist key) :
    (key = ogUid.getUniqueCounter ∨ key = backupUid.getUniqueCounter) ∧
        (WriteAIFunc.call s ogUid backupUid).2.1 = false ∨
      (key ≠ ogUid.getUniqueCounter ∧ key ≠ backupUid.getUniqueCounter) ∧
        Present s.watchlist key := by
  have hreply := WriteAIFunc.call_of_not_givesUp hgives
  rw [call_eq] at h hreply ⊢
  split at h
  · rename_i hboth
    rw [if_pos hboth]
    rcases (present_asked _ _ _ _).1 h with ⟨-, hmissed⟩ | ⟨hne, ⟨-, hmissed⟩ | ⟨hne', hs⟩⟩
    · exact absurd hboth.2 hmissed
    · exact absurd hboth.1 hmissed
    · exact Or.inr ⟨⟨hne', hne⟩, hs⟩
  · rename_i hmissed
    rw [if_neg hmissed] at hreply ⊢
    obtain ⟨reply, t, hcount, hnot, -, hwatch, -⟩ := WriteAIFunc.countMisses_cases
      { s with watchlist := asked s.watchlist ogUid backupUid }
      (decide (IsDone s.watchlist ogUid.getUniqueCounter))
      (decide (backupUid.getUniqueCounter ≠ ogUid.getUniqueCounter ∧
        IsDone s.watchlist backupUid.getUniqueCounter))
    rw [hcount] at h hreply ⊢
    obtain rfl : reply = none := hreply.resolve_right hnot
    dsimp only at h
    rw [hwatch] at h
    rcases (present_asked _ _ _ _).1 h with ⟨hkey, -⟩ | ⟨hne, ⟨hkey, -⟩ | ⟨hne', hs⟩⟩
    · exact Or.inl ⟨Or.inr hkey, rfl⟩
    · exact Or.inl ⟨Or.inl hkey, rfl⟩
    · exact Or.inr ⟨⟨hne', hne⟩, hs⟩

/-- An evaluation that does not give up leaves entries for the UIDs of its poller only if it returns
false, and makes no others. -/
theorem Poller.present_call {s : Master} {p : Poller} (hgives : ¬ s.GivesUp p)
    (h : Present (p.call s).2.2.watchlist key) :
    key ∈ p.keys ∧ (p.call s).2.1 = false ∨ key ∉ p.keys ∧ Present s.watchlist key := by
  cases p with
  | readAIFunc uid =>
      simp only [Poller.keys, Poller.uids, List.map_cons, List.map_nil, List.mem_singleton]
      exact (present_hasResponseRecived _ _ _).1 h
  | writeAIFunc ogUid backupUid =>
      simp only [Poller.keys, Poller.uids, List.map_cons, List.map_nil, List.mem_cons,
        List.not_mem_nil, or_false, not_or]
      exact WriteAIFunc.present_call hgives h

/-- An evaluation that gives up leaves an entry for a response that it has missed. -/
theorem Poller.present_of_givesUp {s : Master} {p : Poller} (hgives : s.GivesUp p) :
    (p.call s).2.1 = true ∧ ∃ key ∈ p.keys, Present (p.call s).2.2.watchlist key := by
  cases p with
  | readAIFunc uid => exact absurd hgives id
  | writeAIFunc ogUid backupUid =>
      obtain ⟨hmissed, hfull⟩ := hgives
      dsimp only [Poller.call]
      rw [WriteAIFunc.call_eq, if_neg hmissed, WriteAIFunc.countMisses,
        if_pos (by simpa only [decide_eq_false_iff_not, ite_not] using hfull)]
      refine ⟨rfl, ?_⟩
      by_cases hbackup : backupUid.getUniqueCounter ≠ ogUid.getUniqueCounter ∧
          IsDone s.watchlist backupUid.getUniqueCounter
      · have hog : ¬ IsDone s.watchlist ogUid.getUniqueCounter := fun hog => hmissed ⟨hog, hbackup⟩
        exact ⟨_, List.mem_cons_self,
          (present_asked _ _ _ _).2 (Or.inr ⟨hbackup.1.symm, Or.inl ⟨rfl, hog⟩⟩)⟩
      · exact ⟨_, List.mem_cons_of_mem _ List.mem_cons_self,
          (present_asked _ _ _ _).2 (Or.inl ⟨rfl, hbackup⟩)⟩

/-- What a transition takes from the evaluation. -/
theorem Master.watchlist_poll {s t : Master} {p : Poller} {reply : Option WriteReply} {ret : Bool}
    (h : s.poll p = some (t, .evaluated p reply ret)) :
    t.watchlist = (p.call s).2.2.watchlist ∧ ret = (p.call s).2.1 := by
  unfold Master.poll at h
  generalize p.call s = result at h ⊢
  simp only [Option.ite_none_right_eq_some] at h
  obtain ⟨-, heq⟩ := h
  cases heq
  exact ⟨rfl, rfl⟩

/-! ### Outstanding commands -/

/-- The master, and the UIDs that commands have registered which still execute. -/
structure Outstanding where
  master : Master
  registered : List ThreadSafeUID

/-- `schedule` is the end of a command: its poller is left with the scheduler. -/
inductive WatchAction
  | registerCommand (stamp : Stamp)
  | schedule (p : Poller)
  | newUID (stamp : Stamp)
  | receive (stamp : Stamp) (r : Response)
  | poll (p : Poller)
  deriving DecidableEq

namespace Outstanding

def start : Outstanding := { master := .start, registered := [] }

/-- The transitions. -/
def step (s : Outstanding) : WatchAction → Option Outstanding
  | .registerCommand stamp =>
      (s.master.registerCommand stamp).map fun (uid, master) =>
        { master, registered := uid :: s.registered }
  | .schedule p =>
      if ∀ uid ∈ p.uids, uid ∈ s.registered then
        some { master := { s.master with pollers := s.master.pollers ++ [p] }
               registered := s.registered.diff p.uids }
      else none
  | .newUID stamp => (s.master.newUID stamp).map fun (_, master) => { s with master }
  | .receive stamp r => (s.master.receive stamp r).map fun master => { s with master }
  | .poll p => (s.master.poll p).map fun (master, _) => { s with master }

/-- Registering a UID is a step. -/
theorem step_registerCommand {s t : Master} {stamp : Stamp} {uid : ThreadSafeUID}
    (h : s.registerCommand stamp = some (uid, t)) (registered : List ThreadSafeUID) :
    step ⟨s, registered⟩ (.registerCommand stamp) = some ⟨t, uid :: registered⟩ := by
  rw [step]
  dsimp only
  rw [h]
  rfl

/-- Constructing UIDs is a run. -/
theorem run_newUIDs {s t : Master} (gap : List Stamp) (h : Master.newUIDs gap s = some t)
    (registered : List ThreadSafeUID) :
    Transition.run step ⟨s, registered⟩ (gap.map .newUID) = some ⟨t, registered⟩ := by
  -- induction on the UIDs that other threads draw
  induction gap generalizing s with
  | nil =>
      cases h
      rfl
  | cons stamp rest ih =>
      obtain ⟨⟨uid, s'⟩, hnew, hrest⟩ := Option.bind_eq_some_iff.1 h
      refine Transition.run_cons_eq_some.2 ⟨⟨s', registered⟩, ?_, ih hrest⟩
      rw [step]
      dsimp only
      rw [hnew]
      rfl

/-- The end of a command whose UIDs are registered. -/
theorem step_schedule (s : Master) (registered : List ThreadSafeUID) (p : Poller)
    (h : ∀ uid ∈ p.uids, uid ∈ registered) : step ⟨s, registered⟩ (.schedule p) =
      some ⟨{ s with pollers := s.pollers ++ [p] }, registered.diff p.uids⟩ :=
  if_pos h

/-- What the master does in one step is a run here. -/
theorem run_of_step {s t : Master} {a : Master.Action} {out : List Event}
    (h : s.step a = some (t, out)) : ∃ actions,
      Transition.run step ⟨s, []⟩ actions = some ⟨t, []⟩ := by
  cases a with
  | execRead stamp =>
      obtain ⟨⟨uid, s'⟩, hexec, heq⟩ := Option.map_eq_some_iff.1 h
      cases heq
      obtain ⟨⟨uid', s₁⟩, hregister, heq⟩ := Option.bind_eq_some_iff.1 hexec
      cases heq
      refine ⟨[.registerCommand stamp, .schedule (.readAIFunc uid)], ?_⟩
      refine Transition.run_cons_eq_some.2 ⟨_, step_registerCommand hregister [], ?_⟩
      refine Transition.run_cons_eq_some.2 ⟨_, step_schedule s₁ [uid] _ ?_, ?_⟩
      · exact fun uid' huid' => huid'
      · simp [Poller.uids]
  | execWrite ogStamp gap backupStamp =>
      obtain ⟨⟨uids, s'⟩, hexec, heq⟩ := Option.map_eq_some_iff.1 h
      cases heq
      obtain ⟨⟨ogUid, s₁⟩, hog, hexec⟩ := Option.bind_eq_some_iff.1 hexec
      obtain ⟨s₂, hgap, hexec⟩ := Option.bind_eq_some_iff.1 hexec
      obtain ⟨⟨backupUid, s₃⟩, hbackup, heq⟩ := Option.bind_eq_some_iff.1 hexec
      cases heq
      refine ⟨.registerCommand ogStamp :: (gap.map .newUID ++ [.registerCommand backupStamp,
        .schedule (.writeAIFunc ogUid backupUid)]), ?_⟩
      refine Transition.run_cons_eq_some.2 ⟨_, step_registerCommand hog [], ?_⟩
      rw [Transition.run_append, run_newUIDs gap hgap]
      refine Transition.run_cons_eq_some.2 ⟨_, step_registerCommand hbackup [ogUid], ?_⟩
      refine Transition.run_cons_eq_some.2
        ⟨_, step_schedule s₃ [backupUid, ogUid] _ ?_, ?_⟩
      · intro uid huid
        simpa [Poller.uids, or_comm] using huid
      -- both UIDs are taken over, also if they are the same
      · have hdiff : [backupUid, ogUid].diff [ogUid, backupUid] = [] := by
          by_cases heq : backupUid = ogUid
          · subst heq
            simp
          · simp [List.diff_cons, heq]
        exact congrArg (fun regs => some (Outstanding.mk _ regs)) hdiff
  | newUID stamp =>
      obtain ⟨⟨uid, s'⟩, hnew, heq⟩ := Option.map_eq_some_iff.1 h
      cases heq
      exact ⟨[.newUID stamp], run_newUIDs [stamp] (by rw [Master.newUIDs, hnew]; rfl) []⟩
  | receive stamp r =>
      obtain ⟨s', hreceive, heq⟩ := Option.map_eq_some_iff.1 h
      cases heq
      refine ⟨[.receive stamp r], Transition.run_cons_eq_some.2 ⟨⟨t, []⟩, ?_, rfl⟩⟩
      exact Option.map_eq_some_iff.2 ⟨t, hreceive, rfl⟩
  | poll p =>
      obtain ⟨⟨s', e⟩, hpoll, heq⟩ := Option.map_eq_some_iff.1 h
      cases heq
      refine ⟨[.poll p], Transition.run_cons_eq_some.2 ⟨⟨t, []⟩, ?_, rfl⟩⟩
      exact Option.map_eq_some_iff.2 ⟨(t, e), hpoll, rfl⟩

/-- The keys of the UIDs of all commands whose poller has not returned true. -/
def liveKeys (s : Outstanding) : List UInt32 :=
  s.registered.map ThreadSafeUID.getUniqueCounter ++ s.master.pollers.flatMap Poller.keys

/-- Every entry is that of a command whose poller has not returned true. -/
def OnlyLive (s : Outstanding) : Prop := ∀ key, Present s.master.watchlist key → key ∈ s.liveKeys

/-- The step does not give up a write, and registers no response to a command that is finished. -/
def CleansUp (s : Outstanding) : WatchAction → Prop
  | .receive _ r => r.isSuccess = true → r.uid.getUniqueCounter ∈ s.liveKeys
  | .poll p => ¬ s.master.GivesUp p
  | _ => True

instance (s : Outstanding) : ∀ a, Decidable (s.CleansUp a)
  | .receive _ _ => inferInstanceAs (Decidable (_ → _))
  | .poll _ => inferInstanceAs (Decidable (¬ _))
  | .registerCommand _ | .schedule _ | .newUID _ => instDecidableTrue

variable {s t : Outstanding}

theorem mem_liveKeys {key : UInt32} : key ∈ s.liveKeys ↔
    (∃ uid ∈ s.registered, uid.getUniqueCounter = key) ∨
      ∃ p ∈ s.master.pollers, key ∈ p.keys := by
  rw [liveKeys, List.mem_append, List.mem_map, List.mem_flatMap]

/-- A command that registers a UID keeps its entry alive. -/
theorem OnlyLive.registerCommand (h : s.OnlyLive) {stamp : Stamp} {uid : ThreadSafeUID}
    {master : Master} (hregister : s.master.registerCommand stamp = some (uid, master)) :
    OnlyLive { master, registered := uid :: s.registered } := by
  obtain ⟨-, rfl⟩ := Master.registerCommand_eq_some hregister
  intro key hkey
  rw [mem_liveKeys]
  rcases present_registerCommand hkey with rfl | hkey
  · exact Or.inl ⟨uid, List.mem_cons_self, rfl⟩
  · refine (mem_liveKeys.1 (h key hkey)).imp_left ?_
    rintro ⟨uid', huid', hkey'⟩
    exact ⟨uid', List.mem_cons_of_mem uid huid', hkey'⟩

/-- The poller of a command takes over its UIDs. -/
theorem OnlyLive.schedule (h : s.OnlyLive) (p : Poller) :
    OnlyLive { master := { s.master with pollers := s.master.pollers ++ [p] }
               registered := s.registered.diff p.uids } := by
  intro key hkey
  rw [mem_liveKeys]
  rcases mem_liveKeys.1 (h key hkey) with ⟨uid, huid, rfl⟩ | ⟨q, hq, hkeys⟩
  · by_cases hmem : uid ∈ p.uids
    · exact Or.inr ⟨p, List.mem_append_right _ List.mem_cons_self, List.mem_map_of_mem hmem⟩
    · exact Or.inl ⟨uid, List.mem_diff_of_mem huid hmem, rfl⟩
  · exact Or.inr ⟨q, List.mem_append_left _ hq, hkeys⟩

/-- A response to a command that is not finished makes no other entry. -/
theorem OnlyLive.receive (h : s.OnlyLive) {stamp : Stamp} {r : Response} {master : Master}
    (hlive : r.isSuccess = true → r.uid.getUniqueCounter ∈ s.liveKeys)
    (hreceive : s.master.receive stamp r = some master) : OnlyLive { s with master } := by
  obtain ⟨⟨uid, master'⟩, hnew, rfl⟩ := Option.map_eq_some_iff.1 hreceive
  obtain ⟨-, rfl⟩ := Master.newUID_eq_some hnew
  intro key hkey
  rcases present_effects hkey with ⟨hsuccess, rfl⟩ | hkey
  · exact hlive hsuccess
  · exact h key hkey

/-- An evaluation that does not give up leaves entries of other commands, and of its own if it is
to be evaluated again. -/
theorem OnlyLive.poll (h : s.OnlyLive) {p : Poller} (hgives : ¬ s.master.GivesUp p)
    {master : Master} {e : Event} (hpoll : s.master.poll p = some (master, e)) :
    OnlyLive { s with master } := by
  obtain ⟨reply, ret, rfl, heval⟩ := Master.poll_cases hpoll
  obtain ⟨hwatch, rfl⟩ := Master.watchlist_poll hpoll
  intro key hkey
  dsimp only at hkey
  rw [hwatch] at hkey
  rw [mem_liveKeys]
  dsimp only
  rw [heval.pollers]
  rcases p.present_call hgives hkey with ⟨hmem, hret⟩ | ⟨hnot, hkey⟩
  -- an entry of this poller is left only if it is evaluated again
  · rw [hret]
    exact Or.inr ⟨p, heval.mem, hmem⟩
  -- and any other entry belongs to a command that this evaluation does not end
  · refine (mem_liveKeys.1 (h key hkey)).imp_right ?_
    rintro ⟨q, hq, hkeys⟩
    refine ⟨q, ?_, hkeys⟩
    split
    · have hne : q ≠ p := fun hqp => hnot (hqp ▸ hkeys)
      exact (List.mem_erase_of_ne hne).2 hq
    · exact hq

/-- A step that cleans up leaves only live entries. -/
theorem OnlyLive.step (h : s.OnlyLive) {a : WatchAction} (hC : s.CleansUp a)
    (hstep : s.step a = some t) : t.OnlyLive := by
  cases a with
  | registerCommand stamp =>
      obtain ⟨⟨uid, master⟩, hregister, rfl⟩ := Option.map_eq_some_iff.1 hstep
      exact h.registerCommand hregister
  | schedule p =>
      simp only [Outstanding.step, Option.ite_none_right_eq_some] at hstep
      obtain ⟨-, heq⟩ := hstep
      cases heq
      exact h.schedule p
  | newUID stamp =>
      obtain ⟨⟨uid, master⟩, hnew, rfl⟩ := Option.map_eq_some_iff.1 hstep
      obtain ⟨-, rfl⟩ := Master.newUID_eq_some hnew
      exact h
  | receive stamp r =>
      obtain ⟨master, hreceive, rfl⟩ := Option.map_eq_some_iff.1 hstep
      exact h.receive hC hreceive
  | poll p =>
      obtain ⟨⟨master, e⟩, hpoll, rfl⟩ := Option.map_eq_some_iff.1 hstep
      exact h.poll hC hpoll

/-- Without a UID that two commands share, only the steps that clean up leave only live entries. -/
theorem OnlyLive.cleansUp {a : WatchAction} (hstep : s.step a = some t) (h : t.OnlyLive)
    (hfresh : ∀ p, a = .poll p → ∀ key ∈ p.keys,
      (∀ uid ∈ s.registered, uid.getUniqueCounter ≠ key) ∧
        ∀ q ∈ s.master.pollers.erase p, key ∉ q.keys) : s.CleansUp a := by
  cases a with
  | registerCommand stamp => trivial
  | schedule p => trivial
  | newUID stamp => trivial
  | receive stamp r =>
      intro hsuccess
      obtain ⟨master, hreceive, rfl⟩ := Option.map_eq_some_iff.1 hstep
      obtain ⟨-, hpollers, hdone⟩ := Master.receive_eq_some hreceive
      have hentry := (hdone r.uid.getUniqueCounter).2 (Or.inr ⟨hsuccess, rfl⟩)
      have hlive := h r.uid.getUniqueCounter (Option.ne_none_iff_exists'.2 ⟨_, hentry⟩)
      rw [mem_liveKeys] at hlive ⊢
      dsimp only at hlive
      rwa [hpollers] at hlive
  | poll p =>
      intro hgives
      obtain ⟨⟨master, e⟩, hpoll, rfl⟩ := Option.map_eq_some_iff.1 hstep
      obtain ⟨reply, ret, rfl, heval⟩ := Master.poll_cases hpoll
      obtain ⟨hwatch, rfl⟩ := Master.watchlist_poll hpoll
      obtain ⟨hret, key, hmem, hentry⟩ := p.present_of_givesUp hgives
      obtain ⟨hregistered, hothers⟩ := hfresh p rfl key hmem
      have hpollers := heval.pollers
      rw [if_pos hret] at hpollers
      have hlive := h key (by rw [hwatch]; exact hentry)
      rw [mem_liveKeys] at hlive
      rcases hlive with ⟨uid, huid, hkey⟩ | ⟨q, hq, hkey⟩
      · exact hregistered uid huid hkey
      · rw [hpollers] at hq
        exact hothers q hq hkey

/-- If there are only live entries, then there are not more of them than live UIDs. -/
theorem OnlyLive.ncard_le (h : s.OnlyLive) :
    {key | Present s.master.watchlist key}.ncard ≤ s.liveKeys.length := by
  have hsubset : {key | Present s.master.watchlist key} ⊆ (s.liveKeys.toFinset : Set UInt32) := by
    intro key hkey
    exact List.mem_toFinset.2 (h key hkey)
  calc {key | Present s.master.watchlist key}.ncard
      ≤ (s.liveKeys.toFinset : Set UInt32).ncard :=
        Set.ncard_le_ncard hsubset (Finset.finite_toSet _)
    _ = s.liveKeys.toFinset.card := Set.ncard_coe_finset _
    _ ≤ s.liveKeys.length := List.toFinset_card_le _

end Outstanding

/-- **Live entries.** In every run in which no write is given up and no success is received for a
UID that no outstanding command has registered, every entry of the watch-list belongs to a command
whose poller has not returned true, and there are not more entries than these commands have UIDs. -/
theorem watchlist_live (actions : List WatchAction) {s : Outstanding}
    (hC : Transition.Along Outstanding.step Outstanding.CleansUp Outstanding.start actions)
    (hrun : Transition.run Outstanding.step Outstanding.start actions = some s) :
    (∀ key, Present s.master.watchlist key → key ∈ s.liveKeys) ∧
      {key | Present s.master.watchlist key}.ncard ≤ s.liveKeys.length := by
  have hstart : Outstanding.start.OnlyLive := fun key hkey => absurd rfl hkey
  have hlive : s.OnlyLive := Transition.run_invariant_along Outstanding.OnlyLive
    (fun _ _ _ h hC hstep => h.step hC hstep) hstart hC hrun
  exact ⟨hlive, hlive.ncard_le⟩

/-- A read whose poller finds the response. -/
def answeredRead : List WatchAction :=
  [.registerCommand ⟨0, 0⟩, .schedule (.readAIFunc (nthUid 1)), .poll (.readAIFunc (nthUid 1)),
    .receive ⟨0, 0⟩ (.read (nthUid 1) true [7]), .poll (.readAIFunc (nthUid 1))]

theorem watchlist_live_answeredRead : ∃ s,
    Transition.run Outstanding.step Outstanding.start answeredRead = some s ∧
      s.liveKeys = [] ∧ ∀ key, ¬ Present s.master.watchlist key := by
  refine ⟨_, rfl, rfl, ?_⟩
  have hlive := watchlist_live answeredRead (by decide) rfl
  exact fun key hkey => absurd (hlive.1 key hkey) List.not_mem_nil

/-- The same read, whose response is received once more after its poller has returned true. -/
def duplicateResponse : List WatchAction :=
  answeredRead ++ [.receive ⟨0, 0⟩ (.read (nthUid 1) true [7])]

/-- The second response makes an entry that belongs to no command. -/
theorem entry_of_duplicateResponse : ∃ s,
    Transition.run Outstanding.step Outstanding.start duplicateResponse = some s ∧
      ¬ s.OnlyLive := by
  refine ⟨_, rfl, ?_⟩
  intro hlive
  have hmem := hlive 1 (Option.ne_none_iff_exists'.2 ⟨.done, rfl⟩)
  exact absurd hmem List.not_mem_nil

end IotDrive
