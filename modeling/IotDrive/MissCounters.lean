/-
The two counters of missing responses that all writes share.

`WriteAIFunc` counts an evaluation that does not find the response of a replica, and gives the write
up when a counter reaches 50.  The counters are static: they count the misses of all writes, a
success does not reset them, and a failure resets them for all.  As long as evaluations do not
overlap, every evaluation that does not return true makes one of them larger, and none of them
passes 50; two that overlap can carry both past it.

Main definitions:

* `sinceFailure`, `misses` — the evaluations since the last failure reply, and how many of them have
  missed a response;
* `OwnMisses` — a write is given up for its own misses;
* `Polling.Alone` — the condition on a step.

Main results:

* `Counted.step` — the counters count the misses since the last failure reply;
* `failure_for_own_misses` — **whose misses** a failure reply is for, when a counter that fills up
  has counted only these;
* `write_polling_ends` — **polling ends** after at most 99 evaluations, when none of them overlap;
* `counters_jump_over` — a run in which it does not.
-/

import IotDrive.Evaluations
import IotDrive.WriteAcks
import Mathlib.Data.List.Flatten

set_option relaxedAutoImplicit false
set_option autoImplicit false

namespace IotDrive

open ResponseManeger History
open WriteAIFunc (Frame)

/-! ### What the counters count -/

/-- The write was given up. -/
def Evaluation.failed (e : Evaluation) : Bool :=
  e.reply == some .couldntWriteOg || e.reply == some .couldntWriteBackup

/-- The evaluations since the last failure reply. -/
def sinceFailure (history : List Evaluation) : List Evaluation :=
  history.takeWhile fun e => !e.failed

theorem sinceFailure_cons {e : Evaluation} {history : List Evaluation} :
    sinceFailure (e :: history) = if e.failed then [] else e :: sinceFailure history := by
  cases h : e.failed <;> simp [sinceFailure, h]

/-- How many of these evaluations have missed the response of the replica. -/
def misses (history : List Evaluation) (r : Replica) : ℕ :=
  (sinceFailure history).countP fun e => !e.sees r

variable {s t : Polling} {a : Polling.Action} {history past out : List Evaluation}

theorem misses_cons {e : Evaluation} (he : e.failed = false) (r : Replica) :
    misses (e :: history) r = countsTo (misses history) e.sees r := by
  rw [misses, sinceFailure_cons, he]
  cases hsees : e.sees r <;> simp [countsTo, misses, hsees]

theorem misses_cons_failed {e : Evaluation} (he : e.failed = true) (r : Replica) :
    misses (e :: history) r = 0 := by
  rw [misses, sinceFailure_cons, he]
  rfl

/-- An evaluation that counts as a whole keeps the count. -/
theorem Counts.eq_misses {e : Evaluation} {c' : Replica → ℕ}
    (h : Counts (misses history) e.sees e.reply e.ret c') (hless : ∀ r, misses history r < 50)
    (r : Replica) : c' r = misses (e :: history) r ∧ c' r < 50 := by
  generalize hreply : e.reply = reply at h
  generalize e.ret = ret at h
  cases h with
  | success hsees =>
      have he : e.failed = false := by
        rw [Evaluation.failed, hreply]
        rfl
      rw [misses_cons he, countsTo, hsees]
      exact ⟨rfl, hless r⟩
  | failure r' hnames hzero =>
      have he : e.failed = true := by
        rw [Evaluation.failed, hreply]
        cases r' <;> rfl
      rw [misses_cons_failed he, hzero]
      exact ⟨rfl, by decide⟩
  | missed hmissed hne hcounter =>
      have he : e.failed = false := by
        rw [Evaluation.failed, hreply]
        rfl
      rw [misses_cons he, hcounter]
      refine ⟨rfl, ?_⟩
      have hlt := hless r
      have hne := hne r
      have hle : (!e.sees r).toNat ≤ 1 := Bool.toNat_le _
      unfold countsTo at hne ⊢
      omega

namespace Polling

/-- At most one evaluation is under way, and when it began the counters were the numbers of misses
since the last failure reply, both below 50. -/
structure Counted (s : Polling) (history : List Evaluation) : Prop where
  counting : Counting (misses history) s
  less : ∀ r, misses history r < 50

theorem counted_start : Counted start [] :=
  ⟨.idle rfl fun r => by cases r <;> rfl, fun _ => Nat.zero_lt_succ 49⟩

/-- Every step without overlap keeps the count. -/
theorem Counted.step (h : Counted s history) (hC : s.Separate a) (hstep : s.step a = some (t, out)) :
    Counted t (out ++ history) := by
  rcases h.counting.step hC hstep with ⟨rfl, hcounting, -⟩ | ⟨e, rfl, hcounts, hframes, -⟩
  · exact ⟨hcounting, h.less⟩
  · have hmissed := hcounts.eq_misses h.less
    refine ⟨.idle hframes fun r => (hmissed r).1, fun r => ?_⟩
    have hless := (hmissed r).2
    rwa [(hmissed r).1] at hless

theorem Counted.counter (h : Counted s history) (hframes : s.frames = []) (r : Replica) :
    s.master.counter r < 50 := by
  cases h.counting with
  | idle _ hcounter =>
      rw [hcounter]
      exact h.less r
  | evaluating f hf _ =>
      rw [hframes] at hf
      cases hf

theorem counted_run {actions : List Action}
    (hC : Transition.Along (logged step) (fun s a => s.1.Separate a) (start, []) actions)
    (hrun : Transition.run (logged step) (start, []) actions = some (s, history)) :
    Counted s history :=
  invariant_along (fun s _ a => s.Separate a) (fun _ _ _ _ _ h hC hstep => h.step hC hstep)
    counted_start hC hrun

/-- The evaluations under way are those of before and the one that begins. -/
theorem frames_step (hstep : s.step a = some (t, out)) {f : Frame} (hf : f ∈ t.frames) :
    (∃ f' ∈ s.frames, f'.poller = f.poller) ∨
      ∃ ogUid backupUid, a = .enter ogUid backupUid ∧ f.poller = .writeAIFunc ogUid backupUid := by
  cases step_cases hstep with
  | master hb hmaster => exact .inl ⟨f, hf, rfl⟩
  | enter hcount =>
      rcases List.mem_append.1 hf with hf | hf
      · exact .inl ⟨f, hf, rfl⟩
      · obtain rfl := List.mem_singleton.1 hf
        exact .inr ⟨_, _, rfl, rfl⟩
  | next hi hnext =>
      rcases List.mem_or_eq_of_mem_set hf with hf | rfl
      · exact .inl ⟨f, hf, rfl⟩
      · exact .inl ⟨_, List.mem_of_getElem? hi, (rank_next hnext).1.symm⟩
  | returns hi hnext => exact .inl ⟨f, List.mem_of_mem_eraseIdx hf, rfl⟩

/-! ### Polling ends -/

/-- Since some moment, only the poller has been evaluated.  Either an evaluation of it has returned
true, or it is still there and the counters have counted each of its evaluations. -/
structure Polled (p : Poller) (past : List Evaluation) (s : Polling) (out : List Evaluation) :
    Prop where
  counted : Counted s (out ++ past)
  only : ∀ f ∈ s.frames, f.poller = p
  ends : (∃ e ∈ out, e.poller = p ∧ e.ret = true) ∨
    p ∈ s.master.pollers ∧
      out.countP (·.poller = p) ≤ misses (out ++ past) .og + misses (out ++ past) .backup

theorem Polled.step {p : Poller} (hp : p.isWrite = true) (h : Polled p past s history)
    (hC : s.Separate a) (honly : ∀ ogUid backupUid, a = .enter ogUid backupUid →
      .writeAIFunc ogUid backupUid = p) (hstep : s.step a = some (t, out)) :
    Polled p past t (out ++ history) := by
  have hcounted : Counted t (out ++ history ++ past) := by
    rw [List.append_assoc]
    exact h.counted.step hC hstep
  refine ⟨hcounted, ?_, ?_⟩
  · intro f hf
    rcases frames_step hstep hf with ⟨f', hf', hpoller⟩ | ⟨ogUid, backupUid, rfl, hpoller⟩
    · exact hpoller.symm.trans (h.only f' hf')
    · exact hpoller.trans (honly _ _ rfl)
  · rcases h.ends with ⟨e, he, hreturned⟩ | ⟨hmem, hcount⟩
    · exact .inl ⟨e, List.mem_append_right _ he, hreturned⟩
    · rcases h.counted.counting.step hC hstep with
        ⟨rfl, -, hkept⟩ | ⟨e, rfl, hcounts, -, ⟨f, hf, hpoller⟩, hpollers⟩
      · exact .inr ⟨hkept p hmem hp, hcount⟩
      · have hown : e.poller = p :=
          hpoller.trans (h.only f (by rw [hf]; exact List.mem_singleton_self f))
        cases hret : e.ret with
        | true => exact .inl ⟨e, List.mem_cons_self, hown, hret⟩
        | false =>
            refine .inr ⟨by rw [hpollers, hret]; exact hmem, ?_⟩
            change (e :: history).countP _ ≤
              misses (e :: (history ++ past)) .og + misses (e :: (history ++ past)) .backup
            rw [hret] at hcounts
            generalize hreply : e.reply = reply at hcounts
            cases hcounts with
            | missed hmissed _ _ =>
                have he : e.failed = false := by
                  rw [Evaluation.failed, hreply]
                  rfl
                -- one of the counters counts this evaluation
                have hone : 1 ≤ (!e.sees .og).toNat + (!e.sees .backup).toNat := by
                  obtain ⟨r, hr⟩ := hmissed
                  cases r <;> simp [hr]
                rw [misses_cons he, misses_cons he, List.countP_cons_of_pos (by simpa using hown)]
                unfold countsTo
                omega

end Polling

/-- The polling of a write ends.  Suppose that no evaluation begins while another one is under way, and
that from some moment between two of them on no other write is evaluated.  Then both counters are
below 50 whenever no evaluation is under way, an evaluation that is under way returns after at most
eleven accesses, and either an evaluation of this write has returned true or it has been evaluated at
most 98 times and can be evaluated once more. -/
theorem write_polling_ends (earlier actions : List Polling.Action) {p : Poller}
    (hearlier : Transition.Along (logged Polling.step) (fun s a => s.1.Separate a)
      (Polling.start, []) earlier)
    (hreach : Transition.run (logged Polling.step) (Polling.start, []) earlier = some (s, past))
    (hp : p ∈ s.master.writePollers) (hidle : s.frames = [])
    (honly : ∀ ogUid backupUid, .enter ogUid backupUid ∈ actions →
      .writeAIFunc ogUid backupUid = p)
    (hseparate : Transition.Along (logged Polling.step) (fun s a => s.1.Separate a) (s, []) actions)
    (hrun : Transition.run (logged Polling.step) (s, []) actions = some (t, out)) :
    (t.frames = [] → ∀ r, t.master.counter r < 50) ∧
      (∀ i f, t.frames[i]? = some f → ∃ k ≤ 11, ∃ u e,
        Transition.run (logged Polling.step) (t, out) (List.replicate k (.next i)) =
          some (u, e :: out) ∧ e.poller = f.poller) ∧
      ((∃ e ∈ out, e.poller = p ∧ e.ret = true) ∨
        p ∈ t.master.pollers ∧ out.countP (·.poller = p) ≤ 98) := by
  obtain ⟨hmem, hwrite⟩ := List.mem_filter.1 hp
  let C : Polling → Polling.Action → Prop := fun s a =>
    s.Separate a ∧ ∀ ogUid backupUid, a = .enter ogUid backupUid → .writeAIFunc ogUid backupUid = p
  have hstart : Polling.Polled p past s [] :=
    ⟨Polling.counted_run hearlier hreach, by simp [hidle], .inr ⟨hmem, Nat.zero_le _⟩⟩
  have hC : Transition.Along (logged Polling.step) (fun s a => C s.1 a) (s, []) actions := by
    refine Transition.along_and hseparate (Transition.along_of_forall ?_ _)
    rintro a ha - ogUid backupUid rfl
    exact honly ogUid backupUid ha
  have hpolled : Polling.Polled p past t out :=
    invariant_along (fun s _ a => C s a) (fun _ _ _ _ _ h hC hstep => h.step hwrite hC.1 hC.2 hstep)
      hstart hC hrun
  refine ⟨fun hframes => hpolled.counted.counter hframes, ?_, ?_⟩
  · intro i f hf
    obtain ⟨k, hk, u, e, hreturn, hpoller, -⟩ := Polling.run_return hf out
    exact ⟨k, hk, u, e, hreturn, hpoller⟩
  · rcases hpolled.ends with hreturned | ⟨hheld, hcount⟩
    · exact .inl hreturned
    · have hog := hpolled.counted.less .og
      have hbackup := hpolled.counted.less .backup
      exact .inr ⟨hheld, by omega⟩

/-- Evaluations that find neither response and do not give up. -/
def missBoth (n : ℕ) (ogUid backupUid : ThreadSafeUID) : List Polling.Action :=
  (List.replicate n (.enter ogUid backupUid :: List.replicate 8 (.next 0))).flatten

/-- A write that is evaluated 49 times before its responses come and then succeeds, and another
one. -/
def secondWriteRun : List Polling.Action :=
  List.flatten [[.master (.execWrite ⟨0, 0⟩ [] ⟨0, 0⟩)], missBoth 49 (nthUid 1) (nthUid 2),
    [.master (.receive ⟨0, 0⟩ (.write (nthUid 1) true)),
      .master (.receive ⟨0, 0⟩ (.write (nthUid 2) true)),
      .enter (nthUid 1) (nthUid 2), .next 0, .next 0, .master (.execWrite ⟨0, 0⟩ [] ⟨0, 0⟩)]]

/-- The second write starts with counters of 49. -/
theorem write_polling_ends_secondWrite :
    ∃ s ∈ Transition.run (logged Polling.step) (Polling.start, []) secondWriteRun,
      s.1.master.counter .og = 49 ∧ s.1.frames = [] ∧
      ∃ t ∈ Transition.run (logged Polling.step) (s.1, [])
          (.enter (nthUid 5) (nthUid 6) :: List.replicate 10 (.next 0)),
        (t.1.frames = [] → ∀ r, t.1.master.counter r < 50) ∧
        ∃ e ∈ t.2, e.poller = .writeAIFunc (nthUid 5) (nthUid 6) ∧ e.ret = true := by
  have hruns : Transition.Along (logged Polling.step) (fun s a => s.1.Separate a)
        (Polling.start, []) secondWriteRun ∧
      ∃ s ∈ Transition.run (logged Polling.step) (Polling.start, []) secondWriteRun,
        s.1.master.counter .og = 49 ∧ s.1.frames = [] ∧
        .writeAIFunc (nthUid 5) (nthUid 6) ∈ s.1.master.writePollers ∧
        Transition.Along (logged Polling.step) (fun s a => s.1.Separate a) (s.1, [])
          (.enter (nthUid 5) (nthUid 6) :: List.replicate 10 (.next 0)) ∧
        ∃ t ∈ Transition.run (logged Polling.step) (s.1, [])
            (.enter (nthUid 5) (nthUid 6) :: List.replicate 10 (.next 0)),
          .writeAIFunc (nthUid 5) (nthUid 6) ∉ t.1.master.pollers := by
    decide +kernel
  obtain ⟨hearlier, s, hs, hcounter, hidle, hp, hseparate, t, ht, hgone⟩ := hruns
  obtain ⟨hless, -, hends⟩ := write_polling_ends secondWriteRun
    (.enter (nthUid 5) (nthUid 6) :: List.replicate 10 (.next 0)) hearlier hs hp hidle
    (by simp) hseparate ht
  exact ⟨s, hs, hcounter, hidle, t, ht, hless, hends.resolve_right fun hleft => hgone hleft.1⟩

/-- Two writes, one of which is evaluated 49 times; then their evaluations overlap, so that both have
counted before either of them tests the counters. -/
def overlapRun : List Polling.Action :=
  List.flatten [[.master (.execWrite ⟨0, 0⟩ [] ⟨0, 0⟩), .master (.execWrite ⟨0, 0⟩ [] ⟨0, 0⟩)],
    missBoth 49 (nthUid 1) (nthUid 2),
    [.enter (nthUid 1) (nthUid 2), .enter (nthUid 3) (nthUid 4)],
    List.replicate 4 (.next 0), List.replicate 4 (.next 1),
    List.replicate 2 (.next 0), List.replicate 2 (.next 1), List.replicate 4 (.next 0)]

/-- Both counters have jumped over 50, and 99 evaluations of the first write return false. -/
theorem counters_jump_over :
    ∃ s ∈ Transition.run (logged Polling.step) (Polling.start, []) overlapRun,
      s.1.frames = [] ∧ (∀ r, s.1.master.counter r = 51) ∧
      .writeAIFunc (nthUid 1) (nthUid 2) ∈ s.1.master.writePollers ∧
      ∃ t ∈ Transition.run (logged Polling.step) (s.1, [])
          (missBoth 99 (nthUid 1) (nthUid 2)),
        t.2.countP (·.poller = .writeAIFunc (nthUid 1) (nthUid 2)) = 99 ∧
        ∀ e ∈ t.2, e.ret = false := by
  decide +kernel

/-! ### Whose misses -/

/-- If the write was given up, then it has been evaluated at least 50 times, and has never found the
response of the replica that the reply names. -/
def OwnMisses (past : List Evaluation) (e : Evaluation) : Prop :=
  ∀ r : Replica, e.reply = some r.failure →
    50 ≤ (e :: past).countP (·.poller = e.poller) ∧
      ∀ e' ∈ e :: past, e'.poller = e.poller → e'.sees r = false

instance (past : List Evaluation) (e : Evaluation) : Decidable (OwnMisses past e) :=
  inferInstanceAs (Decidable (∀ _ : Replica, _))

/-- The keys whose entries a step of the master other than an evaluation makes `DONE`. -/
def Master.doneKeys : Master.Action → List UInt32
  | .receive _ r => if r.isSuccess then [r.uid.getUniqueCounter] else []
  | _ => []

namespace Polling

/-- The replica that a failure reply would name. -/
def named (s : Polling) : Replica := if s.master.ogCounter = 50 then .og else .backup

/-- The keys that the step registers are in use nowhere, nor were they in an evaluation before; and it
is no response to the second question of an evaluation that has asked the first one. -/
def Undisturbed (s : Polling) (history : List Evaluation) (a : Master.Action) : Prop :=
  (s.master.newKeys a).Nodup ∧
    (∀ key ∈ s.master.newKeys a, key ∉ s.master.liveKeys ∧ ∀ e ∈ history, key ∉ e.poller.keys) ∧
    ∀ f ∈ s.frames, f.place = .askBackup → f.backupUid.getUniqueCounter ∉ Master.doneKeys a

/-- An evaluation begins to ask for the responses when both are there or none is, and gives its write
up when the counter of the replica has counted only misses of this write. -/
def Undivided (s : Polling) (history : List Evaluation) (f : Frame) : WriteAIFunc.Place → Prop
  | .askOg =>
      IsDone s.master.watchlist f.ogUid.getUniqueCounter ↔
        IsDone s.master.watchlist f.backupUid.getUniqueCounter
  | .chooseReply => ∀ e ∈ sinceFailure history, e.sees s.named = false → e.poller = f.poller
  | _ => True

/-- A write that is evaluated is alone with the counters and the watch-list. -/
def Alone (s : Polling) (history : List Evaluation) : Action → Prop
  | .master a => s.Undisturbed history a
  | .enter _ _ => s.frames = []
  | .next i => ∀ f ∈ s.frames[i]?, s.Undivided history f f.place

instance (s : Polling) (history : List Evaluation) (a : Master.Action) :
    Decidable (s.Undisturbed history a) :=
  have : Decidable (∀ key ∈ s.master.newKeys a,
      key ∉ s.master.liveKeys ∧ ∀ e ∈ history, key ∉ e.poller.keys) := List.decidableBAll _ _
  inferInstanceAs (Decidable (_ ∧ _ ∧ _))

instance (s : Polling) (history : List Evaluation) (f : Frame) :
    DecidablePred (s.Undivided history f)
  | .askOg => inferInstanceAs (Decidable (_ ↔ _))
  | .chooseReply => inferInstanceAs (Decidable (∀ e ∈ sinceFailure history, _))
  | .askBackup | .loadOg | .storeOg _ | .loadBackup | .storeBackup _ | .testOg | .testBackup
  | .resetOg _ | .resetBackup _ => instDecidableTrue

instance (s : Polling) (history : List Evaluation) : DecidablePred (s.Alone history)
  | .master a => inferInstanceAs (Decidable (s.Undisturbed history a))
  | .enter _ _ => inferInstanceAs (Decidable (_ = _))
  | .next i => inferInstanceAs (Decidable (∀ f ∈ s.frames[i]?, s.Undivided history f f.place))

theorem Alone.separate (h : s.Alone history a) : s.Separate a := by
  cases a with
  | enter ogUid backupUid => exact h
  | master b => trivial
  | next i => trivial

end Polling

/-- What an evaluation has found so far, and whose misses its failure reply is for. -/
def WriteAIFunc.Frame.Own (s : Master) (history : List Evaluation) (f : Frame) : Prop :=
  match f.place with
  | .askOg => True
  | .askBackup => f.og = true ↔ IsDone s.watchlist f.backupUid.getUniqueCounter
  | .resetOg reply | .resetBackup reply =>
      (∀ r, f.sees r = false) ∧ ∃ r : Replica, reply = r.failure ∧
        ∀ e ∈ sinceFailure history, e.sees r = false → e.poller = f.poller
  | _ => ∀ r, f.sees r = false

/-- An access of an evaluation that is alone.  One that returns false has found neither response, and
so has one that gives its write up, for its own misses. -/
theorem WriteAIFunc.Frame.Own.next {f f' : Frame} {m : Master} (h : f.Own s.master history)
    (hC : s.Undivided history f f.place)
    (hkeys : f.backupUid.getUniqueCounter ≠ f.ogUid.getUniqueCounter)
    {result : Option (Option WriteReply × Bool)} (hnext : f.next s.master = (m, f', result)) :
    (result = none ∧ f'.Own m history) ∨
      ∃ reply ret, result = some (reply, ret) ∧ (ret = false → ∀ r, f'.sees r = false) ∧
        ∀ r : Replica, reply = some r.failure → (∀ r, f'.sees r = false) ∧
          ∀ e ∈ sinceFailure history, e.sees r = false → e.poller = f.poller := by
  obtain ⟨ogUid, backupUid, og, backup, place⟩ := f
  cases place with
  | askOg =>
      have hog := hasResponseRecived_fst s.master.watchlist ogUid
      have hdone := isDone_hasResponseRecived s.master.watchlist ogUid backupUid.getUniqueCounter
      simp only [Frame.next] at hnext
      cases hnext
      refine .inl ⟨rfl, ?_⟩
      change (hasResponseRecived s.master.watchlist ogUid).1 = true ↔ _
      rw [hog, decide_eq_true_iff, hdone]
      exact hC.trans (and_iff_right hkeys).symm
  | askBackup =>
      have hbackup := hasResponseRecived_fst s.master.watchlist backupUid
      have hboth : og = true ↔ IsDone s.master.watchlist backupUid.getUniqueCounter := h
      simp only [Frame.next] at hnext
      generalize hasResponseRecived s.master.watchlist backupUid = asked at hbackup hnext
      obtain ⟨found, watchlist⟩ := asked
      have hfound : found = decide (IsDone s.master.watchlist backupUid.getUniqueCounter) := hbackup
      obtain rfl : og = found := by
        rw [hfound, Bool.eq_iff_iff, decide_eq_true_iff, hboth]
      cases og with
      | true =>
          cases hnext
          refine .inr ⟨_, _, rfl, by simp, fun r hr => ?_⟩
          cases r <;> cases hr
      | false =>
          cases hnext
          exact .inl ⟨rfl, Replica.forall_iff.2 ⟨rfl, rfl⟩⟩
  | loadOg =>
      cases hnext
      exact .inl ⟨rfl, h⟩
  | storeOg value =>
      cases hnext
      refine .inl ⟨rfl, ?_⟩
      obtain rfl : backup = false := h .backup
      exact h
  | loadBackup =>
      cases hnext
      exact .inl ⟨rfl, h⟩
  | storeBackup value =>
      cases hnext
      exact .inl ⟨rfl, h⟩
  | testOg =>
      cases hnext
      refine .inl ⟨rfl, ?_⟩
      by_cases hfull : s.master.ogCounter = 50
      · rw [if_pos hfull]
        exact h
      · rw [if_neg hfull]
        exact h
  | testBackup =>
      simp only [Frame.next] at hnext
      by_cases hfull : s.master.backupCounter = 50
      · rw [if_pos hfull] at hnext
        cases hnext
        exact .inl ⟨rfl, h⟩
      · rw [if_neg hfull] at hnext
        cases hnext
        refine .inr ⟨_, _, rfl, fun _ => h, fun r hr => ?_⟩
        cases hr
  | chooseReply =>
      cases hnext
      refine .inl ⟨rfl, h, s.named, ?_, hC⟩
      unfold Polling.named
      split <;> rfl
  | resetOg reply =>
      cases hnext
      exact .inl ⟨rfl, h⟩
  | resetBackup reply =>
      obtain ⟨hsees, r, rfl, hown⟩ := h
      cases hnext
      refine .inr ⟨_, _, rfl, fun _ => hsees, fun r' hr' => ?_⟩
      obtain rfl : r = r' := by cases r <;> cases r' <;> first | rfl | cases hr'
      exact ⟨hsees, hown⟩

theorem Poller.exists_key (p : Poller) : ∃ key, key ∈ p.keys := by
  cases p with
  | readAIFunc uid => exact ⟨_, List.mem_singleton_self _⟩
  | writeAIFunc ogUid backupUid => exact ⟨_, List.mem_cons_self⟩

namespace Master

variable {m m' : Master}

/-- A step of the master that evaluates no write and registers only new keys.  The keys stay apart,
a poller is there from before or has the new keys, and the entries of the writes stay `DONE` or not. -/
theorem fresh_step {b : Action} {events : List Event}
    (hb : ∀ ogUid backupUid, b ≠ .poll (.writeAIFunc ogUid backupUid))
    (hstep : m.step b = some (m', events)) (hkeys : m.liveKeys.Nodup)
    (hnodup : (m.newKeys b).Nodup) (hfresh : ∀ key ∈ m.newKeys b, key ∉ m.liveKeys) :
    m'.liveKeys.Nodup ∧ (∀ p ∈ m'.pollers, p ∈ m.pollers ∨ p.keys = m.newKeys b) ∧
      ∀ p ∈ m.pollers, p.isWrite = true → ∀ key ∈ p.keys, key ∉ doneKeys b →
        (IsDone m'.watchlist key ↔ IsDone m.watchlist key) := by
  have hissued : ∀ {p : Poller}, m'.pollers = m.pollers ++ [p] → p.keys = m.newKeys b →
      ∀ q ∈ m'.pollers, q ∈ m.pollers ∨ q.keys = m.newKeys b := by
    intro p hpollers hp q hq
    rw [hpollers] at hq
    rcases List.mem_append.1 hq with hq | hq
    · exact .inl hq
    · exact .inr (List.mem_singleton.1 hq ▸ hp)
  cases b with
  | execRead stamp =>
      obtain ⟨⟨uid, s'⟩, hexec, heq⟩ := Option.map_eq_some_iff.1 hstep
      cases heq
      obtain ⟨hkey, rfl⟩ := execRead_eq_some hexec
      have hp : (Poller.readAIFunc uid).keys = m.newKeys (.execRead stamp) := by
        simp [Poller.keys, Poller.uids, newKeys, hkey]
      refine ⟨nodup_issue hkeys hnodup hfresh hp rfl, hissued rfl hp, ?_⟩
      intro p hmem _ key hkeyMem _
      refine (isDone_registerCommand _ _ _).trans (and_iff_right ?_)
      rintro rfl
      exact hfresh _ (hp ▸ List.mem_singleton_self _) (List.mem_flatMap.2 ⟨p, hmem, hkeyMem⟩)
  | execWrite ogStamp gap backupStamp =>
      obtain ⟨⟨⟨ogUid, backupUid⟩, s'⟩, hexec, heq⟩ := Option.map_eq_some_iff.1 hstep
      cases heq
      obtain ⟨hogKey, hbackupKey, rfl⟩ := execWrite_eq_some hexec
      have hp : (Poller.writeAIFunc ogUid backupUid).keys =
          m.newKeys (.execWrite ogStamp gap backupStamp) := by
        simp only [Poller.keys, Poller.uids, newKeys, ← hogKey, ← hbackupKey, List.map]
      refine ⟨nodup_issue hkeys hnodup hfresh hp rfl, hissued rfl hp, ?_⟩
      intro p hmem _ key hkeyMem _
      have hlive := List.mem_flatMap.2 ⟨p, hmem, hkeyMem⟩
      refine (isDone_registerCommand _ _ _).trans ((and_iff_right ?_).trans
        ((isDone_registerCommand _ _ _).trans (and_iff_right ?_)))
      · rintro rfl
        exact hfresh _ (hp ▸ List.mem_cons_of_mem _ (List.mem_singleton_self _)) hlive
      · rintro rfl
        exact hfresh _ (hp ▸ List.mem_cons_self) hlive
  | newUID stamp =>
      obtain ⟨⟨uid, s'⟩, hnew, heq⟩ := Option.map_eq_some_iff.1 hstep
      cases heq
      obtain ⟨-, rfl⟩ := newUID_eq_some hnew
      exact ⟨hkeys, fun p hp => .inl hp, fun _ _ _ _ _ _ => Iff.rfl⟩
  | receive stamp r =>
      obtain ⟨s', hreceive, heq⟩ := Option.map_eq_some_iff.1 hstep
      cases heq
      obtain ⟨-, hpollers, hdone⟩ := receive_eq_some hreceive
      refine ⟨by rw [liveKeys, hpollers]; exact hkeys, fun p hp => .inl (hpollers ▸ hp), ?_⟩
      intro p hmem _ key _ hother
      refine (hdone key).trans (or_iff_left ?_)
      rintro ⟨hsuccess, rfl⟩
      exact hother (by rw [doneKeys, if_pos hsuccess]; exact List.mem_singleton_self _)
  | poll p =>
      cases p with
      | writeAIFunc ogUid backupUid => exact absurd rfl (hb ogUid backupUid)
      | readAIFunc uid =>
          obtain ⟨⟨s', event⟩, hpoll, heq⟩ := Option.map_eq_some_iff.1 hstep
          cases heq
          obtain ⟨_, _, -, heval⟩ := poll_cases hpoll
          refine ⟨?_, fun q hq => .inl (heval.mem_of_mem hq), ?_⟩
          · unfold liveKeys
            rw [heval.pollers]
            split
            · exact hkeys.sublist ((List.erase_sublist).flatMap _)
            · exact hkeys
          · intro q hq hwrite key hkey _
            have hne : q ≠ .readAIFunc uid := by
              rintro rfl
              cases hwrite
            refine (heval.done key).trans (and_iff_right ?_)
            exact disjoint_keys hkeys heval.mem ((List.mem_erase_of_ne hne).2 hq) hkey

end Master

theorem Counts.names {c c' : Replica → ℕ} {sees : Replica → Bool} {ret : Bool} {r : Replica}
    (h : Counts c sees (some r.failure) ret c') : Names c sees r := by
  generalize hreply : some r.failure = reply at h
  cases h with
  | success hsees => cases r <;> cases hreply
  | failure r' hnames hzero =>
      have hr : r = r' := by cases r <;> cases r' <;> first | rfl | cases hreply
      exact hr ▸ hnames
  | missed hmissed hless hcounter => cases hreply

theorem WriteAIFunc.Frame.Own.congr {m m' : Master} {f : Frame} (h : f.Own m history)
    (hdone : f.place = .askBackup → (IsDone m'.watchlist f.backupUid.getUniqueCounter ↔
      IsDone m.watchlist f.backupUid.getUniqueCounter)) : f.Own m' history := by
  obtain ⟨ogUid, backupUid, og, backup, place⟩ := f
  cases place with
  | askBackup => exact Iff.trans h (hdone rfl).symm
  | _ => exact h

namespace Polling

/-- The keys in use are apart, a write that is still polled has never found a response, and so far
every write was given up for its own misses. -/
structure Single (s : Polling) (history : List Evaluation) : Prop where
  counted : Counted s history
  keys : s.master.liveKeys.Nodup
  held : ∀ f ∈ s.frames, f.poller ∈ s.master.pollers
  unseen : ∀ p ∈ s.master.pollers, ∀ e ∈ history, e.poller = p → ∀ r, e.sees r = false
  own : ∀ f ∈ s.frames, f.Own s.master history
  every : Every OwnMisses history

theorem single_start : Single start [] where
  counted := counted_start
  keys := List.nodup_nil
  held := by simp [start]
  unseen := by simp [start, Master.start]
  own := by simp [start]
  every := trivial

/-- The two keys of an evaluation are different. -/
theorem Single.ne (h : Single s history) {f : Frame} (hf : f ∈ s.frames) :
    f.backupUid.getUniqueCounter ≠ f.ogUid.getUniqueCounter := by
  have hnodup := (List.nodup_flatMap.1 h.keys).1 _ (h.held f hf)
  have hne : f.ogUid.getUniqueCounter ≠ f.backupUid.getUniqueCounter := by
    simpa [Frame.poller, Poller.keys, Poller.uids] using hnodup
  exact hne.symm

/-- A write is given up for its own misses, if it has found no response before. -/
theorem Single.ownMisses (h : Single s history) {e : Evaluation}
    (hmem : e.poller ∈ s.master.pollers) {c' : Replica → ℕ}
    (hcounts : Counts (misses history) e.sees e.reply e.ret c')
    (hown : ∀ r : Replica, e.reply = some r.failure → (∀ r, e.sees r = false) ∧
      ∀ e' ∈ sinceFailure history, e'.sees r = false → e'.poller = e.poller) :
    OwnMisses history e := by
  intro r hreply
  obtain ⟨hsees, hown⟩ := hown r hreply
  rw [hreply] at hcounts
  have hfull : misses history r = 49 := by
    have hcount := hcounts.names.1
    rw [countsTo, hsees] at hcount
    exact Nat.succ.inj hcount
  constructor
  · have hcount : 49 ≤ history.countP (·.poller = e.poller) := by
      calc 49 = (sinceFailure history).countP (fun e => !e.sees r) := hfull.symm
        _ ≤ (sinceFailure history).countP (·.poller = e.poller) :=
          List.countP_mono_left fun e' he' hmiss =>
            decide_eq_true (hown e' he' (by simpa using hmiss))
        _ ≤ history.countP (·.poller = e.poller) :=
          List.Sublist.countP_le (List.takeWhile_sublist _)
    rw [List.countP_cons_of_pos (by simp)]
    exact Nat.succ_le_succ hcount
  · intro e' he' hpoller
    rcases List.mem_cons.1 he' with rfl | he'
    · exact hsees r
    · exact h.unseen _ hmem e' he' hpoller r

/-- A step in which the evaluated write is alone keeps the invariant. -/
theorem Single.step (h : Single s history) (hC : s.Alone history a)
    (hstep : s.step a = some (t, out)) : Single t (out ++ history) := by
  have hcounted := h.counted.step hC.separate hstep
  cases step_cases hstep with
  | @master b master events hb hmaster =>
      obtain ⟨hnodup, hfresh, hbetween⟩ := hC
      obtain ⟨hkeys, hpollers, hdone⟩ :=
        Master.fresh_step hb hmaster h.keys hnodup fun key hkey => (hfresh key hkey).1
      have hkept := (Master.counter_step hb hmaster).2
      refine ⟨hcounted, hkeys, fun f hf => hkept _ (h.held f hf) rfl, ?_, ?_, h.every⟩
      · intro p hp e he hpoller
        rcases hpollers p hp with hp | hnew
        · exact h.unseen p hp e he hpoller
        · obtain ⟨key, hkey⟩ := p.exists_key
          exact absurd (hpoller ▸ hkey) ((hfresh key (hnew ▸ hkey)).2 e he)
      · intro f hf
        refine (h.own f hf).congr fun hplace => ?_
        exact hdone _ (h.held f hf) rfl _ (List.mem_cons_of_mem _ (List.mem_singleton_self _))
          (hbetween f hf hplace)
  | enter hcount =>
      have hframes : s.frames = [] := hC
      rw [hframes] at hcount hcounted ⊢
      refine ⟨hcounted, h.keys, ?_, h.unseen, ?_, h.every⟩
      · intro f hf
        obtain rfl := List.mem_singleton.1 hf
        exact List.count_pos_iff.1 (Nat.lt_of_le_of_lt (Nat.zero_le _) hcount)
      · intro f hf
        obtain rfl := List.mem_singleton.1 hf
        trivial
  | @next i f f' master hf hnext =>
      have hmem := List.mem_of_getElem? hf
      obtain ⟨rfl, hframes, hprogress⟩ := h.counted.counting.only hf
      obtain ⟨-, hpollers, hpoller, -⟩ := hprogress.next hnext
      have hset : s.frames.set 0 f' = [f'] := by rw [hframes]; rfl
      rcases (h.own f hmem).next (hC f hf) (h.ne hmem) hnext with ⟨-, hown⟩ | ⟨_, _, hsome, -⟩
      · rw [hset] at hcounted ⊢
        refine ⟨hcounted, ?_, ?_, ?_, ?_, h.every⟩
        · rw [Master.liveKeys, hpollers]
          exact h.keys
        · intro g hg
          obtain rfl := List.mem_singleton.1 hg
          rw [hpollers, hpoller]
          exact h.held f hmem
        · intro p hp
          exact h.unseen p (hpollers ▸ hp)
        · intro g hg
          obtain rfl := List.mem_singleton.1 hg
          exact hown
      · cases hsome
  | @returns i f f' master reply ret hf hnext =>
      have hmem := List.mem_of_getElem? hf
      obtain ⟨rfl, hframes, hprogress⟩ := h.counted.counting.only hf
      obtain ⟨-, hpollers, -, hresult⟩ := hprogress.next hnext
      have herase : s.frames.eraseIdx 0 = [] := by rw [hframes]; rfl
      have hsame : Evaluation.sees ⟨f.poller, f'.og, f'.backup, reply, ret⟩ = f'.sees := by
        funext r
        cases r <;> rfl
      rcases hresult with ⟨hnone, -⟩ | ⟨_, _, hsome, hcounts⟩
      · cases hnone
      cases hsome
      rcases (h.own f hmem).next (hC f hf) (h.ne hmem) hnext with
        ⟨hnone, -⟩ | ⟨_, _, hsome, hfalse, hfailure⟩
      · cases hnone
      cases hsome
      rw [← hsame] at hcounts hfalse hfailure
      rw [herase] at hcounted ⊢
      refine ⟨hcounted, ?_, by simp, ?_, by simp,
        h.ownMisses (h.held f hmem) hcounts hfailure, h.every⟩
      · rw [Master.liveKeys, hpollers]
        split
        · exact h.keys.sublist (List.erase_sublist.flatMap _)
        · exact h.keys
      · intro p hp e he hpoller
        rw [hpollers] at hp
        cases ret with
        | true =>
            rcases List.mem_cons.1 he with rfl | he
            · obtain ⟨key, hkey⟩ := p.exists_key
              have hpoller : f.poller = p := hpoller
              exact absurd (hpoller ▸ hkey) (Master.disjoint_keys h.keys (h.held f hmem) hp hkey)
            · exact h.unseen p (List.mem_of_mem_erase hp) e he hpoller
        | false =>
            rcases List.mem_cons.1 he with rfl | he
            · exact hfalse rfl
            · exact h.unseen p hp e he hpoller

end Polling

/-- A failure reply is for the write's own misses.  Suppose that in every step no evaluation begins
while another one is under way, that an evaluation asks for the two responses when both are there or
none is, that a write is given up only when the counter of the replica that is named has counted only
misses of this write, and that no key is registered that is in use or was before.  Then every write
that is given up has been evaluated at least 50 times and has never found the response of the replica
that the reply names. -/
theorem failure_for_own_misses (actions : List Polling.Action)
    (hC : Transition.Along (logged Polling.step) (fun s a => s.1.Alone s.2 a) (Polling.start, [])
      actions)
    (hrun : Transition.run (logged Polling.step) (Polling.start, []) actions = some (t, history)) :
    Every OwnMisses history :=
  (invariant_along Polling.Alone (fun _ _ _ _ _ h hC hstep => h.step hC hstep) Polling.single_start
    hC hrun).every

/-- A write that is acknowledged in its first evaluation, and one that no minion answers, evaluated
until it is given up. -/
def unansweredRun : List Polling.Action :=
  List.flatten [[.master (.execWrite ⟨0, 0⟩ [] ⟨0, 0⟩), .master (.execWrite ⟨0, 0⟩ [] ⟨0, 0⟩),
      .master (.receive ⟨0, 0⟩ (.write (nthUid 1) true)),
      .master (.receive ⟨0, 0⟩ (.write (nthUid 2) true)),
      .enter (nthUid 1) (nthUid 2), .next 0, .next 0],
    missBoth 49 (nthUid 3) (nthUid 4), .enter (nthUid 3) (nthUid 4) :: List.replicate 10 (.next 0)]

theorem failure_for_own_misses_unansweredRun :
    ∃ t ∈ Transition.run (logged Polling.step) (Polling.start, []) unansweredRun,
      ⟨.writeAIFunc (nthUid 3) (nthUid 4), false, false, some .couldntWriteOg, true⟩ ∈ t.2 ∧
        t.2.length = 51 ∧ Every OwnMisses t.2 := by
  have hruns : Transition.Along (logged Polling.step) (fun s a => s.1.Alone s.2 a)
        (Polling.start, []) unansweredRun ∧
      ∃ t ∈ Transition.run (logged Polling.step) (Polling.start, []) unansweredRun,
        ⟨.writeAIFunc (nthUid 3) (nthUid 4), false, false, some .couldntWriteOg, true⟩ ∈ t.2 ∧
          t.2.length = 51 := by
    decide +kernel
  obtain ⟨hC, t, ht, hfailed, hlength⟩ := hruns
  exact ⟨t, ht, hfailed, hlength, failure_for_own_misses unansweredRun hC ht⟩

/-- After `secondWriteRun`, the second write is given up in its first evaluation. -/
theorem given_up_at_first_evaluation :
    ∃ t ∈ Transition.run (logged Polling.step) (Polling.start, [])
        (secondWriteRun ++ .enter (nthUid 5) (nthUid 6) :: List.replicate 10 (.next 0)),
      ∃ e ∈ t.2.head?, e.poller = .writeAIFunc (nthUid 5) (nthUid 6) ∧
        e.reply = some .couldntWriteOg ∧ t.2.countP (·.poller = e.poller) = 1 ∧
        ¬OwnMisses t.2.tail e := by
  decide +kernel

end IotDrive
