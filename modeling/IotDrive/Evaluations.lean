/-
The evaluation of a write's poller, access by access.

`ThreadFunc` lets go of the lock of the scheduler before it executes a task, and every expiry of the
timer runs on a thread of its own, so that evaluations of different writes can overlap.  They share
the watch-list and the two static counters of `WriteAIFunc::operator()`, and no lock: an evaluation
is taken apart here into its questions, the loads and stores of the counters, and its tests.

Main definitions:

* `WriteAIFunc.Frame`, `WriteAIFunc.Frame.next` — an evaluation under way, and its next access;
* `Polling`, `Polling.step` — the master with the evaluations under way;
* `Polling.Separate` — no evaluation begins while another one is under way;
* `Counts` — what a whole evaluation does to the counters.

Main results:

* `WriteAIFunc.Frame.Progress.next` — what one access preserves;
* `Counting.step` — without overlap, an evaluation counts as if it were one step;
* `Polling.run_return` — an evaluation returns.
-/

import IotDrive.Master

set_option relaxedAutoImplicit false
set_option autoImplicit false

namespace IotDrive

open ResponseManeger History

/-! ### Evaluations under way -/

/-- The two minions that a write goes to. -/
inductive Replica
  | og | backup
  deriving DecidableEq

/-- The reply that names the replica. -/
def Replica.failure : Replica → WriteReply
  | .og => .couldntWriteOg
  | .backup => .couldntWriteBackup

theorem Replica.forall_iff {P : Replica → Prop} : (∀ r, P r) ↔ P .og ∧ P .backup :=
  ⟨fun h => ⟨h .og, h .backup⟩, fun h r => by cases r; exacts [h.1, h.2]⟩

instance (P : Replica → Prop) [DecidablePred P] : Decidable (∀ r, P r) :=
  decidable_of_iff _ Replica.forall_iff.symm

namespace WriteAIFunc

/-- Where an evaluation stands.  `++og_counter` is a load and a store. -/
inductive Place
  | askOg | askBackup
  | loadOg | storeOg (value : ℕ)
  | loadBackup | storeBackup (value : ℕ)
  | testOg | testBackup | chooseReply
  | resetOg (reply : WriteReply) | resetBackup (reply : WriteReply)
  deriving DecidableEq

/-- An evaluation under way, with its local variables. -/
structure Frame where
  ogUid : ThreadSafeUID
  backupUid : ThreadSafeUID
  og : Bool
  backup : Bool
  place : Place
  deriving DecidableEq

namespace Frame

def poller (f : Frame) : Poller := .writeAIFunc f.ogUid f.backupUid

/-- `operator()` is called. -/
def enter (ogUid backupUid : ThreadSafeUID) : Frame :=
  { ogUid, backupUid, og := false, backup := false, place := .askOg }

/-- The next access of the evaluation; the reply, if there was one, and what it returns, if it
returns. -/
def next (s : Master) (f : Frame) : Master × Frame × Option (Option WriteReply × Bool) :=
  match f.place with
  | .askOg =>
      let (og, watchlist) := hasResponseRecived s.watchlist f.ogUid
      ({ s with watchlist }, { f with og, place := .askBackup }, none)
  | .askBackup =>
      let (backup, watchlist) := hasResponseRecived s.watchlist f.backupUid
      if f.og && backup then ({ s with watchlist }, { f with backup }, some (some .success, true))
      else
        ({ s with watchlist },
          { f with backup, place := if f.og = false then .loadOg else .loadBackup }, none)
  | .loadOg => (s, { f with place := .storeOg (s.ogCounter + 1) }, none)
  | .storeOg value =>
      ({ s with ogCounter := value },
        { f with place := if f.backup = false then .loadBackup else .testOg }, none)
  | .loadBackup => (s, { f with place := .storeBackup (s.backupCounter + 1) }, none)
  | .storeBackup value => ({ s with backupCounter := value }, { f with place := .testOg }, none)
  | .testOg =>
      (s, { f with place := if s.ogCounter = 50 then .chooseReply else .testBackup }, none)
  | .testBackup =>
      if s.backupCounter = 50 then (s, { f with place := .chooseReply }, none)
      else (s, f, some (none, false))
  | .chooseReply =>
      let reply := if s.ogCounter = 50 then WriteReply.couldntWriteOg else .couldntWriteBackup
      (s, { f with place := .resetOg reply }, none)
  | .resetOg reply => ({ s with ogCounter := 0 }, { f with place := .resetBackup reply }, none)
  | .resetBackup reply => ({ s with backupCounter := 0 }, f, some (some reply, true))

end Frame

end WriteAIFunc

open WriteAIFunc (Frame)

/-- An evaluation that has returned: what it has found, its reply and what it returned. -/
structure Evaluation where
  poller : Poller
  og : Bool
  backup : Bool
  reply : Option WriteReply
  ret : Bool
  deriving DecidableEq

/-- The master, and the evaluations of writes that are under way. -/
structure Polling where
  master : Master
  frames : List Frame

namespace Polling

def start : Polling := { master := .start, frames := [] }

/-- What happens: a step of the master other than an evaluation of a write, a thread that enters
`operator()`, and the next access of the `i`-th evaluation under way. -/
inductive Action
  | master (a : Master.Action)
  | enter (ogUid backupUid : ThreadSafeUID)
  | next (i : ℕ)
  deriving DecidableEq

/-- The transitions.  `AI::Perform` evaluates a poller that the scheduler holds and that is not being
evaluated, and deletes it if the evaluation returns true. -/
def step (s : Polling) : Action → Option (Polling × List Evaluation)
  | .master (.poll (.writeAIFunc _ _)) => none
  | .master a => (s.master.step a).map fun (master, _) => ({ s with master }, [])
  | .enter ogUid backupUid =>
      let p := Poller.writeAIFunc ogUid backupUid
      if (s.frames.map Frame.poller).count p < s.master.pollers.count p then
        some ({ s with frames := s.frames ++ [.enter ogUid backupUid] }, [])
      else none
  | .next i =>
      match s.frames[i]? with
      | none => none
      | some f =>
          match f.next s.master with
          | (master, f', none) => some ({ master, frames := s.frames.set i f' }, [])
          | (master, f', some (reply, ret)) =>
              some ({
                master := { master with
                  pollers := if ret then master.pollers.erase f.poller else master.pollers }
                frames := s.frames.eraseIdx i }, [⟨f.poller, f'.og, f'.backup, reply, ret⟩])

/-- No evaluation begins while another one is under way. -/
def Separate (s : Polling) : Action → Prop
  | .enter _ _ => s.frames = []
  | _ => True

instance (s : Polling) : DecidablePred s.Separate
  | .enter _ _ => inferInstanceAs (Decidable (_ = _))
  | .master _ | .next _ => instDecidableTrue

end Polling

/-! ### What a whole evaluation does to the counters -/

def Master.counter (s : Master) : Replica → ℕ
  | .og => s.ogCounter
  | .backup => s.backupCounter

/-- The evaluation has found the response of the replica so far. -/
def WriteAIFunc.Frame.sees (f : Frame) : Replica → Bool
  | .og => f.og
  | .backup => f.backup

/-- The evaluation has found the response of the replica. -/
def Evaluation.sees (e : Evaluation) : Replica → Bool
  | .og => e.og
  | .backup => e.backup

/-- The counter of the replica, with the miss of an evaluation that has found `sees`. -/
def countsTo (c : Replica → ℕ) (sees : Replica → Bool) (r : Replica) : ℕ := c r + (!sees r).toNat

/-- The replica is the one that a failure reply names: its counter is full, and `og` comes first. -/
def Names (c : Replica → ℕ) (sees : Replica → Bool) (r : Replica) : Prop :=
  countsTo c sees r = 50 ∧ (r = .backup → countsTo c sees .og ≠ 50)

/-- What an evaluation does to the counters. -/
inductive Counts (c : Replica → ℕ) (sees : Replica → Bool) :
    Option WriteReply → Bool → (Replica → ℕ) → Prop
  | success (hsees : ∀ r, sees r = true) : Counts c sees (some .success) true c
  | failure (r : Replica) (hnames : Names c sees r) {c' : Replica → ℕ} (hzero : ∀ r, c' r = 0) :
      Counts c sees (some r.failure) true c'
  | missed (hmissed : ∃ r, sees r = false) (hless : ∀ r, countsTo c sees r ≠ 50) {c' : Replica → ℕ}
      (hcounter : ∀ r, c' r = countsTo c sees r) : Counts c sees none false c'

namespace WriteAIFunc.Frame

/-- What the evaluation has done so far to the counters `c` that it has found. -/
def Progress (c : Replica → ℕ) (s : Master) (f : Frame) : Prop :=
  match f.place with
  | .askOg | .askBackup => ∀ r, s.counter r = c r
  | .loadOg => (∀ r, s.counter r = c r) ∧ f.og = false
  | .storeOg value => (∀ r, s.counter r = c r) ∧ f.og = false ∧ value = c .og + 1
  | .loadBackup =>
      s.ogCounter = countsTo c f.sees .og ∧ s.backupCounter = c .backup ∧ f.backup = false
  | .storeBackup value =>
      s.ogCounter = countsTo c f.sees .og ∧ f.backup = false ∧ value = c .backup + 1
  | .testOg => (∀ r, s.counter r = countsTo c f.sees r) ∧ ∃ r, f.sees r = false
  | .testBackup =>
      (∀ r, s.counter r = countsTo c f.sees r) ∧ (∃ r, f.sees r = false) ∧
        countsTo c f.sees .og ≠ 50
  | .chooseReply =>
      (∀ r, s.counter r = countsTo c f.sees r) ∧
        (countsTo c f.sees .og = 50 ∨ countsTo c f.sees .backup = 50)
  | .resetOg reply => ∃ r, Names c f.sees r ∧ reply = r.failure
  | .resetBackup reply => s.ogCounter = 0 ∧ ∃ r, Names c f.sees r ∧ reply = r.failure

theorem progress_enter {c : Replica → ℕ} {s : Master} (h : ∀ r, s.counter r = c r)
    (ogUid backupUid : ThreadSafeUID) : (enter ogUid backupUid).Progress c s :=
  h

variable {c : Replica → ℕ} {s t : Master} {f f' : Frame}

/-- A step that leaves the counters alone leaves the progress alone. -/
theorem Progress.congr (h : f.Progress c s) (hcounter : ∀ r, t.counter r = s.counter r) :
    f.Progress c t := by
  have hog : t.ogCounter = s.ogCounter := hcounter .og
  have hbackup : t.backupCounter = s.backupCounter := hcounter .backup
  unfold Progress at h ⊢
  simp only [hcounter, hog, hbackup]
  exact h

/-- **One access.** It continues the evaluation, or the evaluation returns and has counted as a
whole. -/
theorem Progress.next (h : f.Progress c s) {result : Option (Option WriteReply × Bool)}
    (hnext : f.next s = (t, f', result)) :
    t.staticCounter = s.staticCounter ∧ t.pollers = s.pollers ∧ f'.poller = f.poller ∧
      (result = none ∧ f'.Progress c t ∨
        ∃ reply ret, result = some (reply, ret) ∧ Counts c f'.sees reply ret t.counter) := by
  obtain ⟨ogUid, backupUid, og, backup, place⟩ := f
  cases place with
  | askOg =>
      cases hnext
      exact ⟨rfl, rfl, rfl, .inl ⟨rfl, h⟩⟩
  | askBackup =>
      simp only [Frame.next] at hnext
      generalize hasResponseRecived s.watchlist backupUid = asked at hnext
      obtain ⟨found, watchlist⟩ := asked
      have hc : ∀ r, s.counter r = c r := h
      cases og with
      | false =>
          cases hnext
          exact ⟨rfl, rfl, rfl, .inl ⟨rfl, h, rfl⟩⟩
      | true =>
          cases found with
          | true =>
              cases hnext
              refine ⟨rfl, rfl, rfl, .inr ⟨_, _, rfl, ?_⟩⟩
              have hsame : Master.counter { s with watchlist } = c := funext hc
              rw [hsame]
              exact .success (Replica.forall_iff.2 ⟨rfl, rfl⟩)
          | false =>
              cases hnext
              exact ⟨rfl, rfl, rfl, .inl ⟨rfl, hc .og, hc .backup, rfl⟩⟩
  | loadOg =>
      cases hnext
      exact ⟨rfl, rfl, rfl, .inl ⟨rfl, h.1, h.2, congrArg (· + 1) (h.1 .og)⟩⟩
  | storeOg value =>
      obtain ⟨hc, hog, rfl⟩ := h
      obtain rfl : og = false := hog
      cases hnext
      refine ⟨rfl, rfl, rfl, .inl ⟨rfl, ?_⟩⟩
      have hbackup : s.backupCounter = c .backup := hc .backup
      cases backup with
      | false => exact ⟨rfl, hbackup, rfl⟩
      | true => exact ⟨Replica.forall_iff.2 ⟨rfl, hbackup⟩, .og, rfl⟩
  | loadBackup =>
      obtain ⟨hog, hbackup, hmissed⟩ := h
      cases hnext
      exact ⟨rfl, rfl, rfl, .inl ⟨rfl, hog, hmissed, congrArg (· + 1) hbackup⟩⟩
  | storeBackup value =>
      obtain ⟨hog, hmissed, rfl⟩ := h
      obtain rfl : backup = false := hmissed
      cases hnext
      exact ⟨rfl, rfl, rfl, .inl ⟨rfl, Replica.forall_iff.2 ⟨hog, rfl⟩, .backup, rfl⟩⟩
  | testOg =>
      obtain ⟨hc, hmissed⟩ := h
      cases hnext
      refine ⟨rfl, rfl, rfl, .inl ⟨rfl, ?_⟩⟩
      have hog : s.ogCounter = _ := hc .og
      by_cases hfull : s.ogCounter = 50
      · rw [if_pos hfull]
        exact ⟨hc, .inl (hog ▸ hfull)⟩
      · rw [if_neg hfull]
        exact ⟨hc, hmissed, hog ▸ hfull⟩
  | testBackup =>
      obtain ⟨hc, hmissed, hog⟩ := h
      have hbackup : s.backupCounter = _ := hc .backup
      simp only [Frame.next] at hnext
      by_cases hfull : s.backupCounter = 50
      · rw [if_pos hfull] at hnext
        cases hnext
        exact ⟨rfl, rfl, rfl, .inl ⟨rfl, hc, .inr (hbackup ▸ hfull)⟩⟩
      · rw [if_neg hfull] at hnext
        cases hnext
        refine ⟨rfl, rfl, rfl, .inr ⟨_, _, rfl, .missed hmissed ?_ hc⟩⟩
        exact Replica.forall_iff.2 ⟨hog, hbackup ▸ hfull⟩
  | chooseReply =>
      obtain ⟨hc, hfull⟩ := h
      have hog : s.ogCounter = _ := hc .og
      cases hnext
      refine ⟨rfl, rfl, rfl, .inl ⟨rfl, ?_⟩⟩
      by_cases hogFull : s.ogCounter = 50
      · rw [if_pos hogFull]
        exact ⟨.og, ⟨hog ▸ hogFull, nofun⟩, rfl⟩
      · rw [if_neg hogFull]
        rw [hog] at hogFull
        exact ⟨.backup, ⟨hfull.resolve_left hogFull, fun _ => hogFull⟩, rfl⟩
  | resetOg reply =>
      cases hnext
      exact ⟨rfl, rfl, rfl, .inl ⟨rfl, rfl, h⟩⟩
  | resetBackup reply =>
      obtain ⟨hzero, r, hnames, rfl⟩ := h
      cases hnext
      exact ⟨rfl, rfl, rfl, .inr ⟨_, _, rfl, .failure r hnames (Replica.forall_iff.2 ⟨hzero, rfl⟩)⟩⟩

end WriteAIFunc.Frame

/-! ### Runs without overlap -/

/-- A step of the master that evaluates no write leaves the counters alone, and the pollers of
writes. -/
theorem Master.counter_step {s t : Master} {a : Master.Action} {out : List Event}
    (ha : ∀ ogUid backupUid, a ≠ .poll (.writeAIFunc ogUid backupUid))
    (h : s.step a = some (t, out)) :
    (∀ r, t.counter r = s.counter r) ∧ ∀ p ∈ s.pollers, p.isWrite = true → p ∈ t.pollers := by
  cases a with
  | execRead stamp =>
      obtain ⟨⟨uid, s'⟩, hexec, heq⟩ := Option.map_eq_some_iff.1 h
      cases heq
      obtain ⟨-, rfl⟩ := execRead_eq_some hexec
      exact ⟨fun r => by cases r <;> rfl, fun p hp _ => List.mem_append_left _ hp⟩
  | execWrite ogStamp gap backupStamp =>
      obtain ⟨⟨uids, s'⟩, hexec, heq⟩ := Option.map_eq_some_iff.1 h
      cases heq
      obtain ⟨-, -, rfl⟩ := execWrite_eq_some hexec
      exact ⟨fun r => by cases r <;> rfl, fun p hp _ => List.mem_append_left _ hp⟩
  | newUID stamp =>
      obtain ⟨⟨uid, s'⟩, hnew, heq⟩ := Option.map_eq_some_iff.1 h
      cases heq
      obtain ⟨-, rfl⟩ := newUID_eq_some hnew
      exact ⟨fun r => by cases r <;> rfl, fun p hp _ => hp⟩
  | receive stamp r =>
      obtain ⟨s', hreceive, heq⟩ := Option.map_eq_some_iff.1 h
      cases heq
      obtain ⟨⟨uid, u⟩, hnew, rfl⟩ := Option.map_eq_some_iff.1 hreceive
      obtain ⟨-, rfl⟩ := newUID_eq_some hnew
      exact ⟨fun r => by cases r <;> rfl, fun p hp _ => hp⟩
  | poll p =>
      cases p with
      | writeAIFunc ogUid backupUid => exact absurd rfl (ha ogUid backupUid)
      | readAIFunc uid =>
          obtain ⟨⟨s', event⟩, hpoll, heq⟩ := Option.map_eq_some_iff.1 h
          cases heq
          simp only [Master.poll, Option.ite_none_right_eq_some] at hpoll
          obtain ⟨hmem, heq⟩ := hpoll
          cases heq
          refine ⟨fun r => by cases r <;> rfl, fun p hp hwrite => ?_⟩
          have hne : p ≠ .readAIFunc uid := by
            rintro rfl
            cases hwrite
          dsimp only
          split
          · exact (List.mem_erase_of_ne hne).2 hp
          · exact hp

namespace Polling

variable {s t : Polling} {a : Action} {out : List Evaluation} {c : Replica → ℕ}

/-- The transitions as a relation, with what each of them needs. -/
inductive Steps (s : Polling) : Action → Polling → List Evaluation → Prop
  | master {b : Master.Action} {master : Master} {events : List Event}
      (hb : ∀ ogUid backupUid, b ≠ .poll (.writeAIFunc ogUid backupUid))
      (hstep : s.master.step b = some (master, events)) :
      Steps s (.master b) { s with master } []
  | enter {ogUid backupUid : ThreadSafeUID}
      (hcount : (s.frames.map Frame.poller).count (.writeAIFunc ogUid backupUid) <
        s.master.pollers.count (.writeAIFunc ogUid backupUid)) :
      Steps s (.enter ogUid backupUid)
        { s with frames := s.frames ++ [.enter ogUid backupUid] } []
  | next {i : ℕ} {f f' : Frame} {master : Master} (hf : s.frames[i]? = some f)
      (hnext : f.next s.master = (master, f', none)) :
      Steps s (.next i) { master, frames := s.frames.set i f' } []
  | returns {i : ℕ} {f f' : Frame} {master : Master} {reply : Option WriteReply} {ret : Bool}
      (hf : s.frames[i]? = some f) (hnext : f.next s.master = (master, f', some (reply, ret))) :
      Steps s (.next i)
        { master := { master with
            pollers := if ret then master.pollers.erase f.poller else master.pollers }
          frames := s.frames.eraseIdx i }
        [⟨f.poller, f'.og, f'.backup, reply, ret⟩]

theorem step_cases (h : s.step a = some (t, out)) : Steps s a t out := by
  cases a with
  | master b =>
      have hb : ∀ ogUid backupUid, b ≠ .poll (.writeAIFunc ogUid backupUid) := by
        rintro ogUid backupUid rfl
        cases h
      have hstep : (s.master.step b).map (fun (master, _) => ({ s with master }, [])) =
          some (t, out) := by
        cases b with
        | poll p =>
            cases p with
            | readAIFunc uid => exact h
            | writeAIFunc ogUid backupUid => exact absurd rfl (hb ogUid backupUid)
        | _ => exact h
      obtain ⟨⟨master, events⟩, hmaster, heq⟩ := Option.map_eq_some_iff.1 hstep
      cases heq
      exact .master hb hmaster
  | enter ogUid backupUid =>
      simp only [step, Option.ite_none_right_eq_some] at h
      obtain ⟨hcount, heq⟩ := h
      cases heq
      exact .enter hcount
  | next i =>
      simp only [step] at h
      cases hf : s.frames[i]? with
      | none =>
          rw [hf] at h
          cases h
      | some f =>
          rw [hf] at h
          cases hnext : f.next s.master with
          | mk master rest =>
              obtain ⟨f', result⟩ := rest
              simp only [hnext] at h
              cases result with
              | none =>
                  cases h
                  exact .next hf hnext
              | some result =>
                  cases h
                  exact .returns hf hnext

/-- At most one evaluation is under way, and the counters were `c` when it began. -/
inductive Counting (c : Replica → ℕ) (s : Polling) : Prop
  | idle (hframes : s.frames = []) (hcounter : ∀ r, s.master.counter r = c r)
  | evaluating (f : Frame) (hframes : s.frames = [f]) (h : f.Progress c s.master)

/-- The access is one of the only evaluation. -/
theorem Counting.only (h : Counting c s) {i : ℕ} {f : Frame} (hf : s.frames[i]? = some f) :
    i = 0 ∧ s.frames = [f] ∧ f.Progress c s.master := by
  cases h with
  | idle hframes _ => simp [hframes] at hf
  | evaluating g hframes hg =>
      rw [hframes] at hf
      obtain ⟨rfl, rfl⟩ : i = 0 ∧ g = f := by simpa [List.getElem?_singleton] using hf
      exact ⟨rfl, hframes, hg⟩

/-- The step of a run without overlap: it is no evaluation that returns, or one that has counted as
if it were one step. -/
theorem Counting.step (h : Counting c s) (hC : s.Separate a) (hstep : s.step a = some (t, out)) :
    (out = [] ∧ Counting c t ∧
        ∀ p ∈ s.master.pollers, p.isWrite = true → p ∈ t.master.pollers) ∨
      ∃ e, out = [e] ∧ Counts c e.sees e.reply e.ret t.master.counter ∧ t.frames = [] ∧
        (∃ f, s.frames = [f] ∧ e.poller = f.poller) ∧
        t.master.pollers =
          if e.ret then s.master.pollers.erase e.poller else s.master.pollers := by
  cases step_cases hstep with
  | master hb hmaster =>
      obtain ⟨hcounter, hpollers⟩ := Master.counter_step hb hmaster
      refine .inl ⟨rfl, ?_, hpollers⟩
      cases h with
      | idle hframes hc => exact .idle hframes fun r => (hcounter r).trans (hc r)
      | evaluating f hframes hf => exact .evaluating f hframes (hf.congr hcounter)
  | enter hcount =>
      have hframes : s.frames = [] := hC
      refine .inl ⟨rfl, ?_, fun p hp _ => hp⟩
      cases h with
      | idle _ hc => exact .evaluating _ (by rw [hframes]; rfl) (Frame.progress_enter hc _ _)
      | evaluating f hf _ =>
          rw [hframes] at hf
          cases hf
  | @next i f f' master hf hnext =>
      obtain ⟨rfl, hframes, hprogress⟩ := h.only hf
      obtain ⟨-, hpollers, -, hresult⟩ := hprogress.next hnext
      rcases hresult with ⟨-, hprogress'⟩ | ⟨_, _, hsome, -⟩
      · refine .inl ⟨rfl, .evaluating f' (by rw [hframes]; rfl) hprogress', ?_⟩
        intro p hp _
        rwa [hpollers]
      · cases hsome
  | @returns i f f' master reply ret hf hnext =>
      obtain ⟨rfl, hframes, hprogress⟩ := h.only hf
      obtain ⟨-, hpollers, -, hresult⟩ := hprogress.next hnext
      rcases hresult with ⟨hnone, -⟩ | ⟨_, _, hsome, hcounts⟩
      · cases hnone
      · cases hsome
        refine .inr ⟨_, rfl, ?_, by rw [hframes]; rfl, ⟨f, hframes, rfl⟩, ?_⟩
        · have hsees : Evaluation.sees ⟨f.poller, f'.og, f'.backup, reply, ret⟩ = f'.sees := by
            funext r
            cases r <;> rfl
          have hcounter : Master.counter { master with
              pollers := if ret then master.pollers.erase f.poller else master.pollers } =
              master.counter := by
            funext r
            cases r <;> rfl
          rw [hsees, hcounter]
          exact hcounts
        · rw [hpollers]

/-! ### Evaluations return -/

/-- How many accesses an evaluation makes at most after the one at the place. -/
def rank : WriteAIFunc.Place → ℕ
  | .askOg => 10
  | .askBackup => 9
  | .loadOg => 8
  | .storeOg _ => 7
  | .loadBackup => 6
  | .storeBackup _ => 5
  | .testOg => 4
  | .testBackup => 3
  | .chooseReply => 2
  | .resetOg _ => 1
  | .resetBackup _ => 0

theorem rank_next {s t : Master} {f f' : Frame} (h : f.next s = (t, f', none)) :
    f'.poller = f.poller ∧ rank f'.place < rank f.place := by
  obtain ⟨ogUid, backupUid, og, backup, place⟩ := f
  cases place with
  | askBackup =>
      simp only [Frame.next] at h
      generalize hasResponseRecived s.watchlist backupUid = asked at h
      obtain ⟨found, watchlist⟩ := asked
      cases og <;> cases found <;> cases h <;> exact ⟨rfl, by simp [rank]⟩
  | storeOg value =>
      cases h
      refine ⟨rfl, ?_⟩
      cases backup <;> simp [rank]
  | testOg =>
      cases h
      refine ⟨rfl, ?_⟩
      dsimp only
      split <;> simp [rank]
  | testBackup =>
      simp only [Frame.next] at h
      split at h <;> cases h
      exact ⟨rfl, by simp [rank]⟩
  | resetBackup reply => cases h
  | _ =>
      cases h
      exact ⟨rfl, by simp [rank]⟩

/-- **An evaluation returns**, after at most eleven accesses, whatever the others have done. -/
theorem run_return {i : ℕ} {f : Frame} (hf : s.frames[i]? = some f) (history : List Evaluation) :
    ∃ k ≤ 11, ∃ t e, Transition.run (logged step) (s, history) (List.replicate k (.next i)) =
      some (t, e :: history) ∧ e.poller = f.poller ∧ t.frames = s.frames.eraseIdx i := by
  have hrun : ∀ n (s : Polling) (f : Frame), rank f.place = n → s.frames[i]? = some f →
      ∃ k ≤ n + 1, ∃ t e,
        Transition.run (logged step) (s, history) (List.replicate k (.next i)) =
          some (t, e :: history) ∧ e.poller = f.poller ∧ t.frames = s.frames.eraseIdx i := by
    intro n
    -- induction on the accesses that are left
    induction n using Nat.strongRecOn with
    | ind n ih =>
        intro s f hrank hf
        obtain ⟨hi, -⟩ := List.getElem?_eq_some_iff.1 hf
        cases hnext : f.next s.master with
        | mk master rest =>
            obtain ⟨f', result⟩ := rest
            cases result with
            | none =>
                obtain ⟨hpoller, hless⟩ := rank_next hnext
                let s' : Polling := { master, frames := s.frames.set i f' }
                have hstep : step s (.next i) = some (s', []) := by
                  simp only [step, hf, hnext]
                  rfl
                have hf' : s'.frames[i]? = some f' := List.getElem?_set_self hi
                obtain ⟨k, hk, t, e, hrun, he, hframes⟩ := ih _ (hrank ▸ hless) s' f' rfl hf'
                refine ⟨k + 1, by omega, t, e, ?_, he.trans hpoller, ?_⟩
                · refine Transition.run_cons_eq_some.2 ⟨(s', history), ?_, hrun⟩
                  rw [logged, hstep]
                  rfl
                · rw [hframes]
                  exact List.eraseIdx_set_eq
            | some result =>
                obtain ⟨reply, ret⟩ := result
                let pollers := if ret then master.pollers.erase f.poller else master.pollers
                let s' : Polling :=
                  { master := { master with pollers }, frames := s.frames.eraseIdx i }
                have hstep : step s (.next i) =
                    some (s', [⟨f.poller, f'.og, f'.backup, reply, ret⟩]) := by
                  simp only [step, hf, hnext]
                  rfl
                refine ⟨1, by omega, s', ⟨f.poller, f'.og, f'.backup, reply, ret⟩, ?_, rfl, rfl⟩
                refine Transition.run_cons_eq_some.2 ⟨_, ?_, rfl⟩
                rw [logged, hstep]
                rfl
  obtain ⟨k, hk, hresult⟩ := hrun _ s f rfl hf
  have hbound : rank f.place ≤ 10 := by
    cases f.place <;> simp [rank]
  exact ⟨k, by omega, hresult⟩

/-! ### An evaluation by itself -/

/-- Accesses of the only evaluation that do not return. -/
theorem run_next {s' : Master} {m : Master} {f f' : Frame} {history : List Evaluation} {k : ℕ}
    {t : Polling × List Evaluation} (hnext : f.next m = (s', f', none))
    (hrun : Transition.run (logged step) (⟨s', [f']⟩, history) (List.replicate k (.next 0)) =
      some t) :
    Transition.run (logged step) (⟨m, [f]⟩, history) (List.replicate (k + 1) (.next 0)) =
      some t := by
  refine Transition.run_cons_eq_some.2 ⟨(⟨s', [f']⟩, history), ?_, hrun⟩
  have hstep : step ⟨m, [f]⟩ (.next 0) = some (⟨s', [f']⟩, []) := by
    simp [step, hnext]
  rw [logged, hstep]
  rfl

/-- The end of an evaluation that gives its write up. -/
theorem run_chooseReply (m : Master) (ogUid backupUid : ThreadSafeUID) (og backup : Bool)
    (history : List Evaluation) :
    Transition.run (logged step) (⟨m, [⟨ogUid, backupUid, og, backup, .chooseReply⟩]⟩, history)
        (List.replicate 3 (.next 0)) =
      some (⟨{ m with
          ogCounter := 0
          backupCounter := 0
          pollers := m.pollers.erase (.writeAIFunc ogUid backupUid) }, []⟩,
        ⟨.writeAIFunc ogUid backupUid, og, backup,
          some (if m.ogCounter = 50 then .couldntWriteOg else .couldntWriteBackup), true⟩ ::
            history) :=
  rfl

/-- The tests at the end of an evaluation, for the counters that it has counted. -/
theorem run_testOg (m : Master) (ogUid backupUid : ThreadSafeUID) (og backup : Bool)
    (history : List Evaluation) :
    ∃ k, Transition.run (logged step)
        (⟨m, [⟨ogUid, backupUid, og, backup, .testOg⟩]⟩, history) (List.replicate k (.next 0)) =
      if m.ogCounter = 50 ∨ m.backupCounter = 50 then
        some (⟨{ m with
            ogCounter := 0
            backupCounter := 0
            pollers := m.pollers.erase (.writeAIFunc ogUid backupUid) }, []⟩,
          ⟨.writeAIFunc ogUid backupUid, og, backup,
            some (if m.ogCounter = 50 then .couldntWriteOg else .couldntWriteBackup), true⟩ ::
              history)
      else some (⟨m, []⟩, ⟨.writeAIFunc ogUid backupUid, og, backup, none, false⟩ :: history) := by
  by_cases hog : m.ogCounter = 50
  · have hnext : Frame.next m ⟨ogUid, backupUid, og, backup, .testOg⟩ =
        (m, ⟨ogUid, backupUid, og, backup, .chooseReply⟩, none) := by simp [Frame.next, hog]
    rw [if_pos (.inl hog), ← run_chooseReply]
    exact ⟨4, run_next hnext rfl⟩
  · have hnext : Frame.next m ⟨ogUid, backupUid, og, backup, .testOg⟩ =
        (m, ⟨ogUid, backupUid, og, backup, .testBackup⟩, none) := by simp [Frame.next, hog]
    by_cases hbackup : m.backupCounter = 50
    · have hnext' : Frame.next m ⟨ogUid, backupUid, og, backup, .testBackup⟩ =
          (m, ⟨ogUid, backupUid, og, backup, .chooseReply⟩, none) := by simp [Frame.next, hbackup]
      rw [if_pos (.inr hbackup), ← run_chooseReply]
      exact ⟨5, run_next hnext (run_next hnext' rfl)⟩
    · rw [if_neg (not_or.2 ⟨hog, hbackup⟩)]
      refine ⟨2, run_next hnext ?_⟩
      simp [Transition.run_cons, logged, step, Frame.next, Frame.poller, hbackup, List.replicate]

/-- The counters of an evaluation that has missed a response, and what it returns. -/
theorem run_countMisses (m : Master) (ogUid backupUid : ThreadSafeUID) {og backup : Bool}
    (hmissed : (og && backup) = false) (history : List Evaluation) {reply : Option WriteReply}
    {ret : Bool} {m' : Master} (hcount : WriteAIFunc.countMisses m og backup = (reply, ret, m')) :
    ∃ k, Transition.run (logged step)
        (⟨m, [⟨ogUid, backupUid, og, backup, if og = false then .loadOg else .loadBackup⟩]⟩,
          history) (List.replicate k (.next 0)) =
      some (⟨{ m' with
          pollers := if ret then m'.pollers.erase (.writeAIFunc ogUid backupUid)
            else m'.pollers }, []⟩,
        ⟨.writeAIFunc ogUid backupUid, og, backup, reply, ret⟩ :: history) := by
  let counted : Master :=
    { m with
      ogCounter := if og = false then m.ogCounter + 1 else m.ogCounter
      backupCounter := if backup = false then m.backupCounter + 1 else m.backupCounter }
  obtain ⟨k, htest⟩ := run_testOg counted ogUid backupUid og backup history
  have hresult : (if counted.ogCounter = 50 ∨ counted.backupCounter = 50 then
        some (⟨{ counted with
            ogCounter := 0
            backupCounter := 0
            pollers := counted.pollers.erase (.writeAIFunc ogUid backupUid) }, []⟩,
          ⟨.writeAIFunc ogUid backupUid, og, backup,
            some (if counted.ogCounter = 50 then .couldntWriteOg else .couldntWriteBackup), true⟩ ::
              history)
      else some (⟨counted, []⟩,
        ⟨.writeAIFunc ogUid backupUid, og, backup, none, false⟩ :: history)) =
      some ((⟨{ m' with
          pollers := if ret then m'.pollers.erase (.writeAIFunc ogUid backupUid)
            else m'.pollers }, []⟩,
        ⟨.writeAIFunc ogUid backupUid, og, backup, reply, ret⟩ :: history) :
          Polling × List Evaluation) := by
    simp only [WriteAIFunc.countMisses] at hcount
    by_cases hfull : counted.ogCounter = 50 ∨ counted.backupCounter = 50
    · rw [if_pos hfull] at hcount ⊢
      cases hcount
      rfl
    · rw [if_neg hfull] at hcount ⊢
      cases hcount
      rfl
  rw [hresult] at htest
  cases og with
  | false =>
      cases backup with
      | false => exact ⟨k + 4, run_next rfl (run_next rfl (run_next rfl (run_next rfl htest)))⟩
      | true => exact ⟨k + 2, run_next rfl (run_next rfl htest)⟩
  | true =>
      cases backup with
      | false => exact ⟨k + 2, run_next rfl (run_next rfl htest)⟩
      | true => cases hmissed

/-- **An evaluation by itself** is one step of the master. -/
theorem run_poll {m m' : Master} {ogUid backupUid : ThreadSafeUID} {og backup : Bool}
    {watchlist watchlist' : Watchlist} {reply : Option WriteReply} {ret : Bool}
    (hog : hasResponseRecived m.watchlist ogUid = (og, watchlist))
    (hbackup : hasResponseRecived watchlist backupUid = (backup, watchlist'))
    (hpoll : m.poll (.writeAIFunc ogUid backupUid) =
      some (m', .evaluated (.writeAIFunc ogUid backupUid) reply ret)) (history : List Evaluation) :
    ∃ k, Transition.run (logged step) (⟨m, []⟩, history)
        (.enter ogUid backupUid :: List.replicate k (.next 0)) =
      some (⟨m', []⟩, ⟨.writeAIFunc ogUid backupUid, og, backup, reply, ret⟩ :: history) := by
  simp only [Master.poll, Option.ite_none_right_eq_some] at hpoll
  obtain ⟨hmem, heq⟩ := hpoll
  have henter : logged step (⟨m, []⟩, history) (.enter ogUid backupUid) =
      some (⟨m, [.enter ogUid backupUid]⟩, history) := by
    have hpos : 0 < m.pollers.count (.writeAIFunc ogUid backupUid) := List.count_pos_iff.2 hmem
    simp [logged, step, hpos]
  suffices hrun : ∃ k, Transition.run (logged step) (⟨m, [.enter ogUid backupUid]⟩, history)
      (List.replicate k (.next 0)) =
        some (⟨m', []⟩, ⟨.writeAIFunc ogUid backupUid, og, backup, reply, ret⟩ :: history) by
    obtain ⟨k, hk⟩ := hrun
    exact ⟨k, Transition.run_cons_eq_some.2 ⟨_, henter, hk⟩⟩
  have hfirst : Frame.next m (.enter ogUid backupUid) =
      ({ m with watchlist }, ⟨ogUid, backupUid, og, false, .askBackup⟩, none) := by
    simp only [Frame.next, Frame.enter, hog]
  simp only [Poller.call, WriteAIFunc.call, hog, hbackup] at heq
  cases hboth : og && backup with
  | true =>
      obtain ⟨rfl, rfl⟩ := Bool.and_eq_true_iff.1 hboth
      cases heq
      refine ⟨2, run_next hfirst ?_⟩
      simp [Transition.run_cons, logged, step, Frame.next, Frame.poller, hbackup, List.replicate]
  | false =>
      rw [hboth, if_neg Bool.false_ne_true] at heq
      have hsecond : Frame.next { m with watchlist } ⟨ogUid, backupUid, og, false, .askBackup⟩ =
          ({ m with watchlist := watchlist' },
            ⟨ogUid, backupUid, og, backup, if og = false then .loadOg else .loadBackup⟩, none) := by
        simp only [Frame.next, hbackup, hboth]
        rfl
      cases hcount : WriteAIFunc.countMisses { m with watchlist := watchlist' } og backup with
      | mk reply' rest =>
          obtain ⟨ret', m''⟩ := rest
          rw [hcount] at heq
          cases heq
          obtain ⟨k, hrun⟩ := run_countMisses _ ogUid backupUid hboth history hcount
          exact ⟨k + 2, run_next hfirst (run_next hsecond hrun)⟩

end Polling

end IotDrive
