/-
The mirror, when the minions progress on their own.

`WriteCommand::Execute` sends its two datagrams and does not wait.  Each minion serves what was
sent to it in the order of sending, at its own pace.  Once everything has been served, both copies
of every address hold what was written there last.

Main definitions:

* `Backlog` — the minions with the datagrams that wait for them;
* `Backlog.step` — a write is issued, or a minion serves a datagram;
* `lastWritten` — the last byte written to an address;
* `recover` — the device read off the files of two minions.

Main results:

* `Backlog.settles_step` — a step keeps the settled minions a mirror of what was issued;
* `copies_eq_lastWritten` — **the mirror and the recovery from any two files**.
-/

import IotDrive.FlatDisk
import IotDrive.Library.Fifo
import IotDrive.Library.Transition

set_option relaxedAutoImplicit false
set_option autoImplicit false

namespace IotDrive

open Mirroring

/-- A datagram that waits at a minion, with what the heap and the factory will give to the calls
that serve it. -/
structure Pending where
  datagram : Datagram
  heap : Heap
  fresh : ThreadSafeUID

/-- A minion serves a datagram. -/
def Minion.serveNext (m : Minion) (p : Pending) : Option Minion :=
  (m.serve p.heap p.fresh p.datagram).map Prod.fst

/-- The minions and the datagrams that wait for them, in the order of sending. -/
abbrev Backlog := Fifo ℕ Minion Pending

/-- What happens: a write is issued, or a minion serves its next datagram. -/
inductive WriteAction
  | issue (env : Env) (offset : UInt64) (data : List UInt8)
  | serve (minion : ℕ)

namespace Backlog

/-- The start, with files of zeros of any size. -/
def start (volumes : ℕ → Volume) (sizes : ℕ → ℕ) : Backlog :=
  { node := fun i => Minion.start (volumes i).fs (.zeros (sizes i)), queue := fun _ => [] }

/-- One step: `WriteCommand::Execute` sends to both places, or a minion executes a
`MinionWriteCmd`. -/
def step (s : Backlog) : WriteAction → Option Backlog
  | .issue env offset data => do
      let (og, backup) ← WriteCommand.execute (env.heap 0) env.ogUid env.backupUid offset
        (UInt32.ofNat data.length) (some data)
      return (s.issue og.1 ⟨og.2.bytes, env.heap 1, env.fresh 1⟩).issue backup.1
        ⟨backup.2.bytes, env.heap 2, env.fresh 2⟩
  | .serve i => s.serve Minion.serveNext i

end Backlog

/-- The array after the writes issued by the actions. -/
def writtenBy (disk : FlatDisk) : List WriteAction → FlatDisk
  | [] => disk
  | .issue _ offset data :: rest => writtenBy (Extent.overwrite disk offset.toNat data) rest
  | .serve _ :: rest => writtenBy disk rest

/-- The last byte written to the address `a`, zero if there is none. -/
def lastWritten (actions : List WriteAction) (a : ℕ) : UInt8 := writtenBy FlatDisk.zero actions a

/-- The byte of the address `a`, read off the files without the one of the minion `lost`. -/
def recover (lost : ℕ) (files : ℕ → ℕ → UInt8) (a : ℕ) : UInt8 :=
  match Raid01.offsetToProxy (UInt64.ofNat a) with
  | some (p, b) => if p.1 = lost then files b.1 b.2.toNat else files p.1 p.2.toNat
  | none => 0

/-- Every issued write lies inside of one stripe of the device. -/
def WriteAction.Fits : WriteAction → Prop
  | .issue _ offset data =>
      offset.toNat < memory ∧ offset.toNat % minionSize + data.length ≤ minionSize
  | .serve _ => True

namespace Backlog

variable {s s' : Backlog} {minions minions' : Minions} {disk : FlatDisk}

/-! ### Issuing -/

/-- Issuing a request acts on the settled minions as delivering it at once. -/
theorem settled_issue_of_deliver {heap : Heap} {fresh : ThreadSafeUID} {sent : Sent}
    {response : Transmission} (h : ∀ i, s.settled Minion.serveNext i = some (minions i))
    (hdeliver : minions.deliver heap fresh sent = some (minions', response)) (i : ℕ) :
    (s.issue sent.1 ⟨sent.2.bytes, heap, fresh⟩).settled Minion.serveNext i =
      some (minions' i) := by
  rw [Minions.deliver, Option.bind_eq_bind, Option.bind_eq_some_iff] at hdeliver
  obtain ⟨⟨m, r⟩, hserve, heq⟩ := hdeliver
  cases heq
  rw [Fifo.settled_issue]
  by_cases hi : i = sent.1
  · subst hi
    simp only [Function.update_self, h, Option.bind_some, Minion.serveNext, hserve,
      Option.map_some]
  · rw [Function.update_of_ne hi, Function.update_of_ne hi, h]

/-- Issuing a write acts on the settled minions as executing it at once. -/
theorem settled_issue_of_execute {env : Env} {offset : UInt64} {data reply : List UInt8}
    (h : ∀ i, s.settled Minion.serveNext i = some (minions i))
    (hexec : minions.execute env (.write offset data) = some (minions', reply))
    (hstep : s.step (.issue env offset data) = some s') (i : ℕ) :
    s'.settled Minion.serveNext i = some (minions' i) := by
  obtain ⟨⟨og, backup⟩, hcommand, hexec⟩ := Option.bind_eq_some_iff.1 hexec
  obtain ⟨⟨minions₁, r₁⟩, hog, hexec⟩ := Option.bind_eq_some_iff.1 hexec
  obtain ⟨⟨minions₂, r₂⟩, hbackup, heq⟩ := Option.bind_eq_some_iff.1 hexec
  cases heq
  obtain ⟨⟨og', backup'⟩, hcommand', heq⟩ := Option.bind_eq_some_iff.1 hstep
  rw [hcommand] at hcommand'
  cases hcommand'
  cases heq
  exact settled_issue_of_deliver (settled_issue_of_deliver h hog) hbackup i

/-! ### Runs -/

/-- The minions will be ready and mirror the array once their datagrams are served. -/
def Settles (s : Backlog) (disk : FlatDisk) : Prop :=
  ∃ minions : Minions, (∀ i, s.settled Minion.serveNext i = some (minions i)) ∧
    minions.Ready ∧ Mirrors place device minions.bytes disk

theorem settles_start (volumes : ℕ → Volume) (sizes : ℕ → ℕ) :
    (start volumes sizes).Settles FlatDisk.zero :=
  ⟨fun i => Minion.start (volumes i).fs (.zeros (sizes i)), fun _ => rfl,
    fun _ => Minion.ready_start _ _, fun _ _ _ => rfl⟩

/-- A step keeps the settled minions a mirror of what was issued. -/
theorem settles_step (a : WriteAction) (h : s.Settles disk) (ha : a.Fits)
    (hstep : s.step a = some s') : s'.Settles (writtenBy disk [a]) := by
  obtain ⟨minions, hsettled, hready, hmirror⟩ := h
  cases a with
  | issue env offset data =>
      have hfit : (Request.write offset data).FitsStripe := ha
      obtain ⟨minions', hexec, hready', hmirror'⟩ := hready.refines hmirror env hfit
      exact ⟨minions', settled_issue_of_execute hsettled hexec hstep, hready', hmirror'⟩
  | serve i =>
      have hkeep := Fifo.settled_serve Minion.serveNext hstep
      exact ⟨minions, fun j => hkeep ▸ hsettled j, hready, hmirror⟩

theorem writtenBy_cons (disk : FlatDisk) (a : WriteAction) (rest : List WriteAction) :
    writtenBy disk (a :: rest) = writtenBy (writtenBy disk [a]) rest := by
  cases a <;> rfl

/-- After a run the minions settle to a mirror of what was issued in it. -/
theorem settles_run (actions : List WriteAction) (h : s.Settles disk)
    (hfit : ∀ a ∈ actions, a.Fits) (hrun : Transition.run step s actions = some s') :
    s'.Settles (writtenBy disk actions) := by
  -- induction on the run; serving changes the minions but not what they settle to
  induction actions generalizing s disk with
  | nil =>
      cases hrun
      exact h
  | cons a rest ih =>
      obtain ⟨t, ht, hrest⟩ := Transition.run_cons_eq_some.1 hrun
      rw [writtenBy_cons]
      exact ih (settles_step a h (hfit a (List.mem_cons_self ..)) ht)
        (fun b hb => hfit b (List.mem_cons_of_mem _ hb)) hrest

/-- Minions with nothing left to serve mirror the array. -/
theorem Settles.mirrors (h : s.Settles disk) (hdone : ∀ i, s.queue i = []) :
    Mirrors place device (Minions.bytes s.node) disk := by
  obtain ⟨minions, hsettled, -, hmirror⟩ := h
  have hnode : s.node = minions := by
    funext i
    have := (Fifo.settled_of_empty Minion.serveNext (hdone i)).symm.trans (hsettled i)
    exact Option.some.inj this
  rw [hnode]
  exact hmirror

end Backlog

/-- The copy that `recover` reads: the backup if the minion of the primary is lost. -/
def recoveryCopy (lost a : ℕ) : Bool := decide ((primary a).1 = lost)

theorem recoveryCopy_ne_lost (lost a : ℕ) : (place (recoveryCopy lost a) a).1 ≠ lost := by
  by_cases hlost : (primary a).1 = lost
  · simp only [recoveryCopy, hlost, decide_true, place, if_true]
    exact fun heq => Minions.backup_ne_primary a (heq.trans hlost.symm)
  · rw [recoveryCopy, decide_eq_false hlost, place, if_neg Bool.false_ne_true]
    exact hlost

theorem recover_eq_place (lost : ℕ) (files : ℕ → ℕ → UInt8) {a : ℕ} (ha : a < memory) :
    recover lost files a =
      files (place (recoveryCopy lost a) a).1 (place (recoveryCopy lost a) a).2 := by
  obtain ⟨p, b, hplace, hp, hb⟩ := Raid01.offsetToProxy_ofNat ha
  have hidx : p.1 = (primary a).1 := congrArg Prod.fst hp
  rw [recover, hplace]
  dsimp only
  by_cases hlost : (primary a).1 = lost
  · rw [if_pos (hidx.trans hlost), recoveryCopy, decide_eq_true hlost, place, if_pos rfl, ← hb]
    rfl
  · rw [if_neg (hidx ▸ hlost), recoveryCopy, decide_eq_false hlost, place,
      if_neg Bool.false_ne_true, ← hp]
    rfl

/-- Files that mirror an array give it back without any one of them. -/
theorem recover_eq {minions : Minions} {disk : FlatDisk}
    (h : Mirrors place device minions.bytes disk) {lost : ℕ} {files : ℕ → ℕ → UInt8}
    (hfiles : ∀ i ≠ lost, files i = (minions i).byte) {a : ℕ} (ha : a < memory) :
    recover lost files a = disk a := by
  rw [recover_eq_place lost files ha]
  exact h.recover {site | site.1 = lost} (recoveryCopy lost)
    (fun a _ => recoveryCopy_ne_lost lost a)
    (fun site hsite => congrFun (hfiles site.1 hsite) site.2) a ha

/-- **The mirror invariant.** In every run of writes inside of the stripes, whatever the order in
which the minions progress: once everything has been served, both copies of every address hold the
byte written there last, and any two of the three files determine the whole device. -/
theorem copies_eq_lastWritten (volumes : ℕ → Volume) (sizes : ℕ → ℕ) (actions : List WriteAction)
    {s : Backlog} (hfit : ∀ a ∈ actions, a.Fits)
    (hrun : Transition.run Backlog.step (Backlog.start volumes sizes) actions = some s)
    (hdone : ∀ i, s.queue i = []) :
    (∀ a < memory, ∃ p b, Raid01.offsetToProxy (UInt64.ofNat a) = some (p, b) ∧
      (s.node p.1).byte p.2.toNat = lastWritten actions a ∧
      (s.node b.1).byte b.2.toNat = lastWritten actions a) ∧
    ∀ lost files, (∀ i ≠ lost, files i = (s.node i).byte) →
      ∀ a < memory, recover lost files a = lastWritten actions a := by
  have hmirror := (Backlog.settles_run actions (Backlog.settles_start volumes sizes) hfit hrun).mirrors
    hdone
  refine ⟨?_, fun lost files hfiles a ha => recover_eq hmirror hfiles ha⟩
  intro a ha
  obtain ⟨p, b, hplace, hp, hb⟩ := Raid01.offsetToProxy_ofNat ha
  refine ⟨p, b, hplace, ?_, ?_⟩
  · rw [lastWritten, ← hmirror false a ha]
    exact congrArg (Minions.bytes s.node) hp
  · rw [lastWritten, ← hmirror true a ha]
    exact congrArg (Minions.bytes s.node) hb

/-! ### A run -/

namespace Backlog

variable {s : Backlog}

/-- The minions can serve every datagram that waits for them. -/
def Servable (s : Backlog) : Prop :=
  ∀ i, ∀ p ∈ s.queue i, ∀ m : Minion, ∃ m', m.serveNext p = some m'

theorem servable_start (volumes : ℕ → Volume) (sizes : ℕ → ℕ) : (start volumes sizes).Servable :=
  fun _ _ hp => absurd hp List.not_mem_nil

theorem Servable.issue (h : s.Servable) (i : ℕ) {p : Pending}
    (hp : ∀ m : Minion, ∃ m', m.serveNext p = some m') :
    Servable (Fifo.issue s i p) := by
  intro j q hq
  dsimp only [Fifo.issue] at hq
  by_cases hj : j = i
  · subst hj
    rw [Function.update_self, List.mem_append, List.mem_singleton] at hq
    rcases hq with hq | rfl
    · exact h j q hq
    · exact hp
  · rw [Function.update_of_ne hj] at hq
    exact h j q hq

theorem length_queue_issue (s : Backlog) (i j : ℕ) (p : Pending) :
    ((Fifo.issue s i p).queue j).length = (s.queue j).length + if j = i then 1 else 0 := by
  by_cases hj : j = i
  · subst hj
    simp [Fifo.issue]
  · simp [Fifo.issue, hj]

/-- A write inside of the device can always be issued; one datagram more waits at both places. -/
theorem step_issue (h : s.Servable) (env : Env) (offset : UInt64) (data : List UInt8)
    (ho : offset.toNat < memory) (hlen : data.length ≤ memory) :
    ∃ s', s.step (.issue env offset data) = some s' ∧ s'.Servable ∧
      ∀ j, (s'.queue j).length = (s.queue j).length + (if j = (primary offset.toNat).1 then 1 else 0) +
        if j = (backup offset.toNat).1 then 1 else 0 := by
  obtain ⟨p, b, hplace, hp, hb⟩ := Raid01.offsetToProxy_eq ho
  have hpidx : p.1 = (primary offset.toNat).1 := congrArg Prod.fst hp
  have hbidx : b.1 = (backup offset.toNat).1 := congrArg Prod.fst hb
  have hdata := Payload.of_le hlen
  have hserved : ∀ heap at' uid heap' fresh (m : Minion), ∃ m', m.serveNext
      ⟨(MinionProxy.writeRequest heap at' (UInt32.ofNat data.length) (some data) uid).bytes, heap',
        fresh⟩ = some m' := by
    intro heap at' uid heap' fresh m
    rw [Minion.serveNext, m.serve_writeRequest heap' fresh heap at' hdata uid]
    exact ⟨_, rfl⟩
  simp only [step, WriteCommand.execute, hplace, Option.bind_eq_bind, Option.bind_some,
    Option.pure_def]
  refine ⟨_, rfl, (h.issue p.1 (hserved _ _ _ _ _)).issue b.1 (hserved _ _ _ _ _), ?_⟩
  intro j
  rw [length_queue_issue, length_queue_issue, hpidx, hbidx]

/-- A minion for which a datagram waits can serve it. -/
theorem step_serve (h : s.Servable) (i : ℕ) (hi : 0 < (s.queue i).length) :
    ∃ s', s.step (.serve i) = some s' ∧ s'.Servable ∧
      ∀ j, (s'.queue j).length = (s.queue j).length - if j = i then 1 else 0 := by
  obtain ⟨p, rest, hqueue⟩ := List.exists_cons_of_length_pos hi
  obtain ⟨m, hm⟩ := h i p (hqueue ▸ List.mem_cons_self) (s.node i)
  refine ⟨_, by simp only [step, Fifo.serve, hqueue, hm, Option.map_some]; rfl, ?_, ?_⟩
  · intro j q hq
    dsimp only at hq
    by_cases hj : j = i
    · subst hj
      rw [Function.update_self] at hq
      exact h j q (hqueue ▸ List.mem_cons_of_mem _ hq)
    · rw [Function.update_of_ne hj] at hq
      exact h j q hq
  · intro j
    by_cases hj : j = i
    · subst hj
      simp [hqueue]
    · simp [hj]

end Backlog

/-- A write to the second stripe, one over its second byte, and one to the first stripe.  The minion 2
has served both of its writes before the minion 1 serves the second of its three. -/
def overlappingWrites : List WriteAction :=
  [.issue Env.zero 4194304 [5, 6, 7], .serve 1, .issue Env.zero 4194305 [8], .issue Env.zero 0 [9],
    .serve 2, .serve 2, .serve 0, .serve 1, .serve 1]

theorem overlappingWrites_served :
    ∃ s, Transition.run Backlog.step (Backlog.start (fun _ => .ext4) fun _ => 0)
      overlappingWrites = some s ∧ ∀ i, s.queue i = [] := by
  have h0 := Backlog.servable_start (fun _ => .ext4) fun _ => 0
  have hq0 : ∀ i, ((Backlog.start (fun _ => .ext4) fun _ => 0).queue i).length = 0 := fun _ => rfl
  obtain ⟨s1, hs1, h1, hq1⟩ := Backlog.step_issue h0 Env.zero 4194304 [5, 6, 7] (by decide) (by decide)
  obtain ⟨s2, hs2, h2, hq2⟩ := Backlog.step_serve h1 1 (by rw [hq1]; decide)
  obtain ⟨s3, hs3, h3, hq3⟩ := Backlog.step_issue h2 Env.zero 4194305 [8] (by decide) (by decide)
  obtain ⟨s4, hs4, h4, hq4⟩ := Backlog.step_issue h3 Env.zero 0 [9] (by decide) (by decide)
  simp only [hq3, hq2, hq1, hq0, show (primary (4194304 : UInt64).toNat).1 = 1 from rfl,
    show (backup (4194304 : UInt64).toNat).1 = 2 from rfl,
    show (primary (4194305 : UInt64).toNat).1 = 1 from rfl,
    show (backup (4194305 : UInt64).toNat).1 = 2 from rfl,
    show (primary (0 : UInt64).toNat).1 = 0 from rfl,
    show (backup (0 : UInt64).toNat).1 = 1 from rfl] at hq4
  obtain ⟨s5, hs5, h5, hq5⟩ := Backlog.step_serve h4 2 (by rw [hq4]; decide)
  obtain ⟨s6, hs6, h6, hq6⟩ := Backlog.step_serve h5 2 (by rw [hq5, hq4]; decide)
  obtain ⟨s7, hs7, h7, hq7⟩ := Backlog.step_serve h6 0 (by rw [hq6, hq5, hq4]; decide)
  obtain ⟨s8, hs8, h8, hq8⟩ := Backlog.step_serve h7 1 (by rw [hq7, hq6, hq5, hq4]; decide)
  obtain ⟨s9, hs9, -, hq9⟩ := Backlog.step_serve h8 1 (by rw [hq8, hq7, hq6, hq5, hq4]; decide)
  refine ⟨s9, ?_, ?_⟩
  · simp only [overlappingWrites, Transition.run_cons, hs1, hs2, hs3, hs4, hs5, hs6, hs7, hs8, hs9,
      Option.bind_some, Transition.run_nil]
  · intro i
    rw [← List.length_eq_zero_iff, hq9, hq8, hq7, hq6, hq5, hq4]
    split_ifs <;> omega

/-- After them every written address can be read off the files without the minion 1. -/
theorem copies_eq_lastWritten_overlapping :
    ∃ s, Transition.run Backlog.step (Backlog.start (fun _ => .ext4) fun _ => 0)
        overlappingWrites = some s ∧
      [0, 4194304, 4194305, 4194306].map (recover 1 fun i => (s.node i).byte) = [9, 5, 8, 7] := by
  obtain ⟨s, hrun, hdone⟩ := overlappingWrites_served
  refine ⟨s, hrun, ?_⟩
  have hfit : ∀ a ∈ overlappingWrites, a.Fits := by simp [overlappingWrites, WriteAction.Fits]; decide
  have hcopies := (copies_eq_lastWritten (fun _ => .ext4) (fun _ => 0) _ hfit hrun hdone).2 1
    (fun i => (s.node i).byte) (fun _ _ => rfl)
  have hlast : [0, 4194304, 4194305, 4194306].map (lastWritten overlappingWrites) = [9, 5, 8, 7] := by
    decide
  rw [← hlast]
  exact List.map_congr_left fun a ha => hcopies a (by revert a; decide)

end IotDrive
