/-
A minion that is started again.

`MasterProxy` keeps a file that exists, but `GetBinFile` fills the file with zeros at the first
command of every process, since its flag is part of the process and not of the file.

Main definitions:

* `MasterProxy.openBinFile`, `Minion.boot`, `Minion.restart` — the constructor, and a new process
  on the file of the last one;
* `Minion.step` — commands and restarts, with the answers as events;
* `acknowledged` — the value of the last acknowledged write to each byte;
* `Faithful` — a read returned the last acknowledged values;
* `Kept` — a read asks for no byte that a restart has lost.

Main results:

* `Minion.Consistent.step` — the file holds what was acknowledged since the last restart;
* `reads_faithful_iff` — **restarts**: the reads of a history are faithful if and only if none asks
  for a lost byte.
-/

import IotDrive.ByteStore
import IotDrive.Library.History

set_option relaxedAutoImplicit false
set_option autoImplicit false

namespace IotDrive

open History

/-! ### Processes -/

/-- What the constructor of `MasterProxy` does with `bin_file`, given the file on the disk: a file
that exists is opened as it is, and a missing one is created first. -/
def MasterProxy.openBinFile (fs : FileSystem) (disk : Option (SparseFile UInt8)) : FStream :=
  match disk with
  | some file => { fs, file, pos := 0, eofbit := false, failbit := false }
  | none => { fs, file := .zeros 0, pos := 0, eofbit := false, failbit := false }

/-- A new process: the constructor runs, and the static flag is set. -/
def Minion.boot (fs : FileSystem) (disk : Option (SparseFile UInt8)) : Minion :=
  { binFile := MasterProxy.openBinFile fs disk, isInit := true }

/-- The process ends, and a new one is started on the same disk. -/
def Minion.restart (m : Minion) : Minion := boot m.binFile.fs (some m.binFile.file)

/-- The bytes that a request is about are inside of the 8 MiB of a minion. -/
def StoreRequest.InRange : StoreRequest → Prop
  | .read offset size _ => offset.toNat + size.toNat ≤ fileSize
  | .write offset size _ _ _ => offset.toNat + size.toNat ≤ fileSize

instance : ∀ r : StoreRequest, Decidable r.InRange
  | .read offset size _ => Nat.decLe (offset.toNat + size.toNat) fileSize
  | .write offset size _ _ _ => Nat.decLe (offset.toNat + size.toNat) fileSize

inductive MinionAction
  | execute (heap : Heap) (r : StoreRequest)
  | restart

inductive MinionEvent
  | answered (r : StoreRequest) (a : Answer)
  | restarted

/-- A command in range executes, or the minion is started again. -/
def Minion.step (m : Minion) : MinionAction → Option (Minion × List MinionEvent)
  | .execute heap r =>
      if r.InRange then some ((r.execute heap m).1, [.answered r (r.answer heap m)]) else none
  | .restart => some (m.restart, [.restarted])

/-! ### What was acknowledged -/

/-- The value of the last acknowledged write to each byte, if there was one. -/
def acknowledged : List MinionEvent → ℕ → Option UInt8
  | [] => fun _ => none
  | .answered (.write offset _ data _ _) a :: past =>
      if a.isSuccess then Extent.overwrite (acknowledged past) offset.toNat (data.map some)
      else acknowledged past
  | _ :: past => acknowledged past

/-- The events since the last restart. -/
def sinceRestart : List MinionEvent → List MinionEvent
  | [] => []
  | .restarted :: _ => []
  | e :: past => e :: sinceRestart past

/-- A read was answered with the last acknowledged value of each byte, and with zero for a byte
that was never written. -/
def Faithful (past : List MinionEvent) : MinionEvent → Prop
  | .answered (.read offset size _) a =>
      a = ⟨true, Extent.extract (fun p => (acknowledged past p).getD 0) offset.toNat size.toNat⟩
  | _ => True

/-- Every byte that the read asks for was written since the last restart, or else zero is right. -/
def Kept (past : List MinionEvent) : MinionEvent → Prop
  | .answered (.read offset size _) _ => ∀ k < size.toNat,
      (acknowledged (sinceRestart past) (offset.toNat + k)).isSome ∨
        (acknowledged past (offset.toNat + k)).getD 0 = 0
  | _ => True

theorem sinceRestart_answered (r : StoreRequest) (a : Answer) (past : List MinionEvent) :
    sinceRestart (.answered r a :: past) = .answered r a :: sinceRestart past := rfl

/-- What was acknowledged since the last restart is what was acknowledged last. -/
theorem acknowledged_eq_of_sinceRestart {past : List MinionEvent} {p : ℕ}
    (h : (acknowledged (sinceRestart past) p).isSome) :
    acknowledged (sinceRestart past) p = acknowledged past p := by
  -- induction on the past; below the last restart nothing is written since
  induction past with
  | nil => rfl
  | cons e past ih =>
      cases e with
      | restarted => exact absurd h (by simp [sinceRestart, acknowledged])
      | answered r a =>
          rw [sinceRestart_answered] at h ⊢
          cases r with
          | read offset size uid => exact ih h
          | write offset size data uid hdata =>
              simp only [acknowledged] at h ⊢
              split
              · rename_i ha
                rw [if_pos ha] at h
                rcases Extent.overwrite_cases (acknowledged (sinceRestart past)) offset.toNat
                  (data.map some) p with ⟨k, hk, rfl, hin⟩ | ⟨hp, hout⟩
                · rw [hin, Extent.overwrite_add _ _ _ hk]
                · rw [hout] at h ⊢
                  rw [ih h, Extent.overwrite_of_notMem _ _ _ hp]
              · rename_i ha
                rw [if_neg ha] at h
                exact ih h

/-! ### What the file holds -/

/-- The file, once it has been filled, holds what was acknowledged since the last restart. -/
def Minion.Recalls (volume : Volume) (m : Minion) (history : List MinionEvent) : Prop :=
  m.binFile.fs = volume.fs ∧ ∃ f, m.getBinFile = opened volume.fs f ∧ fileSize ≤ f.size ∧
    ∀ p < fileSize, f.byte p = (acknowledged (sinceRestart history) p).getD 0

namespace Minion

variable {volume : Volume} {m m' : Minion} {history : List MinionEvent}

/-- A new process on any disk, with nothing acknowledged since it started. -/
theorem recalls_boot (disk : Option (SparseFile UInt8))
    (h : acknowledged (sinceRestart history) = fun _ => none) :
    (boot volume.fs disk).Recalls volume history := by
  have hboot : boot volume.fs disk = start volume.fs (disk.getD (.zeros 0)) := by
    cases disk with
    | none => rfl
    | some f => rfl
  generalize disk.getD (.zeros 0) = f at hboot
  rw [hboot]
  refine ⟨rfl, zeroFilled f, getBinFile_start volume f, f.le_size_write_replicate fileSize 0, ?_⟩
  intro p hp
  rw [h]
  have hlen : p < (List.replicate fileSize (0 : UInt8)).length := by rwa [List.length_replicate]
  have hbyte := f.byte_write_add 0 (List.replicate fileSize 0) hlen
  rw [Nat.zero_add, List.getElem_replicate] at hbyte
  exact hbyte

end Minion

/-- What is in range can be served by a file that has been filled. -/
theorem StoreRequest.InRange.served {r : StoreRequest} (h : r.InRange) {f : SparseFile UInt8}
    (hf : fileSize ≤ f.size) (volume : Volume) : r.Served volume.fs f := by
  cases r with
  | read offset size uid =>
      have hin : offset.toNat + size.toNat ≤ fileSize := h
      exact ⟨le_trans (by omega) volume.fits.offset, Or.inr (hin.trans hf)⟩
  | write offset size data uid hdata =>
      have hin : offset.toNat + size.toNat ≤ fileSize := h
      exact ⟨le_trans (by omega) volume.fits.offset, volume.fits.takes _ _ _ (by omega)⟩

/-- The store and the acknowledged bytes change together. -/
theorem byte_store_eq {past : List MinionEvent} {f : SparseFile UInt8}
    (hf : ∀ p < fileSize, f.byte p = (acknowledged past p).getD 0) (r : StoreRequest)
    {a : Answer} (ha : a.isSuccess = true) {p : ℕ} (hp : p < fileSize) :
    (r.store f).byte p = (acknowledged (.answered r a :: past) p).getD 0 := by
  cases r with
  | read offset size uid => exact hf p hp
  | write offset size data uid hdata =>
      simp only [StoreRequest.store, acknowledged, if_pos ha]
      rcases Extent.overwrite_cases (acknowledged past) offset.toNat (data.map some) p with
        ⟨k, hk, rfl, hin⟩ | ⟨hout, hkeep⟩
      · rw [List.length_map] at hk
        rw [hin, f.byte_write_add offset.toNat data hk, List.getElem_map]
        rfl
      · rw [List.length_map] at hout
        rw [hkeep, f.byte_write_of_notMem offset.toNat data hout, hf p hp]

/-- A read that returned what the file holds is faithful exactly when it asked for no byte that a
restart has lost. -/
theorem faithful_iff_kept {past : List MinionEvent} {f : SparseFile UInt8}
    (hf : ∀ p < fileSize, f.byte p = (acknowledged (sinceRestart past) p).getD 0)
    {r : StoreRequest} (hr : r.InRange) :
    Faithful past (.answered r ⟨true, r.reply f⟩) ↔ Kept past (.answered r ⟨true, r.reply f⟩) := by
  cases r with
  | write offset size data uid hdata => exact Iff.rfl
  | read offset size uid =>
      have hin : offset.toNat + size.toNat ≤ fileSize := hr
      constructor
      · intro h k hk
        have hlist : Extent.extract f.byte offset.toNat size.toNat =
            Extent.extract (fun p => (acknowledged past p).getD 0) offset.toNat size.toNat :=
          congrArg Answer.data h
        have hbyte : f.byte (offset.toNat + k) = (acknowledged past (offset.toNat + k)).getD 0 := by
          have hget := congrArg (fun xs => xs[k]?) hlist
          simpa [Extent.extract, hk] using hget
        rw [hf _ (by omega)] at hbyte
        -- a byte that was not written since the restart reads as zero
        cases hsince : acknowledged (sinceRestart past) (offset.toNat + k) with
        | some v => exact Or.inl rfl
        | none =>
            rw [hsince] at hbyte
            exact Or.inr hbyte.symm
      · intro h
        refine congrArg (Answer.mk true) (Extent.extract_congr ?_)
        intro k hk
        rw [hf _ (by omega)]
        rcases h k hk with hsince | hzero
        · rw [acknowledged_eq_of_sinceRestart hsince]
        · cases hsince : acknowledged (sinceRestart past) (offset.toNat + k) with
          | some v =>
              have hsome : (acknowledged (sinceRestart past) (offset.toNat + k)).isSome := by
                rw [hsince]
                rfl
              rw [← hsince, acknowledged_eq_of_sinceRestart hsome]
          | none => exact hzero.symm

/-! ### Histories -/

namespace Minion

variable {volume : Volume} {m m' : Minion} {history : List MinionEvent}

/-- The file holds what was acknowledged since the last restart, and so far being faithful and
asking for no lost byte were the same. -/
structure Consistent (volume : Volume) (m : Minion) (history : List MinionEvent) : Prop where
  recalls : m.Recalls volume history
  every : Every (fun past e => Faithful past e ↔ Kept past e) history

theorem Consistent.step {a : MinionAction} {out : List MinionEvent}
    (h : m.Consistent volume history) (hstep : m.step a = some (m', out)) :
    m'.Consistent volume (out ++ history) := by
  obtain ⟨hfs, f, hf, hsize, hbyte⟩ := h.recalls
  cases a with
  | restart =>
      simp only [Minion.step, Option.some.injEq, Prod.mk.injEq] at hstep
      obtain ⟨rfl, rfl⟩ := hstep
      rw [Minion.restart, hfs]
      exact ⟨recalls_boot _ rfl, Iff.rfl, h.every⟩
  | execute heap r =>
      simp only [Minion.step, Option.ite_none_right_eq_some, Option.some.injEq,
        Prod.mk.injEq] at hstep
      obtain ⟨hr, rfl, rfl⟩ := hstep
      have hserved := hr.served hsize volume
      rw [r.answer_of_served heap hf hserved, r.execute_of_served heap hf hserved]
      refine ⟨⟨rfl, r.store f, getBinFile_opened _ _, ?_, ?_⟩, ?_, h.every⟩
      · cases r with
        | read offset size uid => exact hsize
        | write offset size data uid hdata =>
            exact hsize.trans (f.size_le_size_write offset.toNat data)
      · intro p hp
        exact byte_store_eq hbyte r rfl hp
      · exact faithful_iff_kept hbyte hr

theorem consistent_boot (volume : Volume) (disk : Option (SparseFile UInt8)) :
    (boot volume.fs disk).Consistent volume [] :=
  ⟨recalls_boot disk rfl, trivial⟩

/-- Every history of a minion is consistent. -/
theorem consistent_of_run (volume : Volume) {actions : List MinionAction}
    (hrun : Transition.run (logged Minion.step) (boot volume.fs none, []) actions =
      some (m, history)) : m.Consistent volume history :=
  History.invariant (fun _ _ _ _ _ h hstep => h.step hstep) (consistent_boot volume none) hrun

end Minion

/-- A command that writes the byte seven to the front of the file. -/
def writeSeven : StoreRequest := .write 0 1 [7] ⟨0, 0, 0, 0⟩ rfl

/-- A command that reads the first byte of the file. -/
def readBack : StoreRequest := .read 0 1 ⟨1, 0, 0, 0⟩

theorem acknowledged_writeSeven {a : Answer} (ha : a.isSuccess = true) (past : List MinionEvent) :
    acknowledged (.answered writeSeven a :: past) 0 = some 7 := by
  simp only [writeSeven, acknowledged, if_pos ha]
  rfl

/-- **Restarts.** In every history of commands in range and restarts, every read returns the last
acknowledged value of each byte if and only if no read asks for a byte whose last acknowledged
write, of a value other than zero, lies before the last restart. -/
theorem reads_faithful_iff (volume : Volume) {actions : List MinionAction} {m : Minion}
    {history : List MinionEvent}
    (hrun : Transition.run (logged Minion.step) (Minion.boot volume.fs none, []) actions =
      some (m, history)) : Every Faithful history ↔ Every Kept history :=
  Every.congr (Minion.consistent_of_run volume hrun).every

/-- A byte is written again after a restart, and then read. -/
def rewritten : List MinionAction :=
  [.execute (fun _ _ => 0) writeSeven, .restart, .execute (fun _ _ => 0) writeSeven,
    .execute (fun _ _ => 0) readBack]

/-- What is observed of it. -/
def rewrittenHistory (a b c : Answer) : List MinionEvent :=
  [.answered readBack c, .answered writeSeven b, .restarted, .answered writeSeven a]

theorem reads_faithful_iff_rewritten : ∃ m a b c,
    Transition.run (logged Minion.step) (Minion.boot Volume.ext4.fs none, []) rewritten =
      some (m, rewrittenHistory a b c) ∧ Every Faithful (rewrittenHistory a b c) := by
  obtain ⟨m, a, b, c, hrun, hb⟩ : ∃ m a b c,
      Transition.run (logged Minion.step) (Minion.boot Volume.ext4.fs none, []) rewritten =
        some (m, rewrittenHistory a b c) ∧ b.isSuccess = true :=
    ⟨_, _, _, _, rfl, StoreRequest.isSuccess_answer _ _ _⟩
  refine ⟨m, a, b, c, hrun, (reads_faithful_iff .ext4 hrun).2 ⟨?_, trivial, trivial, trivial, trivial⟩⟩
  intro k hk
  have hacked := acknowledged_writeSeven hb []
  obtain rfl : k = 0 := Nat.lt_one_iff.1 hk
  exact Or.inl (Option.isSome_iff_exists.2 ⟨7, hacked⟩)

/-- A byte written before a restart is read as zero after it. -/
theorem not_faithful_after_restart : ∃ m a b,
    Transition.run (logged Minion.step) (Minion.boot Volume.ext4.fs none, [])
        [.execute (fun _ _ => 0) writeSeven, .restart, .execute (fun _ _ => 0) readBack] =
      some (m, [.answered readBack b, .restarted, .answered writeSeven a]) ∧
    ¬ Every Faithful [.answered readBack b, .restarted, .answered writeSeven a] := by
  obtain ⟨m, a, b, hrun, ha⟩ : ∃ m a b,
      Transition.run (logged Minion.step) (Minion.boot Volume.ext4.fs none, [])
        [.execute (fun _ _ => 0) writeSeven, .restart, .execute (fun _ _ => 0) readBack] =
      some (m, [.answered readBack b, .restarted, .answered writeSeven a]) ∧ a.isSuccess = true :=
    ⟨_, _, _, rfl, StoreRequest.isSuccess_answer _ _ _⟩
  refine ⟨m, a, b, hrun, ?_⟩
  intro hfaithful
  have hkept := (Every.congr (Minion.consistent_of_run .ext4 hrun).every).1 hfaithful
  have hacked : acknowledged [.restarted, .answered writeSeven a] 0 = some 7 :=
    acknowledged_writeSeven ha []
  rcases hkept.1 0 (by decide) with hsince | hzero
  · exact Bool.false_ne_true hsince
  · rw [show (0 : UInt64).toNat + 0 = 0 from rfl, hacked] at hzero
    exact absurd hzero (by decide)

end IotDrive
