/-
The block device as the kernel sees it.

`serve_nbd` turns the commands of the kernel into calls of `NBDRead` and `NBDWrite`, and these go to
the drive.  The replies that the kernel reads are, byte for byte, those of a server whose operations
work on one array in memory.

Main definitions:

* `NBD.aop` — `NBD::m_aop`, by what the calls return;
* `FlatDisk.aop` — the operations on an array;
* `Answers` — a sequence of calls returns what an array returns.

Main results:

* `answers_of_every` — the calls on the drive answer as an array;
* `performAll_eq` — so the replies of the server are those of a server on an array;
* `kernel_sees_array` — **the whole way from the minions to the kernel**.
-/

import IotDrive.Buse
import IotDrive.Drive

set_option relaxedAutoImplicit false
set_option autoImplicit false

namespace IotDrive

open History Mirroring

/-! ### Operations -/

/-- `NBD::m_aop`, when the call number `i` of `NBDRead` and `NBDWrite` returns `returned i`; the state
is the number of calls that were made. -/
def NBD.aop (returned : ℕ → NBD.Returned) : BuseOperations ℕ where
  read := some fun i _ _ => (i + 1, (returned i).buf, Int32.ofInt (returned i).ret)
  write := some fun i _ _ _ => (i + 1, Int32.ofInt (returned i).ret)
  disc := some fun i => i
  flush := some fun i => (i, 0)
  trim := some fun i _ _ => (i, 0)

/-- The same operations on an array in memory. -/
def FlatDisk.aop : BuseOperations FlatDisk where
  read := some fun disk len from' => (disk, (disk.execute (.read from' len)).2, 0)
  write := some fun disk data _ from' => ((disk.execute (.write from' data)).1, 0)
  disc := some fun disk => disk
  flush := some fun disk => (disk, 0)
  trim := some fun disk _ _ => (disk, 0)

/-- The call that is made for the command. -/
def NbdCommand.request (c : NbdCommand) : Option Request :=
  match c.kind with
  | .read => some (.read c.from' c.len)
  | .write => some (.write c.from' c.data)
  | _ => none

def NbdExchange.request (x : NbdExchange) : Option Request := x.command.request

/-! ### Calls that answer as an array -/

/-- One call returns zero, and a read the bytes of the array. -/
def Request.AnsweredAs (r : Request) (disk : FlatDisk) (result : NBD.Returned) : Prop :=
  result.ret = 0 ∧ ∀ offset size, r = .read offset size →
    result.buf = Extent.extract disk offset.toNat size.toNat

/-- Calls, one after another, return what the array returns. -/
def Answers (disk : FlatDisk) : List (Request × NBD.Returned) → Prop
  | [] => True
  | (r, result) :: rest => r.AnsweredAs disk result ∧ Answers (disk.execute r).1 rest

/-- The array after the calls. -/
def FlatDisk.after (disk : FlatDisk) (calls : List (Request × NBD.Returned)) : FlatDisk :=
  calls.foldl (fun disk x => (disk.execute x.1).1) disk

theorem answers_concat {disk : FlatDisk} {calls : List (Request × NBD.Returned)} {r : Request}
    {result : NBD.Returned} (h : Answers disk calls) (hlast : r.AnsweredAs (disk.after calls) result) :
    Answers disk (calls ++ [(r, result)]) := by
  induction calls generalizing disk with
  | nil => exact ⟨hlast, trivial⟩
  | cons x calls ih => exact ⟨h.1, ih h.2 hlast⟩

/-- The calls that returned in a history, the first of them first. -/
def returnedCalls : List DriveEvent → List (Request × NBD.Returned)
  | [] => []
  | .returned r result :: past => returnedCalls past ++ [(r, result)]
  | _ :: past => returnedCalls past

theorem written_eq (disk : FlatDisk) (history : List DriveEvent) :
    written disk history = disk.after (returnedCalls history) := by
  induction history with
  | nil => rfl
  | cons e past ih =>
      cases e with
      | called r => exact ih
      | storage e => exact ih
      | returned r result =>
          rw [returnedCalls, FlatDisk.after, List.foldl_append, written, ih]
          rfl

/-- The calls on the drive answer as an array. -/
theorem answers_of_every {disk : FlatDisk} {history : List DriveEvent}
    (h : Every (Returns disk) history) : Answers disk (returnedCalls history) := by
  induction history with
  | nil => trivial
  | cons e past ih =>
      cases e with
      | called r => exact ih h.2
      | storage e => exact ih h.2
      | returned r result =>
          have hreturn : Returns disk past (.returned r result) := h.1
          refine answers_concat (ih h.2) ?_
          rw [← written_eq]
          exact hreturn

/-! ### Two servers -/

section Servers

variable (returned : ℕ → NBD.Returned) (disk : FlatDisk) (i : ℕ) {c : NbdCommand}

/-- A command that makes no call changes nothing on either side. -/
theorem perform_of_request_none (h : c.request = none) (heap : ℕ → UInt8) :
    c.perform (NBD.aop returned) heap i = (i, (c.perform FlatDisk.aop heap disk).2) ∧
      (c.perform FlatDisk.aop heap disk).1 = disk := by
  unfold NbdCommand.request at h
  unfold NbdCommand.perform
  cases hkind : c.kind with
  | read =>
      rw [hkind] at h
      cases h
  | write =>
      rw [hkind] at h
      cases h
  | disc => exact ⟨rfl, rfl⟩
  | flush => exact ⟨rfl, rfl⟩
  | trim => exact ⟨rfl, rfl⟩

/-- A call that answers as the array does: the reply is the same, and the array executes it. -/
theorem perform_of_request {r : Request} (h : c.request = some r)
    (hanswer : r.AnsweredAs disk (returned i)) (heap : ℕ → UInt8) :
    c.perform (NBD.aop returned) heap i = (i + 1, (c.perform FlatDisk.aop heap disk).2) ∧
      (c.perform FlatDisk.aop heap disk).1 = (disk.execute r).1 := by
  obtain ⟨hret, hdata⟩ := hanswer
  have hzero : Int32.ofInt (returned i).ret = 0 := by
    rw [hret]
    rfl
  unfold NbdCommand.request at h
  unfold NbdCommand.perform
  cases hkind : c.kind with
  | read =>
      rw [hkind] at h
      cases h
      have hbuf : (returned i).buf = (disk.execute (.read c.from' c.len)).2 := hdata _ _ rfl
      refine ⟨?_, rfl⟩
      simp only [NBD.aop, FlatDisk.aop, hzero, hbuf]
  | write =>
      rw [hkind] at h
      cases h
      refine ⟨?_, rfl⟩
      simp only [NBD.aop, FlatDisk.aop, hzero]
  | disc =>
      rw [hkind] at h
      cases h
  | flush =>
      rw [hkind] at h
      cases h
  | trim =>
      rw [hkind] at h
      cases h

/-- A server whose calls answer as an array writes the replies of a server on that array. -/
theorem performAll_eq (xs : List NbdExchange)
    (h : Answers disk
      (((xs.filterMap NbdExchange.request).zipIdx i).map fun x => (x.1, returned x.2))) :
    (performAll (NBD.aop returned) xs i).2 = (performAll FlatDisk.aop xs disk).2 := by
  -- induction on the commands; a call counts on one side, and executes on the other
  induction xs generalizing disk i with
  | nil => rfl
  | cons x xs ih =>
      simp only [performAll]
      cases hrequest : x.request with
      | none =>
          rw [List.filterMap_cons_none hrequest] at h
          obtain ⟨hperform, hdisk⟩ := perform_of_request_none returned disk i hrequest x.turn.heap
          rw [hperform, hdisk, ih disk i h]
      | some r =>
          rw [List.filterMap_cons_some hrequest, List.zipIdx_cons, List.map_cons] at h
          obtain ⟨hperform, hdisk⟩ := perform_of_request returned disk i hrequest h.1 x.turn.heap
          rw [hperform, hdisk, ih _ (i + 1) h.2]

end Servers

/-! ### The result -/

/-- **The kernel sees an array.** In every run of the drive under the conditions, on minions whose
copies mirror an array at the start: if its calls are those that the server makes for some commands,
and return what they return to the server, then the server writes, byte for byte, the replies of a
server on the array. -/
theorem kernel_sees_array {minions : Minions} {disk : FlatDisk} {actions : List Drive.Action}
    {t : Drive} {history : List DriveEvent} (hready : minions.Ready)
    (hrun : Transition.run (logged Drive.step) (.start minions, []) actions = some (t, history))
    (hbound : t.storage.master.constructed < 2 ^ 32)
    (hmirrors : Mirrors place device minions.bytes disk) (hord : Every Drive.Orderly history)
    {xs : List NbdExchange} {returned : ℕ → NBD.Returned}
    (hcalls : returnedCalls history =
      (xs.filterMap NbdExchange.request).zipIdx.map fun x => (x.1, returned x.2))
    (rest : List UInt8) :
    (serveNbd (NBD.aop returned) (xs.map (·.turn)) 0
        (xs.flatMap (·.command.format) ++ rest)).output =
      (serveNbd FlatDisk.aop (xs.map (·.turn)) disk
        (xs.flatMap (·.command.format) ++ rest)).output := by
  have hanswers := answers_of_every (serial_run hready hrun hbound hmirrors hord).every
  rw [hcalls] at hanswers
  rw [serveNbd_exchanges, serveNbd_exchanges, performAll_eq returned disk 0 xs hanswers]

theorem length_arrayWrite : ([1, 2, 3, 4, 5, 6, 7, 8] : List UInt8).length = 8 := rfl

/-- The commands behind the two calls of `arrayRun`. -/
def arrayWrite : NbdCommand where
  kind := .write
  handle := [0, 0, 0, 0, 0, 0, 0, 1]
  from' := 4
  len := 8
  data := [1, 2, 3, 4, 5, 6, 7, 8]
  length_handle := rfl
  length_data := length_arrayWrite

def arrayRead : NbdCommand where
  kind := .read
  handle := [0, 0, 0, 0, 0, 0, 0, 2]
  from' := 2
  len := 4
  data := []
  length_handle := rfl
  length_data := rfl

theorem delivers_arrayWrite : Turn.Delivers ⟨some 28, [3, 5], fun _ => 0⟩ arrayWrite :=
  ⟨⟨28, rfl, le_rfl⟩, fun _ => ⟨[3, 5], List.prefix_refl _, by decide, by decide⟩⟩

theorem delivers_arrayRead : Turn.Delivers ⟨some 28, [], fun _ => 0⟩ arrayRead :=
  ⟨⟨28, rfl, le_rfl⟩, fun h => by cases h⟩

theorem arrayWrite_ne_disc : arrayWrite.kind ≠ .disc := by decide

theorem arrayRead_ne_disc : arrayRead.kind ≠ .disc := by decide

def arrayExchanges : List NbdExchange :=
  [⟨_, arrayWrite, delivers_arrayWrite, arrayWrite_ne_disc⟩,
    ⟨_, arrayRead, delivers_arrayRead, arrayRead_ne_disc⟩]

/-- What these calls return. -/
def arrayReturned : ℕ → NBD.Returned
  | 0 => ⟨0, [83, 117, 99, 99, 101, 115, 115, 0], []⟩
  | _ => ⟨0, [0, 0, 1, 2], []⟩

theorem kernel_sees_array_arrayRun :
    (serveNbd (NBD.aop arrayReturned) (arrayExchanges.map (·.turn)) 0
        (arrayExchanges.flatMap (·.command.format) ++ [])).output =
      (serveNbd FlatDisk.aop (arrayExchanges.map (·.turn)) .zero
        (arrayExchanges.flatMap (·.command.format) ++ [])).output := by
  obtain ⟨t, hrun, hbound⟩ := run_arrayRun
  have hready : Minions.opened.Ready := fun _ => Minion.ready_opened
  have hmirrors : Mirrors place device Minions.opened.bytes
      FlatDisk.zero :=
    fun _ _ _ => rfl
  have hord := (undisturbed_run hready hrun hbound (by decide) (by decide)).every
  exact kernel_sees_array hready hrun hbound hmirrors hord rfl []

end IotDrive
