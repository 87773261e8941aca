/-
The storage commands of a minion on several workers of the thread pool.

All commands share the position of one stream and the flag of `GetBinFile`, and no lock protects
them.  The commands are serialisable in the interleavings in which one command alone fills the file
and every read and write finds the stream where its own seek has left it; in others a block can be
stored at the offset of another command.

Main definitions:

* `CommandPhase`, `StoreRequest.step` — where a worker is in its command, and its next step;
* `Commands`, `Workers` — what the workers are to execute, and their state;
* `Workers.Serialisable` — the outcome is that of a serial execution;
* `Workers.Undisturbed` — the steps that find the shared state as the command has left it.

Main results:

* `Commands.alone` — the steps of a command, with nothing in between, are the command;
* `Workers.exists_run_serial` — executing the commands one after another is an interleaving;
* `Workers.Invariant.step` — the commands that have transferred their data were, as it were,
  executed in the order of the transfers;
* `Workers.exists_order` — in an undisturbed interleaving they leave what executing them one after
  another in some order leaves;
* `commands_serialisable` — **serialisability** of these interleavings;
* `not_serialisable_seekSeek` — an interleaving that is not serialisable.
-/

import IotDrive.Library.Interleaving
import IotDrive.Restart

set_option relaxedAutoImplicit false
set_option autoImplicit false

namespace IotDrive

/-! ### The steps of a command -/

/-- Where a worker is in its command: before the test of `is_init`; in the loop that fills the file,
with `left` zeros to come; before the last statement of the branch, `seekp(0)`; before the seek;
before the transfer, `read` or `write`; before the last seek; and after it. -/
inductive CommandPhase
  | waiting
  | filling (left : ℕ)
  | rewinding
  | opened
  | positioned
  | transferred (data : List UInt8)
  | done (response : Transmission)

/-- The worker has moved the stream, and is to move it to the front again. -/
def CommandPhase.away : CommandPhase → Bool
  | .filling _ | .rewinding | .positioned | .transferred _ => true
  | .waiting | .opened | .done _ => false

namespace StoreRequest

def offset : StoreRequest → UInt64
  | .read offset _ _ => offset
  | .write offset _ _ _ _ => offset

/-- The first seek of a command. -/
def seek (file : FStream) : StoreRequest → FStream
  | .read offset _ _ => file.seekg offset
  | .write offset _ _ _ _ => file.seekp offset

/-- The `read` or the `write`, with the data for the response. -/
def transfer (heap : Heap) (file : FStream) : StoreRequest → FStream × List UInt8
  | .read _ size _ =>
      let (got, file) := file.read size.toNat
      (file, fillBuffer (heap 2) size.toNat got)
  | .write _ size data _ _ => (file.write (data.take size.toNat), [])

/-- The last seek of a command. -/
def seekFront (file : FStream) : StoreRequest → FStream
  | .read _ _ _ => file.seekg 0
  | .write _ _ _ _ _ => file.seekp 0

/-- The response, a success whatever the stream did. -/
def response (heap : Heap) (r : StoreRequest) (data : List UInt8) : Transmission :=
  (⟨true, data⟩ : Answer).transmission (heap 3) r

/-- The next step of a command. -/
def step (heap : Heap) (r : StoreRequest) (m : Minion) :
    CommandPhase → Option (Minion × CommandPhase)
  | .waiting => some (m, if m.isInit then .filling fileSize else .opened)
  | .filling (left + 1) => some ({ m with binFile := m.binFile.write [0] }, .filling left)
  | .filling 0 => some ({ m with isInit := false }, .rewinding)
  | .rewinding => some ({ m with binFile := m.binFile.seekp 0 }, .opened)
  | .opened => some ({ m with binFile := r.seek m.binFile }, .positioned)
  | .positioned =>
      let (file, data) := r.transfer heap m.binFile
      some ({ m with binFile := file }, .transferred data)
  | .transferred data =>
      some ({ m with binFile := r.seekFront m.binFile }, .done (r.response heap data))
  | .done _ => none

/-! ### A command alone -/

theorem execute_eq (heap : Heap) (m : Minion) (r : StoreRequest) :
    r.execute heap m = ({ m.getBinFile with
        binFile := r.seekFront (r.transfer heap (r.seek m.getBinFile.binFile)).1 },
      r.response heap (r.transfer heap (r.seek m.getBinFile.binFile)).2) := by
  cases r with
  | read offset size uid => rfl
  | write offset size data uid hdata => rfl

end StoreRequest

/-- The commands of the workers, all of them in range; each has its own allocations. -/
structure Commands (ι : Type) where
  heap : ι → Heap
  request : ι → StoreRequest
  inRange : ∀ i, (request i).InRange

namespace Commands

variable {ι : Type} (c : Commands ι)

/-- The next step of the worker `i`. -/
def thread (i : ι) (m : Minion) (phase : CommandPhase) : Option (Minion × CommandPhase) :=
  (c.request i).step (c.heap i) m phase

/-- The command of the worker `i` executes completely. -/
def execute (i : ι) (m : Minion) : Minion × Transmission := (c.request i).execute (c.heap i) m

end Commands

variable {ι : Type} {c : Commands ι}

open Relation in
/-- The loop of `GetBinFile` fills the file. -/
theorem Commands.alone_zeroFill (i : ι) (left : ℕ) (file : FStream) :
    Threads.Alone c.thread i ({ binFile := file, isInit := true }, .filling left)
      ({ binFile := zeroFill left file, isInit := true }, .filling 0) := by
  -- induction on the zeros to come; the invariant is that the flag is still set
  induction left generalizing file with
  | zero => exact .refl
  | succ left ih => exact ReflTransGen.head rfl (ih (file.write [0]))

open Relation in
/-- A worker alone passes `GetBinFile`. -/
theorem Commands.alone_getBinFile (i : ι) (m : Minion) :
    Threads.Alone c.thread i (m, .waiting) (m.getBinFile, .opened) := by
  obtain ⟨file, isInit⟩ := m
  cases isInit with
  | false => exact ReflTransGen.single rfl
  | true =>
      refine ReflTransGen.head rfl ((alone_zeroFill i fileSize file).trans ?_)
      rw [Minion.getBinFile, if_pos rfl]
      generalize zeroFill fileSize file = filled
      exact ReflTransGen.head rfl (ReflTransGen.single rfl)

open Relation in
/-- The steps of a command with nothing in between are the command. -/
theorem Commands.alone (i : ι) (m : Minion) :
    Threads.Alone c.thread i (m, .waiting) ((c.execute i m).1, .done (c.execute i m).2) := by
  refine (alone_getBinFile i m).trans ?_
  rw [execute, StoreRequest.execute_eq]
  generalize m.getBinFile = full
  exact ReflTransGen.head rfl (ReflTransGen.head rfl (ReflTransGen.single rfl))

/-! ### All commands -/

/-- A minion that executes no command: it was just started, or has opened its file. -/
inductive Minion.Idle : Minion → Prop
  | started (volume : Volume) (file : SparseFile UInt8) : Idle (start volume.fs file)
  | opened (volume : Volume) {file : SparseFile UInt8} (hsize : fileSize ≤ file.size) :
      Idle (opened volume.fs file)

theorem Minion.Idle.pos {m : Minion} (hm : m.Idle) : m.binFile.pos = 0 := by
  cases hm <;> rfl

/-- The workers, with the minion that they share. -/
abbrev Workers (ι : Type) := Threads ι Minion CommandPhase

namespace Workers

/-- Every worker is about to execute its command. -/
def start (m : Minion) : Workers ι := { shared := m, phase := fun _ => .waiting }

/-- The file and all responses are those of executing the commands one after another. -/
def Serialisable (c : Commands ι) (m : Minion) (s : Workers ι) : Prop :=
  ∃ order : List ι, order.Nodup ∧ (∀ i, i ∈ order) ∧
    (Threads.serial c.execute m order).1.binFile.file = s.shared.binFile.file ∧
    ∀ i response, s.phase i = .done response →
      (i, response) ∈ (Threads.serial c.execute m order).2

/-- Executing the commands one after another is one of the interleavings. -/
theorem exists_run_serial [DecidableEq ι] (c : Commands ι) (m : Minion) {order : List ι}
    (hnodup : order.Nodup) : ∃ actions s,
      Transition.run (Threads.step c.thread) (start m) actions = some s ∧
      s.shared = (Threads.serial c.execute m order).1 ∧
      ∀ i response, (i, response) ∈ (Threads.serial c.execute m order).2 →
        s.phase i = .done response := by
  obtain ⟨actions, s, hrun, hshared, hdone, -⟩ :=
    Threads.exists_run_serial c.alone hnodup m (fun _ => .waiting) fun _ _ => rfl
  exact ⟨actions, s, hrun, hshared, hdone⟩

/-- The step of the worker `i` finds what its command relies on: the test of `is_init` is only true
for the first command, and the transfer finds the position at the offset of its command. -/
def Undisturbed (c : Commands ι) (s : Workers ι) (i : ι) : Prop :=
  match s.phase i with
  | .waiting => s.shared.isInit = true → ∀ j, s.phase j = .waiting
  | .positioned => s.shared.binFile.pos = (c.request i).offset.toNat
  | _ => True

end Workers

/-! ### Transfers at the right place -/

namespace StoreRequest

variable {file : FStream} {r : StoreRequest}

theorem Served.offset_le {fs : FileSystem} {f : SparseFile UInt8} (h : r.Served fs f) :
    r.offset.toNat ≤ fs.maxOffset := by
  cases r with
  | read offset size uid => exact h.1
  | write offset size data uid hdata => exact h.1

theorem seek_of_good (hfile : file.Good) (h : r.offset.toNat ≤ file.fs.maxOffset) :
    r.seek file = { file with pos := r.offset.toNat } := by
  cases r with
  | read offset size uid => exact FStream.seekg_of_good hfile h
  | write offset size data uid hdata => exact FStream.seekp_of_good hfile h

theorem seekFront_of_good (hfile : file.Good) : r.seekFront file = { file with pos := 0 } := by
  cases r with
  | read offset size uid => exact FStream.seekg_of_good hfile (Nat.zero_le _)
  | write offset size data uid hdata => exact FStream.seekp_of_good hfile (Nat.zero_le _)

/-- A transfer at the offset of the command does what a store does. -/
theorem transfer_of_served (heap : Heap) (hfile : file.Good) (hpos : file.pos = r.offset.toNat)
    (hserved : r.Served file.fs file.file) : ∃ pos,
      r.transfer heap file = ({ file with file := r.store file.file, pos }, r.reply file.file) := by
  cases r with
  | read offset size uid =>
      have hend : size = 0 ∨ file.pos + size.toNat ≤ file.file.size := by
        rw [hpos]
        exact hserved.2
      refine ⟨file.pos + size.toNat, ?_⟩
      rw [transfer, FStream.read_of_served hfile hend]
      dsimp only
      rw [fillBuffer_of_length (Extent.length_extract _ _ _), hpos]
      rfl
  | write offset size data uid hdata =>
      refine ⟨file.pos + data.length, ?_⟩
      have htakes : file.fs.Takes file.file file.pos data.length := by
        rw [hpos]
        exact hserved.2
      rw [transfer, ← hdata, List.take_length, FStream.write_of_good hfile htakes, hpos]
      rfl

/-- After a command the file has been opened. -/
theorem getBinFile_execute (heap : Heap) (m : Minion) (r : StoreRequest) :
    (r.execute heap m).1.getBinFile = (r.execute heap m).1 := by
  have hinit : m.getBinFile.isInit = false := by
    rw [Minion.getBinFile]
    split
    · rfl
    · rename_i hinit
      exact Bool.eq_false_of_not_eq_true hinit
  rw [execute_eq, Minion.getBinFile, if_neg]
  exact fun h => Bool.false_ne_true (hinit.symm.trans h)

end StoreRequest

namespace Workers

variable {volume : Volume} {m : Minion} {s t : Workers ι} {order : List ι} {f : SparseFile UInt8}
  {i : ι}

/-! ### The order of the transfers -/

/-- The phase of the worker `i` is right when the commands in `order` have transferred their data
and returned `responses`. -/
def Matches (c : Commands ι) (order : List ι) (responses : List (ι × Transmission)) (i : ι) :
    CommandPhase → Prop
  | .filling _ => False
  | .waiting | .rewinding | .opened | .positioned => i ∉ order
  | .transferred data =>
      i ∈ order ∧ (i, (c.request i).response (c.heap i) data) ∈ responses
  | .done response => i ∈ order ∧ (i, response) ∈ responses

/-- The transfer of another command changes nothing. -/
theorem Matches.concat {j : ι} {responses : List (ι × Transmission)} {phase : CommandPhase}
    (hj : j ≠ i) (response : Transmission) (h : Matches c order responses j phase) :
    Matches c (order ++ [i]) (responses ++ [(i, response)]) j phase := by
  have hout : j ∉ order → j ∉ order ++ [i] := by
    intro hj' hmem
    rcases List.mem_append.1 hmem with hmem | hmem
    · exact hj' hmem
    · exact hj (List.mem_singleton.1 hmem)
  cases phase with
  | filling left => exact h
  | waiting => exact hout h
  | rewinding => exact hout h
  | opened => exact hout h
  | positioned => exact hout h
  | transferred data => exact ⟨List.mem_append_left _ h.1, List.mem_append_left _ h.2⟩
  | done response' => exact ⟨List.mem_append_left _ h.1, List.mem_append_left _ h.2⟩

/-- The file is filled, and holds what the commands in `order` have left, executed one after another
on the minion `m`. -/
structure Linear (c : Commands ι) (volume : Volume) (m : Minion) (s : Workers ι) (order : List ι)
    (f : SparseFile UInt8) : Prop where
  isInit : s.shared.isInit = false
  fs : s.shared.binFile.fs = volume.fs
  good : s.shared.binFile.Good
  file : s.shared.binFile.file = f
  size : fileSize ≤ f.size
  serial : (Threads.serial c.execute m order).1.getBinFile = .opened volume.fs f
  nodup : order.Nodup
  phases : ∀ i, Matches c order (Threads.serial c.execute m order).2 i (s.phase i)

/-- The stream after `written` zeros of the loop of `GetBinFile`. -/
def filled (fs : FileSystem) (file : SparseFile UInt8) (written : ℕ) : FStream where
  fs := fs
  file := file.write 0 (List.replicate written 0)
  pos := written
  eofbit := false
  failbit := false

theorem filled_write (volume : Volume) (file : SparseFile UInt8) {written : ℕ}
    (hless : written < fileSize) :
    (filled volume.fs file written).write [0] = filled volume.fs file (written + 1) := by
  have htakes : volume.fs.Takes (filled volume.fs file written).file written [(0 : UInt8)].length :=
    volume.fits.takes _ _ _ (by rw [List.length_singleton]; omega)
  rw [FStream.write_of_good ⟨rfl, rfl⟩ htakes]
  simp only [filled, List.replicate_succ', file.write_append, List.length_replicate, Nat.zero_add,
    List.length_singleton]

/-- No command has begun; or one fills the file and the others wait; or the file is filled. -/
inductive Invariant (c : Commands ι) (volume : Volume) : Minion → Workers ι → Prop
  | unopened {s : Workers ι} (file : SparseFile UInt8) (hshared : s.shared = .start volume.fs file)
      (hwaiting : ∀ i, s.phase i = .waiting) : Invariant c volume (.start volume.fs file) s
  | filling {s : Workers ι} (file : SparseFile UInt8) {i : ι} (written : ℕ) {left : ℕ}
      (htotal : written + left = fileSize)
      (hshared : s.shared = { binFile := filled volume.fs file written, isInit := true })
      (hfilling : s.phase i = .filling left) (hwaiting : ∀ j ≠ i, s.phase j = .waiting) :
      Invariant c volume (.start volume.fs file) s
  | linear {m : Minion} {s : Workers ι} (order : List ι) (f : SparseFile UInt8)
      (h : Linear c volume m s order f) : Invariant c volume m s

theorem invariant_start (hm : m.Idle) : ∃ volume, Invariant c volume m (start m) := by
  -- nothing has begun, or the file is filled and no command is in the order
  cases hm with
  | started volume file => exact ⟨volume, .unopened file rfl fun _ => rfl⟩
  | @opened volume file hsize =>
      exact ⟨volume, .linear [] file ⟨rfl, rfl, ⟨rfl, rfl⟩, rfl, hsize,
        Minion.getBinFile_opened volume.fs file, List.nodup_nil, fun _ => List.not_mem_nil⟩⟩

/-- A command that is done was executed, and its response is the one of the serial execution. -/
theorem Linear.done (h : Linear c volume m s order f) {response : Transmission}
    (hi : s.phase i = .done response) :
    i ∈ order ∧ (i, response) ∈ (Threads.serial c.execute m order).2 := by
  have hmatches := h.phases i
  rw [hi] at hmatches
  exact hmatches

/-- After at least one command the serial execution has opened the file. -/
theorem Linear.serial_eq (h : Linear c volume m s order f) (hi : i ∈ order) :
    (Threads.serial c.execute m order).1 = .opened volume.fs f := by
  have hopened := h.serial
  rcases List.eq_nil_or_concat' order with rfl | ⟨front, k, rfl⟩
  · exact absurd hi List.not_mem_nil
  · rw [Threads.serial_concat, Commands.execute, StoreRequest.getBinFile_execute] at hopened
    rw [Threads.serial_concat, Commands.execute]
    exact hopened

/-- With the stream at the front the workers have left what the serial execution leaves. -/
theorem Linear.shared_eq (h : Linear c volume m s order f) (hi : i ∈ order)
    (hpos : s.shared.binFile.pos = 0) : s.shared = (Threads.serial c.execute m order).1 := by
  rw [h.serial_eq hi]
  obtain ⟨⟨binFile, isInit⟩, phase⟩ := s
  obtain ⟨fs, file, pos, eofbit, failbit⟩ := binFile
  obtain ⟨rfl, rfl, ⟨rfl, rfl⟩, rfl, -⟩ := h
  cases hpos
  rfl

theorem Invariant.good (h : Invariant c volume m s) : s.shared.binFile.Good := by
  cases h with
  | unopened file hshared hwaiting => rw [hshared]; exact ⟨rfl, rfl⟩
  | filling file written htotal hshared hfilling hwaiting => rw [hshared]; exact ⟨rfl, rfl⟩
  | linear order f h => exact h.good

/-- The stream is at its front, or a worker is to move it there. -/
def Returning (s : Workers ι) : Prop :=
  s.shared.binFile.pos = 0 ∨ ∃ i, (s.phase i).away = true

variable [DecidableEq ι]

/-- A step that transfers nothing only moves the position. -/
theorem Linear.keep (h : Linear c volume m s order f) (pos : ℕ) {phase : CommandPhase}
    (hphase : Matches c order (Threads.serial c.execute m order).2 i phase) :
    Linear c volume m ⟨{ s.shared with binFile := { s.shared.binFile with pos } },
      Function.update s.phase i phase⟩ order f :=
  ⟨h.isInit, h.fs, h.good.update _ _, h.file, h.size, h.serial, h.nodup,
    Threads.forall_update (fun j _ => h.phases j) hphase⟩

/-- A transfer at the right place is the execution of the command. -/
theorem Linear.transfer (h : Linear c volume m s order f) (hi : i ∉ order)
    (hpos : s.shared.binFile.pos = (c.request i).offset.toNat) {file : FStream} {data : List UInt8}
    (htransfer : (c.request i).transfer (c.heap i) s.shared.binFile = (file, data)) :
    Linear c volume m ⟨{ s.shared with binFile := file },
      Function.update s.phase i (.transferred data)⟩ (order ++ [i]) ((c.request i).store f) := by
  have hserved : (c.request i).Served volume.fs s.shared.binFile.file := by
    rw [h.file]
    exact (c.inRange i).served h.size volume
  obtain ⟨pos, hresult⟩ := (c.request i).transfer_of_served (c.heap i) h.good hpos
    (h.fs ▸ hserved)
  rw [htransfer] at hresult
  cases hresult
  have hexecute := (c.request i).execute_of_served (c.heap i) h.serial (h.file ▸ hserved)
  have hserial := Threads.serial_concat c.execute m order i
  rw [Commands.execute, hexecute] at hserial
  have hfile : (c.request i).store s.shared.binFile.file = (c.request i).store f := by
    rw [h.file]
  refine ⟨h.isInit, h.fs, h.good.update _ _, hfile, ?_, ?_, ?_, ?_⟩
  · cases c.request i with
    | read offset size uid => exact h.size
    | write offset size bytes uid hbytes =>
        exact h.size.trans (f.size_le_size_write offset.toNat bytes)
  · rw [hserial]
    exact Minion.getBinFile_opened _ _
  · rw [← List.concat_eq_append]
    exact h.nodup.concat hi
  · rw [hserial]
    refine Threads.forall_update (fun j hj => (h.phases j).concat hj _) ⟨?_, ?_⟩
    · exact List.mem_append_right _ List.mem_cons_self
    · rw [h.file]
      exact List.mem_append_right _ List.mem_cons_self

/-- A step when the file is filled. -/
theorem Linear.step (h : Linear c volume m s order f) (hundisturbed : s.Undisturbed c i)
    (hstep : s.step c.thread i = some t) : Invariant c volume m t := by
  obtain ⟨shared, phase, hthread, rfl⟩ := Threads.step_eq_some.1 hstep
  have hmatches := h.phases i
  have hserved := (c.inRange i).served h.size volume
  simp only [Undisturbed] at hundisturbed
  generalize s.phase i = before at hthread hmatches hundisturbed
  cases before with
  -- no command fills a file that is filled
  | filling left => exact absurd hmatches id
  | waiting =>
      simp only [Commands.thread, StoreRequest.step, h.isInit, Bool.false_eq_true, if_false] at hthread
      cases hthread
      exact .linear order f (h.keep s.shared.binFile.pos hmatches)
  | rewinding =>
      simp only [Commands.thread, StoreRequest.step] at hthread
      rw [FStream.seekp_of_good h.good (Nat.zero_le _)] at hthread
      cases hthread
      exact .linear order f (h.keep 0 hmatches)
  | opened =>
      simp only [Commands.thread, StoreRequest.step] at hthread
      rw [StoreRequest.seek_of_good h.good (h.fs ▸ hserved.offset_le)] at hthread
      cases hthread
      exact .linear order f (h.keep (c.request i).offset.toNat hmatches)
  | positioned =>
      simp only [Commands.thread, StoreRequest.step] at hthread
      -- this is the step at which the command takes its place in the order
      cases hthread
      exact .linear _ _ (h.transfer hmatches hundisturbed rfl)
  | transferred data =>
      simp only [Commands.thread, StoreRequest.step] at hthread
      rw [StoreRequest.seekFront_of_good h.good] at hthread
      cases hthread
      exact .linear order f (h.keep 0 hmatches)
  | done response => cases hthread

/-- Every step on a good stream keeps it so. -/
theorem Returning.step (h : s.Returning) (hgood : s.shared.binFile.Good)
    (hstep : s.step c.thread i = some t) : t.Returning := by
  obtain ⟨shared, phase, hthread, rfl⟩ := Threads.step_eq_some.1 hstep
  have hself : phase.away = true → Returning ⟨shared, Function.update s.phase i phase⟩ :=
    fun haway => .inr ⟨i, by simpa using haway⟩
  cases hbefore : s.phase i with
  | waiting =>
      rw [hbefore] at hthread
      cases hthread
      -- another worker is to move the stream
      refine h.imp id ?_
      rintro ⟨j, hj⟩
      refine ⟨j, ?_⟩
      have hne : j ≠ i := by
        rintro rfl
        rw [hbefore] at hj
        cases hj
      dsimp only
      rwa [Function.update_of_ne hne]
  | rewinding =>
      rw [hbefore] at hthread
      simp only [Commands.thread, StoreRequest.step] at hthread
      rw [FStream.seekp_of_good hgood (Nat.zero_le _)] at hthread
      cases hthread
      exact .inl rfl
  | transferred data =>
      rw [hbefore] at hthread
      simp only [Commands.thread, StoreRequest.step] at hthread
      rw [StoreRequest.seekFront_of_good hgood] at hthread
      cases hthread
      exact .inl rfl
  | filling left =>
      rw [hbefore] at hthread
      cases left <;> cases hthread <;> exact hself rfl
  | opened =>
      rw [hbefore] at hthread
      cases hthread
      exact hself rfl
  | positioned =>
      rw [hbefore] at hthread
      cases hthread
      exact hself rfl
  | done response =>
      rw [hbefore] at hthread
      cases hthread

/-- Every step that finds what its command relies on keeps the invariant. -/
theorem Invariant.step (h : Invariant c volume m s) (hundisturbed : s.Undisturbed c i)
    (hstep : s.step c.thread i = some t) : Invariant c volume m t := by
  cases h with
  | linear order f h => exact h.step hundisturbed hstep
  | unopened file hshared hwaiting =>
      obtain ⟨shared, phase, hthread, rfl⟩ := Threads.step_eq_some.1 hstep
      -- the first test finds the flag set
      rw [hwaiting i, hshared] at hthread
      cases hthread
      refine .filling file 0 (Nat.zero_add _) ?_ (Function.update_self _ _ _) ?_
      · rw [filled, List.replicate_zero, SparseFile.write_nil]
        rfl
      · intro j hj
        exact (Function.update_of_ne hj _ _).trans (hwaiting j)
  | @filling _ file k written left htotal hshared hfilling hwaiting =>
      obtain ⟨shared, phase, hthread, rfl⟩ := Threads.step_eq_some.1 hstep
      by_cases hik : i = k
      · subst hik
        rw [hfilling, hshared] at hthread
        cases left with
        | succ left =>
            have hwrite := filled_write volume file (show written < fileSize by omega)
            simp only [Commands.thread, StoreRequest.step, hwrite] at hthread
            cases hthread
            refine .filling file (written + 1) (by omega) rfl (Function.update_self _ _ _) ?_
            intro j hj
            exact (Function.update_of_ne hj _ _).trans (hwaiting j hj)
        | zero =>
            -- the loop is over, and no command has transferred anything yet
            cases hthread
            obtain rfl : written = fileSize := htotal
            refine .linear [] (zeroFilled file) ⟨rfl, rfl, ⟨rfl, rfl⟩, rfl,
              file.le_size_write_replicate fileSize 0, Minion.getBinFile_start volume file,
              List.nodup_nil, ?_⟩
            refine Threads.forall_update ?_ List.not_mem_nil
            intro j hj
            rw [hwaiting j hj]
            exact List.not_mem_nil
      · -- the test of another command would find the flag set
        simp only [Undisturbed, hwaiting i hik] at hundisturbed
        have hinit : s.shared.isInit = true := by rw [hshared]
        rw [hundisturbed hinit k] at hfilling
        cases hfilling

theorem invariant_of_run {actions : List ι} (hm : m.Idle)
    (hundisturbed : Transition.Along (Threads.step c.thread) (Undisturbed c) (start m) actions)
    (hrun : Transition.run (Threads.step c.thread) (start m) actions = some s) :
    ∃ volume, Invariant c volume m s ∧ s.Returning := by
  obtain ⟨volume, hstart⟩ := invariant_start (c := c) hm
  refine ⟨volume, Transition.run_invariant_along (fun s => Invariant c volume m s ∧ s.Returning) ?_
    ⟨hstart, .inl hm.pos⟩ hundisturbed hrun⟩
  exact fun _ _ _ h hC hstep => ⟨h.1.step hC hstep, h.2.step h.1.good hstep⟩

/-- When all commands are done, they have been serialised in the order of their transfers. -/
theorem exists_order {actions : List ι} (hm : m.Idle)
    (hundisturbed : Transition.Along (Threads.step c.thread) (Undisturbed c) (start m) actions)
    (hrun : Transition.run (Threads.step c.thread) (start m) actions = some s)
    (hdone : ∀ i, ∃ response, s.phase i = .done response) (i : ι) :
    ∃ order : List ι, order.Nodup ∧ (∀ i, i ∈ order) ∧
      s.shared = (Threads.serial c.execute m order).1 ∧
      ∀ i response, s.phase i = .done response →
        (i, response) ∈ (Threads.serial c.execute m order).2 := by
  obtain ⟨volume, hinvariant, hreturning⟩ := invariant_of_run hm hundisturbed hrun
  have hpos : s.shared.binFile.pos = 0 := by
    refine hreturning.resolve_right ?_
    rintro ⟨j, hj⟩
    obtain ⟨response, hresponse⟩ := hdone j
    rw [hresponse] at hj
    cases hj
  cases hinvariant with
  | unopened file hshared hwaiting =>
      obtain ⟨response, hresponse⟩ := hdone i
      rw [hwaiting i] at hresponse
      cases hresponse
  | @filling _ file k written left htotal hshared hfilling hwaiting =>
      obtain ⟨response, hresponse⟩ := hdone k
      rw [hresponse] at hfilling
      cases hfilling
  | linear order f h =>
      have hmem : ∀ j, j ∈ order := by
        intro j
        obtain ⟨response, hresponse⟩ := hdone j
        exact (h.done hresponse).1
      exact ⟨order, h.nodup, hmem, h.shared_eq (hmem i) hpos, fun j response hresponse =>
        (h.done hresponse).2⟩

end Workers

/-- **Serialisability.** In every interleaving of the steps of any commands in range in which the
test of `is_init` is only true for the first command that makes it, and in which every read and
write finds the position of the stream at the offset of its own command, the file and all responses
are in the end those of executing the commands one after another in some order. -/
theorem commands_serialisable [DecidableEq ι] (c : Commands ι) {m : Minion} (hm : m.Idle)
    (actions : List ι) {s : Workers ι}
    (hundisturbed : Transition.Along (Threads.step c.thread) (Workers.Undisturbed c)
      (Workers.start m) actions)
    (hrun : Transition.run (Threads.step c.thread) (Workers.start m) actions = some s)
    (hdone : ∀ i, ∃ response, s.phase i = .done response) : Workers.Serialisable c m s := by
  cases actions with
  | nil =>
      -- nothing is executed, and there are no commands
      cases hrun
      have hnone : ∀ i : ι, False := fun i => by
        obtain ⟨response, hresponse⟩ := hdone i
        cases hresponse
      exact ⟨[], List.nodup_nil, fun i => absurd (hnone i) id, rfl, fun i => absurd (hnone i) id⟩
  | cons i rest =>
      obtain ⟨order, hnodup, hall, hshared, hresponses⟩ :=
        Workers.exists_order hm hundisturbed hrun hdone i
      exact ⟨order, hnodup, hall, by rw [hshared], hresponses⟩

/-- Two workers write one byte each, `1` at the offset zero and `2` behind it. -/
def twoWrites : Commands Bool where
  heap _ _ _ := 0
  request
    | false => .write 0 1 [1] ⟨0, 0, 0, 0⟩ rfl
    | true => .write 1 1 [2] ⟨1, 0, 0, 0⟩ rfl
  inRange
    | false => by decide
    | true => by decide

/-- The second worker seeks after the first one has written. -/
def seekAfterWrite : List Bool := [false, true, false, false, true, true, false, true]

theorem commands_serialisable_seekAfterWrite : ∃ s,
    Transition.run (Threads.step twoWrites.thread)
        (Workers.start (.opened Volume.ext4.fs (.zeros fileSize))) seekAfterWrite = some s ∧
      Workers.Serialisable twoWrites (.opened Volume.ext4.fs (.zeros fileSize)) s := by
  refine ⟨_, rfl, ?_⟩
  refine commands_serialisable twoWrites (.opened .ext4 le_rfl) seekAfterWrite ?_ rfl ?_
  · exact ⟨nofun, nofun, trivial, rfl, trivial, rfl, trivial, trivial, trivial⟩
  · intro i
    cases i with
    | false => exact ⟨_, rfl⟩
    | true => exact ⟨_, rfl⟩

/-- Both workers seek before the first one writes. -/
def seekSeek : List Bool := [false, true, false, true, false, true, false, true]

/-- Each of the writes stores its byte one place behind its offset, and the first byte stays
zero. -/
theorem not_serialisable_seekSeek : ∃ s,
    Transition.run (Threads.step twoWrites.thread)
        (Workers.start (.opened Volume.ext4.fs (.zeros fileSize))) seekSeek = some s ∧
      (∀ i, ∃ response, s.phase i = .done response) ∧
      ¬ Workers.Serialisable twoWrites (.opened Volume.ext4.fs (.zeros fileSize)) s := by
  obtain ⟨s, hrun, hdone, hzero⟩ : ∃ s,
      Transition.run (Threads.step twoWrites.thread)
          (Workers.start (.opened Volume.ext4.fs (.zeros fileSize))) seekSeek = some s ∧
        (∀ i, ∃ response, s.phase i = .done response) ∧ s.shared.binFile.file.byte 0 = 0 := by
    refine ⟨_, rfl, ?_, rfl⟩
    intro i
    cases i with
    | false => exact ⟨_, rfl⟩
    | true => exact ⟨_, rfl⟩
  refine ⟨s, hrun, hdone, ?_⟩
  rintro ⟨order, hnodup, hall, hfile, -⟩
  have hperm : order.Perm [false, true] :=
    (List.perm_ext_iff_of_nodup hnodup (by decide)).2 fun i => iff_of_true (hall i) (by simp)
  obtain ⟨i, j, rfl⟩ := List.length_eq_two.1 hperm.length_eq
  -- in either order the first byte is one
  have hone : (Threads.serial twoWrites.execute (.opened Volume.ext4.fs (.zeros fileSize))
      [i, j]).1.byte 0 = 1 := by
    cases i with
    | false =>
        cases j with
        | false => exact absurd hnodup (by decide)
        | true => rfl
    | true =>
        cases j with
        | false => rfl
        | true => exact absurd hnodup (by decide)
  rw [Minion.byte, hfile, hzero] at hone
  cases hone

end IotDrive
