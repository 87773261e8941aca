/-
How plugins are found: `dirmonitor.cpp`, and the part of `Framework::Framework` that starts it.

The constructor of `DirMonitor` places an inotify watch on the plugin directory and starts the
thread of `Monitor`; the constructor of `DLLLoader` then scans the directory and loads what it finds;
last, `Framework` registers the loader's callback with the monitor, which reports the files that
appear from the watch on.  Files may appear in the directory at any time.

`Monitor` handles an event, `DMRegister` included, under `m_mutex`, so each is one step here.  A file
is passed to `Load` as the path of the directory and its name; the model keeps the name.

Main definitions:

* `InotifyEvent.verdict` — what `Monitor` does about an event;
* `Plugins.step` — files appear, the start-up goes on, the monitor handles an event;
* `Plugins.Timely` — what has to be true when the callback is registered.

Main results:

* `Plugins.once_iff_along` — after the start-up, each file is loaded or will be, exactly once, when
  the run was timely and only then;
* `plugins_loaded_once` — **every plugin is loaded exactly once** in the timely runs.
-/

import IotDrive.Library.Transition
import Mathlib.Data.List.DropRight
import Mathlib.Data.List.Nodup
import Mathlib.Tactic.Common

set_option relaxedAutoImplicit false
set_option autoImplicit false

namespace IotDrive

/-! ### File names -/

abbrev FileName := List Char

def soSuffix : FileName := ['.', 's', 'o']

/-- `std::filesystem::path::extension` of a file name: from its last period on, unless that is its
first character. -/
def extension (name : FileName) : FileName :=
  if (name.rdropWhile (· ≠ '.')).length ≤ 1 ∨ name = ['.', '.'] then []
  else '.' :: name.rtakeWhile (· ≠ '.')

/-- An entry of a directory. -/
structure DirEntry where
  name : FileName
  isRegularFile : Bool
  deriving DecidableEq

/-- The entries that the constructor of `DLLLoader` loads. -/
def DirEntry.isPlugin (entry : DirEntry) : Bool :=
  entry.isRegularFile && extension entry.name == soSuffix

/-- A directory has one entry for a name. -/
structure Directory where
  entries : List DirEntry
  nodup : (entries.map DirEntry.name).Nodup

def Directory.names (d : Directory) : List FileName := d.entries.map DirEntry.name

def Directory.add (d : Directory) (entry : DirEntry) (h : entry.name ∉ d.names) : Directory where
  entries := entry :: d.entries
  nodup := List.nodup_cons.2 ⟨h, d.nodup⟩

/-! ### Events -/

def inModify : BitVec 32 := 0x2
def inAttrib : BitVec 32 := 0x4
def inMovedTo : BitVec 32 := 0x80
def inCreate : BitVec 32 := 0x100

/-- The event of a file that appears. -/
def arrivalMask (movedIn : Bool) : BitVec 32 := if movedIn then inMovedTo else inCreate

/-- The event of a file that is changed. -/
def changeMask (attributes : Bool) : BitVec 32 := if attributes then inAttrib else inModify

theorem arrivalMask_notified :
    ∀ movedIn, arrivalMask movedIn &&& inCreate ≠ 0 ∨ arrivalMask movedIn &&& inMovedTo ≠ 0 := by
  decide

theorem changeMask_not_notified :
    ∀ attributes, changeMask attributes &&& inCreate = 0 ∧ changeMask attributes &&& inMovedTo = 0 := by
  decide

/-- `struct inotify_event`, with the name that follows it. -/
structure InotifyEvent where
  name : FileName
  mask : BitVec 32
  deriving DecidableEq

inductive Verdict
  | notify | stop | skip
  deriving DecidableEq

/-- What `Monitor` does about an event.  The comparison of a name of less than three characters
starts before the name, at a byte of `len` that is zero. -/
def InotifyEvent.verdict (event : InotifyEvent) : Verdict :=
  if event.name.drop (event.name.length - 3) ≠ soSuffix then
    if event.name = ['e', 'x', 'i', 't', '.', 't', 'x', 't'] ∧ event.mask &&& inAttrib ≠ 0 then .stop
    else .skip
  else if event.mask &&& inCreate ≠ 0 ∨ event.mask &&& inMovedTo ≠ 0 then .notify
  else .skip

/-- `Monitor` passes the event on with the name `f`. -/
def InotifyEvent.Reports (event : InotifyEvent) (f : FileName) : Prop :=
  event.verdict = .notify ∧ event.name = f

instance (event : InotifyEvent) (f : FileName) : Decidable (event.Reports f) :=
  inferInstanceAs (Decidable (_ ∧ _))

/-! ### The start-up -/

/-- Where `Framework::Framework` is.  The iterator of the scan was opened when the files `present`
were in the directory. -/
inductive StartUp
  | begun
  | watching
  | monitoring
  | scanning (present : List FileName)
  | scanned
  | registered
  deriving DecidableEq

/-- `inotify_add_watch` has returned. -/
def StartUp.watched : StartUp → Bool
  | .begun => false
  | _ => true

/-- The thread of `Monitor` has started. -/
def StartUp.monitored : StartUp → Bool
  | .begun | .watching => false
  | _ => true

/-- `returned` are the files that the iterator of the scan has returned, `dllList` the arguments of
the calls of `Load`. -/
structure Plugins where
  directory : Directory
  startUp : StartUp
  events : List InotifyEvent
  returned : List FileName
  monitorEnded : Bool
  dllList : List FileName

inductive PluginAction
  | appear (entry : DirEntry) (movedIn : Bool)
  | change (name : FileName) (attributes : Bool)
  | addWatch
  | startMonitor
  | openDir
  | readDir (entry : DirEntry)
  | endDir
  | dmRegister
  | handle
  deriving DecidableEq

namespace Plugins

def start (directory : Directory) : Plugins := ⟨directory, .begun, [], [], false, []⟩

/-- The kernel queues an event for the watch. -/
def notice (s : Plugins) (event : InotifyEvent) : Plugins :=
  { s with events := if s.startUp.watched then s.events ++ [event] else s.events }

def load (s : Plugins) (name : FileName) : Plugins := { s with dllList := s.dllList ++ [name] }

/-- One step.  The iterator returns the files that were there when it was opened, and may return
those that appeared since; it returns none twice. -/
def step (s : Plugins) : PluginAction → Option Plugins
  | .appear entry movedIn =>
      if h : entry.name ∉ s.directory.names then
        some { s.notice ⟨entry.name, arrivalMask movedIn⟩ with
          directory := s.directory.add entry h }
      else none
  | .change name attributes =>
      if name ∈ s.directory.names then
        some (s.notice ⟨name, changeMask attributes⟩)
      else none
  | .addWatch => if s.startUp = .begun then some { s with startUp := .watching } else none
  | .startMonitor => if s.startUp = .watching then some { s with startUp := .monitoring } else none
  | .openDir =>
      if s.startUp = .monitoring then some { s with startUp := .scanning s.directory.names }
      else none
  | .readDir entry =>
      match s.startUp with
      | .scanning _ =>
          if entry ∈ s.directory.entries ∧ entry.name ∉ s.returned then
            let s' := { s with returned := s.returned ++ [entry.name] }
            some (if entry.isPlugin then s'.load entry.name else s')
          else none
      | _ => none
  | .endDir =>
      match s.startUp with
      | .scanning present =>
          if present ⊆ s.returned then some { s with startUp := .scanned } else none
      | _ => none
  | .dmRegister => if s.startUp = .scanned then some { s with startUp := .registered } else none
  | .handle =>
      match s.events with
      | event :: rest =>
          if s.startUp.monitored ∧ s.monitorEnded = false then
            let s' := { s with events := rest }
            match event.verdict with
            | .notify => some (if s.startUp = .registered then s'.load event.name else s')
            | .stop => some { s' with monitorEnded := true }
            | .skip => some s'
          else none
      | [] => none

/-- What each step needs and does.  The start-up up to the registration moves between phases, which
the relation leaves open. -/
inductive Steps (s : Plugins) : PluginAction → Plugins → Prop
  | appear {entry : DirEntry} {movedIn : Bool} (h : entry.name ∉ s.directory.names) :
      Steps s (.appear entry movedIn)
        { s.notice ⟨entry.name, arrivalMask movedIn⟩ with
          directory := s.directory.add entry h }
  | change {name : FileName} {attributes : Bool} (hname : name ∈ s.directory.names) :
      Steps s (.change name attributes)
        (s.notice ⟨name, changeMask attributes⟩)
  | startUp {a : PluginAction} {next : StartUp} (hs : s.startUp ≠ .registered)
      (hnext : next ≠ .registered) (ha : a ≠ .dmRegister) : Steps s a { s with startUp := next }
  | readDir {entry : DirEntry} (hs : s.startUp ≠ .registered)
      (hentry : entry ∈ s.directory.entries) (hnew : entry.name ∉ s.returned) :
      Steps s (.readDir entry)
        { s with
          returned := s.returned ++ [entry.name]
          dllList := if entry.isPlugin then s.dllList ++ [entry.name] else s.dllList }
  | dmRegister (hs : s.startUp = .scanned) : Steps s .dmRegister { s with startUp := .registered }
  | notify {event : InotifyEvent} {rest : List InotifyEvent} (hevents : s.events = event :: rest)
      (hverdict : event.verdict = .notify) :
      Steps s .handle
        { s with
          events := rest
          dllList := if s.startUp = .registered then s.dllList ++ [event.name] else s.dllList }
  | skip {event : InotifyEvent} {rest : List InotifyEvent} {ended : Bool}
      (hevents : s.events = event :: rest) (hverdict : event.verdict ≠ .notify) :
      Steps s .handle { s with events := rest, monitorEnded := ended }

variable {s t : Plugins}

theorem step_cases {a : PluginAction} (h : s.step a = some t) : s.Steps a t := by
  cases a with
  | appear entry movedIn =>
      simp only [step] at h
      split at h
      · rename_i hentry
        cases h
        exact .appear hentry
      · cases h
  | change name attributes =>
      simp only [step, Option.ite_none_right_eq_some, Option.some.injEq] at h
      obtain ⟨hname, rfl⟩ := h
      exact .change hname
  | addWatch =>
      simp only [step, Option.ite_none_right_eq_some, Option.some.injEq] at h
      obtain ⟨hs, rfl⟩ := h
      exact .startUp (by simp [hs]) (by simp) (by simp)
  | startMonitor =>
      simp only [step, Option.ite_none_right_eq_some, Option.some.injEq] at h
      obtain ⟨hs, rfl⟩ := h
      exact .startUp (by simp [hs]) (by simp) (by simp)
  | openDir =>
      simp only [step, Option.ite_none_right_eq_some, Option.some.injEq] at h
      obtain ⟨hs, rfl⟩ := h
      exact .startUp (by simp [hs]) (by simp) (by simp)
  | readDir entry =>
      simp only [step] at h
      split at h
      · rename_i present hs
        simp only [Option.ite_none_right_eq_some, Option.some.injEq] at h
        obtain ⟨⟨hentry, hnew⟩, rfl⟩ := h
        have hsteps := Steps.readDir (s := s) (by simp [hs]) hentry hnew
        cases hplugin : entry.isPlugin <;> simp only [hplugin] at hsteps <;> exact hsteps
      · cases h
  | endDir =>
      simp only [step] at h
      split at h
      · rename_i present hs
        simp only [Option.ite_none_right_eq_some, Option.some.injEq] at h
        obtain ⟨-, rfl⟩ := h
        exact .startUp (by simp [hs]) (by simp) (by simp)
      · cases h
  | dmRegister =>
      simp only [step, Option.ite_none_right_eq_some, Option.some.injEq] at h
      obtain ⟨hs, rfl⟩ := h
      exact .dmRegister hs
  | handle =>
      simp only [step] at h
      split at h
      · rename_i event rest hevents
        simp only [Option.ite_none_right_eq_some] at h
        obtain ⟨-, h⟩ := h
        cases hverdict : event.verdict with
        | notify =>
            simp only [hverdict, Option.some.injEq] at h
            subst h
            have hsteps := Steps.notify hevents hverdict
            by_cases hs : s.startUp = .registered <;> simp only [hs, if_true, if_false] at hsteps ⊢
            · exact hsteps
            · exact hsteps
        | stop =>
            simp only [hverdict, Option.some.injEq] at h
            subst h
            exact .skip hevents (by simp [hverdict])
        | skip =>
            simp only [hverdict, Option.some.injEq] at h
            subst h
            exact .skip hevents (by simp [hverdict])
      · cases h

/-! ### The files that the scan and the watch look for -/

/-- The plugins in the directory. -/
def plugins (s : Plugins) : List FileName :=
  (s.directory.entries.filter DirEntry.isPlugin).map DirEntry.name

theorem mem_names_of_mem_plugins {f : FileName} (h : f ∈ s.plugins) : f ∈ s.directory.names :=
  List.map_subset _ List.filter_sublist.subset h

/-- Whether an entry is a plugin can be told from its name. -/
theorem name_mem_plugins {entry : DirEntry} (h : entry ∈ s.directory.entries) :
    entry.name ∈ s.plugins ↔ entry.isPlugin = true := by
  constructor
  · intro hmem
    obtain ⟨other, hother, hname⟩ := List.mem_map.1 hmem
    obtain ⟨hother, hplugin⟩ := List.mem_filter.1 hother
    have heq : other = entry := List.inj_on_of_nodup_map s.directory.nodup hother h hname
    rwa [← heq]
  · intro hplugin
    exact List.mem_map_of_mem (List.mem_filter.2 ⟨h, hplugin⟩)

/-- A name with the extension passes the test of `Monitor`. -/
theorem drop_eq_soSuffix {name : FileName} (h : extension name = soSuffix) :
    name.drop (name.length - 3) = soSuffix := by
  unfold extension at h
  split at h
  · cases h
  · rename_i hstem
    simp only [not_or, not_le] at hstem
    have hne : name.rdropWhile (· ≠ '.') ≠ [] := by
      intro hnil
      rw [hnil] at hstem
      exact absurd hstem.1 (by simp)
    -- the name is what ends with the last period, and then the two letters
    have hlast : (name.rdropWhile (· ≠ '.')).getLast hne = '.' := by
      simpa using List.rdropWhile_last_not _ _ hne
    have hrest : name.rtakeWhile (· ≠ '.') = ['s', 'o'] := (List.cons.inj h).2
    have hsplit := List.dropLast_append_getLast hne
    rw [hlast] at hsplit
    have hsuffix : soSuffix <:+ name := by
      refine ⟨(name.rdropWhile (· ≠ '.')).dropLast, ?_⟩
      calc (name.rdropWhile (· ≠ '.')).dropLast ++ soSuffix
          = (name.rdropWhile (· ≠ '.')).dropLast ++ ['.'] ++ ['s', 'o'] := by
            rw [List.append_assoc]
            rfl
        _ = name.rdropWhile (· ≠ '.') ++ name.rtakeWhile (· ≠ '.') := by
            rw [hsplit, hrest]
        _ = name := List.rdropWhile_append_rtakeWhile
    exact (List.suffix_iff_eq_drop.1 hsuffix).symm

theorem verdict_eq_notify {event : InotifyEvent} :
    event.verdict = .notify ↔ event.name.drop (event.name.length - 3) = soSuffix ∧
      (event.mask &&& inCreate ≠ 0 ∨ event.mask &&& inMovedTo ≠ 0) := by
  grind [InotifyEvent.verdict]

/-- The name of the file that ends the monitor does not end in `.so`. -/
theorem verdict_eq_stop {event : InotifyEvent} :
    event.verdict = .stop ↔ event.name = ['e', 'x', 'i', 't', '.', 't', 'x', 't'] ∧
      event.mask &&& inAttrib ≠ 0 := by
  have hname : event.name = ['e', 'x', 'i', 't', '.', 't', 'x', 't'] →
      event.name.drop (event.name.length - 3) ≠ soSuffix := by
    intro hname
    rw [hname]
    decide
  grind [InotifyEvent.verdict]

/-- The event of a new plugin is passed on. -/
theorem verdict_appear {entry : DirEntry} (h : entry.isPlugin = true) (movedIn : Bool) :
    InotifyEvent.verdict ⟨entry.name, arrivalMask movedIn⟩ = .notify := by
  obtain ⟨-, hext⟩ := Bool.and_eq_true_iff.1 h
  exact verdict_eq_notify.2 ⟨drop_eq_soSuffix (beq_iff_eq.1 hext), arrivalMask_notified movedIn⟩

/-- The event of a changed file is not. -/
theorem verdict_change (name : FileName) (attributes : Bool) :
    InotifyEvent.verdict ⟨name, changeMask attributes⟩ ≠ .notify := by
  intro h
  obtain ⟨hcreate, hmoved⟩ := changeMask_not_notified attributes
  obtain ⟨-, hmask | hmask⟩ := verdict_eq_notify.1 h
  · exact hmask hcreate
  · exact hmask hmoved

/-! ### What is loaded, and what is still to be reported -/

/-- The events for the name `f` that the monitor has not handled. -/
def pending (s : Plugins) (f : FileName) : ℕ := s.events.countP (InotifyEvent.Reports · f)

/-- The loads of the file `f`, with those that its events will cause if the callback is
registered. -/
def due (s : Plugins) (f : FileName) : ℕ := s.dllList.count f + s.pending f

theorem pending_eq_zero {f : FileName} (h : ∀ event ∈ s.events, event.name ≠ f) :
    s.pending f = 0 := by
  refine List.countP_eq_zero.2 ?_
  intro event hevent hreports
  exact h event hevent (of_decide_eq_true hreports).2

/-- An event that the monitor does not pass on is reported to nobody. -/
theorem pending_notice_of_ne {event : InotifyEvent} {f : FileName}
    (h : event.verdict ≠ .notify ∨ event.name ≠ f) : (s.notice event).pending f = s.pending f := by
  have hnot : ¬event.Reports f := by
    rintro ⟨hverdict, hname⟩
    exact h.elim (fun h => h hverdict) (fun h => h hname)
  unfold pending notice
  cases s.startUp.watched <;> simp [hnot]

/-- A new event counts from the watch on. -/
theorem pending_notice_le (s : Plugins) (event : InotifyEvent) (f : FileName) :
    (s.notice event).pending f ≤ s.pending f + 1 := by
  have hone : [event].countP (InotifyEvent.Reports · f) ≤ 1 := List.countP_le_length
  unfold pending notice
  cases s.startUp.watched with
  | false => exact Nat.le_succ _
  | true =>
      simp only [if_true, List.countP_append]
      omega

theorem pending_notice_of_watched {event : InotifyEvent} (hwatched : s.startUp.watched = true)
    (h : event.verdict = .notify) :
    (s.notice event).pending event.name = s.pending event.name + 1 := by
  have hreports : event.Reports event.name := ⟨h, rfl⟩
  simp [pending, notice, hwatched, hreports]

/-! ### The files that the directory has -/

/-- Only files of the directory are in the lists of the program, and no file is returned by the scan
or reported twice. -/
structure Known (s : Plugins) : Prop where
  event : ∀ event ∈ s.events, event.name ∈ s.directory.names
  returned : s.returned ⊆ s.directory.names
  loaded : s.dllList ⊆ s.directory.names
  returned_nodup : s.returned.Nodup
  pending_le : ∀ f, s.pending f ≤ 1

theorem known_start (d : Directory) : (start d).Known :=
  ⟨by simp [start], by simp [start], by simp [start], List.nodup_nil, fun f => Nat.zero_le 1⟩

theorem events_notice (s : Plugins) (event : InotifyEvent) :
    ∀ e ∈ (s.notice event).events, e ∈ s.events ∨ e = event := by
  intro e he
  unfold notice at he
  split at he
  · simpa using he
  · exact .inl he

/-- The head of the queue is handled. -/
theorem pending_cons {event : InotifyEvent} {rest : List InotifyEvent}
    (hevents : s.events = event :: rest) (f : FileName) :
    s.pending f = rest.countP (InotifyEvent.Reports · f) + if event.Reports f then 1 else 0 := by
  rw [pending, hevents, List.countP_cons]
  simp

/-- A file that the directory does not have is not known. -/
theorem Known.due_eq_zero (h : s.Known) {f : FileName} (hf : f ∉ s.directory.names) :
    s.due f = 0 := by
  have hcount : s.dllList.count f = 0 := List.count_eq_zero.2 (fun hmem => hf (h.loaded hmem))
  have hpending : s.pending f = 0 := pending_eq_zero fun e he heq => hf (heq ▸ h.event e he)
  rw [due, hcount, hpending]

theorem Known.step (h : s.Known) {a : PluginAction} (hsteps : s.Steps a t) : t.Known := by
  cases hsteps with
  | @appear entry movedIn hnew =>
      have hgrow : s.directory.names ⊆ (s.directory.add entry hnew).names := List.subset_cons_self _ _
      refine ⟨?_, ?_, ?_, h.returned_nodup, ?_⟩
      · intro e he
        rcases events_notice s _ e he with hold | rfl
        · exact hgrow (h.event e hold)
        · exact List.mem_cons_self
      · exact List.Subset.trans h.returned hgrow
      · exact List.Subset.trans h.loaded hgrow
      · intro f
        change (s.notice _).pending f ≤ 1
        by_cases hf : entry.name = f
        · have hzero : s.pending f = 0 := by
            have hdue := h.due_eq_zero (hf ▸ hnew)
            unfold due at hdue
            omega
          have hle := pending_notice_le s ⟨entry.name, arrivalMask movedIn⟩ f
          omega
        · rw [pending_notice_of_ne (.inr hf)]
          exact h.pending_le f
  | @change name attributes hname =>
      refine ⟨?_, h.returned, h.loaded, h.returned_nodup, ?_⟩
      · intro e he
        rcases events_notice s _ e he with hold | rfl
        · exact h.event e hold
        · exact hname
      · intro f
        rw [pending_notice_of_ne (.inl (verdict_change name attributes))]
        exact h.pending_le f
  | startUp hs hnext ha => exact ⟨h.event, h.returned, h.loaded, h.returned_nodup, h.pending_le⟩
  | @readDir entry hs hentry hnew =>
      have hname : entry.name ∈ s.directory.names := List.mem_map_of_mem hentry
      refine ⟨h.event, ?_, ?_, ?_, h.pending_le⟩
      · exact List.append_subset.2 ⟨h.returned, by simpa using hname⟩
      · cases entry.isPlugin with
        | false => exact h.loaded
        | true => exact List.append_subset.2 ⟨h.loaded, by simpa using hname⟩
      · exact h.returned_nodup.append (List.nodup_singleton _) (by simpa using hnew)
  | dmRegister hs => exact ⟨h.event, h.returned, h.loaded, h.returned_nodup, h.pending_le⟩
  | @notify event rest hevents hverdict =>
      have hname : event.name ∈ s.directory.names := h.event event (by simp [hevents])
      refine ⟨?_, h.returned, ?_, h.returned_nodup, ?_⟩
      · intro e he
        exact h.event e (by rw [hevents]; exact List.mem_cons_of_mem _ he)
      · dsimp only
        split
        · exact List.append_subset.2 ⟨h.loaded, by simpa using hname⟩
        · exact h.loaded
      · intro f
        exact Nat.le_trans (Nat.le_of_add_right_le (pending_cons hevents f).ge) (h.pending_le f)
  | @skip event rest ended hevents hverdict =>
      refine ⟨?_, h.returned, h.loaded, h.returned_nodup, ?_⟩
      · intro e he
        exact h.event e (by rw [hevents]; exact List.mem_cons_of_mem _ he)
      · intro f
        exact Nat.le_trans (Nat.le_of_add_right_le (pending_cons hevents f).ge) (h.pending_le f)

/-! ### The scan -/

/-- Before the registration, the plugins that the scan has returned are those that were loaded. -/
def Scanned (s : Plugins) : Prop :=
  s.startUp ≠ .registered → ∀ f ∈ s.plugins, s.dllList.count f = s.returned.count f

theorem scanned_start (d : Directory) : (start d).Scanned := by
  intro _ f _
  rfl

/-- A plugin in the directory after a step was there before, or it has just appeared. -/
theorem mem_plugins_add {entry : DirEntry} (hnew : entry.name ∉ s.directory.names) {f : FileName}
    {t : Plugins} (ht : t.directory = s.directory.add entry hnew) :
    f ∈ t.plugins ↔ f ∈ s.plugins ∨ entry.isPlugin = true ∧ f = entry.name := by
  unfold plugins
  rw [ht]
  change f ∈ (List.filter DirEntry.isPlugin (entry :: s.directory.entries)).map DirEntry.name ↔ _
  cases hplugin : entry.isPlugin
  · simp [hplugin]
  · simp [hplugin, or_comm]

theorem Scanned.step (h : s.Scanned) (hknown : s.Known) {a : PluginAction}
    (hsteps : s.Steps a t) : t.Scanned := by
  intro hs f hf
  cases hsteps with
  | @appear entry movedIn hnew =>
      rcases (mem_plugins_add hnew rfl).1 hf with hold | ⟨-, rfl⟩
      · exact h hs f hold
      · have hloaded := List.count_eq_zero.2 fun hmem => hnew (hknown.loaded hmem)
        have hreturned := List.count_eq_zero.2 fun hmem => hnew (hknown.returned hmem)
        exact hloaded.trans hreturned.symm
  | change hname => exact h hs f hf
  | startUp hs' hnext ha => exact h hs' f hf
  | @readDir entry hs' hentry hnew =>
      have hcount := h hs f hf
      dsimp only
      cases hplugin : entry.isPlugin with
      | false =>
          -- the file `f` is another one
          have hne : entry.name ≠ f := by
            rintro rfl
            exact Bool.false_ne_true (hplugin.symm.trans ((name_mem_plugins hentry).1 hf))
          simp [hcount, List.count_append, hne]
      | true => simp [hcount, List.count_append]
  | dmRegister hs' => exact absurd rfl hs
  | notify hevents hverdict =>
      change s.startUp ≠ .registered at hs
      simp only [if_neg hs]
      exact h hs f hf
  | skip hevents hverdict => exact h hs f hf

/-! ### From the registration on -/

/-- Each plugin of the directory is loaded once or will be. -/
def Once (s : Plugins) : Prop := ∀ f ∈ s.plugins, s.due f = 1

/-- What has to be true of the state before a step: when the callback is registered, each plugin in
the directory either was returned by the scan or has its event in the queue. -/
def Timely (s : Plugins) (a : PluginAction) : Prop :=
  a = .dmRegister →
    ∀ f ∈ s.plugins, f ∈ s.returned ↔ ¬∃ event ∈ s.events, event.Reports f

instance : DecidableRel Timely := fun _ _ => inferInstanceAs (Decidable (_ → _))

/-- The registration finds each plugin due once when it is timely, and only then. -/
theorem once_iff_timely (hscanned : s.Scanned) (hknown : s.Known) (hs : s.startUp ≠ .registered) :
    s.Once ↔ s.Timely .dmRegister := by
  have hplugin : ∀ f ∈ s.plugins,
      (s.due f = 1 ↔ (f ∈ s.returned ↔ ¬∃ event ∈ s.events, event.Reports f)) := by
    intro f hf
    have hcount := hscanned hs f hf
    have hreturned := List.nodup_iff_count_le_one.1 hknown.returned_nodup f
    have hmem : f ∈ s.returned ↔ 0 < s.returned.count f := List.count_pos_iff.symm
    have hle := hknown.pending_le f
    have hpending : (∃ event ∈ s.events, event.Reports f) ↔ 0 < s.pending f := by
      simp [pending, List.countP_pos_iff]
    rw [hmem, hpending, due, hcount]
    omega
  constructor
  · intro h _ f hf
    exact (hplugin f hf).1 (h f hf)
  · intro h f hf
    exact (hplugin f hf).2 (h rfl f hf)

/-- Once the callback is registered, a step changes for no file how often it is due, and a plugin
that appears is due once. -/
theorem Once.step_iff (hknown : s.Known) {a : PluginAction} (hsteps : s.Steps a t)
    (hs : s.startUp = .registered) : t.startUp = .registered ∧ (t.Once ↔ s.Once) := by
  cases hsteps with
  | @appear entry movedIn hnew =>
      refine ⟨hs, ?_⟩
      have hdue : ∀ f ∈ s.plugins, (s.notice ⟨entry.name, arrivalMask movedIn⟩).due f = s.due f := by
        intro f hf
        have hne : entry.name ≠ f := by
          rintro rfl
          exact hnew (mem_names_of_mem_plugins hf)
        exact congrArg (s.dllList.count f + ·) (pending_notice_of_ne (.inr hne))
      constructor
      · intro h f hf
        exact (hdue f hf).symm.trans (h f ((mem_plugins_add hnew rfl).2 (.inl hf)))
      · intro h f hf
        rcases (mem_plugins_add hnew rfl).1 hf with hold | ⟨hplugin, rfl⟩
        · exact (hdue f hold).trans (h f hold)
        · have hzero := hknown.due_eq_zero hnew
          have hone : (s.notice ⟨entry.name, arrivalMask movedIn⟩).pending entry.name =
              s.pending entry.name + 1 :=
            pending_notice_of_watched (by rw [hs]; rfl) (verdict_appear hplugin movedIn)
          change s.dllList.count entry.name + (s.notice _).pending entry.name = 1
          rw [hone, ← Nat.add_assoc]
          exact congrArg (· + 1) hzero
  | @change name attributes hname =>
      refine ⟨hs, forall₂_congr fun f _ => ?_⟩
      have hpending := pending_notice_of_ne (s := s) (f := f) (.inl (verdict_change name attributes))
      change s.dllList.count f + (s.notice _).pending f = 1 ↔ _
      rw [hpending, due]
  | startUp hs' hnext ha => exact absurd hs hs'
  | readDir hs' hentry hnew => exact absurd hs hs'
  | dmRegister hs' => exact absurd (hs.symm.trans hs') (by simp)
  | @notify event rest hevents hverdict =>
      refine ⟨hs, forall₂_congr fun f _ => ?_⟩
      have hcons := pending_cons hevents f
      simp only [due, if_pos hs]
      change (s.dllList ++ [event.name]).count f + rest.countP (InotifyEvent.Reports · f) = 1 ↔ _
      by_cases hf : event.name = f
      · rw [if_pos ⟨hverdict, hf⟩] at hcons
        simp only [List.count_append, hf, List.count_singleton_self]
        omega
      · rw [if_neg fun h => hf h.2] at hcons
        simp only [List.count_append, List.count_singleton, beq_iff_eq, hf, if_false]
        omega
  | @skip event rest ended hevents hverdict =>
      refine ⟨hs, forall₂_congr fun f _ => ?_⟩
      have hcons := pending_cons hevents f
      rw [if_neg fun h => hverdict h.1] at hcons
      simp only [due]
      change s.dllList.count f + rest.countP (InotifyEvent.Reports · f) = 1 ↔ _
      omega

/-- One step: afterwards each plugin is due once, if the callback is registered then, when that was so
before and the step was timely. -/
theorem step_iff (hknown : s.Known) (hscanned : s.Scanned) {a : PluginAction}
    (hsteps : s.Steps a t) :
    (t.startUp = .registered → t.Once) ↔ (s.startUp = .registered → s.Once) ∧ s.Timely a := by
  by_cases hs : s.startUp = .registered
  · obtain ⟨ht, honce⟩ := Once.step_iff hknown hsteps hs
    have htimely : s.Timely a := by
      rintro rfl
      cases hsteps with
      | startUp hs' hnext ha => exact absurd hs hs'
      | dmRegister hs' => exact absurd (hs.symm.trans hs') (by simp)
    simp only [hs, ht, honce, htimely, true_imp_iff, and_true]
  · by_cases ha : a = .dmRegister
    · subst ha
      have htimely := once_iff_timely hscanned hknown hs
      cases hsteps with
      | startUp hs' hnext ha => exact absurd rfl ha
      | dmRegister hs' =>
          simp only [hs, false_imp_iff, true_and, true_imp_iff]
          exact htimely
    · -- the callback is not registered after the step either
      have ht : t.startUp ≠ .registered := by
        cases hsteps with
        | startUp hs' hnext ha => exact hnext
        | dmRegister hs' => exact absurd rfl ha
        | _ => exact hs
      have htimely : s.Timely a := fun h => absurd h ha
      simp only [hs, ht, htimely, false_imp_iff, and_true]

/-- After the start-up, each plugin is loaded or will be, exactly once, when the run was timely and
only then. -/
theorem once_iff_along (hknown : s.Known) (hscanned : s.Scanned) {actions : List PluginAction}
    (hrun : Transition.run step s actions = some t) :
    (t.startUp = .registered → t.Once) ↔
      (s.startUp = .registered → s.Once) ∧ Transition.Along step Timely s actions := by
  induction actions generalizing s with
  | nil =>
      cases hrun
      exact (and_iff_left trivial).symm
  | cons a rest ih =>
      obtain ⟨u, hu, hrest⟩ := Transition.run_cons_eq_some.1 hrun
      have hsteps := step_cases hu
      rw [ih (hknown.step hsteps) (hscanned.step hknown hsteps) hrest,
        step_iff hknown hscanned hsteps, Transition.Along, hu, and_assoc]

theorem known_run (d : Directory) {actions : List PluginAction}
    (hrun : Transition.run step (start d) actions = some s) : s.Known ∧ s.Scanned :=
  Transition.run_invariant (fun s => s.Known ∧ s.Scanned)
    (fun _ _ _ h hstep => ⟨h.1.step (step_cases hstep), h.2.step h.1 (step_cases hstep)⟩)
    ⟨known_start d, scanned_start d⟩ hrun

/-- The start-up is over, and the monitor has handled all events. -/
def Settled (s : Plugins) : Prop := s.startUp = .registered ∧ s.events = []

instance : DecidablePred Settled := fun _ => inferInstanceAs (Decidable (_ ∧ _))

theorem Settled.due_eq (h : s.Settled) (f : FileName) : s.due f = s.dllList.count f := by
  rw [due, pending, h.2]
  rfl

end Plugins

open Plugins

/-- Every plugin is loaded exactly once.  In a timely run no plugin is ever loaded twice; and once the
start-up is over and all events are handled, each plugin in the directory has been loaded exactly
once if the run was timely, and only then. -/
theorem plugins_loaded_once (d : Directory) (actions : List PluginAction) {s : Plugins}
    (hrun : Transition.run Plugins.step (Plugins.start d) actions = some s) :
    (Transition.Along Plugins.step Timely (Plugins.start d) actions →
      ∀ f ∈ s.plugins, s.dllList.count f ≤ 1) ∧
    (s.Settled →
      ((∀ f ∈ s.plugins, s.dllList.count f = 1) ↔
        Transition.Along Plugins.step Timely (Plugins.start d) actions)) := by
  have hiff := once_iff_along (known_start d) (scanned_start d) hrun
  have hbegun : (start d).startUp ≠ .registered := StartUp.noConfusion
  rw [and_iff_right fun h => absurd h hbegun] at hiff
  obtain ⟨hknown, hscanned⟩ := known_run d hrun
  constructor
  · intro hC f hf
    by_cases hs : s.startUp = .registered
    · have hdue := hiff.2 hC hs f hf
      unfold due at hdue
      omega
    · rw [hscanned hs f hf]
      exact List.nodup_iff_count_le_one.1 hknown.returned_nodup f
  · intro hsettled
    rw [← hiff, imp_iff_right hsettled.1]
    exact forall₂_congr fun f _ => by rw [hsettled.due_eq]

def pluginA : DirEntry := ⟨['a', '.', 's', 'o'], true⟩
def pluginB : DirEntry := ⟨['b', '.', 's', 'o'], true⟩

/-- `a.so` is there before the start-up, `b.so` is moved in after it. -/
def beforeAndAfter : List PluginAction :=
  [.addWatch, .startMonitor, .openDir, .readDir pluginA, .endDir, .dmRegister, .appear pluginB true,
    .handle]

theorem plugins_loaded_once_beforeAndAfter : ∃ s,
    Transition.run Plugins.step (Plugins.start ⟨[pluginA], by decide⟩) beforeAndAfter = some s ∧
      s.plugins = [pluginB.name, pluginA.name] ∧ ∀ f ∈ s.plugins, s.dllList.count f = 1 := by
  refine ⟨_, rfl, rfl, ?_⟩
  have h := plugins_loaded_once ⟨[pluginA], by decide⟩ beforeAndAfter rfl
  exact (h.2 (by decide)).2 (by decide)

/-- `a.so` appears between the watch and the scan. -/
def betweenWatchAndScan : List PluginAction :=
  [.addWatch, .appear pluginA false, .startMonitor, .openDir, .readDir pluginA, .endDir, .dmRegister,
    .handle]

/-- A plugin that appears after the watch is placed and before the scan, and whose event is handled
after the registration, is loaded twice. -/
theorem plugin_loaded_twice :
    ¬∀ (d : Directory) (actions : List PluginAction) (s : Plugins),
      Transition.run Plugins.step (Plugins.start d) actions = some s → s.Settled →
        ∀ f ∈ s.plugins, s.dllList.count f = 1 := by
  intro h
  have hcount := h ⟨[], List.nodup_nil⟩ betweenWatchAndScan _ rfl (by decide) pluginA.name (by decide)
  exact absurd hcount (by decide)

/-- A plugin that appears after the scan, and whose event is handled before the registration, is
never loaded. -/
example : ∃ s,
    Transition.run Plugins.step (Plugins.start ⟨[], List.nodup_nil⟩)
      [.addWatch, .startMonitor, .openDir, .endDir, .appear pluginB false, .handle, .dmRegister] =
        some s ∧ s.Settled ∧ s.plugins = [pluginB.name] ∧ s.dllList = [] :=
  ⟨_, rfl, by decide, by decide, rfl⟩

end IotDrive
