/-
The walk of `DirMonitor::Monitor` over a buffer of events.

`read` fills the buffer with events of variable length: four words, and a name field that ends with
zeros.  `Monitor` goes from one to the next by their lengths.  It looks for the suffix of a name three
bytes before its end, which for short names is in front of the name; there are the upper bytes of the
length of the field, and these are zero.

Main definitions:

* `RawEvent` — an event as it lies in the buffer;
* `DirMonitor.handleEvent`, `DirMonitor.pass` — the body of the inner loop, and the loop;
* `RawEvent.handled` — the events up to the one that stops the monitor.

Main results:

* `RawEvent.verdict_event` — the events are those of the plugins model;
* `DirMonitor.isSo_eq` — **the suffix test**, for names of any length;
* `DirMonitor.handleEvent_eq` — one event, wherever it is;
* `Plugins.run_handle` — the model of the plugins handles the same events the same way;
* `inotify_buffer_parsed` — **the walk** over a whole buffer.
-/

import IotDrive.Library.CString
import IotDrive.Plugins

set_option relaxedAutoImplicit false
set_option autoImplicit false

namespace IotDrive

/-! ### Events in the buffer -/

/-- `EVENT_SIZE`: the watch, the mask, the cookie and the length of the name field. -/
def eventSize : ℕ := 16

/-- An event with the bytes of its name and the number of zeros behind them. -/
structure RawEvent where
  wd : UInt32
  mask : BitVec 32
  cookie : UInt32
  name : List UInt8
  padding : ℕ
  zero_notMem : 0 ∉ name
  padded : name ≠ [] → 0 < padding
  field_lt : name.length + padding < 2 ^ 16

namespace RawEvent

/-- `event->len`. -/
def len (e : RawEvent) : ℕ := e.name.length + e.padding

/-- What the event takes in the buffer. -/
def size (e : RawEvent) : ℕ := eventSize + e.len

def header (e : RawEvent) : List UInt8 :=
  LittleEndian.bytes 4 e.wd.toNat ++ LittleEndian.bytes 4 e.mask.toNat ++
    LittleEndian.bytes 4 e.cookie.toNat ++ LittleEndian.bytes 4 e.len

def format (e : RawEvent) : List UInt8 := e.header ++ e.name ++ List.replicate e.padding 0

theorem length_header (e : RawEvent) : e.header.length = eventSize := by
  simp [header, eventSize]

theorem length_format (e : RawEvent) : e.format.length = e.size := by
  simp [format, length_header, size, len]

end RawEvent

/-- The event for the model of the plugins. -/
def RawEvent.event (e : RawEvent) : InotifyEvent := ⟨e.name.map Char.ofUInt8, e.mask⟩

/-- The bytes of a text of ASCII characters. -/
def asciiBytes (text : List Char) : List UInt8 := text.map Char.toUInt8

def exitTxt : List UInt8 := asciiBytes ['e', 'x', 'i', 't', '.', 't', 'x', 't']

theorem exitTxt_not_so : ¬asciiBytes soSuffix <:+ exitTxt := by decide

/-! ### `Monitor` -/

/-- The inner loop of `Monitor`: `i`, the offsets at which it has taken an event to be, the strings
for which it has called `Notify`, and whether it has returned from `Monitor`. -/
structure MonitorState where
  i : ℤ
  visited : List ℤ
  notified : List (List UInt8)
  returned : Bool
  deriving DecidableEq

namespace DirMonitor

/-- `0 == strcmp(event->name + strlen(event->name) - 3, ".so")`, for the name at `p`. -/
def isSo (buffer : List UInt8) (p : ℤ) : Option Bool := do
  let name ← CString.str (← CString.tail buffer p)
  let ending ← CString.tail buffer (p + name.length - 3)
  CString.equals ending (asciiBytes soSuffix)

/-- The body of the loop.  `i += EVENT_SIZE + event->len` is computed in 64 bits and stored in the
32 bits of `i`. -/
def handleEvent (mPath buffer : List UInt8) (s : MonitorState) : Option MonitorState := do
  -- the mask is read further below in the source; both words are in the header
  let mask ← CString.word 4 (← CString.tail buffer (s.i + 4))
  let len ← CString.word 4 (← CString.tail buffer (s.i + 12))
  let mask := BitVec.ofNat 32 mask
  let s := { s with visited := s.visited ++ [s.i] }
  let next := Int.bmod (s.i + eventSize + len) (2 ^ 32)
  if len ≠ 0 then
    if !(← isSo buffer (s.i + eventSize)) then
      if (← CString.equals (← CString.tail buffer (s.i + eventSize)) exitTxt) ∧
          mask &&& inAttrib ≠ 0 then
        return { s with returned := true }
      return { s with i := next }
    if mask &&& inCreate ≠ 0 ∨ mask &&& inMovedTo ≠ 0 then
      let name ← CString.str (← CString.tail buffer (s.i + eventSize))
      let str := mPath ++ asciiBytes ['/'] ++ name
      return { s with i := next, notified := s.notified ++ [str] }
  return { s with i := next }

/-- The loop, for a number of rounds. -/
def pass (mPath buffer : List UInt8) : ℕ → MonitorState → Option MonitorState
  | 0, _ => none
  | rounds + 1, s =>
      if s.returned ∨ buffer.length ≤ s.i then some s
      else (handleEvent mPath buffer s).bind (pass mPath buffer rounds)

end DirMonitor

/-! ### One event -/

namespace RawEvent

/-- The name ends in `.so`, and the file was created or moved in. -/
def IsPlugin (e : RawEvent) : Prop :=
  asciiBytes soSuffix <:+ e.name ∧ (e.mask &&& inCreate ≠ 0 ∨ e.mask &&& inMovedTo ≠ 0)

/-- The attributes of the file `exit.txt` were changed. -/
def IsExit (e : RawEvent) : Prop := e.name = exitTxt ∧ e.mask &&& inAttrib ≠ 0

instance : DecidablePred IsPlugin := fun _ => instDecidableAnd

instance : DecidablePred IsExit := fun _ => instDecidableAnd

/-- What the monitor does about the event. -/
def after (e : RawEvent) (mPath : List UInt8) (s : MonitorState) : MonitorState :=
  if e.IsExit then { s with visited := s.visited ++ [s.i], returned := true }
  else
    { s with
      i := s.i + e.size
      visited := s.visited ++ [s.i]
      notified := s.notified ++
        if e.IsPlugin then [mPath ++ asciiBytes ['/'] ++ e.name] else [] }

theorem after_of_isExit {e : RawEvent} (h : e.IsExit) (mPath : List UInt8) (s : MonitorState) :
    e.after mPath s = { s with visited := s.visited ++ [s.i], returned := true } := if_pos h

theorem after_of_not_isExit {e : RawEvent} (h : ¬e.IsExit) (mPath : List UInt8)
    (s : MonitorState) : e.after mPath s =
      { s with
        i := s.i + e.size
        visited := s.visited ++ [s.i]
        notified := s.notified ++
          if e.IsPlugin then [mPath ++ asciiBytes ['/'] ++ e.name] else [] } := if_neg h

/-- The event is handled as the plugins model has it. -/
theorem verdict_event (e : RawEvent) :
    (e.event.verdict = .notify ↔ e.IsPlugin) ∧ (e.event.verdict = .stop ↔ e.IsExit) := by
  have hbyte : ∀ b, (Char.ofUInt8 b).toUInt8 = b := fun b => UInt8.toUInt8_toUInt32 b
  have hinj : Function.Injective (List.map Char.ofUInt8) :=
    List.map_injective_iff.2 (Function.LeftInverse.injective hbyte)
  have hso : soSuffix = (asciiBytes soSuffix).map Char.ofUInt8 := by decide
  have hexit : ['e', 'x', 'i', 't', '.', 't', 'x', 't'] = exitTxt.map Char.ofUInt8 := by decide
  have hdrop : e.event.name.drop (e.event.name.length - 3) = soSuffix ↔
      asciiBytes soSuffix <:+ e.name := by
    rw [event, List.length_map, ← List.map_drop, hso, hinj.eq_iff, List.suffix_iff_eq_drop]
    exact eq_comm
  have hname : e.event.name = ['e', 'x', 'i', 't', '.', 't', 'x', 't'] ↔ e.name = exitTxt := by
    rw [hexit, event, hinj.eq_iff]
  constructor
  · rw [Plugins.verdict_eq_notify, hdrop]
    rfl
  · rw [Plugins.verdict_eq_stop, hname]
    rfl

/-- The upper bytes of the length of the field are zero. -/
theorem header_eq (e : RawEvent) :
    ∃ front b, front.length = 13 ∧ e.header = front ++ [b, 0, 0] := by
  have hlt := e.field_lt
  have hlen : LittleEndian.bytes 4 e.len =
      [UInt8.ofNat (e.len % 256), UInt8.ofNat (e.len / 256 % 256), 0, 0] := by
    have h2 : e.len / 256 / 256 = 0 := by
      rw [len]
      omega
    simp [LittleEndian.bytes, h2]
  refine ⟨LittleEndian.bytes 4 e.wd.toNat ++ LittleEndian.bytes 4 e.mask.toNat ++
    LittleEndian.bytes 4 e.cookie.toNat ++ [UInt8.ofNat (e.len % 256)],
    UInt8.ofNat (e.len / 256 % 256), by simp, ?_⟩
  rw [header, hlen, List.append_assoc _ [_], List.singleton_append]

/-- Without a name field an event is neither a plugin nor the one that stops the monitor. -/
theorem not_isPlugin_of_len {e : RawEvent} (h : e.len = 0) : ¬e.IsPlugin ∧ ¬e.IsExit := by
  have hname : e.name = [] := List.length_eq_zero_iff.1 (Nat.add_eq_zero_iff.1 h).1
  constructor
  · rintro ⟨hsuffix, -⟩
    rw [hname] at hsuffix
    cases List.suffix_nil.1 hsuffix
  · rintro ⟨htext, -⟩
    rw [hname] at htext
    cases htext

/-- An event that stops the monitor is no plugin. -/
theorem IsExit.not_isPlugin {e : RawEvent} (h : e.IsExit) : ¬e.IsPlugin := by
  rintro ⟨hsuffix, -⟩
  exact exitTxt_not_so (h.1 ▸ hsuffix)

/-- A field that is not empty has a zero behind the name. -/
theorem format_eq {e : RawEvent} (h : e.len ≠ 0) :
    ∃ k, e.format = e.header ++ (e.name ++ 0 :: List.replicate k 0) := by
  have hpos : 0 < e.padding := by
    by_contra hzero
    have hname : e.name = [] := by
      by_contra hne
      exact hzero (e.padded hne)
    rw [len, hname] at h
    exact h (by simpa using hzero)
  obtain ⟨k, hk⟩ := Nat.exists_eq_succ_of_ne_zero hpos.ne'
  exact ⟨k, by rw [format, hk, List.replicate_succ, List.append_assoc]⟩

end RawEvent

namespace DirMonitor

variable {mPath buffer rest : List UInt8} {e : RawEvent} {s : MonitorState} {p : ℤ}

/-- The end of a name of three bytes or more. -/
theorem ending_of_le (h : CString.tail buffer p = some (e.header ++ (e.name ++ 0 :: rest)))
    (hn : 3 ≤ e.name.length) :
    CString.tail buffer (p + eventSize + e.name.length - 3) =
      some (e.name.drop (e.name.length - 3) ++ 0 :: rest) := by
  have hsplit : e.header ++ (e.name ++ 0 :: rest) =
      (e.header ++ e.name.take (e.name.length - 3)) ++
        (e.name.drop (e.name.length - 3) ++ 0 :: rest) := by
    rw [List.append_assoc, ← List.append_assoc (e.name.take _), List.take_append_drop]
  rw [hsplit] at h
  refine CString.tail_add h ?_
  simp only [List.length_append, e.length_header, List.length_take]
  omega

/-- For a shorter name the comparison starts in the header, in front of a zero there. -/
theorem ending_of_lt (h : CString.tail buffer p = some (e.header ++ (e.name ++ 0 :: rest)))
    (hn : e.name.length < 3) :
    ∃ b, CString.tail buffer (p + eventSize + e.name.length - 3) =
      some ([b, 0, 0].drop e.name.length ++ (e.name ++ 0 :: rest)) := by
  obtain ⟨front, b, hfront, hheader⟩ := e.header_eq
  have hsplit : e.header ++ (e.name ++ 0 :: rest) = (front ++ [b, 0, 0].take e.name.length) ++
      ([b, 0, 0].drop e.name.length ++ (e.name ++ 0 :: rest)) := by
    rw [hheader, List.append_assoc front, List.append_assoc front,
      ← List.append_assoc ([b, 0, 0].take _), List.take_append_drop]
  rw [hsplit] at h
  refine ⟨b, CString.tail_add h ?_⟩
  simp only [List.length_append, hfront, List.length_take, List.length_cons, List.length_nil,
    eventSize]
  omega

/-- The test of the suffix is right for names of any length. -/
theorem isSo_eq (h : CString.tail buffer p = some (e.header ++ (e.name ++ 0 :: rest))) :
    isSo buffer (p + eventSize) = some (decide (asciiBytes soSuffix <:+ e.name)) := by
  have hname : CString.tail buffer (p + eventSize) = some (e.name ++ 0 :: rest) :=
    CString.tail_add h (by rw [e.length_header])
  have hbind : isSo buffer (p + eventSize) =
      (CString.tail buffer (p + eventSize + e.name.length - 3)).bind fun ending =>
        CString.equals ending (asciiBytes soSuffix) := by
    simp only [isSo, hname, Option.bind_eq_bind, Option.bind_some,
      CString.str_append e.zero_notMem rest]
  rw [hbind]
  by_cases hn : 3 ≤ e.name.length
  · have hzero : 0 ∉ e.name.drop (e.name.length - 3) := fun hmem =>
      e.zero_notMem (List.mem_of_mem_drop hmem)
    rw [ending_of_le h hn, Option.bind_some, CString.equals_append hzero (by decide),
      Option.some.injEq, decide_eq_decide, List.suffix_iff_eq_drop]
    exact eq_comm
  · have hnot : ¬asciiBytes soSuffix <:+ e.name := fun hsuffix => hn hsuffix.length_le
    obtain ⟨b, hending⟩ := ending_of_lt h (Nat.lt_of_not_le hn)
    rw [hending, decide_eq_false hnot, Option.bind_some]
    -- the zero is the second byte that is compared, or the first one
    obtain h₀ | h₁ | h₂ : e.name.length = 0 ∨ e.name.length = 1 ∨ e.name.length = 2 := by omega
    · rw [h₀]
      by_cases hb : b = '.'.toUInt8
      · subst hb
        rfl
      · exact if_neg hb
    · rw [h₁]
      rfl
    · rw [h₂]
      rfl

/-- The words of the header. -/
theorem words_eq (h : CString.tail buffer p = some (e.format ++ rest)) :
    (CString.tail buffer (p + 4)).bind (CString.word 4) = some e.mask.toNat ∧
      (CString.tail buffer (p + 12)).bind (CString.word 4) = some e.len := by
  have hlt := e.field_lt
  rw [RawEvent.format, RawEvent.header] at h
  simp only [List.append_assoc] at h
  have hmask := CString.tail_add (q := p + 4) h (by simp)
  have hcookie := CString.tail_add (q := p + 8) hmask (by simp; ring)
  have hlen := CString.tail_add (q := p + 12) hcookie (by simp; ring)
  constructor
  · rw [hmask]
    exact CString.word_append (by simpa using e.mask.isLt) _
  · rw [hlen]
    refine CString.word_append ?_ _
    rw [RawEvent.len]
    omega

theorem size_le (h : CString.tail buffer p = some (e.format ++ rest)) :
    0 ≤ p ∧ p + e.size ≤ buffer.length := by
  obtain ⟨hp, hlength⟩ := CString.length_of_tail h
  rw [List.length_append, e.length_format] at hlength
  omega

/-- The next event begins behind this one. -/
theorem next_eq (h : CString.tail buffer p = some (e.format ++ rest))
    (hlen : buffer.length < 2 ^ 31) : Int.bmod (p + eventSize + e.len) (2 ^ 32) = p + e.size := by
  have hle := size_le h
  rw [RawEvent.size] at hle ⊢
  rw [Int.bmod_eq_of_le] <;> push_cast <;> omega

/-- An event that begins at `i`. -/
theorem handleEvent_eq (h : CString.tail buffer s.i = some (e.format ++ rest))
    (hlen : buffer.length < 2 ^ 31) : handleEvent mPath buffer s = some (e.after mPath s) := by
  have hwords := words_eq h
  obtain ⟨m₁, htail₁, hmask⟩ := Option.bind_eq_some_iff.1 hwords.1
  obtain ⟨m₂, htail₂, hfield⟩ := Option.bind_eq_some_iff.1 hwords.2
  have hnext := next_eq h hlen
  have hmaskEq : BitVec.ofNat 32 e.mask.toNat = e.mask := by simp
  by_cases hempty : e.len = 0
  · obtain ⟨hplugin, hexit⟩ := RawEvent.not_isPlugin_of_len hempty
    rw [hempty] at hfield hnext
    simp only [handleEvent, htail₁, hmask, htail₂, hfield, hnext, hmaskEq, Option.bind_eq_bind,
      Option.bind_some, RawEvent.after_of_not_isExit hexit, if_neg hplugin, List.append_nil]
    rfl
  · obtain ⟨k, hformat⟩ := e.format_eq hempty
    rw [hformat, List.append_assoc, List.append_assoc, List.cons_append] at h
    have hname := CString.tail_add (q := s.i + eventSize) h (by rw [e.length_header])
    have hso := isSo_eq h
    have htext := CString.equals_append e.zero_notMem (by decide : 0 ∉ exitTxt)
      (List.replicate k 0 ++ rest)
    have hstr := CString.str_append e.zero_notMem (List.replicate k 0 ++ rest)
    simp only [handleEvent, htail₁, hmask, htail₂, hfield, hnext, hmaskEq, hso, hname, htext, hstr,
      Option.bind_eq_bind, Option.bind_some, RawEvent.after, if_pos hempty]
    -- what is left are the tests on the name and the mask
    by_cases hsuffix : asciiBytes soSuffix <:+ e.name
    · have hexit : ¬e.IsExit := fun hexit => exitTxt_not_so (hexit.1 ▸ hsuffix)
      simp only [decide_eq_true hsuffix, Bool.not_true, Bool.false_eq_true, if_false, if_neg hexit]
      by_cases hmasks : e.mask &&& inCreate ≠ 0 ∨ e.mask &&& inMovedTo ≠ 0
      · have hplugin : e.IsPlugin := ⟨hsuffix, hmasks⟩
        rw [if_pos hmasks, if_pos hplugin]
        rfl
      · have hplugin : ¬e.IsPlugin := fun hplugin => hmasks hplugin.2
        rw [if_neg hmasks, if_neg hplugin, List.append_nil]
        rfl
    · have hplugin : ¬e.IsPlugin := fun hplugin => hsuffix hplugin.1
      simp only [decide_eq_false hsuffix, Bool.not_false, if_true, decide_eq_true_eq, if_neg hplugin,
        List.append_nil]
      by_cases hexit : e.name = exitTxt ∧ e.mask &&& inAttrib ≠ 0
      · have hexit' : e.IsExit := hexit
        rw [if_pos hexit, if_pos hexit']
        rfl
      · have hexit' : ¬e.IsExit := hexit
        rw [if_neg hexit, if_neg hexit']
        rfl

end DirMonitor

/-! ### All events -/

namespace RawEvent

/-- The events up to the first one that stops the monitor, this one included. -/
def handled : List RawEvent → List RawEvent
  | [] => []
  | e :: rest => if e.IsExit then [e] else e :: handled rest

/-- Where the events begin, when the first one begins at `start`. -/
def offsets (start : ℤ) : List RawEvent → List ℤ
  | [] => []
  | e :: rest => start :: offsets (start + e.size) rest

/-- What `Notify` is called with. -/
def notifications (mPath : List UInt8) (events : List RawEvent) : List (List UInt8) :=
  (events.filter IsPlugin).map fun e => mPath ++ asciiBytes ['/'] ++ e.name

theorem notifications_cons (mPath : List UInt8) (e : RawEvent) (rest : List RawEvent) :
    notifications mPath (e :: rest) =
      (if e.IsPlugin then [mPath ++ asciiBytes ['/'] ++ e.name] else []) ++
        notifications mPath rest := by
  by_cases h : e.IsPlugin
  · simp [notifications, h]
  · simp [notifications, h]

end RawEvent

namespace DirMonitor

variable (mPath : List UInt8) {buffer : List UInt8}

theorem pass_of_done {s : MonitorState} (h : s.returned = true ∨ (buffer.length : ℤ) ≤ s.i)
    (rounds : ℕ) : pass mPath buffer (rounds + 1) s = some s := if_pos h

/-- A round of the loop. -/
theorem pass_event {e : RawEvent} {rest : List UInt8} {s : MonitorState}
    (h : CString.tail buffer s.i = some (e.format ++ rest)) (hlen : buffer.length < 2 ^ 31)
    (hreturned : s.returned = false) (rounds : ℕ) :
    pass mPath buffer (rounds + 1) s = pass mPath buffer rounds (e.after mPath s) := by
  have hmore : ¬(s.returned = true ∨ (buffer.length : ℤ) ≤ s.i) := by
    have hle := (size_le h).2
    rw [RawEvent.size, eventSize] at hle
    rintro (htrue | hend)
    · rw [hreturned] at htrue
      cases htrue
    · omega
  rw [pass, if_neg hmore, handleEvent_eq h hlen, Option.bind_some]

/-- The loop from an event on. -/
theorem pass_eq {events : List RawEvent} {s : MonitorState}
    (h : CString.tail buffer s.i = some (events.flatMap RawEvent.format))
    (hlen : buffer.length < 2 ^ 31) {rounds : ℕ} (hrounds : events.length < rounds)
    (hreturned : s.returned = false) :
    ∃ i, pass mPath buffer rounds s =
      some ⟨i, s.visited ++ RawEvent.offsets s.i (RawEvent.handled events),
        s.notified ++ RawEvent.notifications mPath (RawEvent.handled events),
        decide (∃ e ∈ events, e.IsExit)⟩ ∧
      ((∀ e ∈ events, ¬e.IsExit) → i = buffer.length) := by
  -- induction on the events that follow
  induction events generalizing rounds s with
  | nil =>
      obtain ⟨rounds, rfl⟩ := Nat.exists_eq_succ_of_ne_zero (Nat.ne_of_gt hrounds)
      have hend : s.i = buffer.length := by simpa using (CString.length_of_tail h).2
      refine ⟨s.i, ?_, fun _ => hend⟩
      rw [pass_of_done mPath (.inr hend.ge)]
      simp [RawEvent.handled, RawEvent.offsets, RawEvent.notifications, ← hreturned]
  | cons e rest ih =>
      obtain ⟨rounds, rfl⟩ := Nat.exists_eq_succ_of_ne_zero
        (Nat.ne_of_gt (Nat.zero_lt_of_lt hrounds))
      have hrest := Nat.lt_of_succ_lt_succ hrounds
      rw [List.flatMap_cons] at h
      rw [pass_event mPath h hlen hreturned]
      by_cases hexit : e.IsExit
      · -- the function returns, and the loop is not entered again
        obtain ⟨rounds, rfl⟩ := Nat.exists_eq_succ_of_ne_zero
          (Nat.ne_of_gt (Nat.zero_lt_of_lt hrest))
        refine ⟨s.i, ?_, fun hnone => absurd hexit (hnone e List.mem_cons_self)⟩
        rw [RawEvent.after_of_isExit hexit, pass_of_done mPath (.inl rfl)]
        simp [RawEvent.handled, RawEvent.offsets, RawEvent.notifications, hexit,
          hexit.not_isPlugin]
      · rw [RawEvent.after_of_not_isExit hexit]
        have hnext : CString.tail buffer (s.i + e.size) = some (rest.flatMap RawEvent.format) :=
          CString.tail_add h (by rw [e.length_format])
        obtain ⟨i, hpass, hend⟩ := ih (s := { s with
            i := s.i + e.size
            visited := s.visited ++ [s.i]
            notified := s.notified ++
              if e.IsPlugin then [mPath ++ asciiBytes ['/'] ++ e.name] else [] })
          hnext hrest hreturned
        refine ⟨i, ?_, fun hnone => hend fun e' he' => hnone e' (List.mem_cons_of_mem e he')⟩
        rw [hpass]
        simp [RawEvent.handled, RawEvent.offsets, RawEvent.notifications_cons, hexit]

end DirMonitor

/-- The model of the plugins handles an event as the walk does. -/
theorem Plugins.step_handle {e : RawEvent} {later : List InotifyEvent} {s : Plugins}
    (hevents : s.events = e.event :: later) (hregistered : s.startUp = .registered)
    (hended : s.monitorEnded = false) :
    s.step .handle = some { s with
      events := later
      monitorEnded := decide e.IsExit
      dllList := s.dllList ++ if e.IsPlugin then [e.event.name] else [] } := by
  have hmonitored : StartUp.registered.monitored = true := rfl
  obtain ⟨hnotify, hstop⟩ := e.verdict_event
  cases hverdict : e.event.verdict with
  | notify =>
      have hplugin := hnotify.1 hverdict
      have hexit : ¬e.IsExit := fun hexit => hexit.not_isPlugin hplugin
      simp [Plugins.step, hevents, hregistered, hmonitored, hended, hverdict, Plugins.load,
        hplugin, hexit]
  | stop =>
      have hexit := hstop.1 hverdict
      simp [Plugins.step, hevents, hregistered, hmonitored, hended, hverdict, hexit,
        hexit.not_isPlugin]
  | skip =>
      have hplugin : ¬e.IsPlugin := fun hplugin => by
        cases hverdict.symm.trans (hnotify.2 hplugin)
      have hexit : ¬e.IsExit := fun hexit => by
        cases hverdict.symm.trans (hstop.2 hexit)
      simp [Plugins.step, hevents, hregistered, hmonitored, hended, hverdict, hplugin, hexit]

/-- So it does with the events of a buffer: it loads the files that the walk calls `Notify` for. -/
theorem Plugins.run_handle {events : List RawEvent} {later : List InotifyEvent} {s : Plugins}
    (hevents : s.events = events.map RawEvent.event ++ later)
    (hregistered : s.startUp = .registered) (hended : s.monitorEnded = false) :
    ∃ t, Transition.run Plugins.step s
        (List.replicate (RawEvent.handled events).length .handle) = some t ∧
      (t.monitorEnded = true ↔ ∃ e ∈ events, e.IsExit) ∧
      t.dllList = s.dllList ++
        ((RawEvent.handled events).filter RawEvent.IsPlugin).map fun e => e.event.name := by
  induction events generalizing s with
  | nil => exact ⟨s, rfl, by simp [hended], by simp [RawEvent.handled]⟩
  | cons e rest ih =>
      have hstep := step_handle hevents hregistered hended
      by_cases hexit : e.IsExit
      · refine ⟨_, by simp [RawEvent.handled, hexit, Transition.run_cons, hstep]; rfl, ?_, ?_⟩
        · simp [hexit]
        · simp [RawEvent.handled, hexit, hexit.not_isPlugin]
      · obtain ⟨t, hrun, hstopped, hdlls⟩ := ih (s := { s with
            events := rest.map RawEvent.event ++ later
            monitorEnded := decide e.IsExit
            dllList := s.dllList ++ if e.IsPlugin then [e.event.name] else [] })
          rfl hregistered (decide_eq_false hexit)
        refine ⟨t, ?_, ?_, ?_⟩
        · rw [RawEvent.handled, if_neg hexit, List.length_cons, List.replicate_succ,
            Transition.run_cons, hstep]
          exact hrun
        · rw [hstopped]
          simp [hexit]
        · rw [hdlls, RawEvent.handled, if_neg hexit]
          by_cases hplugin : e.IsPlugin
          · simp [hplugin]
          · simp [hplugin]

/-- **The walk** over a buffer of events whose length fits the `int` that holds it: it reads nothing
outside of the buffer, takes the events for events and nothing else, in order, up to the one that
stops the monitor; it calls `Notify` for the plugins among them; and unless it is stopped it ends at
the end of the buffer. -/
theorem inotify_buffer_parsed (mPath : List UInt8) (events : List RawEvent)
    (hlen : (events.flatMap RawEvent.format).length < 2 ^ 31) {rounds : ℕ}
    (hrounds : events.length < rounds) :
    let buffer := events.flatMap RawEvent.format
    ∃ s, DirMonitor.pass mPath buffer rounds ⟨0, [], [], false⟩ = some s ∧
      s.visited = RawEvent.offsets 0 (RawEvent.handled events) ∧
      s.notified = RawEvent.notifications mPath (RawEvent.handled events) ∧
      (s.returned = true ↔ ∃ e ∈ events, e.IsExit) ∧
      (s.returned = false → s.i = buffer.length) := by
  intro buffer
  obtain ⟨i, hpass, hend⟩ := DirMonitor.pass_eq mPath (s := ⟨0, [], [], false⟩)
    (CString.tail_zero buffer) hlen hrounds rfl
  refine ⟨_, hpass, by simp, by simp, by simp, ?_⟩
  intro hreturned
  refine hend ?_
  simpa using hreturned

/-- A file with a name of one character, a plugin that is moved in, the file that ends the monitor,
and a plugin that comes too late. -/
def fourEvents : List RawEvent :=
  [⟨1, inCreate, 0, asciiBytes ['a'], 15, by decide, by decide, by decide⟩,
    ⟨1, inMovedTo, 7, asciiBytes ['x', '.', 's', 'o'], 12, by decide, by decide, by decide⟩,
    ⟨1, inAttrib, 0, exitTxt, 8, by decide, by decide, by decide⟩,
    ⟨1, inCreate, 0, asciiBytes ['y', '.', 's', 'o'], 12, by decide, by decide, by decide⟩]

theorem inotify_buffer_parsed_fourEvents :
    ∃ s, DirMonitor.pass (asciiBytes ['d']) (fourEvents.flatMap RawEvent.format) 5
        ⟨0, [], [], false⟩ = some s ∧
      s.visited = [0, 32, 64] ∧ s.notified = [asciiBytes ['d', '/', 'x', '.', 's', 'o']] ∧
      s.returned = true := by
  have hlen : (fourEvents.flatMap RawEvent.format).length < 2 ^ 31 := by
    simp only [List.length_flatMap, RawEvent.length_format]
    decide
  obtain ⟨s, hpass, hvisited, hnotified, hreturned, -⟩ :=
    inotify_buffer_parsed (asciiBytes ['d']) fourEvents hlen (by decide : 4 < 5)
  refine ⟨s, hpass, hvisited.trans (by decide), hnotified.trans (by decide), ?_⟩
  exact hreturned.2 (by decide)

end IotDrive
