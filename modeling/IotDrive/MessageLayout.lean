/-
How long a message is.

Four functions of every class of messages depend on its length: the bytes that `ToBuffer` writes, the
pointer that it returns, `GetBufferSize`, and the distance by which `FromBuffer` advances.  Where they
agree, messages can be laid out one after the other in a buffer and decoded in sequence.  They do not
agree for a `MinionReadMsg` with data.

Main definitions:

* `IMessage` — an object of one of the seven classes;
* `IMessage.OneLength` — the four lengths agree;
* `IMessage.fromBuffers` — decoding in sequence.

Main results:

* `IMessage.oneLength_iff` — for which messages they agree;
* `messages_laid_out` — **one length** for these messages, and the layout of a sequence of them.
-/

import IotDrive.MessageFormat
import Mathlib.Algebra.BigOperators.Group.List.Basic

set_option relaxedAutoImplicit false
set_option autoImplicit false

namespace IotDrive

/-- An object of a class that implements `IMessage`. -/
inductive IMessage
  | threadSafeUID (m : ThreadSafeUID)
  | readMsg (m : ReadMsg)
  | writeMsg (m : WriteMsg)
  | minionReadMsg (m : MinionReadMsg)
  | minionWriteMsg (m : MinionWriteMsg)
  | nbdReadMsg (m : NBDReadMsg)
  | nbdWriteMsg (m : NBDWriteMsg)
  deriving DecidableEq

namespace IMessage

def toBuffer : IMessage → Buffer → Buffer
  | threadSafeUID m => m.toBuffer
  | readMsg m => m.toBuffer
  | writeMsg m => m.toBuffer
  | minionReadMsg m => m.toBuffer
  | minionWriteMsg m => m.toBuffer
  | nbdReadMsg m => m.toBuffer
  | nbdWriteMsg m => m.toBuffer

/-- The result of a decoding, as an object of the class. -/
def decoded {α : Type} (make : α → IMessage) (result : Except Fault (α × List UInt8)) :
    Except Fault (IMessage × List UInt8) :=
  result.map fun r => (make r.1, r.2)

/-- What `FromBuffer` makes of an object, of which only the class matters. -/
def fromBuffer (other : UInt8 → Bool) :
    IMessage → List UInt8 → Except Fault (IMessage × List UInt8)
  | threadSafeUID _, buffer => decoded threadSafeUID (ThreadSafeUID.fromBuffer buffer)
  | readMsg _, buffer => decoded readMsg (ReadMsg.fromBuffer buffer)
  | writeMsg _, buffer => decoded writeMsg (WriteMsg.fromBuffer buffer)
  | minionReadMsg _, buffer => decoded minionReadMsg (MinionReadMsg.fromBuffer other buffer)
  | minionWriteMsg _, buffer => decoded minionWriteMsg (MinionWriteMsg.fromBuffer other buffer)
  | nbdReadMsg _, buffer => decoded nbdReadMsg (NBDReadMsg.fromBuffer buffer)
  | nbdWriteMsg _, buffer => decoded nbdWriteMsg (NBDWriteMsg.fromBuffer buffer)

def getBufferSize : IMessage → ℕ
  | threadSafeUID m => m.getBufferSize
  | readMsg m => m.getBufferSize
  | writeMsg m => m.getBufferSize
  | minionReadMsg m => m.getBufferSize
  | minionWriteMsg m => m.getBufferSize
  | nbdReadMsg m => m.getBufferSize
  | nbdWriteMsg m => m.getBufferSize

/-- The data of a message has `GetSize()` bytes; a null pointer has none. -/
def WellFormed : IMessage → Prop
  | writeMsg m => (m.data.getD []).length = m.size.toNat
  | minionReadMsg m => (m.data.getD []).length = m.size.toNat
  | nbdWriteMsg m => (m.data.getD []).length = m.size.toNat
  | _ => True

instance : DecidablePred WellFormed
  | writeMsg _ | minionReadMsg _ | nbdWriteMsg _ => inferInstanceAs (Decidable (_ = _))
  | threadSafeUID _ | readMsg _ | minionWriteMsg _ | nbdReadMsg _ => instDecidableTrue

/-- The message as it is decoded: its data is an array, even if there are none. -/
def received : IMessage → IMessage
  | writeMsg m => writeMsg { m with data := some (m.data.getD []) }
  | minionReadMsg m => minionReadMsg { m with data := some (m.data.getD []) }
  | nbdWriteMsg m => nbdWriteMsg { m with data := some (m.data.getD []) }
  | m => m

/-- A `MinionReadMsg` with data. -/
def CarriesAnswer : IMessage → Prop
  | minionReadMsg m => m.size ≠ 0
  | _ => False

instance : DecidablePred CarriesAnswer
  | minionReadMsg _ => inferInstanceAs (Decidable (¬_))
  | threadSafeUID _ | readMsg _ | writeMsg _ | minionWriteMsg _ | nbdReadMsg _ | nbdWriteMsg _ =>
      instDecidableFalse

/-- The bytes that `ToBuffer` has written. -/
def encoding (m : IMessage) (heap : ℕ → UInt8) : List UInt8 :=
  Extent.extract (m.toBuffer (.start heap)).mem 0 (m.toBuffer (.start heap)).high

/-- The bytes written, the pointer returned, the buffer size and the distance of the decoding are
`n`, and the decoding returns the message. -/
structure HasLength (m : IMessage) (n : ℕ) : Prop where
  written : ∀ heap, (m.toBuffer (.start heap)).high = n
  returned : ∀ heap, (m.toBuffer (.start heap)).ptr = n
  bufferSize : m.getBufferSize = n
  advance : ∀ other heap rest,
    m.fromBuffer other (m.encoding heap ++ rest) = .ok (m.received, rest)

/-- The four lengths of the message agree. -/
def OneLength (m : IMessage) : Prop := ∃ n, m.HasLength n

/-- Write messages one after the other. -/
def toBuffers (ms : List IMessage) (buffer : Buffer) : Buffer :=
  ms.foldl (fun buffer m => m.toBuffer buffer) buffer

/-- Decode messages one after the other, into objects of their classes. -/
def fromBuffers (other : UInt8 → Bool) :
    List IMessage → List UInt8 → Except Fault (List IMessage × List UInt8)
  | [], buffer => .ok ([], buffer)
  | m :: ms, buffer => do
      let (m, buffer) ← m.fromBuffer other buffer
      let (ms, buffer) ← fromBuffers other ms buffer
      return (m :: ms, buffer)

/-! ### Formats -/

/-- The bytes of a message. -/
def format : IMessage → List UInt8
  | threadSafeUID m => m.format
  | readMsg m => m.format
  | writeMsg m => m.format (m.data.getD [])
  | minionReadMsg m => m.format (m.data.getD [])
  | minionWriteMsg m => m.format
  | nbdReadMsg m => m.format
  | nbdWriteMsg m => m.format (m.data.getD [])

variable {m : IMessage}

theorem fromBuffer_format (h : m.WellFormed) (other : UInt8 → Bool) (rest : List UInt8) :
    m.fromBuffer other (m.format ++ rest) = .ok (m.received, rest) := by
  cases m with
  | threadSafeUID m => exact congrArg (decoded _) (m.fromBuffer_format rest)
  | readMsg m => exact congrArg (decoded _) (m.fromBuffer_format rest)
  | writeMsg m =>
      let m' : WriteMsg := { m with data := some (m.data.getD []) }
      exact congrArg (decoded _) (m'.fromBuffer_format ⟨rfl, h⟩ rest)
  | minionReadMsg m =>
      let m' : MinionReadMsg := { m with data := some (m.data.getD []) }
      exact congrArg (decoded _) (m'.fromBuffer_format ⟨rfl, h⟩ other rest)
  | minionWriteMsg m => exact congrArg (decoded _) (m.fromBuffer_format other rest)
  | nbdReadMsg m => exact congrArg (decoded _) (m.fromBuffer_format rest)
  | nbdWriteMsg m =>
      let m' : NBDWriteMsg := { m with data := some (m.data.getD []) }
      exact congrArg (decoded _) (m'.fromBuffer_format ⟨rfl, h⟩ rest)

/-- Copying from a null pointer is copying nothing. -/
theorem memcpy_getD (buffer : Buffer) (xs : List UInt8) {data : SharedData} {n : ℕ}
    (h : (data.getD []).length = n) :
    memcpy (buffer.store xs) data n = memcpy (buffer.store xs) (some (data.getD [])) n := by
  cases data with
  | some bytes => rfl
  | none =>
      simp only [memcpy, Option.getD_none, List.take_nil]
      exact (WriteCursor.put_nil_store buffer xs).symm

theorem toBuffer_received (h : m.WellFormed) (buffer : Buffer) :
    m.toBuffer buffer = m.received.toBuffer buffer := by
  cases m with
  | writeMsg m =>
      simp only [toBuffer, received, WriteMsg.toBuffer, AMessage.toBuffer_eq, store64,
        WriteCursor.store_store, AMessage.getSize]
      rw [memcpy_getD _ _ h]
  | minionReadMsg m =>
      simp only [toBuffer, received, MinionReadMsg.toBuffer, AMessage.toBuffer_eq, store8,
        WriteCursor.store_store, AMessage.getSize]
      rw [memcpy_getD _ _ h]
  | nbdWriteMsg m =>
      simp only [toBuffer, received, NBDWriteMsg.toBuffer, AMessage.toBuffer_eq, store64,
        WriteCursor.store_store, AMessage.getSize]
      rw [memcpy_getD _ _ h]
  | _ => rfl

theorem toBuffer_eq (h : m.WellFormed) (hanswer : ¬m.CarriesAnswer) (buffer : Buffer) :
    m.toBuffer buffer = buffer.store m.format := by
  rw [toBuffer_received h]
  cases m with
  | threadSafeUID m => exact m.toBuffer_eq buffer
  | readMsg m => exact m.toBuffer_eq buffer
  | writeMsg m =>
      let m' : WriteMsg := { m with data := some (m.data.getD []) }
      exact m'.toBuffer_eq ⟨rfl, h⟩ buffer
  | minionReadMsg m =>
      let m' : MinionReadMsg := { m with data := some (m.data.getD []) }
      have hsize : m.size = 0 := not_not.1 hanswer
      have hlen : (m.data.getD []).length = 0 := h.trans (by rw [hsize]; rfl)
      have hptr : (buffer.store (m'.format (m.data.getD []))).ptr = buffer.ptr + 33 := by
        rw [WriteCursor.ptr_store, MinionReadMsg.length_format, hlen]
      refine (m'.toBuffer_eq ⟨rfl, h⟩ buffer).trans ?_
      rw [← hptr]
      rfl
  | minionWriteMsg m => exact m.toBuffer_eq buffer
  | nbdReadMsg m => exact m.toBuffer_eq buffer
  | nbdWriteMsg m =>
      let m' : NBDWriteMsg := { m with data := some (m.data.getD []) }
      exact m'.toBuffer_eq ⟨rfl, h⟩ buffer

theorem getBufferSize_eq (h : m.WellFormed) (hanswer : ¬m.CarriesAnswer) :
    m.getBufferSize = m.format.length := by
  cases m with
  | threadSafeUID m => exact m.length_format.symm
  | readMsg m => exact m.length_format.symm
  | writeMsg m =>
      have hlen : (m.data.getD []).length = m.size.toNat := h
      simp only [getBufferSize, format, m.getBufferSize_eq, WriteMsg.length_format, hlen]
  | minionReadMsg m =>
      have hsize : m.size = 0 := not_not.1 hanswer
      have hlen : (m.data.getD []).length = 0 := h.trans (by rw [hsize]; rfl)
      simp only [getBufferSize, format, m.getBufferSize_eq, MinionReadMsg.length_format, hlen]
  | minionWriteMsg m => exact m.length_format.symm
  | nbdReadMsg m => exact m.length_format.symm
  | nbdWriteMsg m =>
      have hlen : (m.data.getD []).length = m.size.toNat := h
      simp only [getBufferSize, format, m.getBufferSize_eq, NBDWriteMsg.length_format, hlen]

/-! ### One length -/

theorem hasLength_format (h : m.WellFormed) (hanswer : ¬m.CarriesAnswer) :
    m.HasLength m.format.length := by
  refine ⟨?_, ?_, getBufferSize_eq h hanswer, ?_⟩
  · intro heap
    rw [toBuffer_eq h hanswer]
    simp
  · intro heap
    rw [toBuffer_eq h hanswer]
    simp
  · intro other heap rest
    have hencoding : m.encoding heap = m.format := by
      have hwritten := WriteCursor.written_store (.start heap) m.format
      rw [WriteCursor.written_start, List.nil_append] at hwritten
      rw [encoding, toBuffer_eq h hanswer]
      refine Eq.trans ?_ hwritten
      simp [WriteCursor.written, WriteCursor.segment]
    rw [hencoding]
    exact fromBuffer_format h other rest

/-- The lengths of a message agree unless it is a `MinionReadMsg` with data: the pointer that its
`ToBuffer` returns stands before the data. -/
theorem oneLength_iff (h : m.WellFormed) : m.OneLength ↔ ¬m.CarriesAnswer := by
  constructor
  · rintro ⟨n, hn⟩ hanswer
    cases m with
    | minionReadMsg m =>
        let m' : MinionReadMsg := { m with data := some (m.data.getD []) }
        have hlen : (m.data.getD []).length = m.size.toNat := h
        have hbuffer := m'.toBuffer_eq ⟨rfl, h⟩ (.start fun _ => 0)
        have hwritten := hn.written fun _ => 0
        have hreturned := hn.returned fun _ => 0
        rw [toBuffer_received h] at hwritten hreturned
        simp only [received, toBuffer, hbuffer, m', WriteCursor.high_store, WriteCursor.high_start,
          WriteCursor.ptr_start, MinionReadMsg.length_format, hlen] at hwritten hreturned
        have hzero : m.size.toNat = 0 := by omega
        exact hanswer (UInt32.toNat_inj.1 hzero)
    | _ => exact hanswer
  · exact fun hanswer => ⟨_, hasLength_format h hanswer⟩

/-! ### Sequences of messages -/

theorem toBuffers_store {ms : List IMessage} (h : ∀ m ∈ ms, m.WellFormed ∧ ¬m.CarriesAnswer)
    (buffer : Buffer) (xs : List UInt8) :
    toBuffers ms (buffer.store xs) = buffer.store (xs ++ ms.flatMap format) := by
  induction ms generalizing xs with
  | nil => rw [List.flatMap_nil, List.append_nil]; rfl
  | cons m ms ih =>
      obtain ⟨hm, hanswer⟩ := h m List.mem_cons_self
      have hms := fun m' hm' => h m' (List.mem_cons_of_mem _ hm')
      calc toBuffers (m :: ms) (buffer.store xs) = toBuffers ms (m.toBuffer (buffer.store xs)) := rfl
        _ = toBuffers ms (buffer.store (xs ++ m.format)) := by
          rw [toBuffer_eq hm hanswer, WriteCursor.store_store]
        _ = buffer.store (xs ++ (m :: ms).flatMap format) := by
          rw [ih hms, List.flatMap_cons, List.append_assoc]

theorem fromBuffers_format {ms : List IMessage} (h : ∀ m ∈ ms, m.WellFormed)
    (other : UInt8 → Bool) (rest : List UInt8) :
    fromBuffers other ms (ms.flatMap format ++ rest) = .ok (ms.map received, rest) := by
  induction ms with
  | nil => rfl
  | cons m ms ih =>
      have hms := fun m' hm' => h m' (List.mem_cons_of_mem _ hm')
      simp only [fromBuffers, List.flatMap_cons, List.append_assoc,
        fromBuffer_format (h m List.mem_cons_self), ok_bind, ih hms]
      rfl

theorem sum_getBufferSize {ms : List IMessage} (h : ∀ m ∈ ms, m.WellFormed ∧ ¬m.CarriesAnswer) :
    (ms.map getBufferSize).sum = (ms.flatMap format).length := by
  rw [List.length_flatMap]
  refine congrArg List.sum (List.map_congr_left ?_)
  intro m hm
  obtain ⟨hwf, hanswer⟩ := h m hm
  exact getBufferSize_eq hwf hanswer

end IMessage

open IMessage

/-- A message has one length exactly when it is not a `MinionReadMsg` with data.  Messages that have
are laid out one after the other in a buffer of the sum of their `GetBufferSize`, and decoded back in
sequence. -/
theorem messages_laid_out {ms : List IMessage} (hms : ∀ m ∈ ms, m.WellFormed)
    (other : UInt8 → Bool) (heap : ℕ → UInt8) (rest : List UInt8) :
    (∀ m ∈ ms, m.OneLength ↔ ¬m.CarriesAnswer) ∧
    ((∀ m ∈ ms, ¬m.CarriesAnswer) →
      (toBuffers ms (.start heap)).high = (ms.map getBufferSize).sum ∧
      (toBuffers ms (.start heap)).ptr = (ms.map getBufferSize).sum ∧
      fromBuffers other ms ((toBuffers ms (.start heap)).written ++ rest) =
        .ok (ms.map received, rest)) := by
  constructor
  · exact fun m hm => oneLength_iff (hms m hm)
  · intro hanswer
    have h : ∀ m ∈ ms, m.WellFormed ∧ ¬m.CarriesAnswer := fun m hm => ⟨hms m hm, hanswer m hm⟩
    have hstart : (.start heap : Buffer) = (WriteCursor.start heap).store [] := by
      simp [WriteCursor.store, WriteCursor.put, WriteCursor.skip, WriteCursor.start]
    have hbuffers := toBuffers_store h (.start heap) []
    rw [← hstart, List.nil_append] at hbuffers
    rw [hbuffers, sum_getBufferSize h]
    refine ⟨by simp, by simp, ?_⟩
    rw [WriteCursor.written_store]
    exact fromBuffers_format hms other rest

/-- A UID, a write request with two bytes, a read answer without data and a read request. -/
def uidWriteAnswerRead : List IMessage :=
  let uid : ThreadSafeUID := ⟨1, 2, 3, 4⟩
  [.threadSafeUID uid, .writeMsg (.make 5 2 (some [6, 7]) uid),
    .minionReadMsg (.make uid false none 0), .readMsg (.make 8 9 uid)]

theorem messages_laid_out_uidWriteAnswerRead :
    (∀ m ∈ uidWriteAnswerRead, m.OneLength) ∧
    (toBuffers uidWriteAnswerRead (.start fun _ => 0)).high = 24 + 43 + 33 + 41 ∧
    fromBuffers (fun _ => true) uidWriteAnswerRead
      ((toBuffers uidWriteAnswerRead (.start fun _ => 0)).written ++ []) =
        .ok (uidWriteAnswerRead.map received, []) := by
  have hanswer : ∀ m ∈ uidWriteAnswerRead, ¬m.CarriesAnswer := by decide
  have h := @messages_laid_out uidWriteAnswerRead (by decide) (fun _ => true) (fun _ => 0) []
  have hlaid := h.2 hanswer
  exact ⟨fun m hm => (h.1 m hm).2 (hanswer m hm), hlaid.1, hlaid.2.2⟩

/-- A read answer with one byte of data. -/
theorem read_answer_lengths_differ : ¬∀ m : IMessage, m.WellFormed → m.OneLength := by
  intro h
  obtain ⟨n, hn⟩ := h (.minionReadMsg (.make ⟨1, 2, 3, 4⟩ true (some [7]) 1)) rfl
  have hwritten : 34 = n := hn.written fun _ => 0
  have hreturned : 33 = n := hn.returned fun _ => 0
  omega

end IotDrive
