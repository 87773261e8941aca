/-
Which corrupted requests are detected.

The sender of a request appends the exclusive or of its bytes, and the receiver compares.  The
receiver of a read request sums the same 41 bytes as the sender; that of a write request takes the
length of the sum, and so the place of the checksum, from the size field, before it has checked it.

Main definitions:

* `sizeField` — the size that a receiver finds in a buffer;
* `WriteMsg.Noticed` — when a corrupted byte of a write request is noticed.

Main results:

* `ReadMsg.fromBuffer_checksum_iff`, `WriteMsg.fromBuffer_checksum_iff` — which buffers raise the
  checksum error;
* `single_byte_corruption_detected` — **a corrupted byte is detected**, always in a read request, and
  in a write request when it is noticed.
-/

import IotDrive.Library.Parity
import IotDrive.MessageFormat

set_option relaxedAutoImplicit false
set_option autoImplicit false

namespace IotDrive

open LittleEndian (bytes value)

/-! ### The exclusive or of the bytes -/

/-- The exclusive or of a list of bytes. -/
def parity (xs : List UInt8) : UInt8 := Parity.total (· ^^^ ·) 0 xs

theorem calculateChecksum_eq (data : List UInt8) (length : ℕ) :
    calculateChecksum data length = parity (data.take length) := rfl

theorem parity_concat_eq_zero {xs : List UInt8} {c : UInt8} :
    parity (xs ++ [c]) = 0 ↔ c = parity xs :=
  Parity.total_concat_eq_iff fun _ => UInt8.xor_self

/-- What is sent has no parity. -/
theorem parity_withChecksum (body : List UInt8) : parity (withChecksum body) = 0 := by
  refine parity_concat_eq_zero.2 ?_
  rw [calculateChecksum_eq, List.take_length]

theorem parity_append (xs ys : List UInt8) : parity (xs ++ ys) = parity xs ^^^ parity ys :=
  Parity.total_append _ _ xs ys

theorem parity_set {xs : List UInt8} {p : ℕ} (h : p < xs.length) (b : UInt8) :
    parity (xs.set p b) = parity xs ^^^ (xs[p] ^^^ b) :=
  Parity.total_set (fun _ => UInt8.xor_self) h b

/-- The receiver's comparison says whether the bytes up to the checksum have a parity. -/
theorem checksum_ne_iff (body rest : List UInt8) (c : UInt8) :
    c ≠ calculateChecksum (body ++ c :: rest) ((body ++ c :: rest).length - (c :: rest).length) ↔
      parity ((body ++ c :: rest).take (body.length + 1)) ≠ 0 := by
  have hlen : (body ++ c :: rest).length - (c :: rest).length = body.length := by simp
  have htake : (body ++ c :: rest).take (body.length + 1) = body ++ [c] := by
    rw [List.take_length_add_append]
    rfl
  rw [hlen, calculateChecksum_eq, List.take_left, htake, ne_eq, ne_eq, parity_concat_eq_zero]

/-! ### Which buffers raise the checksum error -/

/-- What stands where the size of a message does. -/
def sizeBytes (buffer : List UInt8) : List UInt8 := (buffer.drop 4).take 4

/-- The size that a receiver finds in a buffer. -/
def sizeField (buffer : List UInt8) : ℕ := value (sizeBytes buffer)

theorem sizeBytes_format (header : AMessage) (rest : List UInt8) :
    sizeBytes (header.format ++ rest) = bytes 4 header.size.toNat := by
  have hkey : (bytes 4 header.key.toNat).length = 4 := LittleEndian.length_bytes 4 _
  have hsize : (bytes 4 header.size.toNat).length = 4 := LittleEndian.length_bytes 4 _
  rw [sizeBytes, AMessage.format, List.append_assoc, List.append_assoc, List.drop_left' hkey,
    List.take_left' hsize]

theorem sizeField_format (header : AMessage) (rest : List UInt8) :
    sizeField (header.format ++ rest) = header.size.toNat := by
  rw [sizeField, sizeBytes_format, LittleEndian.value_bytes (by simpa using header.size.toNat_lt)]

theorem ReadMsg.fromBuffer_checksum_iff {buffer : List UInt8} (h : 41 ≤ buffer.length) :
    ReadMsg.fromBuffer buffer = .error .checksum ↔ parity (buffer.take 41) ≠ 0 := by
  obtain ⟨header, b₁, rfl⟩ := AMessage.exists_format (le_trans (by decide) h)
  have h₁ : 9 ≤ b₁.length := by simp at h; omega
  obtain ⟨offset, b₂, rfl⟩ := exists_bytes64 (le_trans (by decide) h₁)
  have h₂ : b₂ ≠ [] := by
    rintro rfl
    simp at h₁
  obtain ⟨c, rest, rfl⟩ := List.exists_cons_of_ne_nil h₂
  have hne := checksum_ne_iff (header.format ++ bytes 8 offset.toNat) rest c
  have hlen : (header.format ++ bytes 8 offset.toNat).length + 1 = 41 := by simp
  rw [hlen, List.append_assoc] at hne
  rw [← hne]
  simp only [fromBuffer, AMessage.fromBuffer_format, ok_bind, load64_bytes, load8_cons]
  split
  · rename_i hc
    exact iff_of_true rfl hc
  · rename_i hc
    exact iff_of_false (by rintro ⟨⟩) hc

theorem WriteMsg.fromBuffer_checksum_iff {buffer : List UInt8} (h : 41 ≤ buffer.length) :
    WriteMsg.fromBuffer buffer = .error .checksum ↔
      41 + sizeField buffer ≤ buffer.length ∧ parity (buffer.take (41 + sizeField buffer)) ≠ 0 := by
  obtain ⟨header, b₁, rfl⟩ := AMessage.exists_format (le_trans (by decide) h)
  have h₁ : 9 ≤ b₁.length := by simp at h; omega
  obtain ⟨offset, b₂, rfl⟩ := exists_bytes64 (le_trans (by decide) h₁)
  rw [sizeField_format]
  simp only [fromBuffer, AMessage.fromBuffer_format, ok_bind, load64_bytes, AMessage.getSize]
  by_cases hfit : header.size.toNat ≤ b₂.length
  · obtain ⟨xs, b₃, hxs, rfl⟩ : ∃ xs b₃, xs.length = header.size.toNat ∧ b₂ = xs ++ b₃ :=
      ⟨b₂.take header.size.toNat, b₂.drop header.size.toNat, List.length_take_of_le hfit,
        (List.take_append_drop _ _).symm⟩
    simp only [loadBytes_append_of_length hxs, ok_bind]
    cases b₃ with
    | nil =>
        refine iff_of_false (by rintro ⟨⟩) ?_
        rintro ⟨hle, -⟩
        simp [hxs] at hle
        omega
    | cons c rest =>
        have hne := checksum_ne_iff (header.format ++ bytes 8 offset.toNat ++ xs) rest c
        have hlen : (header.format ++ bytes 8 offset.toNat ++ xs).length + 1 =
            41 + header.size.toNat := by
          simp [hxs]
          omega
        have hle : 41 + header.size.toNat ≤
            (header.format ++ (bytes 8 offset.toNat ++ (xs ++ c :: rest))).length := by
          simp [hxs]
          omega
        rw [hlen, List.append_assoc, List.append_assoc] at hne
        rw [and_iff_right hle, ← hne]
        simp only [load8_cons, ok_bind]
        split
        · rename_i hc
          exact iff_of_true rfl hc
        · rename_i hc
          exact iff_of_false (by rintro ⟨⟩) hc
  · have hload : loadBytes header.size.toNat b₂ = .error .overread := if_neg hfit
    rw [hload]
    refine iff_of_false (by rintro ⟨⟩) ?_
    simp
    omega

/-! ### One corrupted byte -/

/-- A corruption outside of the size field leaves the size. -/
theorem sizeBytes_set_of_ne {buffer : List UInt8} {p : ℕ} (hp : p < 4 ∨ 8 ≤ p) (b : UInt8) :
    sizeBytes (buffer.set p b) = sizeBytes buffer := by
  rcases hp with hp | hp
  · rw [sizeBytes, List.drop_set_of_lt hp, sizeBytes]
  · rw [sizeBytes, List.drop_set, if_neg (by omega), List.take_set_of_le (by omega), sizeBytes]

theorem sizeBytes_set {buffer : List UInt8} {p : ℕ} (hp : 4 ≤ p) (b : UInt8) :
    sizeBytes (buffer.set p b) = (sizeBytes buffer).set (p - 4) b := by
  rw [sizeBytes, List.drop_set, if_neg (by omega), List.take_set, sizeBytes]

theorem ReadMsg.single_byte (m : ReadMsg) {p : ℕ} {b : UInt8} (hp : p < m.format.length)
    (hb : b ≠ m.format[p]) (rest : List UInt8) :
    ReadMsg.fromBuffer (m.format.set p b ++ rest) = .error .checksum := by
  refine (ReadMsg.fromBuffer_checksum_iff (by simp)).2 ?_
  have hzero : parity m.format = 0 := parity_withChecksum m.body
  have htake : (m.format.set p b ++ rest).take 41 = m.format.set p b :=
    List.take_left' (by simp)
  rw [htake, parity_set hp, hzero, UInt8.zero_xor, ne_eq, UInt8.xor_eq_zero_iff]
  exact hb.symm

namespace WriteMsg

variable (encoding rest : List UInt8)

/-- The bytes between the end of the message and the end that a receiver sees who reads the size
`newSize`: those it leaves out, or those it takes from behind the message. -/
def misread (newSize : ℕ) : List UInt8 :=
  if newSize ≤ sizeField encoding then encoding.drop (41 + newSize)
  else rest.take (newSize - sizeField encoding)

/-- The byte `b` at the position `p` is noticed: it is not in the size field; or what is misread
for the changed size is there, and its parity is not the difference that the byte makes. -/
def Noticed (p : ℕ) (b : UInt8) : Prop :=
  p < 4 ∨ 8 ≤ p ∨
    let newSize := value ((sizeBytes encoding).set (p - 4) b)
    newSize ≤ sizeField encoding + rest.length ∧
      parity (misread encoding rest newSize) ≠ encoding.getD p 0 ^^^ b

instance (p : ℕ) (b : UInt8) : Decidable (Noticed encoding rest p b) :=
  inferInstanceAs (Decidable (_ ∨ _ ∨ _ ∧ _))

variable {encoding}

/-- The parity of what the receiver sums is that of what it misreads. -/
theorem parity_take (hzero : parity encoding = 0)
    (hlen : encoding.length = 41 + sizeField encoding) (newSize : ℕ) :
    parity ((encoding ++ rest).take (41 + newSize)) = parity (misread encoding rest newSize) := by
  unfold misread
  split
  · rw [List.take_append_of_le_length (by omega)]
    exact (Parity.total_drop_eq_of_neutral (fun _ => UInt8.xor_self) hzero _).symm
  · have hrest : 41 + newSize - encoding.length = newSize - sizeField encoding := by omega
    rw [List.take_append, List.take_of_length_le (by omega), hrest, parity_append, hzero,
      UInt8.zero_xor]

/-- One byte of an encoding without parity, as long as its size field says. -/
theorem single_byte (hzero : parity encoding = 0)
    (hlen : encoding.length = 41 + sizeField encoding) {p : ℕ} {b : UInt8}
    (hp : p < encoding.length) (hb : b ≠ encoding[p]) :
    WriteMsg.fromBuffer (encoding.set p b ++ rest) = .error .checksum ↔
      Noticed encoding rest p b := by
  have hset : encoding.set p b ++ rest = (encoding ++ rest).set p b :=
    (List.set_append_left p b hp).symm
  have hsize : sizeBytes (encoding ++ rest) = sizeBytes encoding := by
    rw [sizeBytes, sizeBytes, List.drop_append_of_le_length (by omega),
      List.take_append_of_le_length (by rw [List.length_drop]; omega)]
  rw [fromBuffer_checksum_iff (by rw [List.length_append, List.length_set]; omega), hset]
  simp only [List.length_set, List.length_append, hlen]
  by_cases hout : p < 4 ∨ 8 ≤ p
  · -- the sums cover the same bytes, of which one has changed
    have hfield : sizeField ((encoding ++ rest).set p b) = sizeField encoding := by
      rw [sizeField, sizeBytes_set_of_ne hout, hsize, sizeField]
    have htake : ((encoding ++ rest).set p b).take (41 + sizeField encoding) = encoding.set p b := by
      rw [← hset]
      exact List.take_left' (by rw [List.length_set, hlen])
    rw [hfield, htake, parity_set hp, hzero, UInt8.zero_xor, ne_eq, UInt8.xor_eq_zero_iff]
    refine iff_of_true ⟨by omega, hb.symm⟩ ?_
    rcases hout with hout | hout
    · exact .inl hout
    · exact .inr (.inl hout)
  · obtain ⟨h4, h8⟩ : 4 ≤ p ∧ p < 8 := by omega
    have hfield : sizeField ((encoding ++ rest).set p b) =
        value ((sizeBytes encoding).set (p - 4) b) := by
      rw [sizeField, sizeBytes_set h4, hsize]
    have hold : encoding.getD p 0 = encoding[p] := by
      rw [List.getD_eq_getElem?_getD, List.getElem?_eq_getElem hp, Option.getD_some]
    rw [hfield, Noticed, or_iff_right (by omega), or_iff_right (by omega), hold]
    generalize value ((sizeBytes encoding).set (p - 4) b) = newSize
    refine and_congr (by omega) ?_
    have hp' : p < ((encoding ++ rest).take (41 + newSize)).length := by
      rw [List.length_take, List.length_append]
      omega
    have hget : ((encoding ++ rest).take (41 + newSize))[p] = encoding[p] := by
      rw [List.getElem_take, List.getElem_append_left hp]
    rw [List.take_set, parity_set hp', parity_take rest hzero hlen, hget, ne_eq,
      UInt8.xor_eq_zero_iff]

/-- The encoding of a write request is the format of some data of its size: of the first bytes of its
array, or, for a null pointer, of what the buffer has held before. -/
theorem exists_written (m : WriteMsg)
    (h : ∀ data, m.data = some data → m.size.toNat ≤ data.length) (heap : ℕ → UInt8) :
    ∃ xs, xs.length = m.size.toNat ∧ (m.toBuffer (.start heap)).written = m.format xs := by
  cases hdata : m.data with
  | some data =>
      let m' : WriteMsg := { m with data := some (data.take m.size.toNat) }
      have hlen : (data.take m.size.toNat).length = m.size.toNat :=
        List.length_take_of_le (h data hdata)
      have hsame : m.toBuffer (.start heap) = m'.toBuffer (.start heap) := by
        simp only [toBuffer, hdata, m', memcpy, AMessage.getSize, List.take_take, min_self]
      refine ⟨data.take m.size.toNat, hlen, ?_⟩
      rw [hsame, m'.toBuffer_eq ⟨rfl, hlen⟩, WriteCursor.written_store]
      rfl
  | none =>
      let c : Buffer := (WriteCursor.start heap).store (m.toAMessage.format ++ bytes 8 m.offset.toNat)
      have hptr : c.ptr = 40 := by simp [c]
      have hwritten : (c.skip m.size.toNat).written =
          m.body (Extent.extract c.mem c.ptr m.size.toNat) := by
        have hc : c.written = m.toAMessage.format ++ bytes 8 m.offset.toNat :=
          WriteCursor.written_store _ _
        have happend := Extent.extract_append c.mem 0 c.ptr m.size.toNat
        rw [Nat.zero_add] at happend
        refine happend.trans ?_
        rw [body, ← hc]
        rfl
      refine ⟨Extent.extract c.mem c.ptr m.size.toNat, Extent.length_extract _ _ _, ?_⟩
      have hbuffer : m.toBuffer (.start heap) = store8 (c.skip m.size.toNat)
          (calculateChecksum (c.skip m.size.toNat).written (c.skip m.size.toNat).ptr) := by
        simp only [toBuffer, hdata, memcpy, AMessage.toBuffer_eq, store64, WriteCursor.store_store]
        rfl
      have hlen : (c.skip m.size.toNat).ptr = (m.body (Extent.extract c.mem c.ptr
          m.size.toNat)).length := by
        simp [WriteCursor.skip, hptr, body]
        omega
      rw [hbuffer, store8, WriteCursor.written_store, hwritten, hlen, format, withChecksum]

end WriteMsg

/-- A corrupted byte is detected.  A read request with one byte changed raises the checksum error,
whichever the byte is and whatever follows the request; a write request does so exactly when the
byte is noticed. -/
theorem single_byte_corruption_detected (heap : ℕ → UInt8) (p : ℕ) (b : UInt8)
    (rest : List UInt8) :
    (∀ m : ReadMsg, ∀ hp : p < (m.toBuffer (.start heap)).written.length,
      b ≠ (m.toBuffer (.start heap)).written[p] →
        ReadMsg.fromBuffer ((m.toBuffer (.start heap)).written.set p b ++ rest) =
          .error .checksum) ∧
    ∀ m : WriteMsg, (∀ data, m.data = some data → m.size.toNat ≤ data.length) →
      ∀ hp : p < (m.toBuffer (.start heap)).written.length,
        b ≠ (m.toBuffer (.start heap)).written[p] →
          (WriteMsg.fromBuffer ((m.toBuffer (.start heap)).written.set p b ++ rest) =
              .error .checksum ↔
            WriteMsg.Noticed (m.toBuffer (.start heap)).written rest p b) := by
  constructor
  · intro m
    have hwritten : (m.toBuffer (.start heap)).written = m.format := by
      rw [ReadMsg.toBuffer_eq, WriteCursor.written_store]
      rfl
    rw [hwritten]
    intro hp hb
    exact m.single_byte hp hb rest
  · intro m h
    obtain ⟨xs, hxs, hwritten⟩ := m.exists_written h heap
    rw [hwritten]
    intro hp hb
    have hsize : sizeField (m.format xs) = m.size.toNat := by
      simp only [WriteMsg.format, withChecksum, WriteMsg.body, List.append_assoc, sizeField_format]
    have hlen : (m.format xs).length = 41 + sizeField (m.format xs) := by
      rw [hsize, WriteMsg.length_format, hxs]
    exact WriteMsg.single_byte rest (parity_withChecksum (m.body xs)) hlen hp hb

/-- A read request is noticed whose size is changed from `1` to `0`, and a write request with the
payload `7`. -/
theorem single_byte_corruption_detected_size :
    let uid : ThreadSafeUID := ⟨0, 0, 0, 0⟩
    let read := ((ReadMsg.make 0 1 uid).toBuffer (.start fun _ => 0)).written
    let write := ((WriteMsg.make 0 1 (some [7]) uid).toBuffer (.start fun _ => 0)).written
    ReadMsg.fromBuffer (read.set 4 0 ++ []) = .error .checksum ∧
      WriteMsg.fromBuffer (write.set 4 0 ++ []) = .error .checksum := by
  have h := single_byte_corruption_detected (fun _ => 0) 4 0 []
  exact ⟨h.1 (ReadMsg.make 0 1 ⟨0, 0, 0, 0⟩) (by decide) (by decide),
    (h.2 (WriteMsg.make 0 1 (some [7]) ⟨0, 0, 0, 0⟩) (by rintro _ ⟨⟩; decide) (by decide)
      (by decide)).2 (by decide)⟩

/-- With the payload `8` the write request is accepted: the payload stands where the checksum of a
request of size `0` does, and it is that checksum. -/
theorem shrunk_write_accepted :
    ¬∀ (m : WriteMsg) (heap : ℕ → UInt8) (p : ℕ) (b : UInt8) (rest : List UInt8),
      (∀ data, m.data = some data → m.size.toNat ≤ data.length) →
        ∀ hp : p < (m.toBuffer (.start heap)).written.length,
          b ≠ (m.toBuffer (.start heap)).written[p] →
            WriteMsg.fromBuffer ((m.toBuffer (.start heap)).written.set p b ++ rest) =
              .error .checksum := by
  intro h
  have hchecksum := h (WriteMsg.make 0 1 (some [8]) ⟨0, 0, 0, 0⟩) (fun _ => 0) 4 0 []
    (by rintro _ ⟨⟩; decide) (by decide) (by decide)
  have haccepted : WriteMsg.fromBuffer ((((WriteMsg.make 0 1 (some [8]) ⟨0, 0, 0, 0⟩).toBuffer
      (.start fun _ => 0)).written.set 4 0) ++ []) =
        .ok (WriteMsg.make 0 0 (some []) ⟨0, 0, 0, 0⟩, [1]) := rfl
  cases haccepted.symm.trans hchecksum

end IotDrive
