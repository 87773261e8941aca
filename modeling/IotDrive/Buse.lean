/-
The server side of the block device: `serve_nbd` of `buse.cpp`.

The kernel writes its commands to a socket, in network byte order, and reads the replies off it.  The
server loads the header of a command as its own, little-endian, words and converts them; it reads the
data of a write in as many pieces as they come, calls the operation, and copies the handle of the
command to the reply.

Main definitions:

* `ntohl`, `ntohll`, `readAll` — the helpers;
* `NbdRequest.load`, `NbdReply.store` — the two structures as bytes in memory;
* `BuseOperations.turn`, `serveNbd` — one turn of the loop, and the loop;
* `NbdCommand` — what the kernel sends.

Main results:

* `toNat_ntohll` — `ntohll` turns the eight bytes around;
* `readAll_of_arrives` — data are read whole, in any pieces;
* `turn_of_delivers` — one command is answered;
* `commands_answered` — **every command is answered once, in order, with its handle**;
* `commands_until_disconnect` — the server stops at a disconnect and reads nothing behind it.
-/

import IotDrive.InputProxy
import IotDrive.Library.BigEndian

set_option relaxedAutoImplicit false
set_option autoImplicit false

namespace IotDrive

/-! ### Byte order -/

/-- `ntohl`, on a little-endian machine. -/
def ntohl (a : UInt32) : UInt32 := UInt32.ofNat (BigEndian.swap 4 a.toNat)

/-- `ntohll`, on a little-endian machine. -/
def ntohll (a : UInt64) : UInt64 :=
  let lo := (a &&& 0xffffffff).toUInt32
  let hi := (a >>> 32).toUInt32
  (ntohl lo).toUInt64 <<< 32 ||| (ntohl hi).toUInt64

theorem toNat_ntohl (a : UInt32) : (ntohl a).toNat = BigEndian.swap 4 a.toNat :=
  UInt32.toNat_ofNat_of_lt' (BigEndian.swap_lt 4 _)

/-- The two words change places, and so all eight bytes do. -/
theorem toNat_ntohll (a : UInt64) : (ntohll a).toNat = BigEndian.swap 8 a.toNat := by
  have ha : a.toNat < 2 ^ 64 := a.toNat_lt
  have hlo : (a &&& 0xffffffff).toUInt32.toNat = a.toNat % 2 ^ 32 := by
    have hmask : (0xffffffff : UInt64).toNat = 2 ^ 32 - 1 := rfl
    rw [UInt64.toNat_toUInt32, UInt64.toNat_and, hmask, Nat.and_two_pow_sub_one_eq_mod]
    omega
  have hshift : (32 : UInt64).toNat % 64 = 32 := rfl
  have hhi : (a >>> 32).toUInt32.toNat = a.toNat / 2 ^ 32 := by
    rw [UInt64.toNat_toUInt32, UInt64.toNat_shiftRight, hshift, Nat.shiftRight_eq_div_pow]
    omega
  have hsplit : a.toNat = a.toNat % 2 ^ 32 + 256 ^ 4 * (a.toNat / 2 ^ 32) := by omega
  have hlow : a.toNat % 2 ^ 32 < 256 ^ 4 := Nat.mod_lt _ (by decide)
  have hswap := BigEndian.swap_add 4 4 (a.toNat / 2 ^ 32) hlow
  rw [← hsplit] at hswap
  have hlo' := BigEndian.swap_lt 4 (a.toNat % 2 ^ 32)
  have hhi' := BigEndian.swap_lt 4 (a.toNat / 2 ^ 32)
  have hup : BigEndian.swap 4 (a.toNat % 2 ^ 32) <<< 32 < 2 ^ 64 := by
    rw [Nat.shiftLeft_eq]
    omega
  rw [ntohll, UInt64.toNat_or, UInt64.toNat_shiftLeft, hshift, UInt32.toNat_toUInt64,
    UInt32.toNat_toUInt64, toNat_ntohl, toNat_ntohl, hlo, hhi, Nat.mod_eq_of_lt hup,
    ← Nat.shiftLeft_add_eq_or_of_lt hhi', Nat.shiftLeft_eq, hswap]
  omega

/-- A word in network order, loaded and converted. -/
theorem ntohl_load (n : UInt32) :
    ntohl (UInt32.ofNat (LittleEndian.value (BigEndian.bytes 4 n.toNat))) = n := by
  have hn : n.toNat < 256 ^ 4 := n.toNat_lt
  have hlt := LittleEndian.value_lt (BigEndian.bytes 4 n.toNat)
  rw [BigEndian.length_bytes] at hlt
  have hswap := BigEndian.swap_value (BigEndian.bytes 4 n.toNat)
  rw [BigEndian.length_bytes, BigEndian.value_bytes hn] at hswap
  apply UInt32.toNat_inj.1
  rw [toNat_ntohl, UInt32.toNat_ofNat_of_lt' hlt, hswap]

theorem ntohll_load (n : UInt64) :
    ntohll (UInt64.ofNat (LittleEndian.value (BigEndian.bytes 8 n.toNat))) = n := by
  have hn : n.toNat < 256 ^ 8 := n.toNat_lt
  have hlt := LittleEndian.value_lt (BigEndian.bytes 8 n.toNat)
  rw [BigEndian.length_bytes] at hlt
  have hswap := BigEndian.swap_value (BigEndian.bytes 8 n.toNat)
  rw [BigEndian.length_bytes, BigEndian.value_bytes hn] at hswap
  apply UInt64.toNat_inj.1
  rw [toNat_ntohll, UInt64.toNat_ofNat_of_lt' hlt, hswap]

/-- Four bytes that were loaded and converted, in network order. -/
theorem bytes_ntohl_load {xs : List UInt8} (h : xs.length = 4) :
    BigEndian.bytes 4 (ntohl (UInt32.ofNat (LittleEndian.value xs))).toNat = xs := by
  have hlt := LittleEndian.value_lt xs
  have hswap := BigEndian.swap_value xs
  have hbytes := BigEndian.bytes_value xs
  rw [h] at hlt hswap hbytes
  rw [toNat_ntohl, UInt32.toNat_ofNat_of_lt' hlt, hswap, hbytes]

theorem bytes_ntohll_load {xs : List UInt8} (h : xs.length = 8) :
    BigEndian.bytes 8 (ntohll (UInt64.ofNat (LittleEndian.value xs))).toNat = xs := by
  have hlt := LittleEndian.value_lt xs
  have hswap := BigEndian.swap_value xs
  have hbytes := BigEndian.bytes_value xs
  rw [h] at hlt hswap hbytes
  rw [toNat_ntohll, UInt64.toNat_ofNat_of_lt' hlt, hswap, hbytes]

/-- A word that was converted is stored in network order. -/
theorem bytes_ntohl (n : UInt32) :
    LittleEndian.bytes 4 (ntohl n).toNat = BigEndian.bytes 4 n.toNat := by
  rw [toNat_ntohl, BigEndian.bytes_swap]

theorem ntohl_ntohl (n : UInt32) : ntohl (ntohl n) = n := by
  apply UInt32.toNat_inj.1
  rw [toNat_ntohl, toNat_ntohl, BigEndian.swap_swap n.toNat_lt]

/-! ### The structures -/

/-- `NBD_REQUEST_MAGIC`. -/
def nbdRequestMagic : UInt32 := 0x25609513

/-- `NBD_REPLY_MAGIC`. -/
def nbdReplyMagic : UInt32 := 0x67446698

/-- `EPERM`. -/
def eperm : UInt32 := 1

/-- The types of command. -/
inductive NbdKind
  | read | write | disc | flush | trim
  deriving DecidableEq

/-- `NBD_CMD_READ` and the others. -/
def NbdKind.code : NbdKind → UInt32
  | .read => 0
  | .write => 1
  | .disc => 2
  | .flush => 3
  | .trim => 4

/-- `sizeof(struct nbd_request)`. -/
def sizeofNbdRequest : ℕ := 28

/-- `struct nbd_request`, with its words as the machine loads them. -/
structure NbdRequest where
  magic : UInt32
  type : UInt32
  handle : List UInt8
  from' : UInt64
  len : UInt32

def NbdRequest.load (buf : List UInt8) : NbdRequest where
  magic := UInt32.ofNat (LittleEndian.value (buf.take 4))
  type := UInt32.ofNat (LittleEndian.value ((buf.drop 4).take 4))
  handle := (buf.drop 8).take 8
  from' := UInt64.ofNat (LittleEndian.value ((buf.drop 16).take 8))
  len := UInt32.ofNat (LittleEndian.value ((buf.drop 24).take 4))

/-- The fields are where the header has them. -/
theorem NbdRequest.load_append {magic type handle from' len : List UInt8} (hmagic : magic.length = 4)
    (htype : type.length = 4) (hhandle : handle.length = 8) (hfrom : from'.length = 8)
    (hlen : len.length = 4) :
    load (magic ++ (type ++ (handle ++ (from' ++ len)))) =
      { magic := UInt32.ofNat (LittleEndian.value magic)
        type := UInt32.ofNat (LittleEndian.value type)
        handle := handle
        from' := UInt64.ofNat (LittleEndian.value from')
        len := UInt32.ofNat (LittleEndian.value len) } := by
  have h4 : (magic ++ (type ++ (handle ++ (from' ++ len)))).drop 4 =
      type ++ (handle ++ (from' ++ len)) := List.drop_left' hmagic
  have h8 : (magic ++ (type ++ (handle ++ (from' ++ len)))).drop 8 = handle ++ (from' ++ len) := by
    rw [← List.drop_drop (i := 4) (j := 4), h4, List.drop_left' htype]
  have h16 : (magic ++ (type ++ (handle ++ (from' ++ len)))).drop 16 = from' ++ len := by
    rw [← List.drop_drop (i := 8) (j := 8), h8, List.drop_left' hhandle]
  have h24 : (magic ++ (type ++ (handle ++ (from' ++ len)))).drop 24 = len := by
    rw [← List.drop_drop (i := 8) (j := 16), h16, List.drop_left' hfrom]
  rw [load, h4, h8, h16, h24, List.take_left' hmagic, List.take_left' htype,
    List.take_left' hhandle, List.take_left' hfrom, List.take_of_length_le hlen.le]

/-- A buffer of the size of a header is its fields, one behind another. -/
theorem NbdRequest.eq_append {buf : List UInt8} (h : buf.length = sizeofNbdRequest) :
    buf = buf.take 4 ++ ((buf.drop 4).take 4 ++ ((buf.drop 8).take 8 ++
      ((buf.drop 16).take 8 ++ (buf.drop 24).take 4))) := by
  have hsize : sizeofNbdRequest = 28 := rfl
  have h24 : (buf.drop 24).take 4 = buf.drop 24 := List.take_of_length_le (by simp; omega)
  have hsplit : ∀ i j, (buf.drop i).take j ++ buf.drop (i + j) = buf.drop i := by
    intro i j
    rw [← List.drop_drop, List.take_append_drop]
  rw [h24, hsplit 16 8, hsplit 8 8, hsplit 4 4, List.take_append_drop]

/-- `struct nbd_reply`. -/
structure NbdReply where
  magic : UInt32
  error : UInt32
  handle : List UInt8

def NbdReply.store (r : NbdReply) : List UInt8 :=
  LittleEndian.bytes 4 r.magic.toNat ++ LittleEndian.bytes 4 r.error.toNat ++ r.handle

/-! ### The server -/

/-- `struct buse_operations`, on a state.  A read stores its data at the front of the chunk. -/
structure BuseOperations (σ : Type) where
  read : Option (σ → UInt32 → UInt64 → σ × List UInt8 × Int32)
  write : Option (σ → List UInt8 → UInt32 → UInt64 → σ × Int32)
  disc : Option (σ → σ)
  flush : Option (σ → σ × Int32)
  trim : Option (σ → UInt64 → UInt32 → σ × Int32)

/-- What has become of the server: it is at the head of its loop, in a read that has not returned, or
has returned `EXIT_SUCCESS` or `EXIT_FAILURE`, or an assertion has failed. -/
inductive ServerStatus
  | serving | blocked | success | failure | aborted
  deriving DecidableEq

/-- The state of the operations, what was not read off the socket, what was written to it. -/
structure Served (σ : Type) where
  state : σ
  stream : List UInt8
  output : List UInt8
  status : ServerStatus

/-- The same with `output` written before. -/
def Served.behind {σ : Type} (output : List UInt8) (r : Served σ) : Served σ :=
  { r with output := output ++ r.output }

/-- What is done next, if the server is still in its loop. -/
def Served.andThen {σ : Type} (r : Served σ) (next : σ → List UInt8 → Served σ) : Served σ :=
  match r.status with
  | .serving => (next r.state r.stream).behind r.output
  | _ => r

/-- What `read_all` comes to: the data and the rest of the stream, or none of them yet, or never. -/
inductive ReadAll
  | done (data rest : List UInt8)
  | blocked
  | aborted
  deriving DecidableEq

/-- `read_all`, when the given numbers of bytes have arrived at its reads. -/
def readAll : List ℕ → ℕ → List UInt8 → ReadAll
  | _, 0, stream => .done [] stream
  | [], _ + 1, _ => .blocked
  | n :: ready, count + 1, stream =>
      let got := stream.take (min n (count + 1))
      if got = [] then .aborted
      else
        match readAll ready (count + 1 - got.length) (stream.drop got.length) with
        | .done data rest => .done (got ++ data) rest
        | .blocked => .blocked
        | .aborted => .aborted

/-- What is not in the hands of the server in one turn of its loop: the bytes that have arrived when
it reads a header, if the read does not fail, and at each read of the data; and what the heap holds. -/
structure Turn where
  ready : Option ℕ
  chunkReady : List ℕ
  heap : ℕ → UInt8

namespace BuseOperations

variable {σ : Type} (aop : BuseOperations σ)

/-- The switch of `serve_nbd`.  The writes of a reply succeed: what `write_all` does when the kernel has
gone away is left out. -/
def command (t : Turn) (s : σ) (request : NbdRequest) (stream : List UInt8) : Served σ :=
  let len := ntohl request.len
  let from' := ntohll request.from'
  let reply := fun error => NbdReply.store ⟨ntohl nbdReplyMagic, error, request.handle⟩
  if ntohl request.type = NbdKind.read.code then
    let (s, data, error) := match aop.read with
      | some read =>
          let (s, data, ret) := read s len from'
          (s, data, ret.toUInt32)
      | none => (s, [], ntohl eperm)
    ⟨s, stream, reply error ++ fillBuffer t.heap len.toNat data, .serving⟩
  else if ntohl request.type = NbdKind.write.code then
    match readAll t.chunkReady len.toNat stream with
    | .done chunk rest =>
        let (s, error) := match aop.write with
          | some write =>
              let (s, ret) := write s chunk len from'
              (s, ret.toUInt32)
          | none => (s, ntohl eperm)
        ⟨s, rest, reply error, .serving⟩
    | .blocked => ⟨s, stream, [], .blocked⟩
    | .aborted => ⟨s, stream, [], .aborted⟩
  else if ntohl request.type = NbdKind.disc.code then
    let s := match aop.disc with
      | some disc => disc s
      | none => s
    ⟨s, stream, [], .success⟩
  else if ntohl request.type = NbdKind.flush.code then
    let (s, error) := match aop.flush with
      | some flush =>
          let (s, ret) := flush s
          (s, ret.toUInt32)
      | none => (s, ntohl 0)
    ⟨s, stream, reply error, .serving⟩
  else if ntohl request.type = NbdKind.trim.code then
    let (s, error) := match aop.trim with
      | some trim =>
          let (s, ret) := trim s from' len
          (s, ret.toUInt32)
      | none => (s, ntohl 0)
    ⟨s, stream, reply error, .serving⟩
  else ⟨s, stream, [], .aborted⟩

/-- One turn of the loop: a read that gets nothing ends it, and one that fails does, too. -/
def turn (t : Turn) (s : σ) (stream : List UInt8) : Served σ :=
  match t.ready with
  | none => ⟨s, stream, [], .failure⟩
  | some n =>
      let buf := stream.take (min n sizeofNbdRequest)
      let rest := stream.drop buf.length
      if buf = [] then ⟨s, rest, [], .success⟩
      else if buf.length ≠ sizeofNbdRequest then ⟨s, rest, [], .aborted⟩
      else
        let request := NbdRequest.load buf
        if request.magic ≠ ntohl nbdRequestMagic then ⟨s, rest, [], .aborted⟩
        else aop.command t s request rest

end BuseOperations

/-- `serve_nbd`, for as many turns of its loop as are given. -/
def serveNbd {σ : Type} (aop : BuseOperations σ) : List Turn → σ → List UInt8 → Served σ
  | [], s, stream => ⟨s, stream, [], .serving⟩
  | t :: turns, s, stream => (aop.turn t s stream).andThen (serveNbd aop turns)

section Loop

variable {σ : Type} {aop : BuseOperations σ}

namespace Served

theorem behind_behind (out out' : List UInt8) (r : Served σ) :
    (r.behind out').behind out = r.behind (out ++ out') := by
  simp only [behind, List.append_assoc]

theorem andThen_of_serving {r : Served σ} (h : r.status = .serving)
    (next : σ → List UInt8 → Served σ) :
    r.andThen next = (next r.state r.stream).behind r.output := by
  rw [andThen, h]

theorem andThen_of_ne {r : Served σ} (h : r.status ≠ .serving)
    (next : σ → List UInt8 → Served σ) : r.andThen next = r := by
  rw [andThen]
  split
  · contradiction
  · rfl

theorem behind_andThen (output : List UInt8) (r : Served σ) (next : σ → List UInt8 → Served σ) :
    (r.behind output).andThen next = (r.andThen next).behind output := by
  by_cases h : r.status = .serving
  · have h' : (r.behind output).status = .serving := h
    rw [andThen_of_serving h, andThen_of_serving h', behind_behind]
    rfl
  · have h' : (r.behind output).status ≠ .serving := h
    rw [andThen_of_ne h, andThen_of_ne h']

theorem andThen_assoc (r : Served σ) (f g : σ → List UInt8 → Served σ) :
    (r.andThen f).andThen g = r.andThen fun s stream => (f s stream).andThen g := by
  by_cases hr : r.status = .serving
  · rw [andThen_of_serving hr, andThen_of_serving hr, behind_andThen]
  · rw [andThen_of_ne hr, andThen_of_ne hr, andThen_of_ne hr]

end Served

/-- More turns go on where the ones before have ended. -/
theorem serveNbd_append (turns later : List Turn) (s : σ) (stream : List UInt8) :
    serveNbd aop (turns ++ later) s stream =
      (serveNbd aop turns s stream).andThen (serveNbd aop later) := by
  induction turns generalizing s stream with
  | nil => rfl
  | cons t turns ih =>
      rw [List.cons_append, serveNbd, serveNbd, Served.andThen_assoc]
      exact congrArg _ (funext fun s => funext fun stream => ih s stream)

end Loop

/-! ### Reading the data -/

/-- The first of the reads get something each, and together at least `count` bytes. -/
def Arrives (ready : List ℕ) (count : ℕ) : Prop :=
  ∃ first, first <+: ready ∧ (∀ n ∈ first, 0 < n) ∧ count ≤ first.sum

theorem Arrives.of_le {ready : List ℕ} {count count' : ℕ} (h : Arrives ready count)
    (hle : count' ≤ count) : Arrives ready count' := by
  obtain ⟨first, hfirst, hpos, hsum⟩ := h
  exact ⟨first, hfirst, hpos, hle.trans hsum⟩

/-- The first read of some data: it gets something, and the others get what is left. -/
theorem arrives_cons_iff {n count : ℕ} {ready : List ℕ} :
    Arrives (n :: ready) (count + 1) ↔ 0 < n ∧ Arrives ready (count + 1 - n) := by
  constructor
  · rintro ⟨first, hfirst, hpos, hsum⟩
    rcases List.prefix_cons_iff.1 hfirst with rfl | ⟨first, rfl, hfirst'⟩
    · cases hsum
    · obtain ⟨hn, hpos⟩ := List.forall_mem_cons.1 hpos
      rw [List.sum_cons] at hsum
      exact ⟨hn, first, hfirst', hpos, by omega⟩
  · rintro ⟨hn, first, hfirst, hpos, hsum⟩
    refine ⟨n :: first, List.cons_prefix_cons.2 ⟨rfl, hfirst⟩, List.forall_mem_cons.2 ⟨hn, hpos⟩, ?_⟩
    rw [List.sum_cons]
    omega

/-- Data are read whole, in whatever pieces they arrive, and nothing behind them is. -/
theorem readAll_of_arrives {ready : List ℕ} {data : List UInt8} (h : Arrives ready data.length)
    (rest : List UInt8) : readAll ready data.length (data ++ rest) = .done data rest := by
  induction ready generalizing data with
  | nil =>
      obtain ⟨first, hfirst, -, hsum⟩ := h
      rw [List.prefix_nil.1 hfirst] at hsum
      obtain rfl : data = [] := List.eq_nil_of_length_eq_zero (Nat.le_zero.1 hsum)
      rfl
  | cons n ready ih =>
      cases data with
      | nil => rfl
      | cons b data =>
          obtain ⟨hn, hready⟩ := arrives_cons_iff.1 h
          -- one read takes some of the data, and the others take what is left
          have hgot : (b :: data ++ rest).take (min n (data.length + 1)) =
              (b :: data).take (min n (data.length + 1)) :=
            List.take_append_of_le_length (by simp)
          have hne : (b :: data).take (min n (data.length + 1)) ≠ [] := by
            simp only [ne_eq, List.take_eq_nil_iff, reduceCtorEq, or_false]
            omega
          have hlen : ((b :: data).take (min n (data.length + 1))).length =
              min n (data.length + 1) := by simp
          have hdrop : (b :: data ++ rest).drop (min n (data.length + 1)) =
              (b :: data).drop (min n (data.length + 1)) ++ rest :=
            List.drop_append_of_le_length (by simp)
          have hleft : ((b :: data).drop (min n (data.length + 1))).length =
              data.length + 1 - min n (data.length + 1) := by simp
          have hrest : Arrives ready ((b :: data).drop (min n (data.length + 1))).length := by
            have heq : data.length + 1 - min n (data.length + 1) = data.length + 1 - n := by omega
            rwa [hleft, heq]
          have hlater := ih hrest
          rw [hleft] at hlater
          simp only [List.length_cons, readAll, hgot, if_neg hne, hlen, hdrop, hlater,
            List.take_append_drop]

theorem take_append_drop_length (k : ℕ) (stream : List UInt8) :
    stream.take k ++ stream.drop (stream.take k).length = stream := by
  rcases le_total k stream.length with hle | hle
  · rw [List.length_take, min_eq_left hle, List.take_append_drop]
  · rw [List.take_of_length_le hle, List.drop_length, List.append_nil]

/-- What is read is the front of the stream, and the reads must have got it. -/
theorem of_readAll {ready : List ℕ} {count : ℕ} {stream data rest : List UInt8}
    (h : readAll ready count stream = .done data rest) :
    stream = data ++ rest ∧ data.length = count ∧ Arrives ready count := by
  induction ready generalizing count stream data with
  | nil =>
      cases count with
      | zero =>
          cases h
          exact ⟨rfl, rfl, [], List.prefix_refl _, nofun, Nat.zero_le _⟩
      | succ count => cases h
  | cons n ready ih =>
      cases count with
      | zero =>
          cases h
          exact ⟨rfl, rfl, [], List.nil_prefix, nofun, Nat.zero_le _⟩
      | succ count =>
          simp only [readAll] at h
          split at h
          · cases h
          · rename_i hgot
            split at h
            · rename_i data' rest' hlater
              cases h
              obtain ⟨hstream, hlen, harrives⟩ := ih hlater
              have hpos : 0 < (stream.take (min n (count + 1))).length :=
                List.length_pos_iff.2 hgot
              rw [List.length_take] at hpos hlen harrives
              refine ⟨?_, ?_, arrives_cons_iff.2 ⟨by omega, ?_⟩⟩
              · rw [List.append_assoc, ← hstream, take_append_drop_length]
              · rw [List.length_append, List.length_take, hlen]
                omega
              · exact harrives.of_le (by omega)
            · cases h
            · cases h

/-! ### Commands -/

/-- A command of the kernel; only a write has data behind its header. -/
structure NbdCommand where
  kind : NbdKind
  handle : List UInt8
  from' : UInt64
  len : UInt32
  data : List UInt8
  length_handle : handle.length = 8
  length_data : data.length = if kind = .write then len.toNat else 0

namespace NbdCommand

variable (c : NbdCommand)

/-- The header, in network order. -/
def header : List UInt8 :=
  BigEndian.bytes 4 nbdRequestMagic.toNat ++ (BigEndian.bytes 4 c.kind.code.toNat ++
    (c.handle ++ (BigEndian.bytes 8 c.from'.toNat ++ BigEndian.bytes 4 c.len.toNat)))

def format : List UInt8 := c.header ++ c.data

theorem length_header : c.header.length = sizeofNbdRequest := by
  simp [header, c.length_handle, sizeofNbdRequest]

/-- What is loaded off a header. -/
theorem load_header : NbdRequest.load c.header =
    { magic := UInt32.ofNat (LittleEndian.value (BigEndian.bytes 4 nbdRequestMagic.toNat))
      type := UInt32.ofNat (LittleEndian.value (BigEndian.bytes 4 c.kind.code.toNat))
      handle := c.handle
      from' := UInt64.ofNat (LittleEndian.value (BigEndian.bytes 8 c.from'.toNat))
      len := UInt32.ofNat (LittleEndian.value (BigEndian.bytes 4 c.len.toNat)) } :=
  NbdRequest.load_append (BigEndian.length_bytes 4 _) (BigEndian.length_bytes 4 _) c.length_handle
    (BigEndian.length_bytes 8 _) (BigEndian.length_bytes 4 _)

/-- What the operation for the command does: the state, the error and the data of the reply. -/
def perform {σ : Type} (aop : BuseOperations σ) (heap : ℕ → UInt8) (s : σ) : σ × UInt32 × List UInt8 :=
  match c.kind with
  | .read =>
      match aop.read with
      | some read =>
          let (s, data, ret) := read s c.len c.from'
          (s, ret.toUInt32, fillBuffer heap c.len.toNat data)
      | none => (s, ntohl eperm, fillBuffer heap c.len.toNat [])
  | .write =>
      match aop.write with
      | some write =>
          let (s, ret) := write s c.data c.len c.from'
          (s, ret.toUInt32, [])
      | none => (s, ntohl eperm, [])
  | .disc =>
      match aop.disc with
      | some disc => (disc s, ntohl 0, [])
      | none => (s, ntohl 0, [])
  | .flush =>
      match aop.flush with
      | some flush =>
          let (s, ret) := flush s
          (s, ret.toUInt32, [])
      | none => (s, ntohl 0, [])
  | .trim =>
      match aop.trim with
      | some trim =>
          let (s, ret) := trim s c.from' c.len
          (s, ret.toUInt32, [])
      | none => (s, ntohl 0, [])

/-- The reply: the error is not converted. -/
def reply (error : UInt32) (data : List UInt8) : List UInt8 :=
  BigEndian.bytes 4 nbdReplyMagic.toNat ++ LittleEndian.bytes 4 error.toNat ++ c.handle ++ data

/-- What the server comes to with the command: a disconnect is not replied to, and ends the loop. -/
def outcome {σ : Type} (aop : BuseOperations σ) (heap : ℕ → UInt8) (s : σ) (rest : List UInt8) :
    Served σ :=
  let (s, error, data) := c.perform aop heap s
  if c.kind = .disc then ⟨s, rest, [], .success⟩ else ⟨s, rest, c.reply error data, .serving⟩

theorem outcome_of_ne {c : NbdCommand} (h : c.kind ≠ .disc) {σ : Type} (aop : BuseOperations σ)
    (heap : ℕ → UInt8) (s : σ) (rest : List UInt8) :
    c.outcome aop heap s rest = ⟨(c.perform aop heap s).1, rest,
      c.reply (c.perform aop heap s).2.1 (c.perform aop heap s).2.2, .serving⟩ := if_neg h

theorem outcome_of_disc {c : NbdCommand} (h : c.kind = .disc) {σ : Type} (aop : BuseOperations σ)
    (heap : ℕ → UInt8) (s : σ) (rest : List UInt8) :
    c.outcome aop heap s rest = ⟨(c.perform aop heap s).1, rest, [], .success⟩ := if_pos h

end NbdCommand

/-- The header of the command has arrived as a whole when it is read, and so have the data in the end. -/
structure Turn.Delivers (t : Turn) (c : NbdCommand) : Prop where
  header : ∃ n, t.ready = some n ∧ sizeofNbdRequest ≤ n
  data : c.kind = .write → Arrives t.chunkReady c.data.length

section Turn

variable {σ : Type} {aop : BuseOperations σ} {t : Turn} {s : σ} {c : NbdCommand}

/-- The switch, on the header of a command. -/
theorem command_of_delivers (h : t.Delivers c) (rest : List UInt8) :
    aop.command t s (NbdRequest.load c.header) (c.data ++ rest) = c.outcome aop t.heap s rest := by
  have hreply : ∀ error, NbdReply.store ⟨ntohl nbdReplyMagic, error, c.handle⟩ = c.reply error [] := by
    intro error
    rw [NbdReply.store, bytes_ntohl, NbdCommand.reply, List.append_nil]
  have hdata : c.kind ≠ .write → c.data = [] := by
    intro hkind
    have hlen := c.length_data
    rw [if_neg hkind] at hlen
    exact List.eq_nil_of_length_eq_zero hlen
  rw [c.load_header, BuseOperations.command]
  simp only [ntohl_load, ntohll_load, hreply, NbdCommand.outcome, NbdCommand.perform]
  cases hkind : c.kind with
  | read =>
      rw [hdata (by simp [hkind])]
      cases aop.read <;> simp [NbdKind.code, NbdCommand.reply]
  | write =>
      have hlen := c.length_data
      rw [if_pos hkind] at hlen
      have hread := readAll_of_arrives (h.data hkind) rest
      rw [hlen] at hread
      cases aop.write <;> simp [NbdKind.code, hread]
  | disc =>
      rw [hdata (by simp [hkind])]
      cases aop.disc <;> simp [NbdKind.code]
  | flush =>
      rw [hdata (by simp [hkind])]
      cases aop.flush <;> simp [NbdKind.code]
  | trim =>
      rw [hdata (by simp [hkind])]
      cases aop.trim <;> simp [NbdKind.code]

/-- One command is answered. -/
theorem turn_of_delivers (h : t.Delivers c) (s : σ) (rest : List UInt8) :
    aop.turn t s (c.format ++ rest) = c.outcome aop t.heap s rest := by
  obtain ⟨n, hready, hn⟩ := h.header
  have hbuf : (c.format ++ rest).take (min n sizeofNbdRequest) = c.header := by
    rw [min_eq_right hn, NbdCommand.format, List.append_assoc, List.take_left' c.length_header]
  have hrest : (c.format ++ rest).drop sizeofNbdRequest = c.data ++ rest := by
    rw [NbdCommand.format, List.append_assoc, List.drop_left' c.length_header]
  have hne : c.header ≠ [] := by
    intro hnil
    have hlen := c.length_header
    rw [hnil] at hlen
    cases hlen
  have hmagic : (NbdRequest.load c.header).magic = ntohl nbdRequestMagic := by
    rw [c.load_header, ← ntohl_load nbdRequestMagic, ntohl_ntohl, ntohl_load]
  rw [← command_of_delivers h rest]
  simp only [BuseOperations.turn, hready, hbuf, hrest, if_neg hne, c.length_header, hmagic, ne_eq,
    not_true_eq_false, if_false]

/-- A buffer with the magic number and the type of a command is its header. -/
theorem header_of_load {buf : List UInt8} (hlen : buf.length = sizeofNbdRequest)
    (hmagic : (NbdRequest.load buf).magic = ntohl nbdRequestMagic)
    (htype : ntohl (NbdRequest.load buf).type = c.kind.code)
    (hhandle : c.handle = (NbdRequest.load buf).handle)
    (hfrom : c.from' = ntohll (NbdRequest.load buf).from')
    (hclen : c.len = ntohl (NbdRequest.load buf).len) : c.header = buf := by
  have hsize : sizeofNbdRequest = 28 := rfl
  have hmagic' : nbdRequestMagic = ntohl (NbdRequest.load buf).magic := by
    rw [hmagic, ntohl_ntohl]
  rw [NbdCommand.header, hmagic', ← htype, hhandle, hfrom, hclen]
  refine Eq.trans ?_ (NbdRequest.eq_append hlen).symm
  simp only [NbdRequest.load]
  rw [bytes_ntohl_load, bytes_ntohl_load, bytes_ntohll_load, bytes_ntohl_load] <;>
    (simp only [List.length_take, List.length_drop]; omega)

/-- The switch goes on in the loop for commands that are no disconnect only. -/
theorem exists_command {buf rest : List UInt8} (hlen : buf.length = sizeofNbdRequest)
    (hmagic : (NbdRequest.load buf).magic = ntohl nbdRequestMagic)
    (h : (aop.command t s (NbdRequest.load buf) rest).status = .serving) :
    ∃ (c : NbdCommand) (rest' : List UInt8), c.header = buf ∧ rest = c.data ++ rest' ∧
      c.kind ≠ .disc ∧ (c.kind = .write → Arrives t.chunkReady c.data.length) := by
  have hhandle : (NbdRequest.load buf).handle.length = 8 := by
    have hsize : sizeofNbdRequest = 28 := rfl
    simp only [NbdRequest.load, List.length_take, List.length_drop]
    omega
  have hbare : ∀ kind : NbdKind, kind ≠ .write → kind ≠ .disc →
      ntohl (NbdRequest.load buf).type = kind.code →
        ∃ (c : NbdCommand) (rest' : List UInt8), c.header = buf ∧ rest = c.data ++ rest' ∧
          c.kind ≠ .disc ∧ (c.kind = .write → Arrives t.chunkReady c.data.length) := by
    intro kind hwrite hdisc htype
    refine ⟨⟨kind, _, ntohll (NbdRequest.load buf).from', ntohl (NbdRequest.load buf).len, [],
      hhandle, (if_neg hwrite).symm⟩, rest, ?_, rfl, hdisc, ?_⟩
    · exact header_of_load hlen hmagic htype rfl rfl rfl
    · exact fun hkind => absurd hkind hwrite
  simp only [BuseOperations.command] at h
  split at h
  · exact hbare .read nofun nofun ‹_›
  split at h
  · rename_i htype
    split at h
    · -- a write has its data behind the header
      rename_i chunk rest' hread
      obtain ⟨hrest, hchunk, harrives⟩ := of_readAll hread
      refine ⟨⟨.write, _, ntohll (NbdRequest.load buf).from', ntohl (NbdRequest.load buf).len, chunk,
        hhandle, hchunk⟩, rest', ?_, hrest, nofun, ?_⟩
      · exact header_of_load hlen hmagic htype rfl rfl rfl
      · exact fun _ => hchunk ▸ harrives
    · cases h
    · cases h
  split at h
  · cases h
  split at h
  · exact hbare .flush nofun nofun ‹_›
  split at h
  · exact hbare .trim nofun nofun ‹_›
  · cases h

/-- What is not a command, or does not arrive as a whole, is not answered. -/
theorem exists_command_of_turn {stream : List UInt8} (h : (aop.turn t s stream).status = .serving) :
    ∃ (c : NbdCommand) (rest : List UInt8), stream = c.format ++ rest ∧ t.Delivers c ∧
      c.kind ≠ .disc := by
  unfold BuseOperations.turn at h
  split at h
  · cases h
  · rename_i n hready
    dsimp only at h
    split at h
    · cases h
    split at h
    · cases h
    rename_i hlen
    rw [ne_eq, not_not] at hlen
    split at h
    · cases h
    rename_i hmagic
    rw [ne_eq, not_not] at hmagic
    obtain ⟨c, rest, hheader, hrest, hdisc, hdata⟩ := exists_command hlen hmagic h
    refine ⟨c, rest, ?_, ⟨⟨n, hready, ?_⟩, hdata⟩, hdisc⟩
    · rw [NbdCommand.format, List.append_assoc, ← hrest, hheader, take_append_drop_length]
    · rw [List.length_take] at hlen
      omega

end Turn

/-! ### The loop -/

/-- A command that is no disconnect, with a turn of the loop that it arrives in. -/
structure NbdExchange where
  turn : Turn
  command : NbdCommand
  delivers : turn.Delivers command
  served : command.kind ≠ .disc

section Serve

variable {σ : Type} {aop : BuseOperations σ}

/-- The commands performed one after another, and the replies to them. -/
def performAll (aop : BuseOperations σ) : List NbdExchange → σ → σ × List (List UInt8)
  | [], s => (s, [])
  | x :: xs, s =>
      let (s', error, data) := x.command.perform aop x.turn.heap s
      let (s'', replies) := performAll aop xs s'
      (s'', x.command.reply error data :: replies)

/-- The server takes the commands off the stream, performs them and writes their replies. -/
theorem serveNbd_exchanges (xs : List NbdExchange) (s : σ) (rest : List UInt8) :
    serveNbd aop (xs.map (·.turn)) s (xs.flatMap (·.command.format) ++ rest) =
      ⟨(performAll aop xs s).1, rest, (performAll aop xs s).2.flatten, .serving⟩ := by
  induction xs generalizing s with
  | nil => rfl
  | cons x xs ih =>
      rw [List.map_cons, List.flatMap_cons, List.append_assoc, serveNbd,
        turn_of_delivers x.delivers s, NbdCommand.outcome_of_ne x.served,
        Served.andThen_of_serving rfl, ih]
      rfl

/-- A server that is still in its loop has taken commands only. -/
theorem exists_exchanges {turns : List Turn} {s : σ} {stream : List UInt8}
    (h : (serveNbd aop turns s stream).status = .serving) :
    ∃ (xs : List NbdExchange) (rest : List UInt8), turns = xs.map (·.turn) ∧
      stream = xs.flatMap (·.command.format) ++ rest := by
  induction turns generalizing s stream with
  | nil => exact ⟨[], stream, rfl, rfl⟩
  | cons t turns ih =>
      rw [serveNbd] at h
      have hturn : (aop.turn t s stream).status = .serving := by
        by_contra hne
        rw [Served.andThen_of_ne hne] at h
        exact hne h
      obtain ⟨c, rest, rfl, hdelivers, hdisc⟩ := exists_command_of_turn hturn
      rw [turn_of_delivers hdelivers, NbdCommand.outcome_of_ne hdisc,
        Served.andThen_of_serving rfl] at h
      obtain ⟨xs, rest', rfl, rfl⟩ := ih h
      exact ⟨⟨t, c, hdelivers, hdisc⟩ :: xs, rest', rfl, by
        rw [List.flatMap_cons, List.append_assoc]⟩

/-- **Commands are answered once, and in order.** The server is still in its loop after some turns
exactly if the stream starts with as many commands, none of them a disconnect, each of which arrived
in its turn; and it performs such commands in order, writes a reply to each, with its handle, and
takes nothing off the stream behind them. -/
theorem commands_answered (aop : BuseOperations σ) (s : σ) :
    (∀ (turns : List Turn) (stream : List UInt8), (serveNbd aop turns s stream).status = .serving ↔
        ∃ (xs : List NbdExchange) (rest : List UInt8), turns = xs.map (·.turn) ∧
          stream = xs.flatMap (·.command.format) ++ rest) ∧
      ∀ (xs : List NbdExchange) (rest : List UInt8),
        serveNbd aop (xs.map (·.turn)) s (xs.flatMap (·.command.format) ++ rest) =
          ⟨(performAll aop xs s).1, rest, (performAll aop xs s).2.flatten, .serving⟩ := by
  refine ⟨fun turns stream => ⟨exists_exchanges, ?_⟩, fun xs rest => serveNbd_exchanges xs s rest⟩
  rintro ⟨xs, rest, rfl, rfl⟩
  rw [serveNbd_exchanges]

/-- **A disconnect ends the service.** Behind the commands before it a disconnect is performed, it is
not replied to, and nothing behind it is read, however many turns were left. -/
theorem commands_until_disconnect (xs : List NbdExchange) {t : Turn} {c : NbdCommand}
    (ht : t.Delivers c) (hc : c.kind = .disc) (later : List Turn) (s : σ) (rest : List UInt8) :
    serveNbd aop (xs.map (·.turn) ++ t :: later) s
        (xs.flatMap (·.command.format) ++ (c.format ++ rest)) =
      ⟨(c.perform aop t.heap (performAll aop xs s).1).1, rest, (performAll aop xs s).2.flatten,
        .success⟩ := by
  rw [serveNbd_append, serveNbd_exchanges, Served.andThen_of_serving rfl, serveNbd,
    turn_of_delivers ht, NbdCommand.outcome_of_disc hc]
  simp only [Served.andThen, Served.behind, List.append_nil]

theorem commands_until_disconnect_flush :
    (serveNbd (σ := ℕ) ⟨none, none, some fun s => s + 10, some fun s => (s + 1, 0), none⟩
      [⟨some 100, [], fun _ => 0⟩, ⟨some 28, [], fun _ => 0⟩, ⟨some 1, [], fun _ => 0⟩] 0
      (NbdCommand.format ⟨.flush, [1, 2, 3, 4, 5, 6, 7, 8], 0, 0, [], rfl, rfl⟩ ++
        (NbdCommand.format ⟨.disc, [0, 0, 0, 0, 0, 0, 0, 0], 0, 0, [], rfl, rfl⟩ ++ [9]))) =
      ⟨11, [9], [0x67, 0x44, 0x66, 0x98, 0, 0, 0, 0, 1, 2, 3, 4, 5, 6, 7, 8], .success⟩ :=
  commands_until_disconnect
    [⟨⟨some 100, [], fun _ => 0⟩, ⟨.flush, [1, 2, 3, 4, 5, 6, 7, 8], 0, 0, [], rfl, rfl⟩,
      ⟨⟨100, rfl, by decide⟩, fun h => by cases h⟩, fun h => by cases h⟩]
    (c := ⟨.disc, [0, 0, 0, 0, 0, 0, 0, 0], 0, 0, [], rfl, rfl⟩)
    ⟨⟨28, rfl, by decide⟩, fun h => by cases h⟩ rfl _ _ _

/-- The end of the stream ends the service, too. -/
theorem commands_until_end (xs : List NbdExchange) {t : Turn} {n : ℕ} (ht : t.ready = some n)
    (later : List Turn) (s : σ) :
    serveNbd aop (xs.map (·.turn) ++ t :: later) s (xs.flatMap (·.command.format)) =
      ⟨(performAll aop xs s).1, [], (performAll aop xs s).2.flatten, .success⟩ := by
  have hend : aop.turn t (performAll aop xs s).1 [] =
      ⟨(performAll aop xs s).1, [], [], .success⟩ := by
    simp [BuseOperations.turn, ht]
  have hstream := List.append_nil (xs.flatMap (·.command.format))
  rw [← hstream, serveNbd_append, serveNbd_exchanges, Served.andThen_of_serving rfl, serveNbd, hend]
  simp only [Served.andThen, Served.behind, List.append_nil]

end Serve

end IotDrive
