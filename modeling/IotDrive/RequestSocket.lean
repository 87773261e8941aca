/-
The socket on which a minion gets its requests.

`MasterProxy::GetArgsKey` looks at the key and the size of the datagram in front, and then either
hands a command on or throws.  It has no way of its own to refuse a datagram, so a datagram that is
not a request either becomes a command all the same or ends the process.

Main definitions:

* `MasterProxy.callback` — the handler that `InputMediator` registers for a minion;
* `Encodes`, `Genuine` — the datagrams that `ToBuffer` makes;
* `Serves` — a datagram is taken off the socket, the loop goes on, and only a genuine one becomes
  a command.

Main results:

* `Genuine.getArgsKey` — a genuine datagram becomes the command that it encodes;
* `serves_iff_genuine` — **requests**: a minion serves a datagram right if and only if the datagram
  is genuine.
-/

import IotDrive.Agreement
import IotDrive.Reactor

set_option relaxedAutoImplicit false
set_option autoImplicit false

namespace IotDrive

/-! ### The handler of a minion -/

/-- What the loop of a minion works on: the datagrams on the socket, and the tasks that
`ThreadPool` was given. -/
structure MinionLoop where
  socket : List Datagram
  tasks : List IArgsKey

/-- `InputMediator::ReactorCallback::operator()` with a `MasterProxy`. -/
def MasterProxy.callback (e : CallEnv) (s : MinionLoop) : Except Fault Unit × MinionLoop :=
  match s.socket with
  | [] => (.ok (), s)
  | head :: queue =>
      match MasterProxy.getArgsKey e.heap e.fresh head queue with
      | (.ok args, socket) => (.ok (), { socket, tasks := s.tasks ++ [args] })
      | (.error fault, socket) => (.error fault, { s with socket })

/-- `Reactor::Run` in a minion, for the given readiness events of the socket `fd`. -/
def MinionLoop.run (fd : ℤ) (events : List CallEnv) (s : MinionLoop) :
    Except Fault Unit × MinionLoop :=
  (Reactor.on fd MasterProxy.callback).run (readiness fd events) s

/-! ### Genuine datagrams -/

/-- Whatever the buffer held, `toBuffer` writes exactly the bytes `xs` to it. -/
def Encodes (toBuffer : Buffer → Buffer) (xs : Datagram) : Prop :=
  ∀ heap, toBuffer (.start heap) = WriteCursor.store (.start heap) xs

/-- The datagram is the encoding of a request. -/
inductive Genuine (d : Datagram) : Prop
  | readMsg (offset : UInt64) (size : UInt32) (uid : ThreadSafeUID)
      (h : Encodes (ReadMsg.make offset size uid).toBuffer d)
  | writeMsg (offset : UInt64) (size : UInt32) (data : List UInt8) (uid : ThreadSafeUID)
      (hdata : data.length = size.toNat)
      (h : Encodes (WriteMsg.make offset size (some data) uid).toBuffer d)

/-- The datagram `d` is taken off the socket and the loop goes on with the events after it; a
command is given to `ThreadPool` only if the datagram is genuine. -/
def Serves (d : Datagram) : Prop :=
  ∀ fd e events queue tasks, ∃ command : Option IArgsKey,
    (command.isSome → Genuine d) ∧
      MinionLoop.run fd (e :: events) { socket := d :: queue, tasks } =
        MinionLoop.run fd events { socket := queue, tasks := tasks ++ command.toList }

/-- There is only one encoding of a message. -/
theorem Encodes.eq {toBuffer : Buffer → Buffer} {xs ys : Datagram} (hx : Encodes toBuffer xs)
    (hy : Encodes toBuffer ys) : xs = ys := by
  have h := (hx fun _ => 0).symm.trans (hy fun _ => 0)
  have hwritten := congrArg WriteCursor.written h
  simpa using hwritten

theorem ReadMsg.encodes_format (m : ReadMsg) : Encodes m.toBuffer m.format :=
  fun heap => m.toBuffer_eq (.start heap)

theorem WriteMsg.encodes_format {m : WriteMsg} {xs : List UInt8} (h : m.data.Holds m.size xs) :
    Encodes m.toBuffer (m.format xs) :=
  fun heap => m.toBuffer_eq h (.start heap)

/-- A genuine datagram becomes a command, and nothing but the datagram leaves the socket. -/
theorem Genuine.getArgsKey {d : Datagram} (h : Genuine d) (hd : d.length ≤ 65507) :
    ∃ args, ∀ heap fresh queue, MasterProxy.getArgsKey heap fresh d queue = (.ok args, queue) := by
  cases h with
  | readMsg offset size uid h =>
      obtain rfl := h.eq (ReadMsg.make offset size uid).encodes_format
      exact ⟨_, fun heap fresh queue =>
        (MasterProxy.receives_readRequest uid offset size heap fresh queue).2⟩
  | writeMsg offset size data uid hdata h =>
      obtain rfl := h.eq (WriteMsg.encodes_format ⟨rfl, hdata⟩)
      rw [WriteMsg.length_format] at hd
      have hpayload : Payload data size := ⟨hdata, by rw [memory_eq]; omega⟩
      exact ⟨_, fun heap fresh queue =>
        (MasterProxy.receives_writeRequest uid offset size hpayload heap fresh queue).2⟩

/-! ### The loop -/

variable {fd : ℤ} {e : CallEnv} {events : List CallEnv} {d : Datagram} {queue socket : List Datagram}
  {tasks : List IArgsKey}

/-- A datagram that becomes a command. -/
theorem MinionLoop.run_of_ok {args : IArgsKey}
    (h : MasterProxy.getArgsKey e.heap e.fresh d queue = (.ok args, socket)) :
    run fd (e :: events) { socket := d :: queue, tasks } =
      run fd events { socket, tasks := tasks ++ [args] } := by
  refine Reactor.run_on_ok ?_ events
  simp only [MasterProxy.callback, h]

/-- A datagram that throws. -/
theorem MinionLoop.run_of_error {fault : Fault}
    (h : MasterProxy.getArgsKey e.heap e.fresh d queue = (.error fault, socket)) :
    run fd (e :: events) { socket := d :: queue, tasks } = (.error fault, { socket, tasks }) := by
  refine Reactor.run_on_error ?_ events
  simp only [MasterProxy.callback, h]

/-- A datagram that throws is not served. -/
theorem not_serves_of_error {fault : Fault}
    (h : MasterProxy.getArgsKey e.heap e.fresh d [] = (.error fault, socket)) : ¬ Serves d := by
  intro hserves
  obtain ⟨command, -, hrun⟩ := hserves 0 e [] [] []
  rw [MinionLoop.run_of_error h] at hrun
  exact absurd (congrArg Prod.fst hrun) nofun

/-- A datagram that becomes a command and is served is genuine. -/
theorem Serves.genuine_of_ok {args : IArgsKey} (hserves : Serves d)
    (h : MasterProxy.getArgsKey e.heap e.fresh d [] = (.ok args, socket)) : Genuine d := by
  obtain ⟨command, hgenuine, hrun⟩ := hserves 0 e [] [] []
  rw [MinionLoop.run_of_ok h] at hrun
  have htasks : [args] = command.toList := congrArg (fun r => r.2.tasks) hrun
  refine hgenuine ?_
  cases command with
  | none => exact absurd htasks (List.cons_ne_nil _ _)
  | some command => rfl

/-- **Requests.** A minion serves a datagram as it should, whatever its buffers hold and whatever
follows on the socket, if and only if the datagram is the encoding of a request. -/
theorem serves_iff_genuine (d : UDPDatagram) : Serves d.bytes ↔ Genuine d.bytes := by
  constructor
  · intro hserves
    let e : CallEnv := { heap := fun _ _ => 0, fresh := ⟨0, 0, 0, 0⟩ }
    rcases h : MasterProxy.getArgsKey e.heap e.fresh d.bytes [] with ⟨_ | args, socket⟩
    · exact absurd hserves (not_serves_of_error h)
    · exact hserves.genuine_of_ok h
  · intro hgenuine fd e events queue tasks
    obtain ⟨args, hargs⟩ := hgenuine.getArgsKey d.le
    exact ⟨some args, fun _ => hgenuine, MinionLoop.run_of_ok (hargs _ _ _)⟩

/-- A datagram of 41 zeros has an unknown key: the factory throws, and the minion ends with the
datagram still on its socket. -/
theorem not_serves_zeros : ¬ Serves (List.replicate 41 0) := by
  let e : CallEnv := { heap := fun _ _ => 0, fresh := ⟨0, 0, 0, 0⟩ }
  have hcall : MasterProxy.getArgsKey e.heap e.fresh (List.replicate 41 0) [] =
      (.error .outOfRange, [List.replicate 41 0]) := rfl
  exact not_serves_of_error hcall

end IotDrive
