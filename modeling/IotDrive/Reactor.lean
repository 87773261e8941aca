/-
The event loop of `reactor.cpp`.

`Reactor::Run` asks its listener which of the registered descriptors are ready, and calls the
handler of each.  Nothing between a handler and `main` catches an exception, so an exception that
leaves a handler ends the loop.

Main definitions:

* `Reactor` — the handlers, by descriptor and mode;
* `Reactor.serve`, `Reactor.run` — one round of the loop, and the loop;
* `Reactor.on`, `readiness` — a reactor with one descriptor, and the rounds in which it is ready;
* `UDPDatagram` — a datagram that a UDP socket can hold.

Main results:

* `Reactor.run_on_ok`, `Reactor.run_on_error` — a handler that returns, and one that throws.
-/

import IotDrive.InputProxy

set_option relaxedAutoImplicit false
set_option autoImplicit false

namespace IotDrive

/-- `Reactor::Mode`. -/
inductive Mode
  | read | write
  deriving DecidableEq

/-- `LISTEN_PAIR`: a descriptor and what to wait for. -/
abbrev ListenPair := ℤ × Mode

/-- A handler: what it finds in the environment, the state before and the state after, and whether
it returned or threw. -/
abbrev Handler (ε σ : Type) := ε → σ → Except Fault Unit × σ

/-- `Reactor::m_map`. -/
structure Reactor (ε σ : Type) where
  map : ListenPair → Option (Handler ε σ)

namespace Reactor

variable {ε σ : Type}

/-- One round: the handlers of the pairs that the listener returned, one after another. -/
def serve (r : Reactor ε σ) : List (ListenPair × ε) → σ → Except Fault Unit × σ
  | [], s => (.ok (), s)
  | (pair, e) :: rest, s =>
      match r.map pair with
      | none => r.serve rest s
      | some handler =>
          match handler e s with
          | (.ok _, s) => r.serve rest s
          | (.error fault, s) => (.error fault, s)

/-- `Reactor::Run`, for the rounds of the listener. -/
def run (r : Reactor ε σ) : List (List (ListenPair × ε)) → σ → Except Fault Unit × σ
  | [], s => (.ok (), s)
  | ready :: rounds, s =>
      match r.serve ready s with
      | (.ok _, s) => r.run rounds s
      | (.error fault, s) => (.error fault, s)

/-- `Reactor::Register` for one descriptor to read from. -/
def on (fd : ℤ) (handler : Handler ε σ) : Reactor ε σ where
  map pair := if pair = (fd, .read) then some handler else none

end Reactor

/-- Rounds in which the descriptor is ready, with what its handler finds in each. -/
def readiness {ε : Type} (fd : ℤ) (events : List ε) : List (List (ListenPair × ε)) :=
  events.map fun e => [((fd, .read), e)]

namespace Reactor

variable {ε σ : Type} {fd : ℤ} {handler : Handler ε σ} {e : ε} {s t : σ}

/-- After a handler that returned the loop goes on. -/
theorem run_on_ok (h : handler e s = (.ok (), t)) (events : List ε) :
    (on fd handler).run (readiness fd (e :: events)) s =
      (on fd handler).run (readiness fd events) t := by
  simp only [readiness, List.map_cons, run, serve, on, if_true, h]

/-- After a handler that threw it does not. -/
theorem run_on_error {fault : Fault} (h : handler e s = (.error fault, t)) (events : List ε) :
    (on fd handler).run (readiness fd (e :: events)) s = (.error fault, t) := by
  simp only [readiness, List.map_cons, run, serve, on, if_true, h]

/-- The loop over a list of events, and then over another one. -/
theorem run_on_append {es : List ε} (h : (on fd handler).run (readiness fd es) s = (.ok (), t))
    (events : List ε) :
    (on fd handler).run (readiness fd (es ++ events)) s =
      (on fd handler).run (readiness fd events) t := by
  -- induction on the events; a handler that throws would have ended the first run
  induction es generalizing s with
  | nil =>
      cases h
      rfl
  | cons e es ih =>
      rcases hcall : handler e s with ⟨_ | _, u⟩
      · rw [run_on_error hcall] at h
        exact absurd (congrArg Prod.fst h) nofun
      · rw [run_on_ok hcall] at h
        rw [List.cons_append, run_on_ok hcall]
        exact ih h

end Reactor

/-! ### Datagrams -/

/-- A datagram that a UDP socket can hold: the length fields of its headers have 16 bits. -/
structure UDPDatagram where
  bytes : Datagram
  le : bytes.length ≤ 65507

/-- What a call of `GetArgsKey` finds: the contents of its allocations, and the UID of the message
that the factory makes. -/
structure CallEnv where
  heap : Heap
  fresh : ThreadSafeUID

end IotDrive
