/-
The watch-list of `response_manger.hpp` and `response_manger.cpp`, and the UIDs of `message.cpp`
that index it.

The query `HasResponseRecived` has two effects of its own: it erases an entry that is `DONE`, and
it inserts an entry that is missing.

Main definitions:

* `ThreadSafeUID.new` — the default constructor;
* `ResponseManeger.registerCommand`, `ResponseManeger.registerResponse`,
  `ResponseManeger.hasResponseRecived` — the three operations;
* `LeavesQueries` — a response that changes nothing for a command.

Main results:

* `isDone_registerCommand`, `isDone_registerResponse`, `isDone_hasResponseRecived` — which entries
  are `DONE` after each;
* `response_confirms_own_command` — **whose command** a response confirms.
-/

import IotDrive.InputProxy

set_option relaxedAutoImplicit false
set_option autoImplicit false

namespace IotDrive

/-! ### UIDs -/

/-- What the system calls of the UID constructor return: `time(nullptr)` and `getpid()`. -/
structure Stamp where
  timestamp : UInt64
  pid : Int32
  deriving DecidableEq

/-- The constructor of `ThreadSafeUID`, when `m_static_counter` has counted to `counter`.  It
throws if the timestamp is negative as an `int`. -/
def ThreadSafeUID.new (counter : ℕ) (stamp : Stamp) : Option ThreadSafeUID :=
  if stamp.timestamp.toUInt32.toInt32 < 0 then none
  else some
    { uniqueCounter := UInt32.ofNat counter
      timestamp := stamp.timestamp
      pid := stamp.pid
      ip := (UInt32.ofNat counter + 1).toUInt64 }

theorem ThreadSafeUID.key_of_new {counter : ℕ} {stamp : Stamp} {uid : ThreadSafeUID}
    (h : ThreadSafeUID.new counter stamp = some uid) :
    uid.getUniqueCounter = UInt32.ofNat counter := by
  unfold ThreadSafeUID.new at h
  split at h
  · cases h
  · cases h
    rfl

/-- The `n`-th UID of a process, if its system calls return zero. -/
def nthUid (n : ℕ) : ThreadSafeUID := ⟨UInt32.ofNat n, 0, 0, (UInt32.ofNat n + 1).toUInt64⟩

/-! ### The watch-list -/

/-- `ResponseManeger::Status`. -/
inductive Status
  | processingRequest | done
  deriving DecidableEq

/-- `m_watchlist`. -/
abbrev Watchlist := UInt32 → Option Status

namespace ResponseManeger

def registerCommand (watchlist : Watchlist) (uid : ThreadSafeUID) : Watchlist :=
  Function.update watchlist uid.getUniqueCounter (some .processingRequest)

def registerResponse (watchlist : Watchlist) (uid : ThreadSafeUID) : Watchlist :=
  Function.update watchlist uid.getUniqueCounter (some .done)

def hasResponseRecived (watchlist : Watchlist) (uid : ThreadSafeUID) : Bool × Watchlist :=
  let key := uid.getUniqueCounter
  match watchlist key with
  | some .done => (true, Function.update watchlist key none)
  | some .processingRequest => (false, watchlist)
  -- `operator[]` inserts the value 0, which is `PROCESSING_REQUEST`
  | none => (false, Function.update watchlist key (some .processingRequest))

end ResponseManeger

/-- The entry of the key is `DONE`. -/
def IsDone (watchlist : Watchlist) (key : UInt32) : Prop := watchlist key = some .done

instance (watchlist : Watchlist) (key : UInt32) : Decidable (IsDone watchlist key) :=
  inferInstanceAs (Decidable (_ = _))

open ResponseManeger

variable (watchlist : Watchlist) (uid : ThreadSafeUID) (key : UInt32)

theorem isDone_registerCommand :
    IsDone (registerCommand watchlist uid) key ↔
      key ≠ uid.getUniqueCounter ∧ IsDone watchlist key := by
  unfold IsDone registerCommand
  by_cases hkey : key = uid.getUniqueCounter
  · subst hkey
    simp
  · simp [hkey]

theorem isDone_registerResponse :
    IsDone (registerResponse watchlist uid) key ↔
      key = uid.getUniqueCounter ∨ IsDone watchlist key := by
  unfold IsDone registerResponse
  by_cases hkey : key = uid.getUniqueCounter
  · subst hkey
    simp
  · simp [hkey]

/-- What the query does to an entry that is `DONE`, one that is not, and one that is missing. -/
theorem hasResponseRecived_cases :
    (IsDone watchlist uid.getUniqueCounter ∧ hasResponseRecived watchlist uid =
        (true, Function.update watchlist uid.getUniqueCounter none)) ∨
      (¬ IsDone watchlist uid.getUniqueCounter ∧ hasResponseRecived watchlist uid =
        (false, Function.update watchlist uid.getUniqueCounter (some .processingRequest))) := by
  unfold IsDone hasResponseRecived
  cases h : watchlist uid.getUniqueCounter with
  | none => exact Or.inr ⟨nofun, by simp [h]⟩
  | some status =>
      cases status with
      | done => exact Or.inl ⟨rfl, by simp [h]⟩
      | processingRequest =>
          have heq := Function.update_eq_self uid.getUniqueCounter watchlist
          rw [h] at heq
          refine Or.inr ⟨nofun, ?_⟩
          simp only [h, heq]

theorem hasResponseRecived_fst :
    (hasResponseRecived watchlist uid).1 = decide (IsDone watchlist uid.getUniqueCounter) := by
  rcases hasResponseRecived_cases watchlist uid with ⟨hdone, h⟩ | ⟨hdone, h⟩
  · rw [h, decide_eq_true hdone]
  · rw [h, decide_eq_false hdone]

theorem isDone_hasResponseRecived :
    IsDone (hasResponseRecived watchlist uid).2 key ↔
      key ≠ uid.getUniqueCounter ∧ IsDone watchlist key := by
  by_cases hkey : key = uid.getUniqueCounter
  · subst hkey
    rcases hasResponseRecived_cases watchlist uid with ⟨-, h⟩ | ⟨-, h⟩ <;> simp [h, IsDone]
  · rcases hasResponseRecived_cases watchlist uid with ⟨-, h⟩ | ⟨-, h⟩ <;>
      simp [h, IsDone, hkey]

/-! ### Whose response -/

/-- `ThreadSafeUID::operator==`.  The `difftime` of two times is zero if they are the same. -/
def ThreadSafeUID.operatorEq (m other : ThreadSafeUID) : Bool :=
  !(m.uniqueCounter != other.uniqueCounter || m.timestamp != other.timestamp ||
    m.pid != other.pid || m.ip != other.ip)

theorem ThreadSafeUID.operatorEq_iff {m other : ThreadSafeUID} :
    m.operatorEq other = true ↔ m = other := by
  cases m
  cases other
  simp [operatorEq, and_assoc]

inductive WatchlistOp
  | registerCommand (uid : ThreadSafeUID)
  | registerResponse (uid : ThreadSafeUID)
  | hasResponseRecived (uid : ThreadSafeUID)
  deriving DecidableEq

def WatchlistOp.apply (watchlist : Watchlist) : WatchlistOp → Watchlist
  | .registerCommand uid => ResponseManeger.registerCommand watchlist uid
  | .registerResponse uid => ResponseManeger.registerResponse watchlist uid
  | .hasResponseRecived uid => (ResponseManeger.hasResponseRecived watchlist uid).2

/-- The watch-list after some operations. -/
def after (watchlist : Watchlist) (ops : List WatchlistOp) : Watchlist :=
  ops.foldl WatchlistOp.apply watchlist

/-- A response with the UID `v` that is registered now does not change the result of any later query
for the UID `u`. -/
def LeavesQueries (watchlist : Watchlist) (u v : ThreadSafeUID) : Prop :=
  ∀ later, (hasResponseRecived (after (registerResponse watchlist v) later) u).1 =
    (hasResponseRecived (after watchlist later) u).1

/-- An operation makes of an entry something that depends on this entry only. -/
theorem WatchlistOp.apply_congr {w w' : Watchlist} {key : UInt32} (h : w key = w' key)
    (op : WatchlistOp) : op.apply w key = op.apply w' key := by
  have hupdate : ∀ (k : UInt32) (status status' : Option Status), (k = key → status = status') →
      Function.update w k status key = Function.update w' k status' key := by
    intro k status status' hstatus
    by_cases hk : k = key
    · subst hk
      rw [Function.update_self, Function.update_self, hstatus rfl]
    · rw [Function.update_of_ne (Ne.symm hk), Function.update_of_ne (Ne.symm hk), h]
  cases op with
  | registerCommand uid => exact hupdate _ _ _ fun _ => rfl
  | registerResponse uid => exact hupdate _ _ _ fun _ => rfl
  | hasResponseRecived uid =>
      have hsame : uid.getUniqueCounter = key →
          (IsDone w uid.getUniqueCounter ↔ IsDone w' uid.getUniqueCounter) := by
        rintro rfl
        rw [IsDone, h, IsDone]
      simp only [apply]
      rcases hasResponseRecived_cases w uid with ⟨hdone, hw⟩ | ⟨hdone, hw⟩ <;>
        rcases hasResponseRecived_cases w' uid with ⟨hdone', hw'⟩ | ⟨hdone', hw'⟩ <;>
        rw [hw, hw'] <;> refine hupdate _ _ _ fun hkey => ?_
      · rfl
      · exact absurd ((hsame hkey).1 hdone) hdone'
      · exact absurd ((hsame hkey).2 hdone') hdone
      · rfl

theorem after_congr {w w' : Watchlist} {key : UInt32} (h : w key = w' key)
    (ops : List WatchlistOp) : after w ops key = after w' ops key := by
  induction ops generalizing w w' with
  | nil => exact h
  | cons op ops ih => exact ih (op.apply_congr h)

/-- A response confirms only the command with its UID exactly when the two have different counters,
or the entry of the command is `DONE` already. -/
theorem response_confirms_own_command (history : List WatchlistOp) (u v : ThreadSafeUID) :
    LeavesQueries (after (fun _ => none) history) u v ↔
      u.getUniqueCounter ≠ v.getUniqueCounter ∨
        IsDone (after (fun _ => none) history) u.getUniqueCounter := by
  generalize after (fun _ => none) history = w
  have hregister : u.getUniqueCounter = v.getUniqueCounter →
      registerResponse w v = Function.update w u.getUniqueCounter (some .done) := by
    intro hkey
    rw [registerResponse, hkey]
  constructor
  · intro h
    by_cases hkey : u.getUniqueCounter = v.getUniqueCounter
    · right
      have hnow := h []
      have hdone : IsDone (registerResponse w v) u.getUniqueCounter :=
        (isDone_registerResponse w v _).2 (.inl hkey)
      simp only [after, List.foldl_nil, hasResponseRecived_fst, decide_eq_true hdone] at hnow
      exact of_decide_eq_true hnow.symm
    · exact .inl hkey
  · intro h later
    have hentry : registerResponse w v u.getUniqueCounter = w u.getUniqueCounter := by
      rcases h with hkey | hdone
      · exact Function.update_of_ne hkey _ _
      · by_cases hkey : u.getUniqueCounter = v.getUniqueCounter
        · rw [hregister hkey, Function.update_self, hdone]
        · exact Function.update_of_ne hkey _ _
    have hlater := after_congr hentry later
    rw [hasResponseRecived_fst, hasResponseRecived_fst]
    refine decide_eq_decide.2 ?_
    unfold IsDone
    rw [hlater]

/-- A response to an earlier master, which has used the same count, confirms the command. -/
theorem response_confirms_other_command :
    ¬∀ (history : List WatchlistOp) (u v : ThreadSafeUID), .registerCommand u ∈ history →
      u.operatorEq v = false → LeavesQueries (after (fun _ => none) history) u v := by
  intro h
  have hquery := h [.registerCommand ⟨1, 70, 200, 2⟩] ⟨1, 70, 200, 2⟩ ⟨1, 60, 100, 2⟩
    (by decide) (by decide) []
  exact absurd hquery (by decide)

end IotDrive
