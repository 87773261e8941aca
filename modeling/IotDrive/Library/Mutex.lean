/-
**Threads and one mutex.**

Each thread is in a phase, and a predicate on the phases says whether it holds the mutex.  A thread
that takes the mutex finds it free, and one that releases it has held it, so that the mutex is taken
exactly while one thread holds it.

Main definitions:

* `Mutex.Held` — the mutex is taken by one thread, or free.

Main results:

* `Mutex.Held.move` — a thread moves, and the mutex changes with its phase;
* `Mutex.Held.others` — **mutual exclusion**: what all threads without the mutex have in common, all
  others than its holder have;
* `Mutex.Held.of_forall` — a mutex that nobody holds is free.
-/

import IotDrive.Library.Census

set_option relaxedAutoImplicit false
set_option autoImplicit false

namespace Mutex

variable {φ : Type*} {holds : φ → Bool} {threads : List φ} {mutex mutex' : Bool} {i : ℕ} {a b : φ}

/-- The mutex is taken by one thread, or free. -/
def Held (holds : φ → Bool) (threads : List φ) (mutex : Bool) : Prop :=
  threads.countP holds = mutex.toNat

/-- Threads that have not started. -/
theorem held_replicate {start : φ} (h : holds start = false) (n : ℕ) :
    Held holds (List.replicate n start) false :=
  List.countP_eq_zero.2 fun phase hphase => by
    rw [List.eq_of_mem_replicate hphase, h]
    exact Bool.false_ne_true

/-- The holder of the mutex, and the mutex. -/
theorem Held.taken (h : Held holds threads mutex) (hi : threads[i]? = some a) (ha : holds a = true) :
    mutex = true := by
  have hpos : 0 < threads.countP holds := List.countP_pos_iff.2 ⟨a, List.mem_of_getElem? hi, ha⟩
  rw [h] at hpos
  cases mutex with
  | true => rfl
  | false => cases hpos

/-- A mutex that nobody holds is free. -/
theorem Held.of_forall (h : Held holds threads mutex)
    (hnone : ∀ phase ∈ threads, holds phase = false) : mutex = false := by
  have hcount : threads.countP holds = 0 :=
    List.countP_eq_zero.2 fun phase hphase => Bool.eq_false_iff.1 (hnone phase hphase)
  rw [h] at hcount
  cases mutex with
  | true => cases hcount
  | false => rfl

/-- A thread moves, and the mutex changes with its phase. -/
theorem Held.move (h : Held holds threads mutex) (hi : threads[i]? = some a)
    (hmutex : mutex'.toNat + (holds a).toNat = mutex.toNat + (holds b).toNat) :
    Held holds (threads.set i b) mutex' := by
  have hmove := Census.countP_move holds hi b
  unfold Held at h ⊢
  omega

/-- A thread moves that does not hold the mutex, neither before nor after. -/
theorem Held.set (h : Held holds threads mutex) (hi : threads[i]? = some a) (ha : holds a = false)
    (hb : holds b = false) : Held holds (threads.set i b) mutex :=
  h.move hi (by rw [ha, hb])

/-- A free mutex is taken. -/
theorem Held.lock (h : Held holds threads mutex) (hi : threads[i]? = some a) (ha : holds a = false)
    (hb : holds b = true) (hfree : mutex = false) : Held holds (threads.set i b) true := by
  refine h.move hi ?_
  rw [ha, hb, hfree]
  rfl

/-- The holder of the mutex releases it. -/
theorem Held.unlock (h : Held holds threads mutex) (hi : threads[i]? = some a) (ha : holds a = true)
    (hb : holds b = false) : Held holds (threads.set i b) false := by
  refine h.move hi ?_
  rw [ha, hb, h.taken hi ha]
  rfl

/-- The holder of the mutex keeps it. -/
theorem Held.keep (h : Held holds threads mutex) (hi : threads[i]? = some a) (ha : holds a = true)
    (hb : holds b = true) : Held holds (threads.set i b) mutex :=
  h.move hi (by rw [ha, hb])

/-- **Mutual exclusion.** The holder of the mutex moves; the others do not hold it. -/
theorem Held.others {P : φ → Prop} (h : Held holds threads mutex) (hi : threads[i]? = some a)
    (ha : holds a = true) (hP : ∀ phase ∈ threads, holds phase = false → P phase) (hb : P b) :
    ∀ phase ∈ threads.set i b, P phase := by
  have hone : threads.countP holds ≤ 1 := h ▸ Bool.toNat_le _
  clear h
  -- induction on the threads, to the place of the holder
  induction threads generalizing i with
  | nil => cases hi
  | cons c threads ih =>
      obtain ⟨hc, hthreads⟩ := List.forall_mem_cons.1 hP
      rw [List.countP_cons] at hone
      cases i with
      | zero =>
          cases hi
          rw [if_pos ha] at hone
          have hnone : threads.countP holds = 0 := by omega
          refine List.forall_mem_cons.2 ⟨hb, fun phase hphase => ?_⟩
          exact hthreads phase hphase (Bool.eq_false_iff.2 (List.countP_eq_zero.1 hnone phase hphase))
      | succ i =>
          -- the holder is further on, and the first thread is without the mutex
          have hpos : 0 < threads.countP holds :=
            List.countP_pos_iff.2 ⟨a, List.mem_of_getElem? hi, ha⟩
          have hfirst : holds c = false := by
            refine Bool.eq_false_iff.2 fun hholds => ?_
            rw [if_pos hholds] at hone
            omega
          exact List.forall_mem_cons.2 ⟨hc hfirst, ih hi hthreads (by omega)⟩

end Mutex
