/-
No `Pop` waits for an item that is there.

`Push` notifies one waiter, after it has released the mutex.  In between, another `Pop` can take the
item, a waiter can be woken for no reason, and a waiter whose time limit passes can take an item that
was notified to another.  For each item that is in the container while a thread is blocked there is
still a thread that will notify, or look into the container.

Main definitions:

* `QueuePhase.awake` — a thread that will notify, or look into the container;
* `WaitableQueue.Attended` — while a thread is blocked, there are as many of these as items;
* `WaitableQueue.Settled` — all calls have returned, or wait at an empty container.

Main results:

* `WaitableQueue.Attended.step` — every step keeps the invariant;
* `queue_attended` — **no notification is lost**;
* `queue_settles` — **every call returns or waits at an empty container**, in a bounded number of
  steps.
-/

import IotDrive.WaitableQueue

set_option relaxedAutoImplicit false
set_option autoImplicit false

namespace IotDrive

open History Transition

variable {σ α : Type}

/-- The thread will notify a waiter, or look into the container. -/
def QueuePhase.awake : QueuePhase α → Bool
  | .pushUnlocking _ | .notifying _ | .testing _ | .waking _ | .reading _ | .removing _ _ => true
  | _ => false

theorem QueueCall.isBlocked_phase (call : QueueCall α) : call.phase.isBlocked = false := by
  cases call <;> rfl

/-- How many steps the thread takes until it has returned, or waits; a notification counts for those
of the thread that it wakes, too. -/
def QueuePhase.rank : QueuePhase α → ℕ
  | .idle | .blocked _ => 0
  | .returning _ _ | .blocking _ => 1
  | .unlocking _ _ => 2
  | .removing _ _ | .emptyReading => 3
  | .reading _ | .emptyLocking => 4
  | .testing _ => 5
  | .popLocking _ | .waking _ => 6
  | .notifying _ => 8
  | .pushUnlocking _ => 9
  | .pushing _ => 10
  | .pushLocking _ => 11

/-- A step of a thread in its call; it needs no other call, and no chance or time. -/
def QueueAction.isOwn : QueueAction α → Bool
  | .advance _ | .notifyOne _ _ | .ret _ => true
  | _ => false

namespace WaitableQueue

variable {C : Container σ α} {s t : WaitableQueue σ α}

/-! ### Notifications -/

/-- While a thread is blocked, each item has a thread that will notify, or look into the container. -/
def Attended (C : Container σ α) (s : WaitableQueue σ α) : Prop :=
  ∀ phase ∈ s.threads, phase.isBlocked = true →
    (C.items s.mQueue).card ≤ s.threads.countP QueuePhase.awake

theorem attended_start (C : Container σ α) (mQueue : σ) (n : ℕ) : (start mQueue n).Attended C := by
  intro phase hphase hblocked
  rw [List.eq_of_mem_replicate hphase] at hblocked
  cases hblocked

/-- A thread that does not block itself: the items it puts in, and the attention it withdraws, are made
up for, or the container is empty. -/
theorem Attended.set (h : s.Attended C) {i : ℕ} {a b : QueuePhase α} {mQueue : σ} {mMutex : Bool}
    (hi : s.threads[i]? = some a) (hb : b.isBlocked = false)
    (hcard : (C.items mQueue).card + a.awake.toNat ≤ (C.items s.mQueue).card + b.awake.toNat ∨
      (C.items mQueue).card = 0) :
    Attended C ⟨s.threads.set i b, mQueue, mMutex⟩ := by
  intro phase hphase hblocked
  have hmove := Census.countP_move QueuePhase.awake hi b
  dsimp only at hphase ⊢
  rcases List.mem_or_eq_of_mem_set hphase with hold | rfl
  · have hle := h phase hold hblocked
    omega
  · rw [hb] at hblocked
    cases hblocked

/-- A thread that goes on makes up for what it does, or has found the container empty. -/
theorem Moves.attended {a b : QueuePhase α} (h : Moves C s a t b) (ha : a.Knows C s.mQueue) :
    (C.items t.mQueue).card + a.awake.toNat ≤ (C.items s.mQueue).card + b.awake.toNat ∨
      (C.items t.mQueue).card = 0 := by
  have hcard : ∀ {mQueue}, C.empty mQueue = true → (C.items mQueue).card = 0 := fun hempty =>
    Multiset.card_eq_zero.2 (C.items_of_empty _ hempty)
  cases h with
  | push item =>
      rw [C.card_push]
      exact .inl le_rfl
  | pop limit item =>
      rw [C.card_pop ha.2]
      exact .inl le_rfl
  | nothing hempty => exact .inr (hcard hempty)
  | wait limit hlimit hempty => exact .inr (hcard hempty)
  | block limit => exact .inr (hcard ha)
  | lockPop limit hmutex => exact .inl (Nat.le_add_right _ _)
  | _ => exact .inl le_rfl

/-- A thread blocks when it has found the container empty. -/
theorem Moves.not_blocked_or_empty {a b : QueuePhase α} (h : Moves C s a t b)
    (ha : a.Knows C s.mQueue) :
    b.isBlocked = false ∨ (C.items t.mQueue).card = 0 := by
  cases h with
  | block limit => exact .inr (Multiset.card_eq_zero.2 (C.items_of_empty _ ha))
  | _ => exact .inl rfl

theorem Expires.attended {a b : QueuePhase α} (h : Expires a b) :
    b.isBlocked = false ∧ a.awake.toNat ≤ b.awake.toNat := by
  cases h with
  | giveUp => exact ⟨rfl, le_rfl⟩
  | stop => exact ⟨rfl, Nat.zero_le _⟩
  | late => exact ⟨rfl, le_rfl⟩

/-- Every step keeps the attention. -/
theorem Attended.step (h : s.Attended C) (hguarded : s.Guarded C) {a : QueueAction α}
    {out : List (QueueEvent α)} (hstep : Steps C s a t out) : t.Attended C := by
  cases hstep with
  | call i call hi =>
      exact h.set hi (QueueCall.isBlocked_phase call) (.inl (Nat.le_add_right _ _))
  | @advance i a b t hi hmove =>
      have hknows := hguarded.knows a (List.mem_of_getElem? hi)
      rcases hmove.not_blocked_or_empty hknows with hb | hzero
      · exact h.set hi hb (hmove.attended hknows)
      · intro phase hphase hblocked
        exact hzero.le.trans (Nat.zero_le _)
  | notifyNone i item hi hnone =>
      -- nobody is blocked, neither before nor after
      intro phase hphase hblocked
      rcases List.mem_or_eq_of_mem_set hphase with hold | rfl
      · exact absurd hblocked (Bool.eq_false_iff.1 (hnone phase hold))
      · cases hblocked
  | notifyOne i j item limit hi hj =>
      -- the attention of one thread goes over to the other
      have hmove := Census.countP_move QueuePhase.awake hi (.returning (.push item) .pushed)
      have hmove' := Census.countP_move QueuePhase.awake
        (getElem?_set_of_blocked hi hj (.returning (.push item) .pushed)) (.waking limit)
      have hle := h _ (List.mem_of_getElem? hj) rfl
      intro phase hphase hblocked
      simp only [QueuePhase.awake, Bool.toNat_true, Bool.toNat_false] at hmove hmove'
      dsimp only
      omega
  | wake i limit hi => exact h.set hi rfl (.inl (Nat.le_add_right _ _))
  | expire i hi hexpires =>
      exact h.set hi hexpires.attended.1 (.inl (Nat.add_le_add_left hexpires.attended.2 _))
  | ret i call result hi => exact h.set hi rfl (.inl le_rfl)

/-! ### Progress -/

/-- Every call has returned, or waits for an item with the container empty. -/
def Settled (C : Container σ α) (s : WaitableQueue σ α) : Prop :=
  ∀ phase ∈ s.threads, phase = .idle ∨ phase.isBlocked = true ∧ C.empty s.mQueue = true

/-- The sum of the ranks of the threads. -/
def rank (s : WaitableQueue σ α) : ℕ := (s.threads.map QueuePhase.rank).sum

/-- A thread that goes on comes closer to its return, or to waiting. -/
theorem Moves.rank_lt {a b : QueuePhase α} (h : Moves C s a t b) : b.rank < a.rank := by
  cases h <;> exact Nat.lt_of_sub_pos (Nat.succ_pos _)

theorem rank_set {i : ℕ} {a : QueuePhase α} (hi : s.threads[i]? = some a) (b : QueuePhase α)
    (mQueue : σ) (mMutex : Bool) :
    WaitableQueue.rank ⟨s.threads.set i b, mQueue, mMutex⟩ + a.rank = s.rank + b.rank :=
  Census.sum_move QueuePhase.rank hi b

/-- The rank falls with every step of a thread in its call. -/
theorem rank_lt_of_step {a : QueueAction α} {out : List (QueueEvent α)} (ha : a.isOwn = true)
    (hstep : Steps C s a t out) : t.rank < s.rank := by
  cases hstep with
  | call i call hi => cases ha
  | @advance i a b t hi hmove =>
      have hset := rank_set hi b t.mQueue t.mMutex
      have hlt := hmove.rank_lt
      omega
  | notifyNone i item hi hnone =>
      have hset := rank_set hi (.returning (.push item) .pushed) s.mQueue s.mMutex
      simp only [QueuePhase.rank] at hset
      omega
  | notifyOne i j item limit hi hj =>
      have hset := rank_set hi (.returning (.push item) .pushed) s.mQueue s.mMutex
      have hset' := rank_set (s := ⟨s.threads.set i (.returning (.push item) .pushed), s.mQueue,
        s.mMutex⟩) (getElem?_set_of_blocked hi hj _) (.waking limit) s.mQueue s.mMutex
      simp only [QueuePhase.rank] at hset hset'
      omega
  | wake i limit hi => cases ha
  | expire i hi hexpires => cases ha
  | ret i call result hi =>
      have hset := rank_set hi .idle s.mQueue s.mMutex
      simp only [QueuePhase.rank] at hset
      omega

theorem rank_le (s : WaitableQueue σ α) : s.rank ≤ 11 * s.threads.length :=
  Census.sum_le (fun phase => by cases phase <;> simp [QueuePhase.rank]) s.threads

/-- The holder of the mutex goes on. -/
theorem next_of_holds {a : QueuePhase α} (ha : a.holds = true) (hknows : a.Knows C s.mQueue) :
    s.next C a ≠ none := by
  cases a with
  | testing limit =>
      simp only [next]
      split
      · split <;> exact Option.some_ne_none _
      · exact Option.some_ne_none _
  | reading limit =>
      obtain ⟨item, hitem⟩ := C.exists_front _ hknows
      rw [next, hitem]
      exact Option.some_ne_none _
  | idle => cases ha
  | pushLocking item => cases ha
  | notifying item => cases ha
  | popLocking limit => cases ha
  | blocked limit => cases ha
  | waking limit => cases ha
  | emptyLocking => cases ha
  | returning call result => cases ha
  | _ => exact Option.some_ne_none _

/-- A thread that is at its notification can make it. -/
theorem exists_notifyOne {i : ℕ} {item : α} (hi : s.threads[i]? = some (.notifying item)) :
    ∃ woken, s.step C (.notifyOne i woken) ≠ none := by
  cases hany : s.threads.any QueuePhase.isBlocked with
  | false =>
      refine ⟨none, ?_⟩
      simp only [step, hi, hany]
      exact Option.some_ne_none _
  | true =>
      obtain ⟨phase, hphase, hblocked⟩ := List.any_eq_true.1 hany
      obtain ⟨j, hj⟩ := List.getElem?_of_mem hphase
      cases phase with
      | blocked limit =>
          refine ⟨some j, ?_⟩
          simp only [step, hi, hj]
          exact Option.some_ne_none _
      | _ => cases hblocked

/-- When no thread can go on in its call, every call has returned, or waits at an empty container. -/
theorem settled_of_stuck (hguarded : s.Guarded C) (hattended : s.Attended C)
    (hstuck : ∀ a : QueueAction α, a.isOwn = true → s.step C a = none) : s.Settled C := by
  have hnext : ∀ phase ∈ s.threads, s.next C phase = none := by
    intro phase hphase
    obtain ⟨i, hi⟩ := List.getElem?_of_mem hphase
    have hadvance := hstuck (.advance i) rfl
    simpa [step, hi] using hadvance
  have hholds : ∀ phase ∈ s.threads, phase.holds = false := by
    intro phase hphase
    by_contra hne
    exact next_of_holds (Bool.not_eq_false _ ▸ hne) (hguarded.knows phase hphase)
      (hnext phase hphase)
  -- nobody holds the mutex, so nobody waits for it
  have hmutex : s.mMutex = false := hguarded.holders.of_forall hholds
  have hphase : ∀ phase ∈ s.threads, phase = .idle ∨ phase.isBlocked = true := by
    intro phase hphase
    have hno := hnext phase hphase
    have hfree := hholds phase hphase
    obtain ⟨i, hi⟩ := List.getElem?_of_mem hphase
    cases phase with
    | idle => exact .inl rfl
    | blocked limit => exact .inr rfl
    | notifying item =>
        obtain ⟨woken, hwoken⟩ := exists_notifyOne (C := C) hi
        exact absurd (hstuck _ rfl) hwoken
    | returning call result =>
        have hret := hstuck (.ret i) rfl
        simp [step, hi] at hret
    | pushLocking item => simp [next, hmutex] at hno
    | popLocking limit => simp [next, hmutex] at hno
    | waking limit => simp [next, hmutex] at hno
    | emptyLocking => simp [next, hmutex] at hno
    | _ => cases hfree
  have hawake : s.threads.countP QueuePhase.awake = 0 := by
    refine List.countP_eq_zero.2 fun phase hmem => ?_
    rcases hphase phase hmem with rfl | hblocked
    · exact Bool.false_ne_true
    · cases phase with
      | blocked limit => exact Bool.false_ne_true
      | _ => cases hblocked
  intro phase hmem
  rcases hphase phase hmem with hidle | hblocked
  · exact .inl hidle
  · have hle := hattended phase hmem hblocked
    rw [hawake] at hle
    exact .inr ⟨hblocked, C.empty_of_items (Multiset.card_eq_zero.1 (Nat.le_zero.1 hle))⟩

/-- The number of threads does not change. -/
theorem Steps.length_threads {a : QueueAction α} {out : List (QueueEvent α)}
    (h : Steps C s a t out) : t.threads.length = s.threads.length := by
  cases h <;> simp

/-- Both invariants, and the number of threads, in every run. -/
theorem invariants_of_run {mQueue : σ} {n : ℕ} {actions : List (QueueAction α)}
    {history : List (QueueEvent α)}
    (hrun : run (logged (step C)) (.start mQueue n, []) actions = some (t, history)) :
    t.Guarded C ∧ t.Attended C ∧ t.threads.length = n := by
  refine invariant (I := fun t _ => t.Guarded C ∧ t.Attended C ∧ t.threads.length = n) ?_
    ⟨guarded_start C mQueue n, attended_start C mQueue n, List.length_replicate⟩ hrun
  rintro s a t out h ⟨hguarded, hattended, hlength⟩ hstep
  have hsteps := step_cases hstep
  exact ⟨hguarded.step hsteps, hattended.step hguarded hsteps, hsteps.length_threads.trans hlength⟩

end WaitableQueue

/-! ### The results -/

section Runs

open WaitableQueue

variable {C : Container σ α} {mQueue : σ} {n : ℕ} {actions : List (QueueAction α)}
  {s : WaitableQueue σ α} {history : List (QueueEvent α)}

/-- **No notification is lost.** In every state of every run in which a thread is blocked, each item of
the container has a thread of its own that will notify a waiter, or look into the container. -/
theorem queue_attended
    (hrun : run (logged (step C)) (.start mQueue n, []) actions = some (s, history))
    {limit : TimeLimit} (hblocked : .blocked limit ∈ s.threads) :
    (C.items s.mQueue).card ≤ s.threads.countP QueuePhase.awake :=
  (invariants_of_run hrun).2.1 _ hblocked rfl

/-- **Every call returns, or waits at an empty container.** From every state of every run, the threads
take eleven steps each at most in their calls, when no other calls are made and nothing is left to chance
or time; and where none of them can go on, every call has returned, or is a `Pop` that waits, and
the container is empty. -/
theorem queue_settles
    (hrun : run (logged (step C)) (.start mQueue n, []) actions = some (s, history))
    {more : List (QueueAction α)} {t : WaitableQueue σ α} {later : List (QueueEvent α)}
    (hown : ∀ a ∈ more, a.isOwn = true)
    (hmore : run (logged (step C)) (s, history) more = some (t, later)) :
    more.length ≤ 11 * n ∧
      ((∀ a : QueueAction α, a.isOwn = true → t.step C a = none) → t.Settled C) := by
  constructor
  · have hfall : ∀ s (a : QueueAction α) t out, True → a.isOwn = true →
        step C s a = some (t, out) → True ∧ t.rank < s.rank :=
      fun _ _ _ _ _ ha hstep => ⟨trivial, rank_lt_of_step ha (step_cases hstep)⟩
    have hrank := s.rank_le
    rw [(invariants_of_run hrun).2.2] at hrank
    exact Nat.le_trans (History.length_le_of_rank WaitableQueue.rank hfall trivial hown hmore) hrank
  · have hall : run (logged (step C)) (.start mQueue n, []) (actions ++ more) = some (t, later) := by
      rw [run_append, hrun]
      exact hmore
    exact settled_of_stuck (invariants_of_run hall).1 (invariants_of_run hall).2.1

end Runs

/-- A `Pop` is blocked, and a `Push` has put in an item, and not notified. -/
def unnotified : List (QueueAction ℕ) :=
  [.call 0 .pop, .advance 0, .advance 0, .advance 0, .call 1 (.push 7), .advance 1, .advance 1]

theorem run_unnotified :
    run (logged (WaitableQueue.step (.queue ℕ))) (.start [] 2, []) unnotified =
      some (⟨[.blocked .none, .pushUnlocking 7], [7], true⟩,
        [.called 1 (.push 7), .called 0 .pop]) := rfl

theorem queue_attended_unnotified :
    (Container.items (.queue ℕ) [7]).card ≤
      [QueuePhase.blocked .none, .pushUnlocking 7].countP QueuePhase.awake := by
  have hblocked : QueuePhase.blocked .none ∈ [QueuePhase.blocked .none, .pushUnlocking 7] :=
    List.mem_cons_self ..
  exact queue_attended run_unnotified hblocked

/-- The threads go on until both have returned. -/
theorem queue_settles_unnotified :
    WaitableQueue.Settled (.queue ℕ) ⟨[.idle, .idle], [], false⟩ := by
  have hmore : run (logged (WaitableQueue.step (.queue ℕ)))
      (⟨[.blocked .none, .pushUnlocking 7], [7], true⟩, [.called 1 (.push 7), .called 0 .pop])
      [.advance 1, .notifyOne 1 (some 0), .advance 0, .advance 0, .advance 0, .ret 1, .advance 0,
        .advance 0, .ret 0] = some (⟨[.idle, .idle], [], false⟩,
          [.returned 0 .pop (.popped 7), .returned 1 (.push 7) .pushed, .called 1 (.push 7),
            .called 0 .pop]) := rfl
  refine (queue_settles run_unnotified (by decide) hmore).2 fun a ha => ?_
  have hidle : ∀ (i : ℕ) (phase : QueuePhase ℕ), [QueuePhase.idle, .idle][i]? = some phase →
      phase = .idle := by
    intro i phase hi
    simpa using List.mem_of_getElem? hi
  cases hstep : WaitableQueue.step (.queue ℕ) ⟨[.idle, .idle], [], false⟩ a with
  | none => rfl
  | some x =>
      obtain ⟨u, out⟩ := x
      cases WaitableQueue.step_cases hstep with
      | call i call hi => cases ha
      | advance i hi hmove =>
          rw [hidle i _ hi] at hmove
          cases hmove
      | notifyNone i item hi hnone => cases hidle i _ hi
      | notifyOne i j item limit hi hj => cases hidle i _ hi
      | wake i limit hi => cases ha
      | expire i hi hexpires => cases ha
      | ret i call result hi => cases hidle i _ hi

end IotDrive
