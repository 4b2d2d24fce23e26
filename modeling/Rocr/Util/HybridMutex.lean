import Mathlib
import Rocr.Lib.FairRun

/-!
# The hybrid mutex

`HybridMutex` (`core/util/locks.h`) is a lock word `lock_` and a counting
semaphore `sem_`.  `Acquire` spins on `compare_exchange_strong(0, 1)`, and
after enough failed attempts sleeps in `os::WaitSemaphore`.  `Release` swaps
the word back to `0`, then `os::PostSemaphore` reads the semaphore with
`sem_getvalue` and posts only if no token is left.  Each thread is at one
point of this code (`Pc`).  The semaphore calls are atomic, and the check and
the post of `PostSemaphore` are two separate steps.

The invariant `Inv` has three parts: the lock word is `1` exactly when a thread
holds the mutex, at most one thread holds it, and no step leaves the mutex in
a quiet state with a sleeper.  A quiet state has the mutex free, no token, and
no thread between two of the mutex's atomic steps (`Stuck`).  Every reachable
state satisfies `Inv` (`reachable_inv`).

Along a weakly fair run, suppose a thread stays inside `Acquire` and nobody
acquires.  Then the holder releases, the threads in `PostSemaphore` finish,
and a thread at the loop head of `Acquire` would take the free word.  So the
sleeping thread is eventually left in a stuck state, which cannot happen
(`acquires_of_inAcquire`).  Fairness of a holder's step is the assumption that
each holder eventually releases.
-/

namespace HybridMutex

open FairRun

def maxSpinIterPause : Nat := 55

def maxSpinIterYield : Nat := 55

/-- Where a thread is in the mutex's code. -/
inductive Pc where
  /-- Outside `Acquire`, `Try` and `Release`, not holding the mutex. -/
  | idle
  /-- At the `compare_exchange_strong` of `Acquire`'s loop, with its count. -/
  | acquire (cnt : Nat)
  /-- In `os::WaitSemaphore`, at `sem_wait`. -/
  | waitSemaphore
  /-- Holding the mutex: its next step is `Release`. -/
  | holding
  /-- In `os::PostSemaphore`, at `sem_getvalue`. -/
  | getValue
  /-- In `os::PostSemaphore`, at `sem_post`. -/
  | post
deriving DecidableEq, Repr

/-- Inside `Acquire`. -/
def Pc.inAcquire : Pc → Bool
  | .acquire _ | .waitSemaphore => true
  | _ => false

/-- Between two atomic steps of the mutex's code, outside `sem_wait`. -/
def Pc.running : Pc → Bool
  | .acquire _ | .getValue | .post => true
  | _ => false

/-- The lock word, the semaphore's value and each thread's place. -/
structure State (τ : Type) where
  lock : Int
  sem : Nat
  pc : τ → Pc

variable {τ : Type} [DecidableEq τ]

/-- A new mutex (`lock_(0)`, `sem_init(sem, 0, 0)`), every thread outside it. -/
def State.init : State τ := ⟨0, 0, fun _ => .idle⟩

def State.setPc (s : State τ) (t : τ) (p : Pc) : State τ :=
  { s with pc := Function.update s.pc t p }

/-- The rest of `Acquire`'s loop after a failed `compare_exchange_strong`:
`cnt--`, then `_mm_pause()` while `cnt > maxSpinIterPause`, else
`os::YieldThread()` if `cnt-- > maxSpinIterYield`, else `os::WaitSemaphore`. -/
def spin (cnt : Nat) : Pc :=
  if cnt - 1 > maxSpinIterPause then .acquire (cnt - 1)
  else if cnt - 1 > maxSpinIterYield then .acquire (cnt - 2)
  else .waitSemaphore

/-- `lock_.compare_exchange_strong(old, 1)` with `old = 0` by `t`: on a swap
`t` holds the mutex, otherwise it goes on at `fail`. -/
def casAcquire (s : State τ) (t : τ) (fail : Pc) : State τ :=
  if s.lock = 0 then { s.setPc t .holding with lock := 1 } else s.setPc t fail

/-- `Acquire()` called: the count is set, nothing shared is touched yet. -/
def callAcquire (s : State τ) (t : τ) : State τ :=
  s.setPc t (.acquire (maxSpinIterPause + maxSpinIterYield))

/-- `Try()`: one `compare_exchange_strong`; on failure `t` stays outside. -/
def callTry (s : State τ) (t : τ) : State τ :=
  casAcquire s t .idle

/-- The next atomic step of thread `t` in the mutex's code. -/
def State.exec (s : State τ) (t : τ) : State τ :=
  match s.pc t with
  | .idle => s
  | .acquire cnt => casAcquire s t (spin cnt)
  -- `sem_wait` takes a token; the loop resets its count
  | .waitSemaphore =>
    { s.setPc t (.acquire (maxSpinIterPause + maxSpinIterYield)) with sem := s.sem - 1 }
  -- `Release`: `compare_exchange_strong(1, 0)`, and `PostSemaphore` if it swapped
  | .holding => if s.lock = 1 then { s.setPc t .getValue with lock := 0 } else s.setPc t .idle
  -- `waitval > 0`: a token is left, no post
  | .getValue => if 0 < s.sem then s.setPc t .idle else s.setPc t .post
  | .post => { s.setPc t .idle with sem := s.sem + 1 }

/-- Thread `t` can take its next step: it is in the mutex's code, and not
blocked in `sem_wait` on a zero semaphore. -/
def Enabled (s : State τ) (t : τ) : Prop :=
  s.pc t ≠ .idle ∧ (s.pc t = .waitSemaphore → 0 < s.sem)

instance (s : State τ) (t : τ) : Decidable (Enabled s t) :=
  inferInstanceAs (Decidable (_ ∧ _))

/-- A step of one thread: calling `Acquire` or `Try`, or the next step of the
code it is in.  `Release` is called only by the holder, as its next step. -/
inductive Step : State τ → State τ → Prop
  | enterAcquire {s : State τ} {t : τ} : s.pc t = .idle → Step s (callAcquire s t)
  | enterTry {s : State τ} {t : τ} : s.pc t = .idle → Step s (callTry s t)
  | exec {s : State τ} {t : τ} : Enabled s t → Step s (s.exec t)

def Reachable (s : State τ) : Prop :=
  Relation.ReflTransGen Step State.init s

/-- A lost wake-up: the mutex is free, no token is left, no thread is between
two steps of the mutex's code, and a thread sleeps in `sem_wait`. -/
def Stuck (s : State τ) : Prop :=
  s.lock = 0 ∧ s.sem = 0 ∧ (∀ t, (s.pc t).running = false) ∧ ∃ t, s.pc t = .waitSemaphore

/-- The lock word says whether the mutex is held, and by at most one thread. -/
structure Exclusive (s : State τ) : Prop where
  lock_cases : s.lock = 0 ∨ s.lock = 1
  lock_eq_one : s.lock = 1 ↔ ∃ t, s.pc t = .holding
  holder_unique : ∀ t u, s.pc t = .holding → s.pc u = .holding → t = u

/-- The invariant of reachable states. -/
structure Inv (s : State τ) : Prop extends Exclusive s where
  not_stuck : ¬ Stuck s

/-! ## One thread's step -/

section Frame

variable (s : State τ) (t : τ)

@[simp] theorem setPc_pc_self (p : Pc) : (s.setPc t p).pc t = p := by
  simp [State.setPc]

@[simp] theorem setPc_pc_of_ne {u : τ} (h : u ≠ t) (p : Pc) : (s.setPc t p).pc u = s.pc u := by
  simp [State.setPc, h]

@[simp] theorem setPc_lock (p : Pc) : (s.setPc t p).lock = s.lock := rfl

@[simp] theorem setPc_sem (p : Pc) : (s.setPc t p).sem = s.sem := rfl

theorem casAcquire_pc_self (fail : Pc) :
    (casAcquire s t fail).pc t = if s.lock = 0 then .holding else fail := by
  unfold casAcquire
  split_ifs <;> simp

theorem casAcquire_pc_of_ne {u : τ} (h : u ≠ t) (fail : Pc) :
    (casAcquire s t fail).pc u = s.pc u := by
  unfold casAcquire
  split_ifs <;> simp [h]

/-- A thread's step moves no other thread. -/
theorem exec_pc_of_ne {u : τ} (h : u ≠ t) : (s.exec t).pc u = s.pc u := by
  unfold State.exec
  split <;> (try split) <;> simp [casAcquire_pc_of_ne, h]

/-- A thread outside the mutex's code has no next step. -/
theorem exec_of_idle (h : s.pc t = .idle) : s.exec t = s := by
  simp [State.exec, h]

/-- Where a thread's own step takes it. -/
theorem exec_pc_self : (s.exec t).pc t =
    match s.pc t with
    | .idle => .idle
    | .acquire cnt => if s.lock = 0 then .holding else spin cnt
    | .waitSemaphore => .acquire (maxSpinIterPause + maxSpinIterYield)
    | .holding => if s.lock = 1 then .getValue else .idle
    | .getValue => if 0 < s.sem then .idle else .post
    | .post => .idle := by
  unfold State.exec
  split <;> (try split_ifs) <;> simp_all [casAcquire_pc_self]

end Frame

/-- Both limits are `55`, so the yield branch is never taken: after its pauses
a spinning thread goes straight to `os::WaitSemaphore`. -/
theorem spin_eq (cnt : Nat) :
    spin cnt = if cnt - 1 > maxSpinIterPause then .acquire (cnt - 1) else .waitSemaphore := by
  unfold spin
  by_cases h : cnt - 1 > maxSpinIterPause
  · rw [if_pos h, if_pos h]
  · have h' : ¬ cnt - 1 > maxSpinIterYield := h
    rw [if_neg h, if_neg h', if_neg h]

/-- `Acquire`'s loop never lands on holding without a swap. -/
theorem spin_ne_holding (cnt : Nat) : spin cnt ≠ .holding := by
  rw [spin_eq]
  split <;> simp

theorem spin_inAcquire (cnt : Nat) : (spin cnt).inAcquire = true := by
  rw [spin_eq]
  split <;> rfl

/-- A step that moves thread `u` is `u` calling `Acquire` or `Try`, or `u`'s
own next step. -/
theorem Step.of_pc_ne {s s' : State τ} (hs : Step s s') {u : τ} (h : s'.pc u ≠ s.pc u) :
    (s.pc u = .idle ∧ (s' = callAcquire s u ∨ s' = callTry s u)) ∨
      (Enabled s u ∧ s' = s.exec u) := by
  cases hs with
  | @enterAcquire t ht =>
    by_cases hu : u = t
    · subst hu
      exact Or.inl ⟨ht, Or.inl rfl⟩
    · exact absurd (setPc_pc_of_ne s t hu _) h
  | @enterTry t ht =>
    by_cases hu : u = t
    · subst hu
      exact Or.inl ⟨ht, Or.inr rfl⟩
    · exact absurd (casAcquire_pc_of_ne s t hu _) h
  | @exec t ht =>
    by_cases hu : u = t
    · subst hu
      exact Or.inr ⟨ht, rfl⟩
    · exact absurd (exec_pc_of_ne s t hu) h

/-! ## The invariant -/

section Invariant

variable {s : State τ} {t : τ}

/-- Moving a thread that does not hold the mutex to a place other than holding
keeps the lock facts. -/
theorem Exclusive.setPc (h : Exclusive s) (ht : s.pc t ≠ .holding) {p : Pc} (hp : p ≠ .holding) :
    Exclusive (s.setPc t p) := by
  -- the holders are the same before and after
  have hsame : ∀ u, (s.setPc t p).pc u = .holding ↔ s.pc u = .holding := by
    intro u
    by_cases hu : u = t
    · subst hu
      simp [hp, ht]
    · simp [hu]
  refine ⟨h.lock_cases, ?_, fun u v hu hv => h.holder_unique u v ((hsame u).mp hu) ((hsame v).mp hv)⟩
  simp only [setPc_lock, hsame]
  exact h.lock_eq_one

/-- A swap of the free word makes `t` the only holder. -/
theorem Exclusive.take (h : Exclusive s) (hlock : s.lock = 0) :
    Exclusive { s.setPc t .holding with lock := 1 } := by
  have hfree : ∀ u, s.pc u ≠ .holding := fun u hu => by
    have := h.lock_eq_one.mpr ⟨u, hu⟩
    omega
  have hholder : ∀ u, (s.setPc t .holding).pc u = .holding → u = t := by
    intro u hu
    by_contra hne
    rw [setPc_pc_of_ne s t hne] at hu
    exact hfree u hu
  refine ⟨Or.inr rfl, ⟨fun _ => ⟨t, setPc_pc_self s t _⟩, fun _ => rfl⟩, ?_⟩
  intro u v hu hv
  rw [hholder u hu, hholder v hv]

/-- `Release` by the holder frees the mutex. -/
theorem Exclusive.release (h : Exclusive s) (ht : s.pc t = .holding) :
    Exclusive { s.setPc t .getValue with lock := 0 } := by
  have hnone : ∀ u, (s.setPc t .getValue).pc u ≠ .holding := by
    intro u hu
    by_cases hut : u = t
    · subst hut
      simp at hu
    · rw [setPc_pc_of_ne s t hut] at hu
      exact hut (h.holder_unique u t hu ht)
  refine ⟨Or.inl rfl, ⟨fun h01 => by simp at h01, fun ⟨u, hu⟩ => (hnone u hu).elim⟩, ?_⟩
  intro u _ hu
  exact (hnone u hu).elim

omit [DecidableEq τ] in
/-- The semaphore is not part of the lock facts. -/
theorem Exclusive.withSem (h : Exclusive s) (n : Nat) : Exclusive { s with sem := n } :=
  ⟨h.lock_cases, h.lock_eq_one, h.holder_unique⟩

theorem Exclusive.casAcquire (h : Exclusive s) (ht : s.pc t ≠ .holding) {fail : Pc}
    (hfail : fail ≠ .holding) : Exclusive (casAcquire s t fail) := by
  unfold HybridMutex.casAcquire
  split_ifs with hlock
  · exact h.take hlock
  · exact h.setPc ht hfail

theorem Exclusive.exec (h : Exclusive s) (t : τ) : Exclusive (s.exec t) := by
  unfold State.exec
  split
  · exact h
  · rename_i hpc
    exact h.casAcquire (by simp [hpc]) (spin_ne_holding _)
  · rename_i hpc
    exact (h.setPc (by simp [hpc]) (by simp)).withSem _
  · rename_i hpc
    split_ifs with hlock
    · exact h.release hpc
    · exact absurd (h.lock_eq_one.mpr ⟨t, hpc⟩) hlock
  · rename_i hpc
    split_ifs <;> exact h.setPc (by simp [hpc]) (by simp)
  · rename_i hpc
    exact (h.setPc (by simp [hpc]) (by simp)).withSem _

theorem Exclusive.step {s' : State τ} (h : Exclusive s) (hs : Step s s') : Exclusive s' := by
  cases hs with
  | enterAcquire ht => exact h.setPc (by simp [ht]) (by simp)
  | enterTry ht => exact h.casAcquire (by simp [ht]) (by simp)
  | @exec t _ => exact h.exec t

/-- **No lost wake-up, one step.**  After any step the word is held, a token is
left, or the thread that moved is between two steps of the mutex's code. -/
theorem Exclusive.busy_exec (h : Exclusive s) (ht : Enabled s t) :
    (s.exec t).lock = 1 ∨ 0 < (s.exec t).sem ∨ ((s.exec t).pc t).running = true := by
  unfold State.exec
  split
  · exact absurd ‹s.pc t = .idle› ht.1
  · unfold HybridMutex.casAcquire
    split_ifs with hlock
    · exact Or.inl rfl
    · exact Or.inl (by simpa [hlock] using h.lock_cases)
  · simp [Pc.running]
  · rename_i hpc
    split_ifs with hlock
    · simp [Pc.running]
    · exact absurd (h.lock_eq_one.mpr ⟨t, hpc⟩) hlock
  · split_ifs with hsem
    · exact Or.inr (Or.inl hsem)
    · simp [Pc.running]
  · simp

theorem Step.not_stuck {s' : State τ} (hs : Step s s') (h : Exclusive s) : ¬ Stuck s' := by
  rintro ⟨hlock, hsem, hrun, -⟩
  cases hs with
  | @enterAcquire t _ =>
    have := hrun t
    simp [callAcquire, Pc.running] at this
  | @enterTry t _ =>
    unfold callTry HybridMutex.casAcquire at hlock
    split_ifs at hlock with hfree
    · simp at hlock
    · exact hfree hlock
  | @exec t ht =>
    rcases h.busy_exec ht with h1 | h1 | h1
    · omega
    · omega
    · rw [hrun t] at h1
      exact Bool.false_ne_true h1

theorem Inv.step {s' : State τ} (h : Inv s) (hs : Step s s') : Inv s' :=
  { toExclusive := h.toExclusive.step hs
    not_stuck := hs.not_stuck h.toExclusive }

omit [DecidableEq τ] in
theorem inv_init : Inv (State.init : State τ) where
  lock_cases := Or.inl rfl
  lock_eq_one := ⟨fun h => by simp [State.init] at h, fun ⟨_, h⟩ => Pc.noConfusion h⟩
  holder_unique _ _ h := Pc.noConfusion h
  not_stuck := fun ⟨_, _, _, _, h⟩ => Pc.noConfusion h

theorem reachable_inv {s : State τ} (hs : Reachable s) : Inv s := by
  induction hs with
  | refl => exact inv_init
  | tail _ hstep ih => exact ih.step hstep

end Invariant

/-! ## Where a step can take a thread -/

section Moves

variable {s s' : State τ} {u : τ}

/-- With the word free, a thread at `Acquire`'s loop head stays there until
it takes the mutex. -/
theorem Step.pc_of_acquire_free (hs : Step s s') (hlock : s.lock = 0) {cnt : Nat}
    (hpc : s.pc u = .acquire cnt) : s'.pc u = .acquire cnt ∨ s'.pc u = .holding := by
  by_cases hsame : s'.pc u = s.pc u
  · exact Or.inl (hsame.trans hpc)
  rcases hs.of_pc_ne hsame with ⟨hidle, -⟩ | ⟨-, rfl⟩
  · rw [hpc] at hidle
    cases hidle
  · right
    rw [exec_pc_self, hpc]
    simp [hlock]

/-- A thread inside `Acquire` leaves it only by taking the mutex. -/
theorem Step.inAcquire_or_holding (hs : Step s s') (hin : (s.pc u).inAcquire = true) :
    (s'.pc u).inAcquire = true ∨ s'.pc u = .holding := by
  by_cases hsame : s'.pc u = s.pc u
  · rw [hsame]
    exact Or.inl hin
  rcases hs.of_pc_ne hsame with ⟨hidle, -⟩ | ⟨-, rfl⟩
  · rw [hidle] at hin
    cases hin
  · -- only the loop head and `sem_wait` are inside `Acquire`
    rw [exec_pc_self]
    cases hp : s.pc u with
    | acquire cnt =>
      dsimp only
      split_ifs
      · exact Or.inr rfl
      · exact Or.inl (spin_inAcquire _)
    | waitSemaphore => exact Or.inl rfl
    | _ => simp [hp, Pc.inAcquire] at hin

/-- How far a releasing thread is from the end of `os::PostSemaphore`. -/
def releaseRank : Pc → Nat
  | .getValue => 2
  | .post => 1
  | _ => 0

theorem releaseRank_spin (cnt : Nat) : releaseRank (spin cnt) = 0 := by
  rw [spin_eq]
  split <;> rfl

/-- Away from a holder's `Release`, no step moves a thread back into
`os::PostSemaphore`. -/
theorem Step.releaseRank_le (hs : Step s s') (hpc : s.pc u ≠ .holding) :
    releaseRank (s'.pc u) ≤ releaseRank (s.pc u) := by
  by_cases hsame : s'.pc u = s.pc u
  · rw [hsame]
  rcases hs.of_pc_ne hsame with ⟨-, rfl | rfl⟩ | ⟨-, rfl⟩
  · simp [callAcquire, releaseRank]
  · rw [callTry, casAcquire_pc_self]
    split_ifs <;> simp [releaseRank]
  · rw [exec_pc_self]
    cases hp : s.pc u with
    | holding => exact absurd hp hpc
    | acquire cnt =>
      dsimp only
      split_ifs
      · simp [releaseRank]
      · rw [releaseRank_spin]
        exact Nat.zero_le _
    | getValue =>
      dsimp only
      split_ifs <;> simp [releaseRank]
    | _ => simp [releaseRank]

/-- A releasing thread that moves gets nearer the end. -/
theorem Step.releaseRank_lt (hs : Step s s') (hpos : 0 < releaseRank (s.pc u))
    (hmove : s'.pc u ≠ s.pc u) : releaseRank (s'.pc u) < releaseRank (s.pc u) := by
  rcases hs.of_pc_ne hmove with ⟨hidle, -⟩ | ⟨-, rfl⟩
  · simp [hidle, releaseRank] at hpos
  · rw [exec_pc_self]
    cases hp : s.pc u with
    | getValue =>
      dsimp only
      split_ifs <;> simp [releaseRank]
    | post => simp [releaseRank]
    | _ => simp [hp, releaseRank] at hpos

theorem running_eq_false {p : Pc} (hacq : ∀ cnt, p ≠ .acquire cnt) (hrank : releaseRank p = 0) :
    p.running = false := by
  cases p with
  | acquire cnt => exact absurd rfl (hacq cnt)
  | getValue => simp [releaseRank] at hrank
  | post => simp [releaseRank] at hrank
  | _ => rfl

end Moves

/-! ## Deadlock freedom -/

section Liveness

/-- Some thread takes the mutex between times `j` and `j + 1`. -/
def Acquires (r : Run (Step (τ := τ))) (j : Nat) : Prop :=
  ∃ u, (r.state j).pc u ≠ .holding ∧ (r.state (j + 1)).pc u = .holding

/-- Each thread's next step is weakly fair.  For a holder this is the
assumption that it eventually releases; a thread blocked on a zero semaphore
is not enabled. -/
def Fair (r : Run (Step (τ := τ))) : Prop :=
  ∀ t, r.WeakFair (fun s => Enabled s t) (fun a b => a.pc t ≠ b.pc t)

variable {r : Run (Step (τ := τ))}

theorem reachable_state (hstart : Reachable (r.state 0)) (j : Nat) : Reachable (r.state j) :=
  hstart.trans (r.reachable j)

/-- A fair run moves a thread off a place where it can always move. -/
theorem Fair.leaves (hfair : Fair r) {t : τ} {p : Pc} (hen : ∀ s : State τ, s.pc t = p → Enabled s t)
    (k : Nat) : ∃ j ≥ k, (r.state j).pc t ≠ p :=
  (hfair t).exists_not (P := fun s => s.pc t = p) hen
    fun _ _ hnow hnext hmove => hmove (hnow.trans hnext.symm)

/-- With no holder from `k₁` on, the word stays free. -/
theorem lock_free (hstart : Reachable (r.state 0)) {k₁ : Nat}
    (hfree : ∀ j ≥ k₁, ∀ u, (r.state j).pc u ≠ .holding) : ∀ j ≥ k₁, (r.state j).lock = 0 := by
  intro j hj
  have hinv := reachable_inv (reachable_state hstart j)
  rcases hinv.lock_cases with h | h
  · exact h
  · obtain ⟨u, hu⟩ := hinv.lock_eq_one.mp h
    exact absurd hu (hfree j hj u)

/-- With the word free for good, no thread waits at `Acquire`'s loop head: it
would take the mutex. -/
theorem not_acquire_of_free (hfair : Fair r) {k₁ : Nat}
    (hfree : ∀ j ≥ k₁, ∀ u, (r.state j).pc u ≠ .holding)
    (hlock : ∀ j ≥ k₁, (r.state j).lock = 0) :
    ∀ j ≥ k₁, ∀ u cnt, (r.state j).pc u ≠ .acquire cnt := by
  intro j hj u cnt hpc
  have hstay : ∀ i ≥ j, (r.state i).pc u = .acquire cnt := by
    intro i hi
    induction i, hi using Nat.le_induction with
    | base => exact hpc
    | succ i hi ih =>
      rcases r.next i with heq | hs
      · rw [heq]
        exact ih
      · rcases hs.pc_of_acquire_free (hlock i (by omega)) ih with h | h
        · exact h
        · exact absurd h (hfree (i + 1) (by omega) u)
  obtain ⟨i, hi, hleft⟩ := hfair.leaves (t := u) (p := .acquire cnt)
    (fun s hs => ⟨by simp [hs], by simp [hs]⟩) j
  exact hleft (hstay i hi)

/-- With no holder from `k₁` on, each thread finishes `os::PostSemaphore`. -/
theorem releaseRank_eventually_zero (hfair : Fair r) {k₁ : Nat}
    (hfree : ∀ j ≥ k₁, ∀ u, (r.state j).pc u ≠ .holding) (u : τ) :
    ∃ m ≥ k₁, ∀ j ≥ m, releaseRank ((r.state j).pc u) = 0 := by
  apply @Run.WeakFair.eventually_rank_zero _ _ r _ _ (hfair u) (fun s => releaseRank (s.pc u))
  · intro s hpos
    constructor <;> intro h <;> simp [h, releaseRank] at hpos
  · intro j hj
    rcases r.next j with heq | hs
    · rw [heq]
    · exact hs.releaseRank_le (hfree j hj u)
  · intro j _ hpos hmove
    rcases r.next j with heq | hs
    · exact absurd (congrArg (fun s => s.pc u) heq).symm hmove
    · exact hs.releaseRank_lt hpos (Ne.symm hmove)

section NoAcquire

variable {k : Nat} (H : ∀ j ≥ k, ¬ Acquires r j)
include H

theorem not_holding_of_no_acquire {u : τ} {j : Nat} (hj : k ≤ j) (hu : (r.state j).pc u ≠ .holding) :
    ∀ i ≥ j, (r.state i).pc u ≠ .holding := by
  intro i hi
  induction i, hi using Nat.le_induction with
  | base => exact hu
  | succ i hi ih => exact fun hhold => H i (by omega) ⟨u, ih, hhold⟩

theorem inAcquire_of_no_acquire {t : τ} (ht : ((r.state k).pc t).inAcquire = true) :
    ∀ i ≥ k, ((r.state i).pc t).inAcquire = true := by
  intro i hi
  induction i, hi using Nat.le_induction with
  | base => exact ht
  | succ i hi ih =>
    rcases r.next i with heq | hs
    · rw [heq]
      exact ih
    · rcases hs.inAcquire_or_holding ih with h | h
      · exact h
      · have hnot : (r.state i).pc t ≠ .holding := fun hh => by simp [hh, Pc.inAcquire] at ih
        exact absurd ⟨t, hnot, h⟩ (H i hi)

/-- The holder at `k`, if any, releases, and nobody holds the mutex again. -/
theorem exists_free_of_no_acquire (hstart : Reachable (r.state 0)) (hfair : Fair r) :
    ∃ k₁ ≥ k, ∀ j ≥ k₁, ∀ u, (r.state j).pc u ≠ .holding := by
  by_cases hheld : ∃ h, (r.state k).pc h = .holding
  · obtain ⟨h, hh⟩ := hheld
    obtain ⟨j, hj, hleft⟩ := hfair.leaves (t := h) (p := .holding)
      (fun s hs => ⟨by simp [hs], by simp [hs]⟩) k
    refine ⟨j, hj, fun i hi u => ?_⟩
    by_cases hu : u = h
    · subst hu
      exact not_holding_of_no_acquire H hj hleft i hi
    · have hk : (r.state k).pc u ≠ .holding := fun hu' =>
        hu ((reachable_inv (reachable_state hstart k)).holder_unique u h hu' hh)
      exact not_holding_of_no_acquire H (Nat.le_refl k) hk i (by omega)
  · push Not at hheld
    exact ⟨k, Nat.le_refl k, fun i hi u => not_holding_of_no_acquire H (Nat.le_refl k) (hheld u) i hi⟩

end NoAcquire

/-- **Deadlock freedom.**  Along a fair run from a reachable state, a thread
inside `Acquire` at time `k` is followed by some thread taking the mutex. -/
theorem acquires_of_inAcquire [Finite τ] (hstart : Reachable (r.state 0)) (hfair : Fair r)
    {k : Nat} {t : τ} (ht : ((r.state k).pc t).inAcquire = true) : ∃ j ≥ k, Acquires r j := by
  by_contra H
  push Not at H
  obtain ⟨k₁, hk₁, hfree⟩ := exists_free_of_no_acquire H hstart hfair
  have hlock := lock_free hstart hfree
  have hnoacq := not_acquire_of_free hfair hfree hlock
  -- the finitely many threads in `os::PostSemaphore` all finish
  obtain ⟨m, hm⟩ : ∃ m, ∀ j ≥ m, ∀ u, releaseRank ((r.state j).pc u) = 0 := by
    have hall := Filter.eventually_all.mpr fun u => Filter.eventually_atTop.mpr
      (by obtain ⟨m, -, h⟩ := releaseRank_eventually_zero hfair hfree u; exact ⟨m, h⟩)
    exact Filter.eventually_atTop.mp hall
  -- `t` sleeps in `sem_wait` from `k₁` on
  have hwait : ∀ j ≥ k₁, (r.state j).pc t = .waitSemaphore := by
    intro j hj
    have hin := inAcquire_of_no_acquire H ht j (by omega)
    cases hp : (r.state j).pc t with
    | acquire cnt => exact absurd hp (hnoacq j hj t cnt)
    | waitSemaphore => rfl
    | _ => simp [hp, Pc.inAcquire] at hin
  -- so fairness leaves it at some time with no token: a stuck state
  obtain ⟨j, hj, hnot⟩ := (hfair t).exists_not (P := fun s => s.pc t = .waitSemaphore ∧ 0 < s.sem)
    (fun s hs => ⟨by simp [hs.1], fun _ => hs.2⟩) (k := max k₁ m)
    (fun _ _ hnow hnext hmove => hmove (hnow.1.trans hnext.1.symm))
  have hsem : (r.state j).sem = 0 := by
    simp only [hwait j (by omega), true_and, not_lt] at hnot
    omega
  apply (reachable_inv (reachable_state hstart j)).not_stuck
  exact ⟨hlock j (by omega), hsem,
    fun u => running_eq_false (hnoacq j (by omega) u) (hm j (by omega) u), t, hwait j (by omega)⟩

end Liveness

theorem hybridMutex_exclusive_deadlock_free [Finite τ] :
    (∀ s : State τ, Reachable s → ∀ t u, s.pc t = .holding → s.pc u = .holding → t = u) ∧
    (∀ s : State τ, Reachable s → ¬ Stuck s) ∧
    (∀ r : Run (Step (τ := τ)), Reachable (r.state 0) → Fair r →
      ∀ k t, ((r.state k).pc t).inAcquire = true → ∃ j ≥ k, Acquires r j) :=
  ⟨fun _ hs => (reachable_inv hs).holder_unique, fun _ hs => (reachable_inv hs).not_stuck,
    fun _ hstart hfair _ _ ht => acquires_of_inAcquire hstart hfair ht⟩

/-- Thread `0` of two calls `Acquire`, takes the mutex, releases it and posts;
then nothing moves. -/
def acquireReleaseState : Nat → State (Fin 2)
  | 0 => State.init
  | 1 => callAcquire State.init 0
  | n + 2 => (acquireReleaseState (n + 1)).exec 0

theorem acquireReleaseState_add_five (n : Nat) : acquireReleaseState (n + 5) = acquireReleaseState 5 := by
  induction n with
  | zero => rfl
  | succ n ih =>
    show (acquireReleaseState (n + 5)).exec 0 = acquireReleaseState 5
    rw [ih]
    exact exec_of_idle (s := acquireReleaseState 5) (t := 0) (by decide)

def acquireReleaseRun : Run (Step (τ := Fin 2)) where
  state := acquireReleaseState
  next k := by
    match k with
    | 0 => exact Or.inr (.enterAcquire (by decide))
    | 1 => exact Or.inr (.exec (by decide))
    | 2 => exact Or.inr (.exec (by decide))
    | 3 => exact Or.inr (.exec (by decide))
    | 4 => exact Or.inr (.exec (by decide))
    | n + 5 =>
      left
      show acquireReleaseState (n + 1 + 5) = acquireReleaseState (n + 5)
      rw [acquireReleaseState_add_five (n + 1), acquireReleaseState_add_five n]

/-- From time `5` on no thread is in the mutex's code, so no step is enabled
for good and the run is fair. -/
theorem acquireReleaseRun_fair : Fair acquireReleaseRun := by
  intro t k hen
  have hidle : ∀ u, ¬ Enabled (acquireReleaseState 5) u := by decide
  have h := hen (k + 5) (by omega)
  change Enabled (acquireReleaseState (k + 5)) t at h
  rw [acquireReleaseState_add_five] at h
  exact absurd h (hidle t)

/-- A move of a schedule of two threads: `t` calls `Acquire`, or takes its
next step. -/
inductive Move where
  | enter (t : Fin 2)
  | exec (t : Fin 2)

def Move.apply (s : State (Fin 2)) : Move → State (Fin 2)
  | .enter t => callAcquire s t
  | .exec t => s.exec t

/-- Whether the move is a step from `s`. -/
def Move.ok (s : State (Fin 2)) : Move → Bool
  | .enter t => s.pc t == .idle
  | .exec t => decide (Enabled s t)

theorem Move.step {s : State (Fin 2)} {m : Move} (h : m.ok s = true) : Step s (m.apply s) := by
  cases m with
  | enter t => exact .enterAcquire (by simpa [Move.ok] using h)
  | exec t => exact .exec (by simpa [Move.ok] using h)

/-- Thread `0` takes the mutex; thread `1` calls `Acquire`, fails its 55
attempts and sleeps in `sem_wait`; thread `0` releases, finds no token and
posts; thread `1` wakes, takes the mutex, releases it and posts. -/
def contendedMoves : List Move :=
  [.enter 0, .exec 0, .enter 1] ++ List.replicate 55 (.exec 1) ++
    [.exec 0, .exec 0, .exec 0, .exec 1, .exec 1, .exec 1, .exec 1, .exec 1]

/-- The state after the first `n` moves of the schedule. -/
def contendedState : Nat → State (Fin 2)
  | 0 => State.init
  | n + 1 =>
    match contendedMoves[n]? with
    | some m => m.apply (contendedState n)
    | none => contendedState n

theorem contendedMoves_ok (k : Nat) (m : Move) (hm : contendedMoves[k]? = some m) :
    m.ok (contendedState k) = true := by
  have hk : k < 66 := by
    by_contra h
    rw [List.getElem?_eq_none (by simp [contendedMoves]; omega)] at hm
    cases hm
  have hall : ∀ k : Fin 66, (contendedMoves[k.val]?).all (·.ok (contendedState k.val)) = true := by
    decide +kernel
  simpa [hm] using hall ⟨k, hk⟩

theorem contendedState_add (n : Nat) : contendedState (n + 66) = contendedState 66 := by
  induction n with
  | zero => rfl
  | succ n ih =>
    rw [Nat.add_right_comm, contendedState, List.getElem?_eq_none (by simp [contendedMoves])]
    exact ih

def contendedRun : Run (Step (τ := Fin 2)) where
  state := contendedState
  next k := by
    show contendedState (k + 1) = contendedState k ∨ Step (contendedState k) (contendedState (k + 1))
    rw [contendedState]
    cases hm : contendedMoves[k]? with
    | none => exact Or.inl rfl
    | some m => exact Or.inr (Move.step (contendedMoves_ok k m hm))

/-- After the schedule both threads are outside the mutex, so the run is
fair. -/
theorem contendedRun_fair : Fair contendedRun := by
  intro t k hen
  have hidle : ∀ u, ¬ Enabled (contendedState 66) u := by decide +kernel
  have h := hen (k + 66) (by omega)
  change Enabled (contendedState (k + 66)) t at h
  rw [contendedState_add] at h
  exact absurd h (hidle t)

theorem hybridMutex_exclusive_deadlock_free_two_threads :
    (∃ j ≥ 1, Acquires acquireReleaseRun j) ∧
      (contendedRun.state 58).pc 1 = .waitSemaphore ∧ (contendedRun.state 58).lock = 1 ∧
      ∃ j ≥ 58, Acquires contendedRun j :=
  ⟨(hybridMutex_exclusive_deadlock_free (τ := Fin 2)).2.2 acquireReleaseRun
      Relation.ReflTransGen.refl acquireReleaseRun_fair 1 0 (by decide),
    by decide +kernel, by decide +kernel,
    (hybridMutex_exclusive_deadlock_free (τ := Fin 2)).2.2 contendedRun
      Relation.ReflTransGen.refl contendedRun_fair 58 1 (by decide +kernel)⟩

end HybridMutex
