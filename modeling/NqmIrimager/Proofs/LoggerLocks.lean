import Mathlib.Logic.Relation
import NqmIrimager.Lib.StepRun
import NqmIrimager.LoggerThreads

/-!
# `NqmIrimager.Proofs.LoggerLocks`: the GIL, the mutex and the reader thread

`Locked` says who holds what: the holder of the GIL or of `singleton_mutex_` is the thread
whose place says so, and a thread waits for the mutex without the GIL only. Each step of
the code meets one condition, `Moved.order`: a place with the mutex is reached from one
without it through a `scoped_lock` only, where the GIL has been given up. `Locked.enter`
turns this into the invariant.

`WaitsFor` is the wait-for graph of a state. Along its edges `waitRank` drops: a thread
that waits for the mutex waits for one that has it and so waits for the GIL or a reader at
most, a thread that waits for a reader has a reader in front of it that waits for the GIL
at most, and who holds the GIL does not wait. So there is no cycle.
-/

set_option autoImplicit false

namespace NqmIrimager

open StepRun

/-- A `scoped_lock` of `singleton_mutex_` leads there. -/
def Place.locks : Place → Bool
  | ctorTest _ | dtorLocked _ => true
  | _ => false

/-- The thread holds the GIL. -/
def Thread.gil : Thread → Bool
  | running p => p.gil
  | wantsGil _ => false
  | wantsMutex _ => false

/-- The thread holds `singleton_mutex_`. -/
def Thread.mutex : Thread → Bool
  | running p => p.mutex
  | wantsGil p => p.mutex
  | wantsMutex _ => false

/-- A thread waits for the GIL where it needs it, and for the mutex at a `scoped_lock`. -/
def Thread.Orderly : Thread → Prop
  | running _ => True
  | wantsGil p => p.gil = true
  | wantsMutex p => p.locks = true

/-- A `scoped_lock` is a place that holds the mutex. -/
theorem Place.mutex_of_locks {p : Place} (h : p.locks = true) : p.mutex = true := by
  cases p <;> first | rfl | cases h

/-- The guards before a `scoped_lock` have given the GIL up. -/
theorem Place.gil_of_locks {p : Place} (h : p.locks = true) : p.gil = false := by
  cases p <;> first | rfl | cases h

namespace LoggerThreads

/-- Who holds what. -/
structure Locked (s : LoggerThreads) : Prop where
  gilPython : ∀ t, s.gil = some (.python t) ↔ (s.threads t).gil = true
  gilReader : ∀ i, s.gil = some (.reader i) ↔ (s.readers i).pc = .message
  mutex : ∀ t, s.singletonMutex_ = some t ↔ (s.threads t).mutex = true
  orderly : ∀ t, (s.threads t).Orderly

/-- The reader of an `impl` that is not made yet, or is about to start its reader, has not
started. -/
structure Unstarted (s : LoggerThreads) : Prop where
  fresh : ∀ i, s.nextImpl ≤ i → (s.readers i).pc = .notStarted
  next : ∀ t target i, (s.threads t).place = .implCtor target i →
    i < s.nextImpl ∧ (s.readers i).pc = .notStarted

/-- At the start nobody holds or waits for anything. -/
theorem locked_initial : Locked initial where
  gilPython := fun t => by simp [initial, Thread.gil, Place.gil]
  gilReader := fun i => by simp [initial]
  mutex := fun t => by simp [initial, Thread.mutex, Place.mutex]
  orderly := fun _ => trivial

/-- At the start no reader thread is there. -/
theorem unstarted_initial : Unstarted initial where
  fresh := fun _ _ => rfl
  next := fun _ _ _ h => by simp [initial, Thread.place] at h

/-! ### Moving a thread -/

section
variable {s : LoggerThreads} {t t' : Nat} {p q : Place}

/-- The thread that is set. -/
@[simp] theorem setThread_self (th : Thread) : (s.setThread t th).threads t = th :=
  Function.update_self ..

/-- The other threads stay. -/
theorem setThread_ne (th : Thread) (h : t' ≠ t) : (s.setThread t th).threads t' = s.threads t' :=
  Function.update_of_ne h ..

/-- The reader that is set. -/
@[simp] theorem setReader_self (i : ImplId) (r : Reader) : (s.setReader i r).readers i = r :=
  Function.update_self ..

/-- The other readers stay. -/
theorem setReader_ne {i j : ImplId} (r : Reader) (h : j ≠ i) :
    (s.setReader i r).readers j = s.readers j :=
  Function.update_of_ne h ..

/-- A lock that is given up under the condition `c` if `x` has it. -/
theorem released_eq {α : Type} [DecidableEq α] {lock : Option α} {x y : α} {c : Prop}
    [Decidable c] :
    (if c ∧ lock = some x then none else lock) = some y ↔ lock = some y ∧ (¬ c ∨ y ≠ x) := by
  split
  case isTrue h => simp [h.1, h.2, eq_comm]
  case isFalse h =>
    constructor
    · intro hy
      refine ⟨hy, ?_⟩
      by_cases hc : c
      · right
        rintro rfl
        exact h ⟨hc, hy⟩
      · exact .inl hc
    · exact And.left

/-- `enter` gives the GIL up, if the thread has it and the place does not need it. -/
theorem enter_gil_eq {x : Party} :
    (s.enter t q).gil = some x ↔ s.gil = some x ∧ (q.gil = true ∨ x ≠ .python t) := by
  simp only [enter, release, setThread, released_eq, Bool.not_eq_false]

/-- `enter` unlocks the mutex, if the thread has it and the place does not need it. -/
theorem enter_mutex_eq :
    (s.enter t q).singletonMutex_ = some t' ↔
      s.singletonMutex_ = some t' ∧ (q.mutex = true ∨ t' ≠ t) := by
  simp only [enter, release, setThread, released_eq, Bool.not_eq_false]

/-- `enter` moves one thread. -/
theorem enter_ne (h : t' ≠ t) : (s.enter t q).threads t' = s.threads t' :=
  setThread_ne _ h

/-- Whatever it has to wait for, the thread is at the place it enters. -/
@[simp] theorem enter_place : ((s.enter t q).threads t).place = q := by
  rw [enter, setThread_self]
  split
  · rfl
  · split <;> rfl

/-- `enter` is about locks: the readers stay. -/
@[simp] theorem enter_readers : (s.enter t q).readers = s.readers := rfl

/-- No `impl` is made by it. -/
@[simp] theorem enter_nextImpl : (s.enter t q).nextImpl = s.nextImpl := rfl

/-- None is destroyed by it. -/
@[simp] theorem enter_impls : (s.enter t q).impls = s.impls := rfl

/-- `singleton_` stays. -/
@[simp] theorem enter_singleton : (s.enter t q).singleton_ = s.singleton_ := rfl

/-- One thread changes what it does. The locks are in order again when what the thread
holds then is what the locks say, and the other holders have not changed. -/
theorem Locked.move {s' : LoggerThreads} {th : Thread} (hs : s.Locked)
    (hthreads : s'.threads = Function.update s.threads t th)
    (hreaders : ∀ i, (s'.readers i).pc = .message ↔ (s.readers i).pc = .message)
    (hgil : ∀ x, x ≠ .python t → (s'.gil = some x ↔ s.gil = some x))
    (hgilSelf : s'.gil = some (.python t) ↔ th.gil = true)
    (hmutex : ∀ u, u ≠ t → (s'.singletonMutex_ = some u ↔ s.singletonMutex_ = some u))
    (hmutexSelf : s'.singletonMutex_ = some t ↔ th.mutex = true) (hth : th.Orderly) :
    s'.Locked where
  gilPython := by
    intro u
    rw [hthreads]
    by_cases hu : u = t
    · subst hu
      rwa [Function.update_self]
    · rw [Function.update_of_ne hu, ← hs.gilPython u]
      exact hgil _ (by simpa using hu)
  gilReader := by
    intro i
    rw [hreaders, ← hs.gilReader i]
    exact hgil _ (by simp)
  mutex := by
    intro u
    rw [hthreads]
    by_cases hu : u = t
    · subst hu
      rwa [Function.update_self]
    · rw [Function.update_of_ne hu, ← hs.mutex u]
      exact hmutex u hu
  orderly := by
    intro u
    rw [hthreads]
    by_cases hu : u = t
    · subst hu
      rwa [Function.update_self]
    · rw [Function.update_of_ne hu]
      exact hs.orderly u

/-- The same for a reader thread, which does not touch the mutex. -/
theorem Locked.moveReader {s' : LoggerThreads} {i : ImplId} {r : Reader} (hs : s.Locked)
    (hthreads : s'.threads = s.threads) (hmutex : s'.singletonMutex_ = s.singletonMutex_)
    (hreaders : s'.readers = Function.update s.readers i r)
    (hgil : ∀ x, x ≠ .reader i → (s'.gil = some x ↔ s.gil = some x))
    (hgilSelf : s'.gil = some (.reader i) ↔ r.pc = .message) : s'.Locked where
  gilPython := by
    intro u
    rw [hthreads, ← hs.gilPython u]
    exact hgil _ (by simp)
  gilReader := by
    intro j
    rw [hreaders]
    by_cases hj : j = i
    · subst hj
      rwa [Function.update_self]
    · rw [Function.update_of_ne hj, ← hs.gilReader j]
      exact hgil _ (by simpa using hj)
  mutex := by
    intro u
    rw [hmutex, hthreads]
    exact hs.mutex u
  orderly := by
    rw [hthreads]
    exact hs.orderly

/-- `enter` gives up what the place does not need, so it is left to say what the thread does
then. -/
theorem Locked.enterAs (hs : s.Locked) (th : Thread)
    (hthreads : (s.enter t q).threads = Function.update s.threads t th)
    (hgil : s.gil = some (.python t) ∧ q.gil = true ↔ th.gil = true)
    (hmutex : s.singletonMutex_ = some t ∧ q.mutex = true ↔ th.mutex = true)
    (hth : th.Orderly) : (s.enter t q).Locked := by
  apply hs.move hthreads (fun _ => Iff.rfl) _ _ _ _ hth
  · intro x hx
    rw [enter_gil_eq]
    simp [hx]
  · rw [enter_gil_eq, ← hgil]
    simp
  · intro u hu
    rw [enter_mutex_eq]
    simp [hu]
  · rw [enter_mutex_eq, ← hmutex]
    simp

/-- A thread that gets the mutex at a `scoped_lock` only keeps the locks in order. -/
theorem Locked.enter (hs : s.Locked) (hp : s.threads t = .running p)
    (horder : q.mutex = true → p.mutex = false → q.locks = true) : (s.enter t q).Locked := by
  by_cases hm : q.mutex = true ∧ s.singletonMutex_ ≠ some t
  · -- It waits for the mutex, and has given up the GIL.
    have hpm : p.mutex = false := by
      have := (hs.mutex t).not.mp hm.2
      simpa [hp, Thread.mutex] using this
    have hq : q.locks = true := horder hm.1 hpm
    apply hs.enterAs (.wantsMutex q)
    · rw [LoggerThreads.enter, if_pos hm]
      rfl
    · simp [Thread.gil, Place.gil_of_locks hq]
    · simp [Thread.mutex, hm.2]
    · exact hq
  have hmutex : s.singletonMutex_ = some t ∧ q.mutex = true ↔ q.mutex = true := by
    tauto
  by_cases hg : q.gil = true ∧ s.gil ≠ some (.python t)
  · -- It waits for the GIL.
    apply hs.enterAs (.wantsGil q)
    · rw [LoggerThreads.enter, if_neg hm, if_pos hg]
      rfl
    · simp [Thread.gil, hg.2]
    · exact hmutex
    · exact hg.1
  · -- It has all it needs.
    apply hs.enterAs (.running q)
    · rw [LoggerThreads.enter, if_neg hm, if_neg hg]
      rfl
    · simp only [Thread.gil]
      tauto
    · exact hmutex
    · trivial

end

/-! ### What a step can be -/

/-- All that a step can be, and what was so before it. -/
inductive Steps (s : LoggerThreads) : Label → LoggerThreads → Prop where
  | acquireGil {t : Nat} {p : Place} (hp : s.threads t = .wantsGil p) (hfree : s.gil = none) :
      Steps s (.acquireGil t) ({ s with gil := some (.python t) }.setThread t (.running p))
  | lockMutex {t : Nat} {p : Place} (hp : s.threads t = .wantsMutex p)
      (hfree : s.singletonMutex_ = none) :
      Steps s (.lockMutex t) ({ s with singletonMutex_ := some t }.setThread t (.running p))
  | preempt {t : Nat} {p : Place} (hp : s.threads t = .running p) (hgil : p.gil = true) :
      Steps s (.preempt t) ({ s with gil := none }.setThread t (.wantsGil p))
  | act {t : Nat} {p : Place} {call : Call} {next : LoggerThreads × Place}
      (hp : s.threads t = .running p) (hcall : s.perform t p call = some next) :
      Steps s (.act t call) (next.1.enter t next.2)
  | readerMessage {i : ImplId} (hpc : (s.readers i).pc = .running) :
      Steps s (.readerMessage i) (s.setReader i { s.readers i with pc := .wantsGil })
  | readerAcquires {i : ImplId} (hpc : (s.readers i).pc = .wantsGil) (hfree : s.gil = none) :
      Steps s (.readerAcquires i)
        ({ s with gil := some (.reader i) }.setReader i { s.readers i with pc := .message })
  | readerPreempt {i : ImplId} (hpc : (s.readers i).pc = .message) :
      Steps s (.readerPreempt i)
        ({ s with gil := none }.setReader i { s.readers i with pc := .wantsGil })
  | readerReturns {i : ImplId} (hpc : (s.readers i).pc = .message) :
      Steps s (.readerReturns i)
        ({ s with gil := none }.setReader i { s.readers i with pc := .running })
  | readerEnds {i : ImplId} {threw : Bool} (hpc : (s.readers i).pc = .running)
      (hstop : (s.readers i).stop_ = true ∨ threw = true) :
      Steps s (.readerEnds i threw) (s.setReader i { s.readers i with pc := .ended })

/-- Every step is one of these. -/
theorem steps_of_step {s s' : LoggerThreads} {l : Label} (h : s.step l = some s') :
    s.Steps l s' := by
  cases l with
  | acquireGil t =>
      simp only [step] at h
      split at h
      · split at h
        · cases h
          exact .acquireGil ‹_› ‹_›
        · cases h
      · cases h
  | lockMutex t =>
      simp only [step] at h
      split at h
      · split at h
        · cases h
          exact .lockMutex ‹_› ‹_›
        · cases h
      · cases h
  | preempt t =>
      simp only [step] at h
      split at h
      · split at h
        · cases h
          exact .preempt ‹_› ‹_›
        · cases h
      · cases h
  | act t call =>
      simp only [step] at h
      split at h
      · obtain ⟨next, hnext, rfl⟩ := Option.map_eq_some_iff.mp h
        exact .act ‹_› hnext
      · cases h
  | readerMessage i =>
      obtain ⟨hpc, h⟩ := Option.ite_none_right_eq_some.mp h
      cases h
      exact .readerMessage hpc
  | readerAcquires i =>
      obtain ⟨hpc, h⟩ := Option.ite_none_right_eq_some.mp h
      cases h
      exact .readerAcquires hpc.1 hpc.2
  | readerPreempt i =>
      obtain ⟨hpc, h⟩ := Option.ite_none_right_eq_some.mp h
      cases h
      exact .readerPreempt hpc
  | readerReturns i =>
      obtain ⟨hpc, h⟩ := Option.ite_none_right_eq_some.mp h
      cases h
      exact .readerReturns hpc
  | readerEnds i threw =>
      obtain ⟨hpc, h⟩ := Option.ite_none_right_eq_some.mp h
      cases h
      exact .readerEnds hpc.1 hpc.2

/-! ### What a move does -/

/-- What a thread's move from the place `p` to `q` leaves alone, and when it starts a
reader. -/
structure Moved (s : LoggerThreads) (p : Place) (s' : LoggerThreads) (q : Place) : Prop where
  gil : s'.gil = s.gil
  mutex : s'.singletonMutex_ = s.singletonMutex_
  threads : s'.threads = s.threads
  order : q.mutex = true → p.mutex = false → q.locks = true
  nextImpl : s.nextImpl ≤ s'.nextImpl
  readers : ∀ i, (s'.readers i).pc = (s.readers i).pc ∨
    ∃ target, p = .implCtor target i ∧ (s'.readers i).pc = .running
  implCtor : ∀ target i, q = .implCtor target i → i = s.nextImpl ∧ s'.nextImpl = s.nextImpl + 1

section
variable {s s' : LoggerThreads} {t : Nat} {p q : Place}

/-- A move that changes neither the locks nor the threads and readers. -/
theorem Moved.of_eq (hgil : s'.gil = s.gil) (hmutex : s'.singletonMutex_ = s.singletonMutex_)
    (hthreads : s'.threads = s.threads) (hreaders : s'.readers = s.readers)
    (hnext : s'.nextImpl = s.nextImpl) (horder : q.mutex = true → p.mutex = false → q.locks = true)
    (hq : ∀ target i, q ≠ .implCtor target i) : Moved s p s' q where
  gil := hgil
  mutex := hmutex
  threads := hthreads
  order := horder
  nextImpl := Nat.le_of_eq hnext.symm
  readers := fun i => .inl (by rw [hreaders])
  implCtor := fun target i h => absurd h (hq target i)

/-- `stop_ = true` does not move the reader. -/
theorem setReader_stop_pc (i j : ImplId) :
    ((s.setReader i { s.readers i with stop_ := true }).readers j).pc = (s.readers j).pc := by
  by_cases h : j = i
  · subst h
    rw [setReader_self]
  · rw [setReader_ne _ h]

/-- `start()` assigns the new `Logger` with the GIL held, and takes no lock. -/
theorem assign_moved {target : Target} {i : ImplId} (hp : p = .ctorExit target (.ok i))
    (h : s.assign t target i = (s', q)) : Moved s p s' q := by
  subst hp
  rw [assign] at h
  split at h
  all_goals
    obtain ⟨rfl, rfl⟩ := Prod.mk.inj h
    exact Moved.of_eq rfl rfl rfl rfl rfl (by simp [Place.mutex]) (by simp)

/-- The reset of a `unique_ptr` leaves the locks to the destructor it may call. -/
theorem reset_moved {o : Owner} (h : s.reset t o = (s', q)) : Moved s p s' q := by
  rw [reset] at h
  split at h
  all_goals
    obtain ⟨rfl, rfl⟩ := Prod.mk.inj h
    exact Moved.of_eq rfl rfl rfl rfl rfl (by simp [Place.mutex]) (by simp)

/-- The constructor of `IRLoggerReader` starts the reader of its `impl`. -/
theorem startReader_moved (target : Target) (i : ImplId) :
    Moved s (.implCtor target i) (s.setReader i ⟨.running, false⟩) (.writerCtor target i) where
  gil := rfl
  mutex := rfl
  threads := rfl
  order := by simp [Place.mutex]
  nextImpl := Nat.le_refl _
  readers := by
    intro j
    by_cases h : j = i
    · subst h
      exact .inr ⟨target, rfl, by rw [setReader_self]⟩
    · exact .inl (by rw [setReader_ne _ h])
  implCtor := by simp

/-- `stop_thread` sets the flag. -/
theorem stopReader_moved (i : ImplId) (horder : q.mutex = true → p.mutex = false → q.locks = true)
    (hq : ∀ target j, q ≠ .implCtor target j) :
    Moved s p (s.setReader i { s.readers i with stop_ := true }) q where
  gil := rfl
  mutex := rfl
  threads := rfl
  order := horder
  nextImpl := Nat.le_refl _
  readers := fun j => .inl (setReader_stop_pc i j)
  implCtor := fun target j h => absurd h (hq target j)

/-- Inside the constructors and destructors a thread moves as in `Moved`. -/
theorem advance_moved {c : Choice} (h : s.advance t c p = some (s', q)) : Moved s p s' q := by
  cases p
  case outside => cases h
  case ctorExit target result =>
    cases result with
    | error e =>
        obtain ⟨rfl, rfl⟩ := Prod.mk.inj (Option.some.inj h)
        exact Moved.of_eq rfl rfl rfl rfl rfl (by simp [Place.mutex]) (by simp)
    | ok i => exact assign_moved rfl (Option.some.inj h)
  case implEnter target =>
    obtain ⟨rfl, rfl⟩ := Prod.mk.inj (Option.some.inj h)
    exact { gil := rfl, mutex := rfl, threads := rfl, order := by simp [Place.mutex],
            nextImpl := Nat.le_succ _, readers := fun _ => .inl rfl,
            implCtor := by rintro _ _ ⟨⟩; exact ⟨rfl, rfl⟩ }
  case implCtor target i =>
    cases c with
    | fails e =>
        obtain ⟨rfl, rfl⟩ := Prod.mk.inj (Option.some.inj h)
        exact Moved.of_eq rfl rfl rfl rfl rfl (by simp [Place.mutex]) (by simp)
    | done | releases | message =>
        obtain ⟨rfl, rfl⟩ := Prod.mk.inj (Option.some.inj h)
        exact startReader_moved target i
  case unwindStop target i e =>
    obtain ⟨rfl, rfl⟩ := Prod.mk.inj (Option.some.inj h)
    exact stopReader_moved i (by simp [Place.mutex]) (by simp)
  case dtorStop i =>
    obtain ⟨rfl, rfl⟩ := Prod.mk.inj (Option.some.inj h)
    exact stopReader_moved i (by simp [Place.mutex]) (by simp)
  -- Where the code or the environment decides between two places.
  case ctorTest | writerCtor | writerNoGil | implDrop | dtorWriter | unwindJoin | dtorJoin =>
    simp only [advance] at h
    split at h
    all_goals
      cases h
      try exact Moved.of_eq rfl rfl rfl rfl rfl (by simp [Place.mutex]) (by simp)
  all_goals
    obtain ⟨rfl, rfl⟩ := Prod.mk.inj (Option.some.inj h)
    exact Moved.of_eq rfl rfl rfl rfl rfl (by simp [Place.mutex, Place.locks]) (by simp)

/-- A call of a thread moves it. -/
theorem perform_moved {call : Call} (h : s.perform t p call = some (s', q)) : Moved s p s' q := by
  cases call with
  | next c => exact advance_moved h
  | stop m | delete i =>
      simp only [perform] at h
      split at h
      · exact reset_moved (Option.some.inj h)
      · cases h
  | start m =>
      simp only [perform] at h
      split at h
      · split at h
        all_goals
          obtain ⟨rfl, rfl⟩ := Prod.mk.inj (Option.some.inj h)
          exact Moved.of_eq rfl rfl rfl rfl rfl (by simp [Place.mutex]) (by simp)
      · cases h
  | allowThreads | reacquire | newLogger =>
      simp only [perform] at h
      split at h
      · obtain ⟨rfl, rfl⟩ := Prod.mk.inj (Option.some.inj h)
        exact Moved.of_eq rfl rfl rfl rfl rfl (by simp [Place.mutex]) (by simp)
      · cases h

end

/-! ### Every step keeps the locks in order -/

section
variable {s s' : LoggerThreads}

/-- What `Moved` leaves alone is all that `Locked` is about. -/
theorem Moved.locked {p q : Place} {t : Nat} (h : Moved s p s' q) (hs : s.Locked)
    (hfresh : s.Unstarted) (hp : s.threads t = .running p) : s'.Locked where
  gilPython := by
    rw [h.gil, h.threads]
    exact hs.gilPython
  gilReader := by
    intro i
    rw [h.gil, hs.gilReader i]
    obtain hpc | ⟨target, rfl, hpc⟩ := h.readers i
    · rw [hpc]
    · -- The reader starts here, so it has not been in a callback before.
      have := (hfresh.next t target i (by rw [hp]; rfl)).2
      simp [hpc, this]
  mutex := by
    rw [h.mutex, h.threads]
    exact hs.mutex
  orderly := by
    rw [h.threads]
    exact hs.orderly

/-- Every step keeps the account of the locks. -/
theorem step_locked {l : Label} (hs : s.Locked) (hfresh : s.Unstarted) (h : s.step l = some s') :
    s'.Locked := by
  cases steps_of_step h with
  | @acquireGil t p hp hfree =>
      have hth : p.gil = true := by
        simpa [hp, Thread.Orderly] using hs.orderly t
      refine hs.move rfl (fun _ => Iff.rfl) ?_ ?_ ?_ ?_ ?_
      · intro x hx
        simp [setThread, hfree, hx.symm]
      · simpa [setThread, Thread.gil] using hth
      · intro u _
        rfl
      · show s.singletonMutex_ = some t ↔ p.mutex = true
        rw [hs.mutex t, hp]
        rfl
      · trivial
  | @lockMutex t p hp hfree =>
      have hth : p.locks = true := by
        simpa [hp, Thread.Orderly] using hs.orderly t
      refine hs.move rfl (fun _ => Iff.rfl) ?_ ?_ ?_ ?_ ?_
      · intro x _
        rfl
      · show s.gil = some (.python t) ↔ p.gil = true
        rw [hs.gilPython t, hp, Place.gil_of_locks hth]
        rfl
      · intro u hu
        simp [setThread, hfree, hu.symm]
      · simpa [setThread, Thread.mutex] using Place.mutex_of_locks hth
      · trivial
  | @preempt t p hp hgil =>
      have hheld : s.gil = some (.python t) := by
        rw [hs.gilPython t, hp]
        exact hgil
      refine hs.move rfl (fun _ => Iff.rfl) ?_ ?_ ?_ ?_ ?_
      · intro x hx
        simp [setThread, hheld, hx.symm]
      · simp [setThread, Thread.gil]
      · intro u _
        rfl
      · show s.singletonMutex_ = some t ↔ p.mutex = true
        rw [hs.mutex t, hp]
        rfl
      · exact hgil
  | @act t p call next hp hcall =>
      have hmoved : Moved s p next.1 next.2 := perform_moved hcall
      apply (hmoved.locked hs hfresh hp).enter _ hmoved.order
      rw [hmoved.threads]
      exact hp
  | @readerMessage i hpc | @readerEnds i _ hpc _ =>
      have hnot : s.gil ≠ some (.reader i) := by
        rw [ne_eq, hs.gilReader i, hpc]
        simp
      refine hs.moveReader rfl rfl rfl (fun _ _ => Iff.rfl) ?_
      simpa [setReader] using hnot
  | @readerAcquires i hpc hfree =>
      refine hs.moveReader rfl rfl rfl ?_ ?_
      · intro x hx
        simp [setReader, hfree, hx.symm]
      · simp [setReader]
  | @readerPreempt i hpc | @readerReturns i hpc =>
      have hheld := (hs.gilReader i).mpr hpc
      refine hs.moveReader rfl rfl rfl ?_ ?_
      · intro x hx
        simp [setReader, hheld, hx.symm]
      · simp [setReader]

/-- Past its `scoped_lock` a thread has the mutex, also while it waits for the GIL. -/
theorem Locked.mutex_of_place (hs : s.Locked) {t : Nat}
    (hmutex : (s.threads t).place.mutex = true) (hlocks : (s.threads t).place.locks = false) :
    (s.threads t).mutex = true := by
  have horderly := hs.orderly t
  cases hth : s.threads t with
  | running p | wantsGil p =>
      rw [hth] at hmutex
      exact hmutex
  | wantsMutex p =>
      rw [hth] at hlocks horderly
      simp only [Thread.place, Thread.Orderly] at hlocks horderly
      rw [hlocks] at horderly
      cases horderly

/-- Two threads past their `scoped_lock` are one thread. -/
theorem Locked.mutex_unique (hs : s.Locked) {t u : Nat} {p : Place} (hp : s.threads t = .running p)
    (ht : p.mutex = true) (hmutex : (s.threads u).place.mutex = true)
    (hlocks : (s.threads u).place.locks = false) : u = t := by
  have hu := (hs.mutex u).mpr (hs.mutex_of_place hmutex hlocks)
  have ht : s.singletonMutex_ = some t := by
    rw [hs.mutex t, hp]
    exact ht
  exact Option.some.inj (hu.symm.trans ht)

/-- A reader that does not start, and does not wait to start, stays so. -/
theorem Unstarted.of_readers (hs : s.Unstarted) {i : ImplId} (hpc : (s.readers i).pc ≠ .notStarted)
    (hnext : s'.nextImpl = s.nextImpl) (hthreads : s'.threads = s.threads)
    (hreaders : ∀ j, j ≠ i → s'.readers j = s.readers j) : s'.Unstarted where
  fresh := by
    intro j hj
    rw [hnext] at hj
    have hne : j ≠ i := by
      rintro rfl
      exact hpc (hs.fresh j hj)
    rw [hreaders j hne]
    exact hs.fresh j hj
  next := by
    intro t target j hplace
    rw [hthreads] at hplace
    obtain ⟨hlt, hj⟩ := hs.next t target j hplace
    have hne : j ≠ i := by
      rintro rfl
      exact hpc hj
    rw [hnext, hreaders j hne]
    exact ⟨hlt, hj⟩

/-- A step that moves no thread and touches no reader keeps `Unstarted`. -/
theorem Unstarted.of_places (hs : s.Unstarted) (hnext : s'.nextImpl = s.nextImpl)
    (hreaders : s'.readers = s.readers)
    (hplaces : ∀ t, (s'.threads t).place = (s.threads t).place) : s'.Unstarted where
  fresh := by
    rw [hnext, hreaders]
    exact hs.fresh
  next := by
    intro t target i hplace
    rw [hnext, hreaders]
    rw [hplaces] at hplace
    exact hs.next t target i hplace

/-- A thread that waits, or goes on after a wait, is at the same place. -/
theorem setThread_place {t : Nat} {th : Thread} (h : th.place = (s.threads t).place) (u : Nat) :
    ((s.setThread t th).threads u).place = (s.threads u).place := by
  by_cases hu : u = t
  · subst hu
    rw [setThread_self, h]
  · rw [setThread_ne _ hu]

/-- Every step keeps `Unstarted`: a new `impl` has the next number, and its reader is started by
one step of its constructor. -/
theorem step_unstarted {l : Label} (hs : s.Unstarted) (hlocked : s.Locked)
    (h : s.step l = some s') : s'.Unstarted := by
  cases steps_of_step h with
  | acquireGil hp _ | lockMutex hp _ | preempt hp _ =>
      exact hs.of_places rfl rfl (setThread_place (by rw [hp]; rfl))
  | readerMessage hpc | readerAcquires hpc _ | readerPreempt hpc | readerReturns hpc
  | readerEnds hpc _ =>
      exact hs.of_readers (by rw [hpc]; simp) rfl rfl (fun j hj => setReader_ne _ hj)
  | @act t p call next hp hcall =>
      have hmoved : Moved s p next.1 next.2 := perform_moved hcall
      have hplace : (s.threads t).place = p := by
        rw [hp]
        rfl
      -- The reader that starts here is the one its `impl` was made for.
      have hfresh : ∀ i, s.nextImpl ≤ i → (next.1.readers i).pc = .notStarted := by
        intro i hi
        obtain hpc | ⟨target, rfl, _⟩ := hmoved.readers i
        · rw [hpc]
          exact hs.fresh i hi
        · exact absurd (hs.next t target i hplace).1 (Nat.not_lt.mpr hi)
      constructor
      · intro i hi
        exact hfresh i (Nat.le_trans hmoved.nextImpl hi)
      · intro u target i hu
        by_cases hut : u = t
        · subst hut
          rw [enter_place] at hu
          obtain ⟨rfl, hnext⟩ := hmoved.implCtor target i hu
          exact ⟨by rw [enter_nextImpl, hnext]; exact Nat.lt_succ_self _, hfresh _ (Nat.le_refl _)⟩
        · rw [enter_ne hut, hmoved.threads] at hu
          obtain ⟨hlt, hpcu⟩ := hs.next u target i hu
          refine ⟨Nat.lt_of_lt_of_le hlt hmoved.nextImpl, ?_⟩
          obtain hpc | ⟨target', rfl, _⟩ := hmoved.readers i
          · rw [enter_readers, hpc, hpcu]
          · -- Two threads would construct an `impl` at the same time.
            exact absurd (hlocked.mutex_unique hp rfl (by rw [hu]; rfl) (by rw [hu]; rfl)) hut

/-- The locks are in order in every reachable state. -/
theorem reachable_locked (h : Reachable step initial s) : s.Locked ∧ s.Unstarted := by
  apply h.invariant ⟨locked_initial, unstarted_initial⟩
  intro s₁ l s₂ hs hstep
  exact ⟨step_locked hs.1 hs.2 hstep, step_unstarted hs.2 hs.1 hstep⟩

end

/-! ### The wait-for graph -/

/-- The thread waits for the GIL. -/
def WantsGil (s : LoggerThreads) : Party → Prop
  | .python t => ∃ p, s.threads t = .wantsGil p
  | .reader i => (s.readers i).pc = .wantsGil

/-- The thread waits for the end of the reader thread `i`. -/
def Joins (s : LoggerThreads) (t : Nat) (i : ImplId) : Prop :=
  ∃ p, s.threads t = .running p ∧ p.joins = some i ∧ (s.readers i).pc ≠ .ended

/-- The first thread waits for the GIL or the mutex, which the second one has, or for the
end of the second one. -/
inductive WaitsFor (s : LoggerThreads) : Party → Party → Prop where
  | gil {x y : Party} (hx : s.WantsGil x) (hy : s.gil = some y) : WaitsFor s x y
  | mutex {t u : Nat} {p : Place} (ht : s.threads t = .wantsMutex p)
      (hu : s.singletonMutex_ = some u) : WaitsFor s (.python t) (.python u)
  | join {t : Nat} {i : ImplId} (h : s.Joins t i) : WaitsFor s (.python t) (.reader i)

/-- The order in which the threads wait for each other: for the mutex, for a reader thread,
for the GIL, for nothing. -/
def waitRank (s : LoggerThreads) : Party → Nat
  | .python t =>
      match s.threads t with
      | .wantsMutex _ => 3
      | .running p => if p.joins.isSome then 2 else 0
      | .wantsGil _ => 1
  | .reader i => if (s.readers i).pc = .wantsGil then 1 else 0

/-- A thread waits for a reader without the GIL. -/
theorem joins_gil {p : Place} {i : ImplId} (h : p.joins = some i) : p.gil = false := by
  cases p <;> first | rfl | cases h

section
variable {s : LoggerThreads} {x y : Party}

/-- Who holds the GIL waits for nothing. -/
theorem Locked.waitRank_gil (hs : s.Locked) (h : s.gil = some y) : s.waitRank y = 0 := by
  cases y with
  | reader i =>
      have hpc := (hs.gilReader i).mp h
      simp [waitRank, hpc]
  | python t =>
      have hgil := (hs.gilPython t).mp h
      cases hth : s.threads t with
      | running p =>
          rw [hth] at hgil
          have hjoins : p.joins = none := by
            rw [Option.eq_none_iff_forall_ne_some]
            intro i hi
            rw [Thread.gil, joins_gil hi] at hgil
            cases hgil
          simp [waitRank, hth, hjoins]
      | wantsGil p | wantsMutex p =>
          rw [hth] at hgil
          cases hgil

/-- Who has the mutex does not wait for it. -/
theorem Locked.waitRank_mutex (hs : s.Locked) {u : Nat} (h : s.singletonMutex_ = some u) :
    s.waitRank (.python u) ≤ 2 := by
  have hmutex := (hs.mutex u).mp h
  cases hth : s.threads u with
  | running p =>
      simp only [waitRank, hth]
      split <;> omega
  | wantsGil p => simp [waitRank, hth]
  | wantsMutex p =>
      rw [hth] at hmutex
      cases hmutex

/-- The rank drops from a thread to the one it waits for. -/
theorem Locked.waitRank_lt (hs : s.Locked) (h : s.WaitsFor x y) :
    s.waitRank y < s.waitRank x := by
  cases h with
  | gil hx hy =>
      rw [hs.waitRank_gil hy]
      cases x with
      | python t =>
          obtain ⟨p, hp⟩ := hx
          simp [waitRank, hp]
      | reader i =>
          have hpc : (s.readers i).pc = .wantsGil := hx
          simp [waitRank, hpc]
  | @mutex t u p ht hu =>
      have := hs.waitRank_mutex hu
      simp only [waitRank, ht]
      exact Nat.lt_succ_of_le this
  | @join t i h =>
      obtain ⟨p, hp, hjoins, _⟩ := h
      simp only [waitRank, hp, hjoins]
      split <;> simp

/-- So it does along a chain of waiting threads. -/
theorem Locked.waitRank_lt_of_chain (hs : s.Locked) (h : Relation.TransGen s.WaitsFor x y) :
    s.waitRank y < s.waitRank x := by
  induction h with
  | single h => exact hs.waitRank_lt h
  | tail _ h ih => exact Nat.lt_trans (hs.waitRank_lt h) ih

end

/-- No reachable state has a cycle of threads that wait for each other. A thread that waits
for `singleton_mutex_` does not hold the GIL, nor does one that waits for its reader. -/
theorem no_wait_cycle {s : LoggerThreads} (h : Reachable step initial s) :
    (∀ x, ¬ Relation.TransGen s.WaitsFor x x) ∧
    (∀ t p, s.threads t = .wantsMutex p → s.gil ≠ some (.python t)) ∧
    (∀ t i, s.Joins t i → s.gil ≠ some (.python t)) := by
  have hs := (reachable_locked h).1
  refine ⟨?_, ?_, ?_⟩
  · intro x hcycle
    exact Nat.lt_irrefl _ (hs.waitRank_lt_of_chain hcycle)
  · intro t p ht
    rw [ne_eq, hs.gilPython t, ht]
    simp [Thread.gil]
  · rintro t i ⟨p, hp, hjoins, _⟩
    rw [ne_eq, hs.gilPython t, hp, Thread.gil, joins_gil hjoins]
    simp

/-- The state a schedule leads to. -/
def after (ls : List Label) : LoggerThreads := (run step initial ls).getD initial

/-- A thread goes on inside a constructor or a destructor. -/
def goOn (t n : Nat) : List Label := List.replicate n (.act t (.next .done))

/-- Thread 0 makes a `Logger`, and destroys it up to where it waits for the reader. Thread 2
asks for a `Logger` too, the reader has a message, and thread 1 takes the GIL. -/
def waitingChain : List Label :=
  [.act 0 .reacquire, .acquireGil 0, .act 0 .newLogger] ++ goOn 0 2 ++ [.lockMutex 0] ++
  goOn 0 1 ++ [.acquireGil 0] ++ goOn 0 6 ++ [.acquireGil 0] ++ goOn 0 1 ++
  [.act 0 (.delete 0)] ++ goOn 0 2 ++ [.lockMutex 0] ++ goOn 0 1 ++ [.acquireGil 0] ++
  goOn 0 4 ++ [.act 2 .reacquire, .acquireGil 2, .act 2 .newLogger] ++ goOn 2 2 ++
  [.readerMessage 0, .act 1 .reacquire, .acquireGil 1]

/-- Three parties wait for one another in a row, and not in a circle. -/
theorem no_wait_cycle_chain :
    ((after waitingChain).WaitsFor (.python 2) (.python 0) ∧
      (after waitingChain).WaitsFor (.python 0) (.reader 0) ∧
      (after waitingChain).WaitsFor (.reader 0) (.python 1)) ∧
    (∀ x, ¬ Relation.TransGen (after waitingChain).WaitsFor x x) ∧
    (∀ t p, (after waitingChain).threads t = .wantsMutex p →
      (after waitingChain).gil ≠ some (.python t)) ∧
    (∀ t i, (after waitingChain).Joins t i → (after waitingChain).gil ≠ some (.python t)) := by
  constructor
  · refine ⟨.mutex (p := .ctorTest .object) rfl rfl, .join ⟨.dtorJoin 0, rfl, rfl, ?_⟩, .gil ?_ rfl⟩
    · decide +kernel
    · show ((after waitingChain).readers 0).pc = .wantsGil
      rfl
  · exact no_wait_cycle ⟨waitingChain, rfl⟩

end LoggerThreads
end NqmIrimager
