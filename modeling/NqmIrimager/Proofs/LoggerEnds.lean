import NqmIrimager.Lib.StepProgress
import NqmIrimager.Proofs.LoggerLocks

/-!
# `NqmIrimager.Proofs.LoggerEnds`: constructors and destructors can return

`no_wait_cycle` says that no threads wait for each other in a circle. That is not yet enough for
the threads to get out of the code: the mutex must be given up on every exit, and a reader
thread that is waited for must have been started and told to stop. `Started` is the invariant
about the readers.

`left` counts the places between a thread and Python code. `canReach_outside` drives one thread
there while `singleton_mutex_` is its own or free: one step lowers `left`, or makes room for the
next one, and `rank` drops in both cases. `canReach_quiet` does so for the holder of the mutex
first, and then for every other thread. No new call is needed, nothing fails, and no message
arrives.
-/

set_option autoImplicit false

namespace NqmIrimager

open StepRun

/-- The reader thread that the code at a place works with. -/
def Place.reader : Place → Option ImplId
  | writerCtor _ i | writerNoGil _ i | writerMessage _ i | constructed _ i => some i
  | unwind _ i _ | unwindStop _ i _ | unwindJoin _ i _ | unwound _ i _ => some i
  | dtorEnter i | dtorNoGil i | dtorLocked i | implDrop i | dtorWriter i | writerJoin i => some i
  | dtorReader i | dtorStop i | dtorJoin i | dtorReset i => some i
  | _ => none

/-- How many places a thread has before it when every statement completes. -/
def Place.left : Place → Nat
  | outside _ => 0
  | dtorUnlocked => 1
  | dtorUnlock => 2
  | dtorReset _ => 3
  | dtorJoin _ => 4
  | dtorStop _ => 5
  | dtorReader _ => 6
  | writerJoin _ => 7
  | dtorWriter _ => 8
  | implDrop _ => 9
  | dtorLocked _ => 10
  | dtorNoGil _ => 11
  | dtorEnter _ => 12
  | ctorExit _ _ => 13
  | ctorUnlocked _ _ => 14
  | ctorUnlock _ _ => 15
  | constructed _ _ => 16
  | unwound _ _ _ => 16
  | unwindJoin _ _ _ => 17
  | unwindStop _ _ _ => 18
  | unwind _ _ _ => 19
  | writerNoGil _ _ => 20
  | writerMessage _ _ => 21
  | writerCtor _ _ => 22
  | implCtor _ _ => 23
  | implEnter _ => 24
  | ctorTest _ => 25
  | ctorNoGil _ => 26
  | ctorEnter _ => 27

/-- How long a reader can keep a thread that waits for it. -/
def ReaderPc.left : ReaderPc → Nat
  | .notStarted => 0
  | .ended => 0
  | .running => 2
  | .message => 4
  | .wantsGil => 6

/-- The locks a thread has not got yet. -/
def Thread.waits : Thread → Nat
  | running _ => 0
  | wantsGil _ => 2
  | wantsMutex _ => 4

/-- The reader that is waited for is the one the code works with. -/
theorem Place.reader_of_joins {p : Place} {i : ImplId} (h : p.joins = some i) :
    p.reader = some i := by
  cases p <;> first | exact h | cases h

namespace LoggerThreads

/-- A step of a thread that only goes on. -/
def GoesOn : Label → Prop
  | .acquireGil _ => True
  | .lockMutex _ => True
  | .preempt _ => True
  | .act _ call => call = .next .done
  | .readerAcquires _ => True
  | .readerReturns _ => True
  | .readerEnds _ threw => threw = false
  | .readerMessage _ => False
  | .readerPreempt _ => False

/-- The thread is in none of the constructors and destructors. -/
def Outside (s : LoggerThreads) (t : Nat) : Prop := ∃ gil, (s.threads t).place = .outside gil

/-- Every thread is outside, and nobody has `singleton_mutex_`. -/
def Quiet (s : LoggerThreads) : Prop := s.singletonMutex_ = none ∧ ∀ t, s.Outside t

/-! ### The readers that are waited for -/

/-- A reader that a thread works with, or that a `Logger` has, was started, and one that is
waited for was told to stop. -/
structure Started (s : LoggerThreads) : Prop where
  places : ∀ t i, (s.threads t).place.reader = some i → (s.readers i).pc ≠ .notStarted
  loggers : ∀ l ∈ s.loggers, (s.readers l.2).pc ≠ .notStarted
  stopped : ∀ t i, (s.threads t).place.joins = some i → (s.readers i).stop_ = true

/-- Nobody works with a reader at the start. -/
theorem started_initial : Started initial where
  places := fun _ _ h => by cases h
  loggers := fun _ h => by cases h
  stopped := fun _ _ h => by cases h

/-- What a thread's move from the place `p` to `q` does to the readers, and where it finds the
one it goes on with. -/
structure Readers (s : LoggerThreads) (p : Place) (s' : LoggerThreads) (q : Place) : Prop where
  readers : ∀ i, s'.readers i = s.readers i ∨
    s'.readers i = { s.readers i with stop_ := true } ∨
    ∃ target, p = .implCtor target i ∧ s'.readers i = ⟨.running, false⟩
  place : ∀ i, q.reader = some i → p.reader = some i ∨ (∃ l ∈ s.loggers, l.2 = i) ∨
    (s'.readers i).pc ≠ .notStarted
  loggers : ∀ l ∈ s'.loggers, p.reader = some l.2 ∨ ∃ l' ∈ s.loggers, l'.2 = l.2
  joins : ∀ i, q.joins = some i → (s'.readers i).stop_ = true

section
variable {s s' : LoggerThreads} {t : Nat} {p q : Place}

/-- A move that leaves the readers alone and waits for none. -/
theorem Readers.of_readers (hreaders : s'.readers = s.readers) (hjoins : q.joins = none)
    (hplace : ∀ i, q.reader = some i → p.reader = some i ∨ ∃ l ∈ s.loggers, l.2 = i)
    (hloggers : ∀ l ∈ s'.loggers, p.reader = some l.2 ∨ ∃ l' ∈ s.loggers, l'.2 = l.2) :
    Readers s p s' q where
  readers := fun i => .inl (by rw [hreaders])
  place := fun i h => (hplace i h).imp_right .inl
  loggers := hloggers
  joins := fun i h => by
    rw [hjoins] at h
    cases h

/-- A move that leaves the `Logger`s alone too. -/
theorem Readers.of_eq (hreaders : s'.readers = s.readers) (hloggers : s'.loggers = s.loggers)
    (hplace : ∀ i, q.reader = some i → p.reader = some i) (hjoins : q.joins = none) :
    Readers s p s' q :=
  .of_readers hreaders hjoins (fun i h => .inl (hplace i h))
    (fun l h => .inr ⟨l, hloggers ▸ h, rfl⟩)

/-- `stop_thread` sets the flag of the reader it then waits for. -/
theorem readers_stop {i : ImplId} (hp : p.reader = some i) (hq : q.reader = some i)
    (hjoins : q.joins = some i) :
    Readers s p (s.setReader i { s.readers i with stop_ := true }) q where
  readers := by
    intro j
    by_cases hj : j = i
    · subst hj
      exact .inr (.inl (setReader_self j _))
    · exact .inl (setReader_ne _ hj)
  place := by
    intro j hj
    rw [hq] at hj
    exact .inl (hp.trans hj)
  loggers := fun l h => .inr ⟨l, h, rfl⟩
  joins := by
    intro j hj
    rw [hjoins] at hj
    obtain rfl := Option.some.inj hj
    rw [setReader_self]

/-- The constructor of `IRLoggerReader` starts the thread. -/
theorem readers_start (target : Target) (i : ImplId) :
    Readers s (.implCtor target i) (s.setReader i ⟨.running, false⟩) (.writerCtor target i) where
  readers := by
    intro j
    by_cases hj : j = i
    · subst hj
      exact .inr (.inr ⟨target, rfl, setReader_self j _⟩)
    · exact .inl (setReader_ne _ hj)
  place := by
    intro j hj
    obtain rfl := Option.some.inj (show some i = some j from hj)
    right
    right
    rw [setReader_self]
    simp
  loggers := fun l h => .inr ⟨l, h, rfl⟩
  joins := fun j h => by cases h

/-- `reown` changes whose a `Logger` is. -/
theorem mem_reown {o o' : Owner} {l : Owner × ImplId} (h : l ∈ (s.reown o o').loggers) :
    ∃ l' ∈ s.loggers, l'.2 = l.2 := by
  obtain ⟨l', hl', rfl⟩ := List.mem_map.mp h
  refine ⟨l', hl', ?_⟩
  split
  · rfl
  · rfl

/-- The `impl` of an owner is that of a `Logger`. -/
theorem mem_of_loggerOf {o : Owner} {i : ImplId} (h : s.loggerOf o = some i) :
    ∃ l ∈ s.loggers, l.2 = i := by
  obtain ⟨l₁, l₂, heq, -⟩ := List.lookup_eq_some_iff.mp h
  exact ⟨(o, i), by rw [heq]; simp, rfl⟩

/-- A `Logger` that is destroyed next is one that was there. -/
theorem reader_dtorEnter {old i : ImplId} (hold : ∃ l ∈ s.loggers, l.2 = old)
    (h : (Place.dtorEnter old).reader = some i) : ∃ l ∈ s.loggers, l.2 = i := by
  obtain rfl := Option.some.inj h
  exact hold

/-- `start()` goes on with the reader of the `Logger` that it replaces, if there is one. -/
theorem assign_readers {target : Target} {result : Except Exception ImplId} {i : ImplId}
    (h : s.assign t target i = (s', q)) : Readers s (.ctorExit target result) s' q := by
  rw [assign] at h
  split at h
  · obtain ⟨rfl, rfl⟩ := Prod.mk.inj h
    exact .of_readers rfl rfl (fun _ h => by cases h) (fun _ h => .inr (mem_reown h))
  · rename_i old hold
    obtain ⟨rfl, rfl⟩ := Prod.mk.inj h
    refine .of_readers rfl rfl ?_ ?_
    · exact fun j hj => .inr (reader_dtorEnter (mem_of_loggerOf hold) hj)
    · intro l hl
      obtain ⟨l', hl', heq⟩ := mem_reown hl
      obtain ⟨l'', hl'', heq'⟩ := mem_reown hl'
      exact .inr ⟨l'', hl'', heq'.trans heq⟩

/-- A reset goes on with the reader of the `Logger` that it destroys. -/
theorem reset_readers {o : Owner} (h : s.reset t o = (s', q)) :
    Readers s (.outside true) s' q := by
  rw [reset] at h
  split at h
  · obtain ⟨rfl, rfl⟩ := Prod.mk.inj h
    exact .of_eq rfl rfl (fun _ h => by cases h) rfl
  · rename_i old hold
    obtain ⟨rfl, rfl⟩ := Prod.mk.inj h
    exact .of_readers rfl rfl (fun j hj => .inr (reader_dtorEnter (mem_of_loggerOf hold) hj))
      (fun _ h => .inr (mem_reown h))

/-- Inside the constructors and destructors a thread keeps to its reader, and stores `stop_`
before it waits for it. -/
theorem advance_readers {c : Choice} (h : s.advance t c p = some (s', q)) :
    Readers s p s' q := by
  cases p
  case outside => cases h
  case implCtor target i =>
    cases c with
    | fails e =>
        cases h
        exact .of_eq rfl rfl (fun _ h => by cases h) rfl
    | done | releases | message =>
        cases h
        exact readers_start target i
  case unwindStop target i e =>
    cases h
    exact readers_stop rfl rfl rfl
  case dtorStop i =>
    cases h
    exact readers_stop rfl rfl rfl
  case constructed target i =>
    cases h
    refine .of_readers rfl rfl (fun _ h => by cases h) fun l hl => ?_
    rcases List.mem_append.mp hl with hmem | hnew
    · exact .inr ⟨l, hmem, rfl⟩
    · obtain rfl := List.mem_singleton.mp hnew
      exact .inl rfl
  case ctorExit target result =>
    cases result with
    | error e =>
        cases h
        exact .of_eq rfl rfl (fun _ h => by cases h) rfl
    | ok i => exact assign_readers (Option.some.inj h)
  case implDrop i =>
    have herase : ∀ l ∈ s.loggers.erase (.destructor t, i), ∃ l' ∈ s.loggers, l'.2 = l.2 :=
      fun l hl => ⟨l, List.mem_of_mem_erase hl, rfl⟩
    simp only [advance] at h
    split at h
    · cases h
      exact .of_readers rfl rfl (fun _ h => by cases h) (fun l hl => .inr (herase l hl))
    · cases h
      exact .of_readers rfl rfl (fun _ h => .inl h) (fun l hl => .inr (herase l hl))
  case unwound | dtorReset =>
    cases h
    exact .of_eq rfl rfl (fun _ h => by cases h) rfl
  case ctorTest | writerCtor | writerNoGil | dtorWriter | unwindJoin | dtorJoin =>
    simp only [advance] at h
    split at h
    all_goals
      cases h
      try exact .of_eq rfl rfl (fun _ h => h) rfl
  all_goals
    cases h
    exact .of_eq rfl rfl (fun _ h => h) rfl

/-- A call from Python keeps to the reader of the `Logger` it is about. -/
theorem perform_readers {call : Call} (h : s.perform t p call = some (s', q)) :
    Readers s p s' q := by
  cases call with
  | next c => exact advance_readers h
  | stop m | delete i =>
      simp only [perform] at h
      split at h
      · exact reset_readers (Option.some.inj h)
      · cases h
  | start m =>
      simp only [perform] at h
      split at h
      · split at h
        all_goals
          cases h
          exact .of_eq rfl rfl (fun _ h => by cases h) rfl
      · cases h
  | allowThreads | reacquire | newLogger =>
      simp only [perform] at h
      split at h
      · cases h
        exact .of_eq rfl rfl (fun _ h => by cases h) rfl
      · cases h

/-- A reader that was started stays so, and keeps its `stop_`. -/
theorem Readers.kept (h : Readers s p s' q) (hfresh : s.Unstarted) (hp : (s.threads t).place = p)
    {i : ImplId} (hi : (s.readers i).pc ≠ .notStarted) :
    (s'.readers i).pc ≠ .notStarted ∧ ((s.readers i).stop_ = true → (s'.readers i).stop_ = true) := by
  rcases h.readers i with heq | heq | ⟨target, rfl, heq⟩
  · rw [heq]
    exact ⟨hi, id⟩
  · rw [heq]
    exact ⟨hi, fun _ => rfl⟩
  · exact absurd (hfresh.next t target i hp).2 hi

/-- A step of a reader that was started, or of a lock. -/
theorem Started.of_readers (hs : s.Started) (hloggers : s'.loggers = s.loggers)
    (hplaces : ∀ t, (s'.threads t).place = (s.threads t).place)
    (hreaders : ∀ i, (s.readers i).pc ≠ .notStarted → (s'.readers i).pc ≠ .notStarted)
    (hstop : ∀ i, (s'.readers i).stop_ = (s.readers i).stop_) : s'.Started where
  places := fun t i h => hreaders i (hs.places t i (hplaces t ▸ h))
  loggers := fun l h => hreaders l.2 (hs.loggers l (hloggers ▸ h))
  stopped := fun t i h => by
    rw [hstop]
    exact hs.stopped t i (hplaces t ▸ h)

/-- One reader moves on. -/
theorem Started.moveReader (hs : s.Started) (hloggers : s'.loggers = s.loggers)
    (hthreads : s'.threads = s.threads) {i : ImplId} {pc : ReaderPc} (hpc : pc ≠ .notStarted)
    (hreaders : s'.readers = Function.update s.readers i { s.readers i with pc := pc }) :
    s'.Started := by
  apply hs.of_readers hloggers (fun t => by rw [hthreads])
  · intro j hj
    rw [hreaders]
    by_cases hji : j = i
    · subst hji
      rw [Function.update_self]
      exact hpc
    · rw [Function.update_of_ne hji]
      exact hj
  · intro j
    rw [hreaders]
    by_cases hji : j = i
    · subst hji
      rw [Function.update_self]
    · rw [Function.update_of_ne hji]

/-- Every step keeps `Started`. -/
theorem step_started {l : Label} (hs : s.Started) (hfresh : s.Unstarted)
    (h : s.step l = some s') : s'.Started := by
  cases steps_of_step h with
  | acquireGil hp _ | lockMutex hp _ | preempt hp _ =>
      exact hs.of_readers rfl (setThread_place (by rw [hp]; rfl)) (fun _ => id) (fun _ => rfl)
  | readerMessage _ | readerAcquires _ _ | readerPreempt _ | readerReturns _ | readerEnds _ _ =>
      exact hs.moveReader rfl rfl (by simp) rfl
  | @act t p call next hp hcall =>
      have hmove : Readers s p next.1 next.2 := perform_readers hcall
      have hthreads : next.1.threads = s.threads := (perform_moved hcall).threads
      have hplace : (s.threads t).place = p := by
        rw [hp]
        rfl
      have hkept := fun i hi => hmove.kept hfresh hplace (i := i) hi
      have hloggers : ∀ l ∈ s.loggers, (next.1.readers l.2).pc ≠ .notStarted :=
        fun l hl => (hkept l.2 (hs.loggers l hl)).1
      have hplaces : ∀ i, p.reader = some i → (next.1.readers i).pc ≠ .notStarted :=
        fun i hi => (hkept i (hs.places t i (hplace ▸ hi))).1
      constructor
      · intro u i hu
        by_cases hut : u = t
        · subst hut
          rw [enter_place] at hu
          rcases hmove.place i hu with hp' | ⟨l, hl, rfl⟩ | hpc
          · exact hplaces i hp'
          · exact hloggers l hl
          · exact hpc
        · rw [enter_ne hut, hthreads] at hu
          exact (hkept i (hs.places u i hu)).1
      · intro l hl
        rcases hmove.loggers l hl with hp' | ⟨l', hl', heq⟩
        · exact hplaces l.2 hp'
        · rw [← heq]
          exact hloggers l' hl'
      · intro u i hu
        by_cases hut : u = t
        · subst hut
          rw [enter_place] at hu
          exact hmove.joins i hu
        · rw [enter_ne hut, hthreads] at hu
          exact (hkept i (hs.places u i (Place.reader_of_joins hu))).2 (hs.stopped u i hu)

/-- It holds in every reachable state. -/
theorem reachable_started (h : Reachable step initial s) : s.Started := by
  have hinv : (s.Locked ∧ s.Unstarted) ∧ s.Started := by
    apply h.invariant ⟨⟨locked_initial, unstarted_initial⟩, started_initial⟩
    intro s₁ l s₂ hs hstep
    exact ⟨⟨step_locked hs.1.1 hs.1.2 hstep, step_unstarted hs.1.2 hs.1.1 hstep⟩,
      step_started hs.2 hs.1.2 hstep⟩
  exact hinv.2

end

/-! ### One thread gets out -/

/-- Nobody but the thread has `singleton_mutex_`. -/
def Free (s : LoggerThreads) (t : Nat) : Prop := ∀ u, s.singletonMutex_ = some u → u = t

/-- The GIL is with somebody else. -/
def busy (t : Nat) (gil : Option Party) : Nat :=
  if gil = none ∨ gil = some (.python t) then 0 else 1

/-- How long the reader that is waited for can take. -/
def keeps (readers : ImplId → Reader) : Option ImplId → Nat
  | none => 0
  | some i => (readers i).pc.left

/-- How far a thread is from Python code: the places before it, the locks it waits for, and the
reader thread it waits for. -/
def rank (t : Nat) (s : LoggerThreads) : Nat :=
  20 * (s.threads t).place.left + (s.threads t).waits + busy t s.gil
    + keeps s.readers (s.threads t).place.joins

section
variable {s s' : LoggerThreads} {t : Nat} {p q : Place}

/-- Whoever has the GIL can give it up, a Python thread at any instruction and a reader at the
end of its callback. -/
theorem Locked.freeGil (hs : s.Locked) {y : Party} (hy : s.gil = some y) (hne : y ≠ .python t) :
    ∃ l s', GoesOn l ∧ s.step l = some s' ∧ s'.gil = none ∧
      s'.singletonMutex_ = s.singletonMutex_ ∧ s'.threads t = s.threads t ∧
      (∀ u, (s'.threads u).place = (s.threads u).place) ∧
      ∀ i, (s.readers i).pc ≠ .message → s'.readers i = s.readers i := by
  cases y with
  | python u =>
      have hgil := (hs.gilPython u).mp hy
      cases hth : s.threads u with
      | running p =>
          rw [hth] at hgil
          have hp : p.gil = true := hgil
          refine ⟨.preempt u, { s with gil := none }.setThread u (.wantsGil p), trivial, ?_, rfl,
            rfl, setThread_ne _ ?_, setThread_place ?_, fun _ _ => rfl⟩
          · simp [step, hth, hp]
          · rintro rfl
            exact hne rfl
          · show p = (s.threads u).place
            rw [hth]
            rfl
      | wantsGil p | wantsMutex p =>
          rw [hth] at hgil
          cases hgil
  | reader i =>
      have hpc := (hs.gilReader i).mp hy
      refine ⟨.readerReturns i, { s with gil := none }.setReader i { s.readers i with pc := .running },
        trivial, ?_, rfl, rfl, rfl, fun _ => rfl, fun j hj => setReader_ne _ ?_⟩
      · simp [step, hpc]
      · rintro rfl
        exact hj hpc

/-- A thread goes on, and what is left gets less. -/
theorem advance_left (hp : ∀ gil, p ≠ .outside gil)
    (hjoins : ∀ i, p.joins = some i → (s.readers i).pc = .ended) :
    ∃ s' q, s.advance t .done p = some (s', q) ∧ q.left < p.left := by
  cases p
  case outside gil => exact absurd rfl (hp gil)
  case ctorTest target =>
    simp only [advance]
    split
    · exact ⟨_, _, rfl, by simp [Place.left]⟩
    · exact ⟨_, _, rfl, by simp [Place.left]⟩
  case ctorExit target result =>
    cases result with
    | error e => exact ⟨_, _, rfl, by simp [Place.left]⟩
    | ok i =>
        simp only [advance, assign]
        split
        · exact ⟨_, _, rfl, by simp [Place.left]⟩
        · exact ⟨_, _, rfl, by simp [Place.left]⟩
  case implDrop i =>
    simp only [advance]
    split
    · exact ⟨_, _, rfl, by simp [Place.left]⟩
    · exact ⟨_, _, rfl, by simp [Place.left]⟩
  case unwindJoin target i e =>
    simp only [advance, hjoins i rfl]
    exact ⟨_, _, rfl, by simp [Place.left]⟩
  case dtorJoin i =>
    simp only [advance, hjoins i rfl]
    exact ⟨_, _, rfl, by simp [Place.left]⟩
  all_goals exact ⟨_, _, rfl, by simp [Place.left]⟩

/-- What one step on the way does: the thread is nearer to Python code, and no other thread
has moved. -/
def Nearer (t : Nat) (s s' : LoggerThreads) : Prop :=
  s'.Free t ∧ (∀ u, u ≠ t → (s'.threads u).place = (s.threads u).place) ∧ rank t s' < rank t s

/-- Making room for the thread brings it nearer. -/
theorem Locked.freeGil_nearer (hs : s.Locked) (hfree : s.Free t) {y : Party}
    (hy : s.gil = some y) (hne : y ≠ .python t)
    (hreader : ∀ i, (s.threads t).place.joins = some i → (s.readers i).pc ≠ .message) :
    ∃ l s', GoesOn l ∧ s.step l = some s' ∧ Nearer t s s' := by
  obtain ⟨l, s', hl, hstep, hgil, hmutex, hthread, hplaces, hreaders⟩ := hs.freeGil hy hne
  refine ⟨l, s', hl, hstep, ?_, fun u _ => hplaces u, ?_⟩
  · intro u hu
    exact hfree u (hmutex ▸ hu)
  · have hkeeps : keeps s'.readers (s.threads t).place.joins
        = keeps s.readers (s.threads t).place.joins := by
      cases hj : (s.threads t).place.joins with
      | none => rfl
      | some i => simp only [keeps, hreaders i (hreader i hj)]
    simp [rank, hthread, hkeeps, hgil, hy, busy, hne]

/-- A thread that waits for the mutex gets it. -/
theorem Locked.lock_nearer (hs : s.Locked) (hfree : s.Free t) (hp : s.threads t = .wantsMutex p) :
    ∃ l s', GoesOn l ∧ s.step l = some s' ∧ Nearer t s s' := by
  have hnone : s.singletonMutex_ = none := by
    rw [Option.eq_none_iff_forall_ne_some]
    intro u hu
    obtain rfl := hfree u hu
    have hself := (hs.mutex u).mp hu
    rw [hp] at hself
    cases hself
  refine ⟨.lockMutex t, { s with singletonMutex_ := some t }.setThread t (.running p), trivial, ?_,
    ?_, ?_, ?_⟩
  · simp [step, hp, hnone]
  · intro u hu
    exact (Option.some.inj hu).symm
  · intro u hu
    exact congrArg Thread.place (setThread_ne _ hu)
  · simp only [rank, setThread_self, hp, Thread.place, Thread.waits]
    show _ + 0 + busy t s.gil + keeps s.readers p.joins < _
    omega

/-- A thread that waits for the GIL gets it, or the one that has it gives it up. -/
theorem Locked.gil_nearer (hs : s.Locked) (hfree : s.Free t) (hp : s.threads t = .wantsGil p) :
    ∃ l s', GoesOn l ∧ s.step l = some s' ∧ Nearer t s s' := by
  have hneeds : p.gil = true := by
    simpa [hp, Thread.Orderly] using hs.orderly t
  have hjoins : p.joins = none := by
    rw [Option.eq_none_iff_forall_ne_some]
    intro i hi
    rw [joins_gil hi] at hneeds
    cases hneeds
  cases hgil : s.gil with
  | some y =>
      refine hs.freeGil_nearer hfree hgil ?_ (by simp [hp, Thread.place, hjoins])
      rintro rfl
      have hself := (hs.gilPython t).mp hgil
      rw [hp] at hself
      cases hself
  | none =>
      refine ⟨.acquireGil t, { s with gil := some (.python t) }.setThread t (.running p), trivial,
        ?_, fun u hu => hfree u hu, ?_, ?_⟩
      · simp [step, hp, hgil]
      · intro u hu
        exact congrArg Thread.place (setThread_ne _ hu)
      · simp [rank, setThread, hp, Thread.place, Thread.waits, hgil, busy]

/-- A reader thread that is waited for gets on with its end. -/
theorem Locked.join_nearer (hs : s.Locked) (hstarted : s.Started) (hfree : s.Free t)
    (hp : s.threads t = .running p) {i : ImplId} (hi : p.joins = some i)
    (hpc : (s.readers i).pc ≠ .ended) :
    ∃ l s', GoesOn l ∧ s.step l = some s' ∧ Nearer t s s' := by
  have hplace : (s.threads t).place = p := by
    rw [hp]
    rfl
  have hnotGil : s.gil ≠ some (.python t) := by
    rw [ne_eq, hs.gilPython t, hp, Thread.gil, joins_gil hi]
    simp
  cases hread : (s.readers i).pc with
  | notStarted =>
      exact absurd hread (hstarted.places t i (hplace ▸ Place.reader_of_joins hi))
  | ended => exact absurd hread hpc
  | running =>
      have hstop : (s.readers i).stop_ = true := hstarted.stopped t i (hplace ▸ hi)
      refine ⟨.readerEnds i false, s.setReader i { s.readers i with pc := .ended }, rfl, ?_,
        hfree, fun _ _ => rfl, ?_⟩
      · simp [step, hread, hstop]
      · simp [rank, setReader, hp, Thread.place, hi, hread, keeps, ReaderPc.left]
  | message =>
      have hgil := (hs.gilReader i).mpr hread
      refine ⟨.readerReturns i, { s with gil := none }.setReader i { s.readers i with pc := .running },
        trivial, ?_, hfree, fun _ _ => rfl, ?_⟩
      · simp [step, hread]
      · simp [rank, setReader, hp, Thread.place, hi, hread, hgil, keeps, busy, ReaderPc.left]
  | wantsGil =>
      cases hgil : s.gil with
      | some y =>
          refine hs.freeGil_nearer hfree hgil ?_ ?_
          · rintro rfl
            exact hnotGil hgil
          · intro j hj
            rw [hplace, hi] at hj
            obtain rfl := Option.some.inj hj
            rw [hread]
            simp
      | none =>
          refine ⟨.readerAcquires i, { s with gil := some (.reader i) }.setReader i
            { s.readers i with pc := .message }, trivial, ?_, hfree, fun _ _ => rfl, ?_⟩
          · simp [step, hread, hgil]
          · simp [rank, setReader, hp, Thread.place, hi, hread, hgil, keeps, busy, ReaderPc.left]

/-- The places before a thread decide its rank, whatever it waits for. -/
theorem rank_bounds (t : Nat) (s : LoggerThreads) :
    20 * (s.threads t).place.left ≤ rank t s ∧ rank t s < 20 * ((s.threads t).place.left + 1) := by
  have hthread : (s.threads t).waits ≤ 4 := by
    cases s.threads t <;> simp [Thread.waits]
  have hgil : busy t s.gil ≤ 1 := by
    unfold busy
    split <;> omega
  have hreader : keeps s.readers (s.threads t).place.joins ≤ 6 := by
    cases (s.threads t).place.joins with
    | none => exact Nat.zero_le 6
    | some i =>
        show (s.readers i).pc.left ≤ 6
        cases (s.readers i).pc <;> decide
  unfold rank
  omega

/-- A thread that waits for nothing goes on. -/
theorem act_nearer (hfree : s.Free t) (hp : s.threads t = .running p)
    (hout : ∀ gil, p ≠ .outside gil) (hjoins : ∀ i, p.joins = some i → (s.readers i).pc = .ended) :
    ∃ l s', GoesOn l ∧ s.step l = some s' ∧ Nearer t s s' := by
  obtain ⟨s₁, q, hadvance, hlt⟩ := advance_left (t := t) hout hjoins
  have hmoved := advance_moved hadvance
  refine ⟨.act t (.next .done), s₁.enter t q, rfl, ?_, ?_, ?_, ?_⟩
  · simp only [step, hp, perform, hadvance]
    rfl
  · intro u hu
    rw [enter_mutex_eq, hmoved.mutex] at hu
    exact hfree u hu.1
  · intro u hu
    rw [enter_ne hu, hmoved.threads]
  · have hbefore := (rank_bounds t s).1
    have hafter := (rank_bounds t (s₁.enter t q)).2
    rw [enter_place] at hafter
    rw [hp] at hbefore
    have hplace : (Thread.running p).place = p := rfl
    rw [hplace] at hbefore
    omega

/-- While the mutex is its own or free, a thread that is not outside can be brought nearer. -/
theorem nearer_step (hs : s.Locked) (hstarted : s.Started) (hfree : s.Free t)
    (hout : ¬ s.Outside t) : ∃ l s', GoesOn l ∧ s.step l = some s' ∧ Nearer t s s' := by
  cases hp : s.threads t with
  | wantsMutex p => exact hs.lock_nearer hfree hp
  | wantsGil p => exact hs.gil_nearer hfree hp
  | running p =>
      have hplace : ∀ gil, p ≠ .outside gil := by
        rintro gil rfl
        exact hout ⟨gil, by rw [hp]; rfl⟩
      by_cases hjoin : ∃ i, p.joins = some i ∧ (s.readers i).pc ≠ .ended
      · obtain ⟨i, hi, hpc⟩ := hjoin
        exact hs.join_nearer hstarted hfree hp hi hpc
      · refine act_nearer hfree hp hplace fun i hi => ?_
        by_cases hpc : (s.readers i).pc = .ended
        · exact hpc
        · exact absurd ⟨i, hi, hpc⟩ hjoin

end

/-! ### All threads get out -/

section
variable {s : LoggerThreads}

/-- The states on the way of the thread, from `s` on. -/
def Toward (s : LoggerThreads) (t : Nat) (s' : LoggerThreads) : Prop :=
  Reachable step initial s' ∧ s'.Free t ∧ ∀ u, s.Outside u → s'.Outside u

/-- The end of the way. The threads that were outside still are. -/
def Emptier (s : LoggerThreads) (t : Nat) (s' : LoggerThreads) : Prop :=
  Reachable step initial s' ∧ s'.singletonMutex_ = none ∧ s'.Outside t ∧
    ∀ u, s.Outside u → s'.Outside u

/-- A thread that finds the mutex free, or has it, can get outside. -/
theorem canReach_outside (hs : Reachable step initial s) {t : Nat} (hfree : s.Free t) :
    CanReach step GoesOn (Emptier s t) s := by
  refine @canReach_of_rank _ _ step GoesOn (Emptier s t) (Toward s t) (rank t) ?_ s
    ⟨hs, hfree, fun _ h => h⟩
  rintro s₁ ⟨hs₁, hfree₁, hothers₁⟩ hgoal
  have hlocked := (reachable_locked hs₁).1
  have hout : ¬ s₁.Outside t := by
    intro hout
    refine hgoal ⟨hs₁, ?_, hout, hothers₁⟩
    -- Outside, nobody has the mutex.
    rw [Option.eq_none_iff_forall_ne_some]
    intro u hu
    obtain rfl := hfree₁ u hu
    have hmutex := (hlocked.mutex u).mp hu
    obtain ⟨gil, hplace⟩ := hout
    cases hth : s₁.threads u with
    | running p | wantsGil p =>
        rw [hth] at hmutex hplace
        have hp : p = .outside gil := hplace
        rw [hp] at hmutex
        cases hmutex
    | wantsMutex p =>
        rw [hth] at hmutex
        cases hmutex
  obtain ⟨l, s₂, hl, hstep, hfree₂, hplaces, hlt⟩ :=
    nearer_step hlocked (reachable_started hs₁) hfree₁ hout
  obtain ⟨ls, hrun⟩ := hs₁
  refine ⟨l, s₂, hl, hstep, ⟨⟨ls ++ [l], run_concat hrun hstep⟩, hfree₂, ?_⟩, hlt⟩
  intro u hu
  obtain ⟨gil, hgil⟩ := hothers₁ u hu
  have hut : u ≠ t := by
    rintro rfl
    exact hout ⟨gil, hgil⟩
  exact ⟨gil, (hplaces u hut).trans hgil⟩

/-- A free mutex is free for everyone. -/
theorem free_of_none (h : s.singletonMutex_ = none) (t : Nat) : s.Free t := by
  intro u hu
  rw [h] at hu
  cases hu

/-- Any thread can get outside, after the one that has the mutex. -/
theorem canReach_emptier (hs : Reachable step initial s) (t : Nat) :
    CanReach step GoesOn (Emptier s t) s := by
  cases hmutex : s.singletonMutex_ with
  | none => exact canReach_outside hs (free_of_none hmutex t)
  | some v =>
      have hfree : s.Free v := fun u hu => by
        rw [hmutex] at hu
        exact (Option.some.inj hu).symm
      refine (canReach_outside hs hfree).trans ?_
      rintro s₁ ⟨hs₁, hnone, -, hothers₁⟩
      refine (canReach_outside hs₁ (free_of_none hnone t)).trans ?_
      rintro s₂ ⟨hs₂, hnone₂, hout₂, hothers₂⟩
      have hgoal : Emptier s t s₂ := ⟨hs₂, hnone₂, hout₂, fun u hu => hothers₂ u (hothers₁ u hu)⟩
      exact .of_goal hgoal

/-- Only finitely many threads have done anything. -/
theorem reachable_outside_from (hs : Reachable step initial s) :
    ∃ n, ∀ t, n ≤ t → s.Outside t := by
  apply hs.invariant (show ∃ n, ∀ t, n ≤ t → initial.Outside t from ⟨0, fun t _ => ⟨false, rfl⟩⟩)
  rintro s₁ l s₂ ⟨n, hn⟩ hstep
  have hkeep : ∀ t, (∀ u, u ≠ t → (s₂.threads u).place = (s₁.threads u).place) →
      ∃ n, ∀ t, n ≤ t → s₂.Outside t := by
    intro t hplaces
    refine ⟨n + t + 1, fun u hu => ?_⟩
    obtain ⟨gil, hgil⟩ := hn u (by omega)
    exact ⟨gil, (hplaces u (by omega)).trans hgil⟩
  cases steps_of_step hstep with
  | @acquireGil t p hp _ | @lockMutex t p hp _ | @preempt t p hp _ =>
      exact hkeep t fun u hu => congrArg Thread.place (setThread_ne _ hu)
  | @act t p call next hp hcall =>
      exact hkeep t fun u hu => by rw [enter_ne hu, (perform_moved hcall).threads]
  | readerMessage _ | readerAcquires _ _ | readerPreempt _ | readerReturns _ | readerEnds _ _ =>
      exact ⟨n, hn⟩

end

end LoggerThreads
end NqmIrimager
