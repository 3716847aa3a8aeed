import Mathlib.Logic.Function.Basic
import NqmIrimager.Definitions

/-!
# `NqmIrimager.LoggerThreads`: threads, the GIL and `singleton_mutex_`

The constructor and the destructor of `Logger` (`logger.cpp`), what they run under
`singleton_mutex_` (`irlogger_to_spd_posix.cpp`), and `LoggerContextManager`, as steps of
any number of Python threads and of one reader thread for each `Logger::impl`.

A `Place` is a point of this code between two steps that other threads can see. Its `gil`
and `mutex` say what a thread holds there, and `joins` which reader thread it waits for.
`enter` takes a thread to its next place: it gives up what the next place does not hold,
and waits for what the thread does not have yet. So the order of the guards
(`gil_scoped_release`, `scoped_lock`, `gil_scoped_acquire`), and of their destructors on
both exits, is the order of the places.

Python code can lose the GIL between any two instructions, so a thread that holds it can
be preempted at any place. A message emitted with the GIL held asks for it again, which
costs nothing; one emitted without it waits for the GIL first.

Two waits that no lock decides are taken to come to an end: that of `stop_thread` for the
thread of the mock's writer, and that of `run_with_timeout` for its thread, both with
`singleton_mutex_` held. When they do is the subject of `NqmIrimager.Proofs.ShutdownEnds`
and `NqmIrimager.Proofs.TimeoutLifetime`. A callback that a reader thread is in can return.
-/

set_option autoImplicit false

namespace NqmIrimager

/-- A `Logger::impl` object, numbered as they are made. Its reader thread has its number. -/
abbrev ImplId := Nat

/-- A Python thread or a reader thread. -/
inductive Party where
  | python (t : Nat)
  | reader (i : ImplId)
deriving DecidableEq, Repr

/-- What a `Logger` is made for: `start()` of a manager, or a Python object of its own. -/
inductive Target where
  | manager (m : Nat)
  | object
deriving DecidableEq, Repr

/-- Where a `Logger` with a `pImpl_` is: in the constructor call of a thread, in `logger_`
of a manager, in a Python object, or in the destructor call of a thread. -/
inductive Owner where
  | constructor (t : Nat)
  | manager (m : Nat)
  | object (i : ImplId)
  | destructor (t : Nat)
deriving DecidableEq, Repr

/-- The owner a constructor call makes the `Logger` for. -/
def Target.owner (i : ImplId) : Target → Owner
  | .manager m => .manager m
  | .object => .object i

/-- The exception of a second `Logger`. -/
def onlySingleInstance : Exception :=
  ⟨.runtimeError,
    ascii "Only a single instance of the Logger should be active at the same time."⟩

/-- A place in the code of a Python thread.

`outside` is everything else: Python code and callbacks with the GIL, other code without.
`implEnter` to `constructed` are the construction of the `impl` and of what it owns; the
`unwind` places are those of an exception in the constructor of `IRLoggerImpl`, where the
reader is destroyed again. `dtorWriter` to `dtorReset` are `~impl`. `stop_thread` is at
`unwindStop` and `unwindJoin`, or at `dtorStop` and `dtorJoin`. -/
inductive Place where
  | outside (gil : Bool)
  | ctorEnter (target : Target)
  | ctorNoGil (target : Target)
  | ctorTest (target : Target)
  | implEnter (target : Target)
  | implCtor (target : Target) (i : ImplId)
  | writerCtor (target : Target) (i : ImplId)
  | writerNoGil (target : Target) (i : ImplId)
  | writerMessage (target : Target) (i : ImplId)
  | unwind (target : Target) (i : ImplId) (e : Exception)
  | unwindStop (target : Target) (i : ImplId) (e : Exception)
  | unwindJoin (target : Target) (i : ImplId) (e : Exception)
  | unwound (target : Target) (i : ImplId) (e : Exception)
  | constructed (target : Target) (i : ImplId)
  | ctorUnlock (target : Target) (result : Except Exception ImplId)
  | ctorUnlocked (target : Target) (result : Except Exception ImplId)
  | ctorExit (target : Target) (result : Except Exception ImplId)
  | dtorEnter (i : ImplId)
  | dtorNoGil (i : ImplId)
  | dtorLocked (i : ImplId)
  | implDrop (i : ImplId)
  | dtorWriter (i : ImplId)
  | writerJoin (i : ImplId)
  | dtorReader (i : ImplId)
  | dtorStop (i : ImplId)
  | dtorJoin (i : ImplId)
  | dtorReset (i : ImplId)
  | dtorUnlock
  | dtorUnlocked

namespace Place

/-- The thread holds the GIL there. -/
def gil : Place → Bool
  | outside gil => gil
  | ctorEnter _ | implEnter _ | implCtor _ _ | writerCtor _ _ | writerMessage _ _
  | unwind _ _ _ | unwound _ _ _ | constructed _ _ | ctorExit _ _ => true
  | dtorEnter _ | implDrop _ | dtorWriter _ | dtorReader _ | dtorReset _ => true
  | ctorNoGil _ | ctorTest _ | writerNoGil _ _ | unwindStop _ _ _ | unwindJoin _ _ _
  | ctorUnlock _ _ | ctorUnlocked _ _ => false
  | dtorNoGil _ | dtorLocked _ | writerJoin _ | dtorStop _ | dtorJoin _ | dtorUnlock
  | dtorUnlocked => false

/-- The thread holds `singleton_mutex_` there. -/
def mutex : Place → Bool
  | outside _ | ctorEnter _ | ctorNoGil _ | ctorUnlocked _ _ | ctorExit _ _ => false
  | dtorEnter _ | dtorNoGil _ | dtorUnlocked => false
  | ctorTest _ | implEnter _ | implCtor _ _ | writerCtor _ _ | writerNoGil _ _
  | writerMessage _ _ | unwind _ _ _ | unwindStop _ _ _ | unwindJoin _ _ _ | unwound _ _ _
  | constructed _ _ | ctorUnlock _ _ => true
  | dtorLocked _ | implDrop _ | dtorWriter _ | writerJoin _ | dtorReader _ | dtorStop _
  | dtorJoin _ | dtorReset _ | dtorUnlock => true

/-- The reader thread whose end `logger_thread_.get()` waits for there. -/
def joins : Place → Option ImplId
  | unwindJoin _ i _ => some i
  | dtorJoin i => some i
  | _ => none

end Place

/-- What a Python thread does: it is at a place, or waits to go on at one. -/
inductive Thread where
  | running (p : Place)
  | wantsGil (p : Place)
  | wantsMutex (p : Place)

/-- The place of a thread, or the one it waits to go on at. -/
def Thread.place : Thread → Place
  | running p => p
  | wantsGil p => p
  | wantsMutex p => p

/-- What a reader thread does. `message` is a callback call, which needs the GIL. -/
inductive ReaderPc where
  | notStarted
  | running
  | wantsGil
  | message
  | ended
deriving DecidableEq, Repr

/-- A reader thread, and the `stop_` flag of its `IRLoggerReader`. -/
structure Reader where
  pc : ReaderPc
  stop_ : Bool
deriving DecidableEq, Repr

/-- The locks, the singleton, the objects and the threads. `impls` are the `Logger::impl`
objects that exist, from the start of their constructor to the end of their destructor,
and `loggers` the `Logger`s with a `pImpl_`. -/
structure LoggerThreads where
  gil : Option Party
  singletonMutex_ : Option Nat
  singleton_ : Option ImplId
  impls : List ImplId
  loggers : List (Owner × ImplId)
  nextImpl : ImplId
  threads : Nat → Thread
  readers : ImplId → Reader

namespace LoggerThreads

/-- No `Logger`, no lock taken, every thread outside and without the GIL. -/
def initial : LoggerThreads where
  gil := none
  singletonMutex_ := none
  singleton_ := none
  impls := []
  loggers := []
  nextImpl := 0
  threads := fun _ => .running (.outside false)
  readers := fun _ => ⟨.notStarted, false⟩

/-- Move one Python thread. -/
def setThread (s : LoggerThreads) (t : Nat) (thread : Thread) : LoggerThreads :=
  { s with threads := Function.update s.threads t thread }

/-- Move one reader thread. -/
def setReader (s : LoggerThreads) (i : ImplId) (reader : Reader) : LoggerThreads :=
  { s with readers := Function.update s.readers i reader }

/-- The guards a thread destroys on the way to the place `q`. -/
def release (s : LoggerThreads) (t : Nat) (q : Place) : LoggerThreads :=
  { s with
    gil := if q.gil = false ∧ s.gil = some (.python t) then none else s.gil
    singletonMutex_ :=
      if q.mutex = false ∧ s.singletonMutex_ = some t then none else s.singletonMutex_ }

/-- Thread `t` goes on at the place `q`, once it has what `q` needs. -/
def enter (s : LoggerThreads) (t : Nat) (q : Place) : LoggerThreads :=
  (s.release t q).setThread t
    (if q.mutex = true ∧ s.singletonMutex_ ≠ some t then .wantsMutex q
     else if q.gil = true ∧ s.gil ≠ some (.python t) then .wantsGil q
     else .running q)

/-- `singleton_.use_count()`. -/
def useCount (s : LoggerThreads) : Nat :=
  match s.singleton_ with
  | none => 0
  | some i => s.loggers.countP fun l => l.2 = i

/-- `pImpl_` of the `Logger` an owner has. -/
def loggerOf (s : LoggerThreads) (o : Owner) : Option ImplId := s.loggers.lookup o

/-- The `Logger` of one owner goes to another one. -/
def reown (s : LoggerThreads) (o o' : Owner) : LoggerThreads :=
  { s with loggers := s.loggers.map fun l => if l.1 = o then (o', l.2) else l }

/-- `logger_` of a manager, or a Python object, gets the `Logger` of a constructor call. A
`Logger` that was there is destroyed next. -/
def assign (s : LoggerThreads) (t : Nat) (target : Target) (i : ImplId) : LoggerThreads × Place :=
  match s.loggerOf (target.owner i) with
  | none => (s.reown (.constructor t) (target.owner i), .outside true)
  | some old =>
      ((s.reown (target.owner i) (.destructor t)).reown (.constructor t) (target.owner i),
        .dtorEnter old)

/-- `logger_ = nullptr` of a manager, or a Python object that is freed. -/
def reset (s : LoggerThreads) (t : Nat) (o : Owner) : LoggerThreads × Place :=
  match s.loggerOf o with
  | none => (s, .outside true)
  | some i => (s.reown o (.destructor t), .dtorEnter i)

end LoggerThreads

/-- What the environment decides about a step inside a constructor or a destructor: the
statement completes, it throws, it gives up the GIL on the way, or it emits a message. -/
inductive Choice where
  | done
  | fails (e : Exception)
  | releases
  | message
deriving DecidableEq, Repr

/-- What a Python thread does next. `delete` frees the Python object of a `Logger`, and
`next` goes on inside a constructor or a destructor. -/
inductive Call where
  | allowThreads
  | reacquire
  | start (m : Nat)
  | stop (m : Nat)
  | newLogger
  | delete (i : ImplId)
  | next (c : Choice)
deriving DecidableEq, Repr

/-- What happens next: a step of one Python thread or of one reader thread. -/
inductive Label where
  | acquireGil (t : Nat)
  | lockMutex (t : Nat)
  | preempt (t : Nat)
  | act (t : Nat) (call : Call)
  | readerMessage (i : ImplId)
  | readerAcquires (i : ImplId)
  | readerPreempt (i : ImplId)
  | readerReturns (i : ImplId)
  | readerEnds (i : ImplId) (threw : Bool)
deriving DecidableEq, Repr

namespace LoggerThreads

/-- `Logger::Logger` and `Logger::~Logger`: what thread `t` does at the place `p`, and the
place it goes on to. `c` is read where the code does not decide. The steps that leave
`writerNoGil`, `dtorWriter` and `writerJoin` are taken after the waits that are assumed to
come to an end: of `run_with_timeout` at the first two, of the mock's `get()` at the third. -/
def advance (s : LoggerThreads) (t : Nat) (c : Choice) : Place → Option (LoggerThreads × Place)
  | .outside _ => none
  | .ctorEnter target => some (s, .ctorNoGil target)
  | .ctorNoGil target => some (s, .ctorTest target)
  | .ctorTest target =>
      if s.useCount ≠ 0 then some (s, .ctorUnlock target (.error onlySingleInstance))
      else some (s, .implEnter target)
  | .implEnter target =>
      some ({ s with impls := s.impls ++ [s.nextImpl], nextImpl := s.nextImpl + 1 },
        .implCtor target s.nextImpl)
  -- `redirect_spd`, and the constructor of `IRLoggerReader`, which starts the thread.
  | .implCtor target i =>
      match c with
      | .fails e => some ({ s with impls := s.impls.erase i }, .ctorUnlock target (.error e))
      | _ => some (s.setReader i ⟨.running, false⟩, .writerCtor target i)
  -- The constructor of `IRLoggerImpl`. That of the mock keeps the GIL.
  | .writerCtor target i =>
      match c with
      | .fails e => some (s, .unwind target i e)
      | .releases => some (s, .writerNoGil target i)
      | _ => some (s, .constructed target i)
  | .writerNoGil target i =>
      match c with
      | .fails e => some (s, .unwind target i e)
      | .message => some (s, .writerMessage target i)
      | _ => some (s, .constructed target i)
  | .writerMessage target i => some (s, .writerNoGil target i)
  | .unwind target i e => some (s, .unwindStop target i e)
  | .unwindStop target i e =>
      some (s.setReader i { s.readers i with stop_ := true }, .unwindJoin target i e)
  | .unwindJoin target i e =>
      if (s.readers i).pc = .ended then some (s, .unwound target i e) else none
  | .unwound target i e =>
      some ({ s with impls := s.impls.erase i }, .ctorUnlock target (.error e))
  | .constructed target i =>
      some ({ s with loggers := s.loggers ++ [(.constructor t, i)], singleton_ := some i },
        .ctorUnlock target (.ok i))
  | .ctorUnlock target result => some (s, .ctorUnlocked target result)
  | .ctorUnlocked target result => some (s, .ctorExit target result)
  | .ctorExit target result =>
      match result with
      | .error _ => some (s, .outside true)
      | .ok i => some (s.assign t target i)
  | .dtorEnter i => some (s, .dtorNoGil i)
  | .dtorNoGil i => some (s, .dtorLocked i)
  | .dtorLocked i => some (s, .implDrop i)
  -- `pImpl_ = nullptr` destroys the `impl` when no other `Logger` has it.
  | .implDrop i =>
      let s' := { s with loggers := s.loggers.erase (.destructor t, i) }
      if s'.loggers.any fun l => l.2 = i then some (s', .dtorUnlock) else some (s', .dtorWriter i)
  | .dtorWriter i =>
      match c with
      | .releases => some (s, .writerJoin i)
      | _ => some (s, .dtorReader i)
  -- `irlogger_mock_thread_.get()` has returned.
  | .writerJoin i => some (s, .dtorReader i)
  | .dtorReader i => some (s, .dtorStop i)
  | .dtorStop i => some (s.setReader i { s.readers i with stop_ := true }, .dtorJoin i)
  | .dtorJoin i => if (s.readers i).pc = .ended then some (s, .dtorReset i) else none
  | .dtorReset i => some ({ s with impls := s.impls.erase i }, .dtorUnlock)
  | .dtorUnlock => some (s, .dtorUnlocked)
  | .dtorUnlocked => some (s, .outside true)

/-- What a call of thread `t` does at the place `p`, and the place it goes on to. Python
code, and so `start()` and `stop()`, runs with the GIL. -/
def perform (s : LoggerThreads) (t : Nat) (p : Place) : Call → Option (LoggerThreads × Place)
  | .next c => s.advance t c p
  | .reacquire => match p with
      | .outside false => some (s, .outside true)
      | _ => none
  | .allowThreads => match p with
      | .outside true => some (s, .outside false)
      | _ => none
  | .start m => match p with
      | .outside true =>
          if (s.loggerOf (.manager m)).isSome then some (s, .outside true)
          else some (s, .ctorEnter (.manager m))
      | _ => none
  | .stop m => match p with
      | .outside true => some (s.reset t (.manager m))
      | _ => none
  | .newLogger => match p with
      | .outside true => some (s, .ctorEnter .object)
      | _ => none
  | .delete i => match p with
      | .outside true => some (s.reset t (.object i))
      | _ => none

/-- One step of one thread. `none`: the thread cannot take it now. -/
def step (s : LoggerThreads) : Label → Option LoggerThreads
  | .acquireGil t => match s.threads t with
      | .wantsGil p =>
          if s.gil = none then some ({ s with gil := some (.python t) }.setThread t (.running p))
          else none
      | _ => none
  | .lockMutex t => match s.threads t with
      | .wantsMutex p =>
          if s.singletonMutex_ = none then
            some ({ s with singletonMutex_ := some t }.setThread t (.running p))
          else none
      | _ => none
  | .preempt t => match s.threads t with
      | .running p =>
          if p.gil then some ({ s with gil := none }.setThread t (.wantsGil p)) else none
      | _ => none
  | .act t call => match s.threads t with
      | .running p => (s.perform t p call).map fun next => next.1.enter t next.2
      | _ => none
  | .readerMessage i =>
      if (s.readers i).pc = .running then
        some (s.setReader i { s.readers i with pc := .wantsGil })
      else none
  | .readerAcquires i =>
      if (s.readers i).pc = .wantsGil ∧ s.gil = none then
        some ({ s with gil := some (.reader i) }.setReader i { s.readers i with pc := .message })
      else none
  | .readerPreempt i =>
      if (s.readers i).pc = .message then
        some ({ s with gil := none }.setReader i { s.readers i with pc := .wantsGil })
      else none
  | .readerReturns i =>
      if (s.readers i).pc = .message then
        some ({ s with gil := none }.setReader i { s.readers i with pc := .running })
      else none
  -- The loop ends when it sees `stop_`, the thread also when its body throws.
  | .readerEnds i threw =>
      if (s.readers i).pc = .running ∧ ((s.readers i).stop_ ∨ threw) then
        some (s.setReader i { s.readers i with pc := .ended })
      else none

end LoggerThreads
end NqmIrimager
