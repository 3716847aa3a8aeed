import Mathlib.Logic.Function.Basic

/-!
# `NqmIrimager.WakeSignal`: `SIGUSR1`, its disposition and the readers of a process

The life of any number of `IRLoggerReader`s in one process, as far as the wake-up signal
of `irlogger_to_spd_posix.cpp` goes. Each reader has two sides:

* its thread stores its handle, sets the signal to be ignored, opens the FIFO, and loops
  until it sees `stop_` or an error;
* its owner, in the destructor, stores `stop_`, loads the handle, sends the signal if the
  handle is not `0`, and joins the thread.

The disposition belongs to the process. It starts as the default, which terminates the
process, and no step sets it back. A signal sent while it is the default is recorded in
`killed`, and nothing is looked at after it: it terminates the process when the thread it
is sent to has not ended. To a thread that has ended `pthread_kill` delivers nothing, so
`killed` errs on the side of the signal.
-/

set_option autoImplicit false

namespace NqmIrimager
namespace WakeSignal

/-- What `SIGUSR1` does to the process. -/
inductive Disposition where
  | default
  | ignore
deriving DecidableEq, Repr

/-- Where the thread of a reader is. -/
inductive ThreadPc where
  | storingHandle
  | settingSignal
  | opening
  | looping
  | ended
deriving DecidableEq, Repr

/-- Where the owner of a reader is. `unborn` is before the constructor. -/
inductive OwnerPc where
  | unborn
  | alive
  | stopStored
  | handleLoaded (threadHandleValue : Nat)
  | joining
  | destroyed
deriving DecidableEq, Repr

/-- An `IRLoggerReader`. -/
structure Reader where
  thread : ThreadPc
  owner : OwnerPc
  stop_ : Bool
  threadHandle_ : Nat
deriving DecidableEq, Repr

/-- The process. `killed`: a signal was sent while its disposition was the default. -/
structure State where
  disposition : Disposition
  killed : Bool
  readers : Nat → Reader

/-- No reader was made yet. -/
def State.initial : State where
  disposition := .default
  killed := false
  readers := fun _ =>
    { thread := .storingHandle, owner := .unborn, stop_ := false, threadHandle_ := 0 }

/-- Change one reader. -/
def State.setReader (s : State) (i : Nat) (r : Reader) : State :=
  { s with readers := Function.update s.readers i r }

/-- Changing a reader leaves the disposition of the process alone. -/
@[simp] theorem setReader_disposition (s : State) (i : Nat) (r : Reader) :
    (s.setReader i r).disposition = s.disposition := rfl

/-- Changing a reader sends no signal. -/
@[simp] theorem setReader_killed (s : State) (i : Nat) (r : Reader) :
    (s.setReader i r).killed = s.killed := rfl

/-- The reader that is set. -/
@[simp] theorem setReader_self (s : State) (i : Nat) (r : Reader) :
    (s.setReader i r).readers i = r := by
  simp [State.setReader]

/-- The other readers stay. -/
theorem setReader_of_ne (s : State) {i j : Nat} (r : Reader) (h : j ≠ i) :
    (s.setReader i r).readers j = s.readers j := by
  simp [State.setReader, h]

/-- A step of the thread. `sigaction`, `open` and the loop can fail; the exception ends
the thread. -/
inductive ThreadLabel where
  | storeHandle
  | sigaction (succeeds : Bool)
  | openFifo (succeeds : Bool)
  | leaveLoop (fails : Bool)
deriving DecidableEq, Repr

/-- A step of the owner. -/
inductive OwnerLabel where
  | create
  | storeStop
  | loadHandle
  | kill
  | join
deriving DecidableEq, Repr

/-- The reader whose thread or owner moves next. -/
inductive Label where
  | thread (i : Nat) (l : ThreadLabel)
  | owner (i : Nat) (l : OwnerLabel)
deriving DecidableEq, Repr

/-- The thread of reader `i`. It runs once the reader is made; `pthread_self()` is not
`0`. -/
def threadStep (s : State) (i : Nat) (l : ThreadLabel) : Option State :=
  let r := s.readers i
  if r.owner = .unborn then none
  else
    match r.thread, l with
    | .storingHandle, .storeHandle =>
        some (s.setReader i { r with thread := .settingSignal, threadHandle_ := i + 1 })
    | .settingSignal, .sigaction true =>
        some ({ s with disposition := .ignore }.setReader i { r with thread := .opening })
    -- `sigaction` fails: the thread throws, and its handle stays published.
    | .settingSignal, .sigaction false => some (s.setReader i { r with thread := .ended })
    | .opening, .openFifo succeeds =>
        some (s.setReader i { r with thread := if succeeds then .looping else .ended })
    -- The loop ends when it sees `stop_`, or with a `poll` or `read` error.
    | .looping, .leaveLoop fails =>
        if r.stop_ ∨ fails then some (s.setReader i { r with thread := .ended }) else none
    | _, _ => none

/-- `pthread_kill(thread_handle_value, SIGUSR1)`. -/
def sendSignal (s : State) : State :=
  match s.disposition with
  | .default => { s with killed := true }
  | .ignore => s

/-- The owner of reader `i`: the constructor and `stop_thread`. -/
def ownerStep (s : State) (i : Nat) (l : OwnerLabel) : Option State :=
  let r := s.readers i
  match r.owner, l with
  | .unborn, .create => some (s.setReader i { r with owner := .alive })
  | .alive, .storeStop => some (s.setReader i { r with owner := .stopStored, stop_ := true })
  | .stopStored, .loadHandle =>
      some (s.setReader i { r with owner := .handleLoaded r.threadHandle_ })
  -- The handle was loaded before: the thread may have moved on since.
  | .handleLoaded threadHandleValue, .kill =>
      let s := if threadHandleValue ≠ 0 then sendSignal s else s
      some (s.setReader i { r with owner := .joining })
  -- `logger_thread_.get()` returns when the thread has ended.
  | .joining, .join =>
      if r.thread = .ended then some (s.setReader i { r with owner := .destroyed }) else none
  | _, _ => none

/-- A step of the process. Nothing runs after the signal has terminated it. -/
def step (s : State) (l : Label) : Option State :=
  if s.killed then none
  else
    match l with
    | .thread i l => threadStep s i l
    | .owner i l => ownerStep s i l

end WakeSignal
end NqmIrimager
