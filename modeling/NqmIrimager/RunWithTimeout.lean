import NqmIrimager.Definitions

/-!
# `NqmIrimager.RunWithTimeout`: a function on a thread of its own, with a timeout

`run_with_timeout`, and the constructor and the destructor of `IRLoggerImpl`, in `irlogger_to_spd_posix.cpp`.
Two parties move in any order:

* the worker thread runs the `packaged_task`: the function, then the store of its result in
  the shared state, then the end of the thread;
* the caller waits for the result. When `wait_for` gives up, it cancels the thread and joins
  it.

The function is a state and what it does next in each state. Cancellation is the deferred
one of POSIX: a request can be acted on only where the function is at a cancellation point.
A function that is at one with a request pending need not act on it (it may have got what it
was blocked for).
-/

set_option autoImplicit false

namespace NqmIrimager
namespace RunWithTimeout

/-- How a function ends: it returns or throws. -/
abbrev Result := Except Exception Unit

/-- What the function does next. -/
inductive Turn (σ : Type) where
  | goesOn (cancellationPoint : Bool) (next : σ)
  | ends (result : Result)

/-- Where the worker thread is. In `finished` the function has ended, but the future is not
ready yet. -/
inductive Worker (σ : Type) where
  | running (s : σ)
  | finished (result : Result)
  | published (result : Result)
  | exited (result : Result)
  | cancelled
deriving DecidableEq

/-- `std::future_status`. -/
inductive FutureStatus where
  | ready
  | timeout
  | deferred
deriving DecidableEq, Repr

/-- How `run_with_timeout` ends: it returns, or it throws the exception of the function or
one of its own. -/
inductive Report where
  | returned (status : FutureStatus)
  | rethrew (e : Exception)
  | threw (e : Exception)
deriving DecidableEq, Repr

/-- Where the caller is. -/
inductive Caller where
  | waiting
  | joining
  | getting
  | cancelling
  | joiningCancelled
  | ended (report : Report)
deriving DecidableEq, Repr

/-- Both parties, and whether a cancellation was requested. -/
structure State (σ : Type) where
  worker : Worker σ
  cancelPending : Bool
  caller : Caller
deriving DecidableEq

variable {σ : Type}

/-- The thread is started, and the caller is in `wait_for`. -/
def State.initial (start : σ) : State σ where
  worker := .running start
  cancelPending := false
  caller := .waiting

/-- The result in the shared state of the future. -/
def Worker.stored : Worker σ → Option Result
  | .published result => some result
  | .exited result => some result
  | _ => none

/-- The thread has ended, so a `join` returns. -/
def Worker.over : Worker σ → Bool
  | .exited _ => true
  | .cancelled => true
  | _ => false

/-- What the worker does next. -/
inductive WorkerLabel where
  | work
  | actOnCancel
  | publish
  | exit
deriving DecidableEq, Repr

/-- What the caller does next, with the answers it gets. A `pthread_cancel` that fails comes with
the message of `errno`. -/
inductive CallerLabel where
  | waitReturns (status : FutureStatus)
  | join
  | get
  | cancel
  | cancelFails (errnoMessage : Bytes)
deriving DecidableEq, Repr

/-- The party that moves next. -/
inductive Label where
  | worker (l : WorkerLabel)
  | caller (l : CallerLabel)
deriving DecidableEq, Repr

/-- A step of the worker thread. -/
def workerStep (function : σ → Turn σ) (s : State σ) : WorkerLabel → Option (State σ)
  | .work =>
      match s.worker with
      | .running t =>
          match function t with
          | .goesOn _ t' => some { s with worker := .running t' }
          | .ends result => some { s with worker := .finished result }
      | _ => none
  | .actOnCancel =>
      match s.worker with
      | .running t =>
          match function t with
          | .goesOn true _ => if s.cancelPending then some { s with worker := .cancelled } else none
          | _ => none
      | _ => none
  | .publish =>
      match s.worker with
      | .finished result => some { s with worker := .published result }
      | _ => none
  | .exit =>
      match s.worker with
      | .published result => some { s with worker := .exited result }
      | _ => none

/-- What `wait_for` can return. The future of a `packaged_task` is never deferred. -/
def State.WaitReturns (s : State σ) : FutureStatus → Prop
  | .ready => s.worker.stored.isSome
  | .timeout => s.worker.stored = none
  | .deferred => False

instance (s : State σ) : ∀ status, Decidable (s.WaitReturns status)
  | .ready => inferInstanceAs (Decidable (s.worker.stored.isSome = true))
  | .timeout => inferInstanceAs (Decidable (s.worker.stored = none))
  | .deferred => inferInstanceAs (Decidable False)

/-- The `switch`. -/
def afterWait : FutureStatus → Caller
  | .ready => .joining
  | .deferred => .ended (.threw ⟨.other, ascii "deferred"⟩)
  | .timeout => .cancelling

/-- `future.get()`. -/
def reportOf : Result → Report
  | .ok _ => .returned .ready
  | .error e => .rethrew e

/-- The `std::system_error` of a `pthread_cancel` that failed. Its `what()` is the text it was given,
then the message of `errno`, which `pthread_cancel` itself need not have set. -/
def failedToStop (errnoMessage : Bytes) : Exception :=
  ⟨.systemError, ascii "Failed to stop thread after timeout: " ++ errnoMessage⟩

/-- A step of `run_with_timeout`. -/
def callerStep (s : State σ) : CallerLabel → Option (State σ)
  | .waitReturns status =>
      if s.caller = .waiting ∧ s.WaitReturns status then
        some { s with caller := afterWait status }
      else none
  | .join =>
      if s.worker.over then
        match s.caller with
        | .joining => some { s with caller := .getting }
        | .joiningCancelled => some { s with caller := .ended (.returned .timeout) }
        | _ => none
      else none
  | .get =>
      if s.caller = .getting then
        s.worker.stored.map fun result => { s with caller := .ended (reportOf result) }
      else none
  | .cancel =>
      if s.caller = .cancelling then
        some { s with cancelPending := true, caller := .joiningCancelled }
      else none
  -- The thread is detached.
  | .cancelFails errnoMessage =>
      if s.caller = .cancelling then
        some { s with caller := .ended (.threw (failedToStop errnoMessage)) }
      else none

/-- A step of either party. -/
def step (function : σ → Turn σ) (s : State σ) : Label → Option (State σ)
  | .worker l => workerStep function s l
  | .caller l => callerStep s l

/-- How the constructor of `IRLoggerImpl` ends, where `function` is
`evo::IRLogger::setVerbosity`. A `throw new` throws a pointer, which is no
`std::exception`. -/
def irLoggerImpl : Report → Except Exception Unit
  | .returned .timeout =>
      .error ⟨.other, ascii "Timeout when calling evo::IRLogger::setVerbosity"⟩
  | .returned _ => .ok ()
  | .rethrew e => .error e
  | .threw e => .error e

/-- How a destructor ends, with its error message. An exception that leaves it terminates the
process. -/
inductive Destruction where
  | completed (message : Option Bytes)
  | terminated
deriving DecidableEq, Repr

/-- How the destructor of `IRLoggerImpl` ends. -/
def destroyIrLoggerImpl : Report → Destruction
  | .returned .timeout => .completed (some (ascii "Timeout when trying to stop evo::IRLogger"))
  | .returned _ => .completed none
  | .rethrew _ => .terminated
  | .threw _ => .terminated

end RunWithTimeout
end NqmIrimager
