import NqmIrimager.Chrono
import NqmIrimager.IRLoggerReader

/-!
# `NqmIrimager.ReaderThread`: a reader from its constructor to its destructor

`IRLoggerReader` and `PosixFileReadOnly` of `irlogger_to_spd_posix.cpp`, around the loop of
`NqmIrimager.IRLoggerReader`: `start_thread` with the function its thread runs, the file
descriptor that this function owns, and `~IRLoggerReader`, which takes what the thread left in
its future.

The answers of the operating system are a `ReaderEnv`. `calls` records what was asked for and
what the answer was.
-/

set_option autoImplicit false

namespace NqmIrimager

/-- What the operating system answers to one `IRLoggerReader`. `none` is success. `turns` are
the turns of the loop before the test that finds `stop_` set, and `close i` is the answer to
the `close` of turn `i` of the retry loop. -/
structure ReaderEnv where
  mkfifo : Option Errno
  startThread : Option Errno
  sigaction : Option Errno
  openFile : Option Errno
  turns : List Iteration
  close : Nat → Option Errno

/-- A call to the operating system, with its answer. -/
inductive SystemCall where
  | mkfifo (answer : Option Errno)
  | startThread (answer : Option Errno)
  | sigaction (answer : Option Errno)
  | openFile (answer : Option Errno)
  | poll (result : PollResult)
  | read (result : ReadResult)
  | close (i : Nat) (answer : Option Errno)
deriving DecidableEq, Repr

/-- An `IRLoggerReader`, and the calls made for it so far. -/
structure ReaderThread (N : Nat) (σ : Type) where
  reader : IRLoggerReader N σ
  calls : List SystemCall

namespace ReaderThread

variable {N : Nat} {σ : Type}

/-- A reader that is about to be constructed. -/
def start (socketPath stream : Bytes) (data : Vector Byte N) (world : σ) : ReaderThread N σ where
  reader := .start socketPath stream data world
  calls := []

/-- A message through `spdlog`. -/
def log (t : ReaderThread N σ) (level : LogLevel) (text : Bytes) : ReaderThread N σ :=
  { t with reader := t.reader.log level text }

/-- A call was answered. -/
def called (t : ReaderThread N σ) (call : SystemCall) : ReaderThread N σ :=
  { t with calls := t.calls ++ [call] }

/-- A message is kept in the reader. -/
@[simp] theorem reader_log (t : ReaderThread N σ) (level : LogLevel) (text : Bytes) :
    (t.log level text).reader = t.reader.log level text := rfl

/-- A message is no system call. -/
@[simp] theorem calls_log (t : ReaderThread N σ) (level : LogLevel) (text : Bytes) :
    (t.log level text).calls = t.calls := rfl

/-- A system call leaves the reader alone. -/
@[simp] theorem reader_called (t : ReaderThread N σ) (call : SystemCall) :
    (t.called call).reader = t.reader := rfl

/-- A system call is added to those made so far. -/
@[simp] theorem calls_called (t : ReaderThread N σ) (call : SystemCall) :
    (t.called call).calls = t.calls ++ [call] := rfl

/-- A `std::system_error` is made from `errno`, logged after `text`, and thrown. -/
def fails (t : ReaderThread N σ) (text : Bytes) (errno : Errno) : Outcome (ReaderThread N σ) Unit :=
  .threw ⟨.systemError, errno.what⟩ (t.log .error (text ++ ascii " due to " ++ errno.what))

/-! ### `PosixFileReadOnly` -/

/-- Its constructor. -/
def openFile (env : ReaderEnv) (t : ReaderThread N σ) : Outcome (ReaderThread N σ) Unit :=
  let t := t.called (.openFile env.openFile)
  match env.openFile with
  | some errno => t.fails (ascii "Failed to open file at " ++ t.reader.socketPath) errno
  | none => .returned () t

/-- `MAX_RETRIES`. -/
def maxRetries : Nat := 128

/-- The loop of its destructor, from turn `i` on with this many turns to go. -/
def closeFrom (env : ReaderEnv) : Nat → Nat → ReaderThread N σ → ReaderThread N σ
  | _, 0, t =>
      t.log .error (ascii "Failed to close file at " ++ t.reader.socketPath ++ ascii " after "
        ++ Chrono.decimal maxRetries ++ ascii " iterations due to " ++ Errno.eintr.what)
  | i, left + 1, t =>
      let t := t.called (.close i (env.close i))
      match env.close i with
      | none => t
      | some .eintr => closeFrom env (i + 1) left t
      | some errno =>
          t.log .error (ascii "Failed to close file at " ++ t.reader.socketPath
            ++ ascii " due to " ++ errno.what)

/-- Its destructor. -/
def closeFile (env : ReaderEnv) (t : ReaderThread N σ) : ReaderThread N σ :=
  closeFrom env 0 maxRetries t

/-! ### `start_thread` -/

/-- `mkfifo`, where a file that exists already is fine. -/
def makeFifo (env : ReaderEnv) (t : ReaderThread N σ) : Outcome (ReaderThread N σ) Unit :=
  let t := t.log .debug (ascii "Making FIFO at " ++ t.reader.socketPath ++ ascii " for logging")
  let t := t.called (.mkfifo env.mkfifo)
  match env.mkfifo with
  | some errno =>
      if errno ≠ .eexist then
        t.fails (ascii "IRLoggerReader failed to create pipe at " ++ t.reader.socketPath) errno
      else .returned () t
  | none => .returned () t

/-- `std::async(std::launch::async, ..)`. The reader has no message for its exception. -/
def startAsync (env : ReaderEnv) (t : ReaderThread N σ) : Outcome (ReaderThread N σ) Unit :=
  let t := t.log .debug (ascii "starting thread")
  let t := t.called (.startThread env.startThread)
  match env.startThread with
  | some errno => .threw ⟨.systemError, errno.what⟩ t
  | none => .returned () t

/-- The thread starts, and ignores `SIGUSR1`. -/
def ignoreSignal (env : ReaderEnv) (t : ReaderThread N σ) : Outcome (ReaderThread N σ) Unit :=
  let t := t.log .debug (ascii "Started new thread to read from " ++ t.reader.socketPath)
  let t := t.called (.sigaction env.sigaction)
  match env.sigaction with
  | some errno =>
      t.fails (ascii "IRLoggerReader failed to create SIGUSR1 signal handler") errno
  | none => .returned () t

/-- The calls that a turn of the loop makes. -/
def turnCalls (it : Iteration) : List SystemCall :=
  match it.poll with
  | .ready revents =>
      if revents.pollin || revents.pollpri then [.poll it.poll, .read it.read] else [.poll it.poll]
  | _ => [.poll it.poll]

section
variable [NeZero N] (callback : LoggingCallback σ)

/-- A turn of the loop. -/
def turn (t : ReaderThread N σ) (it : Iteration) : Outcome (ReaderThread N σ) Unit :=
  (t.reader.loopBody callback it).mapState fun reader =>
    { reader := reader, calls := t.calls ++ turnCalls it }

/-- `while (stop_ == false)`. -/
def loop (t : ReaderThread N σ) : List Iteration → Outcome (ReaderThread N σ) Unit
  | [] => .returned () t
  | it :: its => (turn callback t it).bind fun _ t => loop t its

/-- The function that the thread runs. -/
def threadBody (env : ReaderEnv) (t : ReaderThread N σ) : Outcome (ReaderThread N σ) Unit :=
  (t.ignoreSignal env).bind fun _ t =>
    (t.openFile env).bind fun _ t =>
      -- `fifo_pipe` is destroyed when the loop ends and when an exception leaves it.
      (loop callback t env.turns).mapState (closeFile env)

/-! ### `IRLoggerReader` -/

/-- `~IRLoggerReader`. `logger_thread_.get()` throws what the thread threw. -/
def destroy : Outcome (ReaderThread N σ) Unit → ReaderThread N σ
  | .returned _ t => t
  | .threw e t => t.log .error (ascii "IRLoggerReader thread crashed: " ++ e.what)

/-- The constructor, the thread and the destructor. When the constructor throws, there is
nothing to destroy. -/
def life (env : ReaderEnv) (t : ReaderThread N σ) : Outcome (ReaderThread N σ) Unit :=
  (t.makeFifo env).bind fun _ t =>
    (t.startAsync env).bind fun _ t => .returned () (destroy (threadBody callback env t))

end
end ReaderThread
end NqmIrimager
