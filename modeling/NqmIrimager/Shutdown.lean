import NqmIrimager.IRLoggerReader

/-!
# `NqmIrimager.Shutdown`: the reader thread, the writer and the destructor

`IRLoggerToSpd::impl` as three parties of `irlogger_to_spd_posix.cpp` that move in any
order:

* the thread of `IRLoggerReader`: `open`, then turns of test `stop_`, `poll`, `read`,
  `push_data`;
* the writer at the other end of the FIFO: its `open` waits until a reader has opened it too;
  then it writes any bytes any number of times, and ends;
* the owner, in the destructor of `impl`. Members go in reverse order, so
  `~IRLoggerImpl` first: it waits for the writer. Then `~IRLoggerReader`: store `stop_`,
  interrupt the thread, wait for it.

The FIFO is a queue of bytes. `written`, `passed` and `unreadAtStop` record what
happened; no step reads them.
-/

set_option autoImplicit false

namespace NqmIrimager
namespace Shutdown

/-- Where the thread of `IRLoggerReader` is. -/
inductive ReaderPc where
  | opening
  | testing
  | polling
  | reading
  | pushing (bytes : Bytes)
  | ended
deriving DecidableEq, Repr

/-- Where the writer is. `opening` is before its `open`, and `waiting` is in an `open` that was
called when no reader had opened the FIFO yet. -/
inductive WriterPc where
  | opening
  | waiting
  | writing
  | ended
deriving DecidableEq, Repr

/-- Where the owner is. `alive` is before the destructor, `destroyed` after it. -/
inductive OwnerPc where
  | alive
  | stoppingWriter
  | writerDestroyed
  | stopping
  | interrupting
  | destroyed
deriving DecidableEq, Repr

/-- `IRLoggerToSpd::impl` and its FIFO. `readerOpened` is what the operating system knows: a reader
has opened the FIFO. -/
structure State where
  fifo : Bytes
  readerOpened : Bool
  stop_ : Bool
  reader : ReaderPc
  writer : WriterPc
  owner : OwnerPc
  written : Bytes
  passed : Bytes
  unreadAtStop : Bytes
deriving DecidableEq, Repr

/-- After the constructor: both threads are started and nothing is open. -/
def State.initial : State where
  fifo := []
  readerOpened := false
  stop_ := false
  reader := .opening
  writer := .opening
  owner := .alive
  written := []
  passed := []
  unreadAtStop := []

/-- What the reader does next, with the answer it gets from the operating system. -/
inductive ReaderLabel where
  | opens (opened : Bool)
  | test
  | poll (result : PollResult)
  | read (result : ReadResult)
  | push
deriving DecidableEq, Repr

/-- What the writer does next. -/
inductive WriterLabel where
  | waits
  | opens
  | write (bytes : Bytes)
  | finish
deriving DecidableEq, Repr

/-- What the destructor does next. -/
inductive OwnerLabel where
  | stopWriter
  | joinWriter
  | stopReader
  | interruptReader
  | joinReader
deriving DecidableEq, Repr

/-- The party that moves next. -/
inductive Label where
  | reader (l : ReaderLabel)
  | writer (l : WriterLabel)
  | owner (l : OwnerLabel)
deriving DecidableEq, Repr

/-- `poll` and the tests of its result. An error that is not `EINTR` ends the thread. -/
def afterPoll : PollResult → ReaderPc
  | .timeout => .testing
  | .failed .eintr => .testing
  | .failed _ => .ended
  | .ready revents => if revents.pollin || revents.pollpri then .reading else .testing

/-- `read`, and whether there is anything to handle. -/
def afterRead (s : State) (result : ReadResult) : State :=
  match result.from s.fifo with
  | .error _ => { s with reader := .ended }
  | .ok ([], fifo) => { s with reader := .testing, fifo := fifo }
  | .ok (bytes, fifo) => { s with reader := .pushing bytes, fifo := fifo }

/-- A step of the reader thread. -/
def readerStep (s : State) : ReaderLabel → Option State
  | .opens opened =>
      if s.reader = .opening then
        some { s with reader := if opened then .testing else .ended, readerOpened := opened }
      else none
  -- `while (stop_ == false)`: the only place where the thread looks at `stop_`.
  | .test =>
      if s.reader = .testing then
        some { s with reader := if s.stop_ then .ended else .polling }
      else none
  | .poll result =>
      if s.reader = .polling then some { s with reader := afterPoll result } else none
  | .read result => if s.reader = .reading then some (afterRead s result) else none
  -- `handle_bytes`, then the end of the turn.
  | .push =>
      match s.reader with
      | .pushing bytes => some { s with reader := .testing, passed := s.passed ++ bytes }
      | _ => none

/-- A step of the writer. The `open` of a FIFO for writing returns when a reader has it open, or has
opened it since the `open` was called. The reader opens it once, so an `open` that is called after
the end of the reader does not return. -/
def writerStep (s : State) : WriterLabel → Option State
  | .waits =>
      if s.writer = .opening ∧ s.reader = .opening then some { s with writer := .waiting } else none
  | .opens =>
      if (s.writer = .opening ∧ s.reader ≠ .opening ∧ s.reader ≠ .ended) ∨
          (s.writer = .waiting ∧ s.readerOpened = true) then
        some { s with writer := .writing }
      else none
  | .write bytes =>
      if s.writer = .writing then
        some { s with fifo := s.fifo ++ bytes, written := s.written ++ bytes }
      else none
  | .finish => if s.writer = .writing then some { s with writer := .ended } else none

/-- A step of the destructor. -/
def ownerStep (s : State) : OwnerLabel → Option State
  | .stopWriter => if s.owner = .alive then some { s with owner := .stoppingWriter } else none
  -- `~IRLoggerImpl` returns.
  | .joinWriter =>
      if s.owner = .stoppingWriter ∧ s.writer = .ended then
        some { s with owner := .writerDestroyed }
      else none
  | .stopReader =>
      if s.owner = .writerDestroyed then
        some { s with owner := .stopping, stop_ := true, unreadAtStop := s.fifo }
      else none
  -- `pthread_kill`, whether or not it interrupts anything.
  | .interruptReader =>
      if s.owner = .stopping then some { s with owner := .interrupting } else none
  -- `logger_thread_.get()`, and `~IRLoggerReader` returns.
  | .joinReader =>
      if s.owner = .interrupting ∧ s.reader = .ended then some { s with owner := .destroyed }
      else none

/-- A step of one party. -/
def step (s : State) : Label → Option State
  | .reader l => readerStep s l
  | .writer l => writerStep s l
  | .owner l => ownerStep s l

end Shutdown
end NqmIrimager
