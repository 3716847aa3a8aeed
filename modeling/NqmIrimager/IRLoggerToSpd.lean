import NqmIrimager.Chrono
import NqmIrimager.Shutdown

/-!
# `NqmIrimager.IRLoggerToSpd`: the log from the writer to the callback

`IRLoggerToSpd::impl` of `irlogger_to_spd_posix.cpp`, with the parser its reader owns. The
threads and the FIFO are those of `NqmIrimager.Shutdown`; here the bytes of `handle_bytes` go
to `push_data`, and an exception that leaves it ends the thread.

`step` has any writer at the other end of the FIFO. `MockedIRLogger.step` has the
`IRLoggerImpl` of the mocked build: a thread with a program of its own, which writes one line
for each second until its `stop_` is set.
-/

set_option autoImplicit false

namespace NqmIrimager

/-- `IRLoggerToSpd::impl`: its threads with the FIFO, and the parser of its reader. -/
structure IRLoggerToSpd (N : Nat) (σ : Type) where
  threads : Shutdown.State
  irLoggerParser_ : IRLoggerParser N σ

namespace IRLoggerToSpd

variable {N : Nat} {σ : Type}

/-- After the constructor. -/
def initial (data : Vector Byte N) (world : σ) : IRLoggerToSpd N σ where
  threads := .initial
  irLoggerParser_ := .fresh data world

/-- `handle_bytes(bytes)`, after the threads have moved on. -/
def handleBytes [NeZero N] (callback : LoggingCallback σ) (s : IRLoggerToSpd N σ)
    (threads : Shutdown.State) (bytes : Bytes) : IRLoggerToSpd N σ :=
  match s.irLoggerParser_.pushData callback bytes with
  | .returned _ p => { threads := threads, irLoggerParser_ := p }
  -- The exception leaves the loop, and the future keeps it.
  | .threw _ p => { threads := { threads with reader := .ended }, irLoggerParser_ := p }

/-- A step of one party. Only `push_data` concerns the parser. -/
def step [NeZero N] (callback : LoggingCallback σ) (s : IRLoggerToSpd N σ)
    (l : Shutdown.Label) : Option (IRLoggerToSpd N σ) :=
  match Shutdown.step s.threads l with
  | none => none
  | some threads =>
      match l, s.threads.reader with
      | .reader .push, .pushing bytes => some (s.handleBytes callback threads bytes)
      | _, _ => some { s with threads := threads }

end IRLoggerToSpd

/-! ### `IRLoggerImpl` of the mocked build -/

/-- The line that `irlogger_mock_thread_` writes first. -/
def mockFirstLine : Bytes :=
  ascii "WARNING [irlogger_to_spd_posix.cpp:" ++ Chrono.decimal 310
    ++ ascii "] @ 0.01s :Mocking IRLogger output." ++ [newline]

/-- The line of the `i`th turn of its loop. -/
def mockLoopLine (i : Nat) : Bytes :=
  ascii "DEBUG [irlogger_to_spd_posix.cpp:" ++ Chrono.decimal 313 ++ ascii "] @ "
    ++ Chrono.decimal i ++ ascii "s :This is some dummy mocked IRLogger output." ++ [newline]

/-- The bound of its loop. -/
def mockTurns : Nat := 3600

/-- Where `irlogger_mock_thread_` is. -/
inductive MockPc where
  | opening
  | greeting
  | testing (i : Nat)
  | writing (i : Nat)
  | sleeping (i : Nat)
  | ended
deriving DecidableEq, Repr

/-- What it does next, with the answers it gets: that `out` has to wait for a reader, whether it
opens, and how many bytes of a line reach the file. -/
inductive MockLabel where
  | waits
  | opens (succeeds : Bool)
  | writes (n : Nat)
  | tests
  | wakes
deriving DecidableEq, Repr

/-- `IRLoggerToSpd::impl` in the mocked build. `outGood` is the state of the stream `out`,
and `stop_` the flag of `IRLoggerImpl`. -/
structure MockedIRLogger (N : Nat) (σ : Type) where
  impl : IRLoggerToSpd N σ
  mock : MockPc
  outGood : Bool
  stop_ : Bool

/-- The party that moves next. -/
inductive MockedLabel where
  | reader (l : Shutdown.ReaderLabel)
  | owner (l : Shutdown.OwnerLabel)
  | mock (l : MockLabel)
deriving DecidableEq, Repr

namespace MockedIRLogger

variable {N : Nat} {σ : Type}

/-- After the constructor. -/
def initial (data : Vector Byte N) (world : σ) : MockedIRLogger N σ where
  impl := .initial data world
  mock := .opening
  outGood := false
  stop_ := false

/-- The thread of the writer moves on. -/
def mockMoves (s : MockedIRLogger N σ) (pc : MockPc) (writer : Shutdown.WriterPc) :
    MockedIRLogger N σ :=
  { s with
    mock := pc
    impl := { s.impl with threads := { s.impl.threads with writer := writer } } }

/-- `out << line`, of which `n` bytes reach the FIFO. Once a write has failed, `out` writes
nothing any more. -/
def put (s : MockedIRLogger N σ) (line : Bytes) (n : Nat) (pc : MockPc) :
    Option (MockedIRLogger N σ) :=
  if s.outGood then
    (Shutdown.writerStep s.impl.threads (.write (line.take n))).map fun threads =>
      { s with
        mock := pc
        impl := { s.impl with threads := threads }
        outGood := decide (line.length ≤ n) }
  else some { s with mock := pc }

/-- A step of `irlogger_mock_thread_`. -/
def mockStep (s : MockedIRLogger N σ) : MockLabel → Option (MockedIRLogger N σ)
  | .waits =>
      match s.mock with
      | .opening =>
          (Shutdown.writerStep s.impl.threads .waits).map fun threads =>
            { s with impl := { s.impl with threads := threads } }
      | _ => none
  | .opens succeeds =>
      match s.mock with
      | .opening =>
          if succeeds then
            (Shutdown.writerStep s.impl.threads .opens).map fun threads =>
              { s with mock := .greeting, impl := { s.impl with threads := threads },
                       outGood := true }
          -- `std::ofstream` does not throw: the thread goes on with a stream that failed.
          else some (s.mockMoves .greeting .writing)
      | _ => none
  | .writes n =>
      match s.mock with
      | .greeting => s.put mockFirstLine n (.testing 0)
      | .writing i => s.put (mockLoopLine i) n (.sleeping i)
      | _ => none
  | .tests =>
      match s.mock with
      | .testing i =>
          if i < mockTurns ∧ s.stop_ = false then some { s with mock := .writing i }
          else some (s.mockMoves .ended .ended)
      | _ => none
  | .wakes =>
      match s.mock with
      | .sleeping i => some { s with mock := .testing (i + 1) }
      | _ => none

/-- A step of one party. `~IRLoggerImpl` sets the flag of the writer before it waits. -/
def step [NeZero N] (callback : LoggingCallback σ) (s : MockedIRLogger N σ) :
    MockedLabel → Option (MockedIRLogger N σ)
  | .reader l => (s.impl.step callback (.reader l)).map fun impl => { s with impl := impl }
  | .owner l =>
      (s.impl.step callback (.owner l)).map fun impl =>
        { s with impl := impl, stop_ := s.stop_ || decide (l = .stopWriter) }
  | .mock l => s.mockStep l

end MockedIRLogger
end NqmIrimager
