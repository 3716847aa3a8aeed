import NqmIrimager.IRLoggerParser

/-!
# `NqmIrimager.IRLoggerReader`: the loop that reads the FIFO

The body of the `while` loop in `IRLoggerReader::start_thread` and
`PosixFileReadOnly::try_read`, from `irlogger_to_spd_posix.cpp`.

What the operating system answers is an argument: an `Iteration` holds the result of its
`poll` and of its `read`. The bytes of the stream that were not read yet are part of the
state. A `read` takes as many of them as its result says, at most a whole buffer, so
bytes that have not arrived are bytes that no `read` has taken.
-/

set_option autoImplicit false

namespace NqmIrimager

/-- `errno`, as far as the source tells the values apart. `other` has its message. -/
inductive Errno where
  | eintr
  | eagain
  | eexist
  | other (what : Bytes)
deriving DecidableEq, Repr

/-- The message of `std::system_error`. -/
def Errno.what : Errno → Bytes
  | eintr => ascii "Interrupted system call"
  | eagain => ascii "Resource temporarily unavailable"
  | eexist => ascii "File exists"
  | other what => what

/-- The bits of `fifo_pollfd.revents` the loop looks at. -/
structure Revents where
  pollin : Bool
  pollpri : Bool
  pollerr : Bool
deriving DecidableEq, Repr

/-- What `poll` answers. -/
inductive PollResult where
  | timeout
  | failed (errno : Errno)
  | ready (revents : Revents)
deriving DecidableEq, Repr

/-- What `read` answers. -/
inductive ReadResult where
  | bytes (n : Nat)
  | failed (errno : Errno)
deriving DecidableEq, Repr

/-- The answers one turn of the loop gets. The second one is asked for only when there is
something to read. -/
structure Iteration where
  poll : PollResult
  read : ReadResult
deriving DecidableEq, Repr

/-- `std::array<char, 1024>`. -/
def readBufferSize : Nat := 1024

/-- What a `read` with this result takes from the bytes `unread`, and what it leaves.
Transient errors read nothing. -/
def ReadResult.from (result : ReadResult) (unread : Bytes) : Except Errno (Bytes × Bytes) :=
  match result with
  | .bytes n => .ok (unread.take (min n readBufferSize), unread.drop (min n readBufferSize))
  | .failed .eintr => .ok ([], unread)
  | .failed .eagain => .ok ([], unread)
  | .failed errno => .error errno

/-- A read takes its bytes from the front, at most a buffer. -/
theorem ReadResult.from_ok {result : ReadResult} {unread bytes rest : Bytes}
    (h : result.from unread = .ok (bytes, rest)) :
    unread = bytes ++ rest ∧ bytes.length ≤ readBufferSize := by
  unfold ReadResult.from at h
  split at h
  · simp only [Except.ok.injEq, Prod.mk.injEq] at h
    obtain ⟨rfl, rfl⟩ := h
    refine ⟨(List.take_append_drop _ unread).symm, ?_⟩
    rw [List.length_take]
    omega
  · cases h
    exact ⟨rfl, Nat.zero_le _⟩
  · cases h
    exact ⟨rfl, Nat.zero_le _⟩
  · cases h

/-- The reader thread: the stream behind its file descriptor, its parser, and what it
logged itself. -/
structure IRLoggerReader (N : Nat) (σ : Type) where
  socketPath : Bytes
  unread : Bytes
  irLoggerParser_ : IRLoggerParser N σ
  logged : List (LogLevel × Bytes)

namespace IRLoggerReader

variable {N : Nat} {σ : Type}

/-- A reader before its first turn. -/
def start (socketPath stream : Bytes) (data : Vector Byte N) (world : σ) : IRLoggerReader N σ where
  socketPath := socketPath
  unread := stream
  irLoggerParser_ := .fresh data world
  logged := []

/-- A message through `spdlog`. -/
def log (r : IRLoggerReader N σ) (level : LogLevel) (text : Bytes) : IRLoggerReader N σ :=
  { r with logged := r.logged ++ [(level, text)] }

/-- `try_read(read_buffer)`: the bytes it reads. -/
def tryRead (r : IRLoggerReader N σ) (result : ReadResult) : Outcome (IRLoggerReader N σ) Bytes :=
  match result.from r.unread with
  | .ok (bytes, unread) => .returned bytes { r with unread := unread }
  | .error errno =>
      .threw ⟨.systemError, errno.what⟩
        (r.log .error (ascii "Failed to read file at " ++ r.socketPath ++ ascii " due to "
          ++ errno.what))

/-- `handle_bytes`. -/
def handleBytes [NeZero N] (callback : LoggingCallback σ) (r : IRLoggerReader N σ)
    (bytes : Bytes) : Outcome (IRLoggerReader N σ) Unit :=
  match r.irLoggerParser_.pushData callback bytes with
  | .returned _ p => .returned () { r with irLoggerParser_ := p }
  | .threw e p => .threw e { r with irLoggerParser_ := p }

/-- One turn of the loop. -/
def loopBody [NeZero N] (callback : LoggingCallback σ) (r : IRLoggerReader N σ)
    (it : Iteration) : Outcome (IRLoggerReader N σ) Unit :=
  match it.poll with
  -- `continue`: the next turn tests `stop_` again.
  | .timeout => .returned () r
  | .failed .eintr => .returned () r
  | .failed errno =>
      .threw ⟨.systemError, errno.what⟩
        (r.log .error (ascii "polling FIFO file at " ++ r.socketPath ++ ascii " failed due to "
          ++ errno.what))
  | .ready revents =>
      -- `POLLERR` is logged and does not end the turn.
      let r :=
        if revents.pollerr then
          r.log .warn (ascii "polling FIFO file at " ++ r.socketPath ++ ascii " got POLLERR")
        else r
      if revents.pollin || revents.pollpri then
        (tryRead r it.read).bind fun bytes r =>
          if bytes.length > 0 then handleBytes callback r bytes else .returned () r
      else .returned () r

end IRLoggerReader
end NqmIrimager
