import Mathlib.Algebra.Ring.Nat
import NqmIrimager.Lib.Pattern
import NqmIrimager.StringRingBuffer

/-!
# `NqmIrimager.IRLoggerParser`: from bytes of the log file to callback calls

`irlogger_parser.cpp` and the class of `irlogger_parser.hpp`. The capacity
`STRING_BUFFER_SIZE` is the parameter `N` of the functions below, and `stringBufferSize`
is the value the source gives it.

The callback is a parameter too, with the state `σ` it carries. A parser value holds the
buffer, that state, and a `trace` of what the functions do in order: lines removed from
the buffer, contents shown in an overflow warning, callback calls. Nothing reads the
trace; the theorems speak about it.

`push_data` ends in a call of itself. `pushBody` is one activation up to that call, and
`pushData` makes the call.
-/

set_option autoImplicit false

namespace NqmIrimager

/-! ### `parse_line` -/

/-- `\w` in the C locale. -/
def isWord (c : Byte) : Bool :=
  (ascii "ABCDEFGHIJKLMNOPQRSTUVWXYZabcdefghijklmnopqrstuvwxyz0123456789_").contains c

/-- `[\w.:\d]`. -/
def isLocation (c : Byte) : Bool := isWord c || (ascii ".:").contains c

/-- `[\d\.]`. -/
def isTime (c : Byte) : Bool := (ascii "0123456789.").contains c

/-- `.`: any byte but the line terminators. -/
def isAny (c : Byte) : Bool := !(c == newline || c == 13)

/-- The regular expression of `parse_line`,
`(\w+)\ \[([\w.:\d]*)\]\ \@\ ([\d\.]+s)\ :(.*)`. -/
def lineRegex : Pattern Byte :=
  .concat
    [.group (.some isWord), .literal (ascii " ["), .group (.many isLocation),
      .literal (ascii "] @ "), .group (.seq (.some isTime) (.literal (ascii "s"))),
      .literal (ascii " :"), .group (.many isAny)]

/-- `parse_ir_logger_log_level`. -/
def parseIrLoggerLogLevel (name : Bytes) : Option LogLevel :=
  if name = ascii "DEBUG" then some .debug
  else if name = ascii "INFO" then some .info
  else if name = ascii "WARNING" then some .warn
  else if name = ascii "ERROR" then some .error
  else none

/-- `parse_line`. A group that does not exist reads as the empty string. -/
def parseLine (line : Bytes) : Except Exception (LogLevel × Bytes) :=
  match lineRegex.fullMatch line with
  | none => .error ⟨.logicError, ascii "Failed to match regex."⟩
  | some groups =>
      let logLevel := groups.getD 0 []
      let location := groups.getD 1 []
      let message := groups.getD 3 []
      match parseIrLoggerLogLevel logLevel with
      | none => .error ⟨.logicError, ascii "Failed to parse IRLogger log level value."⟩
      | some level => .ok (level, ascii "[" ++ location ++ ascii "] " ++ message)

/-! ### The parser -/

/-- `STRING_BUFFER_SIZE`, 1 MiB. -/
def stringBufferSize : Nat := 1 <<< 20

instance : NeZero stringBufferSize := ⟨by decide⟩

/-- What happens while data is pushed. -/
inductive Event where
  | removed (line : Bytes)
  | dumped (contents : Bytes)
  | invoked (level : LogLevel) (text : Bytes)
deriving DecidableEq, Repr

/-- `IRLoggerParser`, with the state of its callback. -/
structure IRLoggerParser (N : Nat) (σ : Type) where
  buffer_ : StringRingBuffer N
  world : σ
  trace : List Event

namespace IRLoggerParser

variable {N : Nat} {σ : Type}

/-- A newly constructed parser. The cells of the buffer hold anything. -/
def fresh (data : Vector Byte N) (world : σ) : IRLoggerParser N σ where
  buffer_ := .fresh data
  world := world
  trace := []

/-- A call of a member function of the buffer. -/
def onBuffer {α : Type} (p : IRLoggerParser N σ)
    (f : StringRingBuffer N → Outcome (StringRingBuffer N) α) : Outcome (IRLoggerParser N σ) α :=
  match f p.buffer_ with
  | .returned a b => .returned a { p with buffer_ := b }
  | .threw e b => .threw e { p with buffer_ := b }

/-- Write an event down. -/
def note (p : IRLoggerParser N σ) (e : Event) : IRLoggerParser N σ :=
  { p with trace := p.trace ++ [e] }

/-- `logging_callback_(level, text)`. -/
def loggingCallback (callback : LoggingCallback σ) (p : IRLoggerParser N σ) (level : LogLevel)
    (text : Bytes) : Outcome (IRLoggerParser N σ) Unit :=
  match callback level text p.world with
  | .returned _ w => .returned () { p.note (.invoked level text) with world := w }
  | .threw e w => .threw e { p.note (.invoked level text) with world := w }

/-- The message of a line that was not delivered. -/
def failedToParse (e : Exception) (line : Bytes) : Bytes :=
  ascii "Failed to parse IRLogger line due to error: " ++ e.what ++ ascii " Line was " ++ line

/-- The message of an overflow. -/
def overflowed (contents : Bytes) : Bytes :=
  ascii "IRLoggerParser ring buffer overflow, dumped contents are: " ++ contents

/-- The `try` block of `try_parse` and its handler. The block parses the line and calls
the callback, so the handler answers an exception of either. -/
def deliver (callback : LoggingCallback σ) (p : IRLoggerParser N σ) (line : Bytes) :
    Outcome (IRLoggerParser N σ) Unit :=
  let tried : Outcome (IRLoggerParser N σ) Unit :=
    match parseLine line with
    | .error e => .threw e p
    | .ok (level, message) => loggingCallback callback p level message
  match tried with
  | .returned _ p' => .returned () p'
  -- The handler has no `try` of its own: what it throws leaves `try_parse`.
  | .threw e p' => loggingCallback callback p' .warn (failedToParse e line)

/-- `try_parse()`. -/
def tryParse (callback : LoggingCallback σ) (p : IRLoggerParser N σ) :
    Outcome (IRLoggerParser N σ) Bool :=
  let bufferContents := p.buffer_.peek
  match bufferContents.findIdx? (· == newline) with
  | none => .returned false p
  | some index =>
      let line := bufferContents.take index
      -- The line leaves the buffer before it is parsed, with its newline.
      (p.onBuffer fun b => b.discard (index + 1)).bind fun _ p =>
        (deliver callback (p.note (.removed line)) line).bind fun _ p => .returned true p

/-- A call of the callback leaves the buffer alone. -/
theorem loggingCallback_buffer (callback : LoggingCallback σ) (p : IRLoggerParser N σ)
    (level : LogLevel) (text : Bytes) :
    (loggingCallback callback p level text).state.buffer_ = p.buffer_ := by
  unfold loggingCallback
  split <;> rfl

/-- Delivering a line leaves the buffer alone. -/
theorem deliver_buffer (callback : LoggingCallback σ) (p : IRLoggerParser N σ) (line : Bytes) :
    (deliver callback p line).state.buffer_ = p.buffer_ := by
  have hcall := @loggingCallback_buffer N σ callback
  unfold deliver
  cases parseLine line with
  | error e => exact hcall p .warn _
  | ok message =>
      obtain ⟨level, text⟩ := message
      simp only
      -- The callback's throw is answered by a second call, which leaves it alone too.
      have htried := hcall p level text
      cases hrun : loggingCallback callback p level text with
      | returned _ p' =>
          rw [hrun] at htried
          exact htried
      | threw e p' =>
          rw [hrun] at htried
          exact (hcall p' .warn _).trans htried

/-- A line that was parsed is gone from the buffer, with its newline. -/
theorem tryParse_size_lt {callback : LoggingCallback σ} {p p' : IRLoggerParser N σ}
    (h : tryParse callback p = .returned true p') : p'.buffer_.size_ < p.buffer_.size_ := by
  unfold tryParse at h
  simp only at h
  split at h
  · cases h
  · rename_i index _
    simp only [Outcome.bind_eq_returned] at h
    obtain ⟨_, p₁, hdiscard, _, p₂, hdeliver, hreturn⟩ := h
    cases hreturn
    have hbuffer := deliver_buffer callback (p₁.note (.removed (p.buffer_.peek.take index)))
      (p.buffer_.peek.take index)
    rw [hdeliver] at hbuffer
    unfold onBuffer at hdiscard
    split at hdiscard
    · rename_i b hb
      cases hdiscard
      have hsize := StringRingBuffer.size_of_discard hb
      rw [show p'.buffer_ = b from hbuffer]
      omega
    · cases hdiscard

/-- `while (try_parse());`. -/
def parseLines (callback : LoggingCallback σ) (p : IRLoggerParser N σ) :
    Outcome (IRLoggerParser N σ) Unit :=
  match _h : tryParse callback p with
  | .returned true p' => parseLines callback p'
  | .returned false p' => .returned () p'
  | .threw e p' => .threw e p'
termination_by p.buffer_.size_
decreasing_by exact tryParse_size_lt _h

/-- One turn of the loop. -/
theorem parseLines_next {callback : LoggingCallback σ} {p p' : IRLoggerParser N σ}
    (h : tryParse callback p = .returned true p') :
    parseLines callback p = parseLines callback p' := by
  rw [parseLines]
  split
  all_goals
    rename_i heq
    cases h.symm.trans heq
  rfl

/-- The end of the loop. -/
theorem parseLines_end {callback : LoggingCallback σ} {p p' : IRLoggerParser N σ}
    (h : tryParse callback p = .returned false p') : parseLines callback p = .returned () p' := by
  rw [parseLines]
  split
  all_goals
    rename_i heq
    cases h.symm.trans heq
  rfl

/-- The first `if` of the overflow path: a full buffer is shown in a warning and
emptied. -/
def dumpIfFull (callback : LoggingCallback σ) (p : IRLoggerParser N σ) :
    Outcome (IRLoggerParser N σ) Unit :=
  if N = p.buffer_.size then
    (loggingCallback callback (p.note (.dumped p.buffer_.peek)) .warn
      (overflowed p.buffer_.peek)).bind fun _ p => p.onBuffer fun b => b.discard b.size
  else .returned () p

/-- One activation of `push_data(data)`: `some rest` is the argument of the call it ends
in, `none` says that it ends without one. -/
def pushBody (callback : LoggingCallback σ) (p : IRLoggerParser N σ) (data : Bytes) :
    Outcome (IRLoggerParser N σ) (Option Bytes) :=
  if p.buffer_.size + data.length ≤ N then
    (p.onBuffer fun b => b.insert data).bind fun _ p =>
      (parseLines callback p).bind fun _ p => .returned none p
  else
    (dumpIfFull callback p).bind fun _ p =>
      -- `N - size()` is taken after the dump, so it is not `0`.
      let dataToInsertNow := data.take (N - p.buffer_.size)
      (p.onBuffer fun b => b.insert dataToInsertNow).bind fun _ p =>
        (parseLines callback p).bind fun _ p =>
          .returned (some (data.drop dataToInsertNow.length)) p

/-- After the dump there is room. -/
theorem dumpIfFull_size_lt [NeZero N] {callback : LoggingCallback σ} {p p' : IRLoggerParser N σ}
    (h : dumpIfFull callback p = .returned () p') : p'.buffer_.size_ < N := by
  have hN : N ≠ 0 := NeZero.ne N
  have hsize := p.buffer_.size_le
  unfold dumpIfFull at h
  split at h
  · simp only [Outcome.bind_eq_returned] at h
    obtain ⟨_, p₁, hcall, hdiscard⟩ := h
    unfold onBuffer at hdiscard
    split at hdiscard
    · rename_i b hb
      cases hdiscard
      have := StringRingBuffer.size_of_discard hb
      simp only [StringRingBuffer.size] at this
      show b.size_ < N
      omega
    · cases hdiscard
  · rename_i hroom
    cases h
    simp only [StringRingBuffer.size] at hroom
    omega

/-- The call an activation ends in has a shorter argument. -/
theorem pushBody_length_lt [NeZero N] {callback : LoggingCallback σ} {p p' : IRLoggerParser N σ}
    {data rest : Bytes} (h : pushBody callback p data = .returned (some rest) p') :
    rest.length < data.length := by
  unfold pushBody at h
  split at h
  · simp [Outcome.bind_eq_returned] at h
  · rename_i hroom
    simp only [Outcome.bind_eq_returned] at h
    obtain ⟨_, p₁, hdump, _, p₂, hinsert, _, p₃, hparse, hreturn⟩ := h
    simp only [Outcome.returned.injEq, Option.some.injEq] at hreturn
    have hlt := dumpIfFull_size_lt hdump
    have hsize := p.buffer_.size_le
    rw [← hreturn.1, List.length_drop, List.length_take]
    simp only [StringRingBuffer.size] at hroom ⊢
    omega

/-- `push_data(data)`. -/
def pushData [NeZero N] (callback : LoggingCallback σ) (p : IRLoggerParser N σ) (data : Bytes) :
    Outcome (IRLoggerParser N σ) Unit :=
  match _h : pushBody callback p data with
  | .returned none p' => .returned () p'
  | .returned (some rest) p' => pushData callback p' rest
  | .threw e p' => .threw e p'
termination_by data.length
decreasing_by exact pushBody_length_lt _h

/-- The call `push_data` ends in. -/
theorem pushData_next [NeZero N] {callback : LoggingCallback σ} {p p' : IRLoggerParser N σ}
    {data rest : Bytes} (h : pushBody callback p data = .returned (some rest) p') :
    pushData callback p data = pushData callback p' rest := by
  rw [pushData]
  split
  all_goals
    rename_i heq
    cases h.symm.trans heq
  rfl

/-- The last call of `push_data`. -/
theorem pushData_end [NeZero N] {callback : LoggingCallback σ} {p p' : IRLoggerParser N σ}
    {data : Bytes} (h : pushBody callback p data = .returned none p') :
    pushData callback p data = .returned () p' := by
  rw [pushData]
  split
  all_goals
    rename_i heq
    cases h.symm.trans heq
  rfl

end IRLoggerParser
end NqmIrimager
