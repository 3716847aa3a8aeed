import NqmIrimager.IRLoggerReader
import NqmIrimager.Proofs.ParserStream

/-!
# `NqmIrimager.Proofs.ReaderDelivers`: from the FIFO to the callback

Every turn of the read loop, whatever `poll` and `read` answer short of a real error,
moves a part of the stream to the parser (`turn_delivers`), as much as the answers say
(`turn_reads`). `run_delivers` is the run of any number of turns: the complete lines among the
bytes read are delivered, each once and in order, and the rest is in the buffer.

A line of at most `stringBufferSize - readBufferSize` bytes, newline included, always
leaves room for one more read. So the buffer is never full, and none of the steps that
`FillsSafely` excludes can occur. `LinesAtMost.pending_lt` carries that bound.
-/

set_option autoImplicit false

namespace NqmIrimager

/-- How many bytes a `read` with this answer takes off the stream, if there are so many. -/
def ReadResult.taken : ReadResult → Nat
  | .bytes n => min n readBufferSize
  | .failed _ => 0

/-- How many bytes the answers of a turn say it reads: those of its `read`, if `poll` reports
something to read. -/
def Iteration.bytesRead (it : Iteration) : Nat :=
  match it.poll with
  | .ready revents => if revents.pollin || revents.pollpri then it.read.taken else 0
  | .timeout => 0
  | .failed _ => 0

/-- The bytes a `read` leaves are told by its answer. -/
theorem ReadResult.from_rest {result : ReadResult} {unread bytes rest : Bytes}
    (h : result.from unread = .ok (bytes, rest)) : rest = unread.drop result.taken := by
  unfold ReadResult.from at h
  split at h
  · cases h
    rfl
  · cases h
    rfl
  · cases h
    rfl
  · cases h

namespace IRLoggerReader

open Framing StepRun StringRingBuffer IRLoggerParser

variable {N : Nat} {σ : Type} {callback : LoggingCallback σ}

/-- A `poll` error other than `EINTR`, and a `read` error other than `EINTR` and `EAGAIN`,
end the thread. No turn of a transient iteration does. -/
def Transient (it : Iteration) : Prop :=
  (∀ errno, it.poll = .failed errno → errno = .eintr) ∧
    ∀ errno, it.read = .failed errno → errno = .eintr ∨ errno = .eagain

/-- How a complete line reaches the callback. -/
def Delivered (line : Bytes) (call : LogLevel × Bytes) : Prop :=
  match parseLine line with
  | .ok message => call = message
  | .error _ => call.1 = .warn ∧ line <:+ call.2

/-- `delivery` is the call a line is owed. -/
theorem delivered_delivery (line : Bytes) : Delivered line (delivery line) := by
  unfold Delivered delivery
  cases parseLine line with
  | ok message => rfl
  | error e => exact ⟨rfl, List.suffix_append _ line⟩

/-- The deliveries of some lines are the calls they are owed. -/
theorem delivered_map_delivery (ls : List Bytes) : List.Forall₂ Delivered ls (ls.map delivery) := by
  induction ls with
  | nil => exact .nil
  | cons l ls ih => exact .cons (delivered_delivery l) ih

/-- A delivery is not an overflow warning: its text starts differently. -/
theorem delivery_ne_overflowed (line contents : Bytes) :
    delivery line ≠ (.warn, overflowed contents) := by
  intro heq
  have hhead := congrArg (fun call : LogLevel × Bytes => call.2.head?) heq
  revert hhead
  unfold delivery
  cases hparse : parseLine line with
  | error e => simp [failedToParse, overflowed, ascii]
  | ok message =>
      -- The text of a parsed line starts with `[`.
      unfold parseLine at hparse
      split at hparse
      · cases hparse
      · simp only at hparse
        split at hparse
        · cases hparse
        · cases hparse
          simp [overflowed, ascii]

/-! ### One turn -/

/-- A transient read throws nothing and takes at most a buffer off the stream. -/
theorem tryRead_transient (r : IRLoggerReader N σ) (result : ReadResult)
    (h : ∀ errno, result = .failed errno → errno = .eintr ∨ errno = .eagain) :
    ∃ bytes rest, tryRead r result = .returned bytes { r with unread := rest } ∧
      r.unread = bytes ++ rest ∧ bytes.length ≤ readBufferSize := by
  have hread : ∃ bytes rest, result.from r.unread = .ok (bytes, rest) := by
    cases result with
    | bytes n => exact ⟨_, _, rfl⟩
    | failed errno =>
        rcases h errno rfl with rfl | rfl
        · exact ⟨_, _, rfl⟩
        · exact ⟨_, _, rfl⟩
  obtain ⟨bytes, rest, hread⟩ := hread
  exact ⟨bytes, rest, by rw [tryRead, hread], ReadResult.from_ok hread⟩

/-- Two readers that differ in what they logged. -/
structure SameBut (r r' : IRLoggerReader N σ) : Prop where
  unread : r'.unread = r.unread
  parser : r'.irLoggerParser_ = r.irLoggerParser_

/-- A transient turn moves nothing, or it hands a part of the stream, at most a buffer
long, to `handle_bytes`. -/
theorem loopBody_transient [NeZero N] (r : IRLoggerReader N σ) {it : Iteration}
    (h : Transient it) :
    (∃ r', loopBody callback r it = .returned () r' ∧ SameBut r r') ∨
      ∃ bytes rest r', bytes ≠ [] ∧ bytes.length ≤ readBufferSize ∧ r.unread = bytes ++ rest ∧
        r'.irLoggerParser_ = r.irLoggerParser_ ∧ r'.unread = rest ∧
        loopBody callback r it = handleBytes callback r' bytes := by
  obtain ⟨hpoll, hread⟩ := h
  unfold loopBody
  cases hres : it.poll with
  | timeout => exact Or.inl ⟨r, rfl, rfl, rfl⟩
  | failed errno =>
      rw [hpoll errno hres]
      exact Or.inl ⟨r, rfl, rfl, rfl⟩
  | ready revents =>
      -- The warning about `POLLERR` changes what is logged and nothing else.
      simp only
      generalize hr₁ : (if revents.pollerr then _ else r : IRLoggerReader N σ) = r₁
      have hsame : SameBut r r₁ := by
        rw [← hr₁]
        split
        · exact ⟨rfl, rfl⟩
        · exact ⟨rfl, rfl⟩
      split
      · obtain ⟨bytes, rest, htry, hunread, hlen⟩ := tryRead_transient r₁ it.read hread
        rw [htry, Outcome.bind_returned]
        rw [hsame.unread] at hunread
        split
        · rename_i hpos
          exact Or.inr ⟨bytes, rest, { r₁ with unread := rest }, List.length_pos_iff.mp hpos, hlen,
            hunread, hsame.parser, rfl, rfl⟩
        · rename_i hzero
          have hnil : bytes = [] := List.eq_nil_of_length_eq_zero (by omega)
          refine Or.inl ⟨_, rfl, ?_, hsame.parser⟩
          rw [hunread, hnil]
          rfl
      · exact Or.inl ⟨r₁, rfl, hsame⟩

/-- `handle_bytes` reads nothing. -/
theorem handleBytes_unread [NeZero N] {r r' : IRLoggerReader N σ} {bytes : Bytes}
    (h : handleBytes callback r bytes = .returned () r') : r'.unread = r.unread := by
  unfold handleBytes at h
  split at h
  · cases h
    rfl
  · cases h

/-- A turn that returns has read as many bytes as its answers say. -/
theorem loopBody_reads [NeZero N] {r r' : IRLoggerReader N σ} {it : Iteration}
    (h : loopBody callback r it = .returned () r') : r'.unread = r.unread.drop it.bytesRead := by
  unfold loopBody at h
  unfold Iteration.bytesRead
  cases hpoll : it.poll with
  | timeout =>
      simp only [hpoll] at h
      cases h
      rfl
  | failed errno =>
      cases errno with
      | eintr =>
          simp only [hpoll] at h
          cases h
          rfl
      | _ =>
          simp only [hpoll] at h
          cases h
  | ready revents =>
      simp only [hpoll] at h ⊢
      generalize hr₁ : (if revents.pollerr then _ else r : IRLoggerReader N σ) = r₁ at h
      have hsame : r₁.unread = r.unread := by
        rw [← hr₁]
        split
        · rfl
        · rfl
      split at h
      · rename_i hin
        rw [if_pos hin]
        obtain ⟨bytes, r₂, htry, hrest⟩ := Outcome.bind_eq_returned.mp h
        have hread : r₂.unread = r.unread.drop it.read.taken := by
          unfold tryRead at htry
          split at htry
          · rename_i hfrom
            cases htry
            rw [← hsame]
            exact ReadResult.from_rest hfrom
          · cases htry
        split at hrest
        · exact (handleBytes_unread hrest).trans hread
        · cases hrest
          exact hread
      · rename_i hnone
        rw [if_neg hnone]
        cases h
        exact hsame

/-! ### Any number of turns -/

/-- One turn of the loop. -/
def turn [NeZero N] (callback : LoggingCallback σ) (r : IRLoggerReader N σ) (it : Iteration) :
    Option (IRLoggerReader N σ) :=
  (loopBody callback r it).next

/-- How many bytes the answers of some turns say are read. -/
def bytesRead (its : List Iteration) : Nat := (its.map Iteration.bytesRead).sum

/-- Turns that all return have read the front of the stream, as many bytes as their answers
say. -/
theorem run_reads [NeZero N] {r r' : IRLoggerReader N σ} {its : List Iteration}
    (h : run (turn callback) r its = some r') : r'.unread = r.unread.drop (bytesRead its) := by
  induction its generalizing r with
  | nil =>
      cases h
      rfl
  | cons it its ih =>
      obtain ⟨r₁, hturn, hrest⟩ := run_cons_eq_some.mp h
      have hone : r₁.unread = r.unread.drop it.bytesRead := by
        unfold turn at hturn
        cases hbody : loopBody callback r it with
        | returned u r₂ =>
            rw [hbody] at hturn
            cases hturn
            exact loopBody_reads hbody
        | threw e r₂ =>
            rw [hbody] at hturn
            cases hturn
      rw [ih hrest, hone, List.drop_drop]
      rfl

/-- The parser stands for the bytes `got`, and the stream is `got` and what is unread. -/
def Delivers (stream : Bytes) (r : IRLoggerReader N σ) : Prop :=
  ∃ got, stream = got ++ r.unread ∧ Shows r.irLoggerParser_ (feedAll newline N ⟨[], []⟩ got)

/-- A transient turn happens and goes on delivering, while the lines of the stream leave
room for a read. -/
theorem turn_delivers [NeZero N] (hret : callback.Returns) {stream : Bytes} {bound : Nat}
    (hbound : bound + readBufferSize ≤ N) (hlines : LinesAtMost newline bound [] stream)
    (r : IRLoggerReader N σ) (it : Iteration) (hr : Delivers stream r) (hit : Transient it) :
    ∃ r', turn callback r it = some r' ∧ Delivers stream r' := by
  obtain ⟨got, hstream, hshows⟩ := hr
  rcases @loopBody_transient N σ callback _ r it hit with
    ⟨r', hrun, hsame⟩ | ⟨bytes, rest, r₁, hne, hlen, hunread, hparser, hrest, hrun⟩
  · refine ⟨r', by rw [turn, hrun, Outcome.next_returned], got, ?_, ?_⟩
    · rw [hsame.unread]
      exact hstream
    · rw [hsame.parser]
      exact hshows
  · -- Bytes are still to come, so what is pending is shorter than the bound.
    rw [hstream, hunread] at hlines
    have hpending := hlines.append.pending_lt (by simp [hne])
    rw [← hparser] at hshows
    have hframes := feedAll_of_linesAtMost (show bound ≤ N by omega) ⟨[], []⟩ hlines.of_append
    have hroom : r₁.irLoggerParser_.buffer_.size_ + bytes.length < N := by
      rw [hshows.size, hframes]
      show (cutFrom newline [] got).2.length + bytes.length < N
      omega
    obtain ⟨p', hpush, hshows'⟩ :=
      pushData_shows hret hshows bytes (pushesSafely_of_room hret hshows hroom)
    refine ⟨{ r₁ with irLoggerParser_ := p' }, ?_, got ++ bytes, ?_, ?_⟩
    · rw [turn, hrun, handleBytes, hpush, Outcome.next_returned]
    · rw [hstream, hunread, List.append_assoc, hrest]
    · rwa [feedAll_append]

/-- After any number of transient turns of the loop over a stream whose lines, newline
included, and unterminated tail leave room for a read: `got` is what was read so far, the front
of the stream and as long as the answers of the turns say. Every complete line of it was
delivered, once and in order, and the rest is in the buffer. Nothing was dumped and no call was
an overflow warning. -/
theorem run_delivers (hret : callback.Returns) (socketPath stream : Bytes)
    (data : Vector Byte stringBufferSize) (world : σ) (its : List Iteration)
    (htransient : ∀ it ∈ its, Transient it)
    (hlines : LinesAtMost newline (stringBufferSize - readBufferSize) [] stream) :
    ∃ r, run (turn callback) (start socketPath stream data world) its = some r ∧
      ∃ got, got = stream.take (bytesRead its) ∧ stream = got ++ r.unread ∧
        List.Forall₂ Delivered (lines newline got) r.irLoggerParser_.invocations ∧
        r.irLoggerParser_.buffer_.peek = unfinished newline got ∧
        (∀ contents, Event.dumped contents ∉ r.irLoggerParser_.trace) ∧
        ∀ contents, (LogLevel.warn, overflowed contents) ∉ r.irLoggerParser_.invocations := by
  have hbound : stringBufferSize - readBufferSize + readBufferSize ≤ stringBufferSize := by decide
  have hstart : Delivers stream (start socketPath stream data world) :=
    ⟨[], rfl, shows_fresh data world⟩
  obtain ⟨r, hrun, got, hstream, hshows⟩ :=
    run_progress (turn_delivers hret hbound hlines) hstart (along_of_forall htransient)
  rw [hstream] at hlines
  rw [feedAll_of_linesAtMost (show stringBufferSize - readBufferSize ≤ stringBufferSize by omega)
    ⟨[], []⟩ hlines.of_append, List.nil_append] at hshows
  have hcalls : r.irLoggerParser_.invocations = (lines newline got).map delivery :=
    hshows.invocations_of_lines
  -- What is unread is told by the answers, so what was read is, too.
  have hgot : got = stream.take (bytesRead its) := by
    have hrest : r.unread = stream.drop (bytesRead its) := run_reads hrun
    refine List.append_cancel_right (hstream.symm.trans ?_)
    rw [hrest, List.take_append_drop]
  refine ⟨r, hrun, got, hgot, hstream, ?_, hshows.peek, ?_, ?_⟩
  · rw [hcalls]
    exact delivered_map_delivery _
  · intro contents hmem
    have hpiece := hshows.piece_of_event.2 contents hmem
    simp at hpiece
  · intro contents hmem
    rw [hcalls] at hmem
    obtain ⟨l, -, heq⟩ := List.mem_map.mp hmem
    exact delivery_ne_overflowed l contents heq

/-- A timeout, an interrupted `poll`, half the first line, a read that would block, the rest. -/
def halves : List Iteration :=
  [⟨.timeout, .bytes 0⟩, ⟨.failed .eintr, .bytes 0⟩, ⟨.ready ⟨true, false, false⟩, .bytes 9⟩,
    ⟨.ready ⟨true, false, true⟩, .failed .eagain⟩, ⟨.ready ⟨true, false, false⟩, .bytes 1024⟩]

/-- A line that parses and the start of another one. -/
theorem run_delivers_halves :
    ∃ r, run (turn record)
        (start (ascii "irlogger.fifo") (ascii "INFO [a.cpp:1] @ 0.1s :hi\nERR")
          (Vector.replicate stringBufferSize 0) []) halves = some r ∧
      ∃ got, got = (ascii "INFO [a.cpp:1] @ 0.1s :hi\nERR").take (bytesRead halves) ∧
        ascii "INFO [a.cpp:1] @ 0.1s :hi\nERR" = got ++ r.unread ∧
        List.Forall₂ Delivered (lines newline got) r.irLoggerParser_.invocations ∧
        r.irLoggerParser_.buffer_.peek = unfinished newline got ∧
        (∀ contents, Event.dumped contents ∉ r.irLoggerParser_.trace) ∧
        ∀ contents, (LogLevel.warn, overflowed contents) ∉ r.irLoggerParser_.invocations :=
  run_delivers record_returns (ascii "irlogger.fifo") (ascii "INFO [a.cpp:1] @ 0.1s :hi\nERR")
    (Vector.replicate _ 0) [] halves (by simp [halves, Transient]) ⟨by decide, by decide⟩

end IRLoggerReader
end NqmIrimager
