import NqmIrimager.IRLoggerToSpd
import NqmIrimager.Proofs.ParserStream
import NqmIrimager.Proofs.ShutdownUnread

/-!
# `NqmIrimager.Proofs.PipelineDelivers`: from the writer to the callback, in any order of steps

`destroyed_passed_unread` is about bytes and threads and knows no parser; the results about the
parser know no threads. Here they meet. `Follows` says of a state that the parser stands for
the bytes that were passed to it, and every step of the writer, of the reader and of the
destructor keeps it (`follows_step`).

* `reachable_delivers`: at every moment the callback has got one call for each complete line
  among the bytes passed, in order, and the written lines it has not got are those whose newline
  is still on the way.
* `run_lifts`: the parser holds no thread up. Every run of the threads is one of the whole.
-/

set_option autoImplicit false

namespace NqmIrimager

open Framing StepRun

namespace Shutdown

/-- What a step of the reader does to the bytes: `push` passes the bytes in its hands on, any
other step passes nothing and leaves at most one buffer in its hands. -/
theorem readerStep_bytes {s s' : State} {l : ReaderLabel} (hs : readerStep s l = some s') :
    s'.written = s.written ∧
      ((∃ bytes, l = .push ∧ s.reader = .pushing bytes ∧ s'.reader = .testing ∧
          s'.passed = s.passed ++ bytes) ∨
        (l ≠ .push ∧ s'.passed = s.passed ∧ s'.reader.held.length ≤ readBufferSize)) := by
  cases l with
  | opens opened =>
      simp only [readerStep] at hs
      split at hs
      · cases hs
        exact ⟨rfl, Or.inr ⟨by simp, rfl, by cases opened <;> exact Nat.zero_le _⟩⟩
      · cases hs
  | test =>
      simp only [readerStep] at hs
      split at hs
      · cases hs
        exact ⟨rfl, Or.inr ⟨by decide, rfl, by cases s.stop_ <;> exact Nat.zero_le _⟩⟩
      · cases hs
  | poll result =>
      simp only [readerStep] at hs
      split at hs
      · cases hs
        have hnone : (afterPoll result).held = [] := by
          unfold afterPoll
          split
          · rfl
          · rfl
          · rfl
          · split
            · rfl
            · rfl
        refine ⟨rfl, Or.inr ⟨by simp, rfl, ?_⟩⟩
        show (afterPoll result).held.length ≤ readBufferSize
        rw [hnone]
        exact Nat.zero_le _
      · cases hs
  | read result =>
      simp only [readerStep] at hs
      split at hs
      · cases hs
        unfold afterRead
        -- The error, nothing to handle, and bytes to handle.
        split
        · exact ⟨rfl, Or.inr ⟨by simp, rfl, Nat.zero_le _⟩⟩
        · exact ⟨rfl, Or.inr ⟨by simp, rfl, Nat.zero_le _⟩⟩
        · rename_i bytes fifo _ hread
          exact ⟨rfl, Or.inr ⟨by simp, rfl, (ReadResult.from_ok hread).2⟩⟩
      · cases hs
  | push =>
      simp only [readerStep] at hs
      split at hs
      · rename_i bytes hpc
        cases hs
        exact ⟨rfl, Or.inl ⟨bytes, rfl, hpc, rfl, rfl⟩⟩
      · cases hs

/-- The reader does not move the writer. -/
theorem readerStep_writer {s s' : State} {l : ReaderLabel} (hs : readerStep s l = some s') :
    s'.writer = s.writer := by
  cases l with
  | read result =>
      simp only [readerStep] at hs
      split at hs
      · cases hs
        unfold afterRead
        split
        · rfl
        · rfl
        · rfl
      · cases hs
  | _ =>
      simp only [readerStep] at hs
      split at hs
      · cases hs
        rfl
      · cases hs

/-- The writer appends to what is written and touches nothing of the reader's. -/
theorem writerStep_bytes {s s' : State} {l : WriterLabel} (hs : writerStep s l = some s') :
    s.written <+: s'.written ∧ s'.passed = s.passed ∧ s'.reader = s.reader := by
  cases l with
  | waits =>
      simp only [writerStep] at hs
      split at hs
      · cases hs
        exact ⟨List.prefix_rfl, rfl, rfl⟩
      · cases hs
  | opens =>
      simp only [writerStep] at hs
      split at hs
      · cases hs
        exact ⟨List.prefix_rfl, rfl, rfl⟩
      · cases hs
  | write bytes =>
      simp only [writerStep] at hs
      split at hs
      · cases hs
        exact ⟨List.prefix_append s.written bytes, rfl, rfl⟩
      · cases hs
  | finish =>
      simp only [writerStep] at hs
      split at hs
      · cases hs
        exact ⟨List.prefix_rfl, rfl, rfl⟩
      · cases hs

/-- The destructor moves no bytes. -/
theorem ownerStep_bytes {s s' : State} {l : OwnerLabel} (hs : ownerStep s l = some s') :
    s'.written = s.written ∧ s'.passed = s.passed ∧ s'.reader = s.reader ∧
      s'.writer = s.writer := by
  cases l with
  | stopWriter =>
      simp only [ownerStep] at hs
      split at hs
      · cases hs
        exact ⟨rfl, rfl, rfl, rfl⟩
      · cases hs
  | joinWriter =>
      simp only [ownerStep] at hs
      split at hs
      · cases hs
        exact ⟨rfl, rfl, rfl, rfl⟩
      · cases hs
  | stopReader =>
      simp only [ownerStep] at hs
      split at hs
      · cases hs
        exact ⟨rfl, rfl, rfl, rfl⟩
      · cases hs
  | interruptReader =>
      simp only [ownerStep] at hs
      split at hs
      · cases hs
        exact ⟨rfl, rfl, rfl, rfl⟩
      · cases hs
  | joinReader =>
      simp only [ownerStep] at hs
      split at hs
      · cases hs
        exact ⟨rfl, rfl, rfl, rfl⟩
      · cases hs

/-- Every step but `push` passes nothing on. -/
theorem step_bytes {s s' : State} {l : Label} (hs : step s l = some s') (hl : l ≠ .reader .push) :
    s.written <+: s'.written ∧ s'.passed = s.passed ∧
      (s.reader.held.length ≤ readBufferSize → s'.reader.held.length ≤ readBufferSize) := by
  cases l with
  | reader l =>
      obtain ⟨hwritten, ⟨_, rfl, -⟩ | ⟨-, hpassed, hheld⟩⟩ := readerStep_bytes hs
      · exact absurd rfl hl
      · exact ⟨hwritten.symm ▸ List.prefix_rfl, hpassed, fun _ => hheld⟩
  | writer l =>
      obtain ⟨hwritten, hpassed, hreader⟩ := writerStep_bytes hs
      exact ⟨hwritten, hpassed, fun h => by rwa [hreader]⟩
  | owner l =>
      obtain ⟨hwritten, hpassed, hreader, -⟩ := ownerStep_bytes hs
      exact ⟨hwritten.symm ▸ List.prefix_rfl, hpassed, fun h => by rwa [hreader]⟩

/-- What is written stays written. -/
theorem step_written {s s' : State} {l : Label} (hs : step s l = some s') :
    s.written <+: s'.written := by
  cases l with
  | reader l => exact (readerStep_bytes hs).1.symm ▸ List.prefix_rfl
  | writer l => exact (writerStep_bytes hs).1
  | owner l => exact (ownerStep_bytes hs).1.symm ▸ List.prefix_rfl

/-- What was written stays written. -/
theorem run_written {s s' : State} {ls : List Label} (hrun : run step s ls = some s') :
    s.written <+: s'.written := by
  induction ls generalizing s with
  | nil =>
      cases hrun
      exact List.prefix_rfl
  | cons l ls ih =>
      obtain ⟨s₁, hs₁, hrest⟩ := run_cons_eq_some.mp hrun
      exact (step_written hs₁).trans (ih hrest)

/-- What is written begins with what was passed. -/
theorem Inv.passed_isPrefix {s : State} (h : Inv s) : s.passed <+: s.written :=
  ⟨s.reader.held ++ s.fifo, by
    rw [← List.append_assoc]
    exact h.conserved⟩

end Shutdown

namespace IRLoggerToSpd

open IRLoggerParser Shutdown

variable {N : Nat} {σ : Type} {callback : LoggingCallback σ}

/-- The parser stands for the bytes that were passed to it, as long as the lines written,
newline included, are at most `bound` bytes long. -/
structure Follows (bound : Nat) (s : IRLoggerToSpd N σ) : Prop where
  threads : Inv s.threads
  held : s.threads.reader.held.length ≤ readBufferSize
  parser : LinesAtMost newline bound [] s.threads.written →
    Shows s.irLoggerParser_ (feedAll newline N ⟨[], []⟩ s.threads.passed)

/-- A move of the threads that passes nothing on leaves the parser in line with them. -/
theorem Follows.moves {bound : Nat} {s : IRLoggerToSpd N σ} (h : Follows bound s) {l : Shutdown.Label}
    {threads : State} (hthreads : Shutdown.step s.threads l = some threads)
    (hl : l ≠ .reader .push) : Follows bound { s with threads := threads } := by
  obtain ⟨hwritten, hpassed, hheld⟩ := step_bytes hthreads hl
  refine ⟨inv_step _ _ _ h.threads hthreads, hheld h.held, fun hlines => ?_⟩
  obtain ⟨more, hmore⟩ := hwritten
  have hlines' : LinesAtMost newline bound [] (s.threads.written ++ more) := by
    rw [hmore]
    exact hlines
  show Shows s.irLoggerParser_ (feedAll newline N ⟨[], []⟩ threads.passed)
  rw [hpassed]
  exact h.parser hlines'.of_append

section
variable [NeZero N]

/-- Nothing was written or passed on at the start. -/
theorem follows_initial (bound : Nat) (data : Vector Byte N) (world : σ) :
    Follows bound (initial data world) where
  threads := inv_initial
  held := Nat.zero_le _
  parser := fun _ => shows_fresh data world

/-- The two kinds of steps: `push`, and one that leaves the parser alone. -/
theorem step_cases {s s' : IRLoggerToSpd N σ} {l : Shutdown.Label} (hs : step callback s l = some s') :
    ∃ threads, Shutdown.step s.threads l = some threads ∧
      ((∃ bytes, l = .reader .push ∧ s.threads.reader = .pushing bytes ∧
          s' = s.handleBytes callback threads bytes) ∨
        (l ≠ .reader .push ∧ s' = { s with threads := threads })) := by
  unfold step at hs
  split at hs
  · cases hs
  · rename_i threads hthreads
    split at hs
    · rename_i bytes hpc
      exact ⟨threads, hthreads, Or.inl ⟨bytes, rfl, hpc, (Option.some.inj hs).symm⟩⟩
    · rename_i hnot
      refine ⟨threads, hthreads, Or.inr ⟨?_, (Option.some.inj hs).symm⟩⟩
      -- A `push` that can be taken has bytes to push.
      intro hpush
      subst hpush
      obtain ⟨-, ⟨bytes, -, hpc, -⟩ | ⟨hne, -⟩⟩ := readerStep_bytes (l := .push) hthreads
      · exact hnot bytes rfl hpc
      · exact hne rfl

/-- A `push` that follows leaves room in the buffer, so `push_data` frames the bytes. -/
theorem Follows.push (hret : callback.Returns) {bound : Nat} (hbound : bound + readBufferSize < N)
    {s : IRLoggerToSpd N σ} (h : Follows bound s) {bytes : Bytes}
    (hpc : s.threads.reader = .pushing bytes)
    (hlines : LinesAtMost newline bound [] s.threads.written) :
    ∃ p, s.irLoggerParser_.pushData callback bytes = .returned () p ∧
      Shows p (feedAll newline N ⟨[], []⟩ (s.threads.passed ++ bytes)) := by
  have hshows := h.parser hlines
  have hheld := h.held
  rw [hpc] at hheld
  -- What is pending is a part of a line of what is written.
  obtain ⟨rest, hrest⟩ := h.threads.passed_isPrefix
  rw [← hrest] at hlines
  have hframes := feedAll_of_linesAtMost (show bound ≤ N by omega) ⟨[], []⟩ hlines.of_append
  have hpending := hlines.append.pending_le
  have hroom : s.irLoggerParser_.buffer_.size_ + bytes.length < N := by
    rw [hshows.size, hframes]
    show (cutFrom newline [] s.threads.passed).2.length + bytes.length < N
    have : bytes.length ≤ readBufferSize := hheld
    omega
  obtain ⟨p, hpush, hshows'⟩ :=
    pushData_shows hret hshows bytes (pushesSafely_of_room hret hshows hroom)
  exact ⟨p, hpush, by rwa [feedAll_append]⟩

/-- The parser moves no bytes of the threads. -/
theorem handleBytes_bytes (callback : LoggingCallback σ) (s : IRLoggerToSpd N σ)
    (threads : State) (bytes : Bytes) :
    (s.handleBytes callback threads bytes).threads.written = threads.written ∧
      (s.handleBytes callback threads bytes).threads.passed = threads.passed := by
  unfold handleBytes
  cases s.irLoggerParser_.pushData callback bytes with
  | returned u p => exact ⟨rfl, rfl⟩
  | threw e p => exact ⟨rfl, rfl⟩

/-- What every step keeps of the threads, whatever the callback does. -/
theorem threads_step {s s' : IRLoggerToSpd N σ} {l : Shutdown.Label} (hinv : Inv s.threads)
    (hheld : s.threads.reader.held.length ≤ readBufferSize) (hs : step callback s l = some s') :
    Inv s'.threads ∧ s'.threads.reader.held.length ≤ readBufferSize := by
  obtain ⟨threads, hthreads, ⟨bytes, rfl, -, rfl⟩ | ⟨hl, rfl⟩⟩ := step_cases hs
  · have hinv' := inv_step _ _ _ hinv hthreads
    obtain ⟨-, ⟨_, -, -, htesting, -⟩ | ⟨hne, -⟩⟩ := readerStep_bytes (l := .push) hthreads
    · unfold handleBytes
      cases s.irLoggerParser_.pushData callback bytes with
      | returned u p =>
          refine ⟨hinv', ?_⟩
          show threads.reader.held.length ≤ readBufferSize
          rw [htesting]
          exact Nat.zero_le _
      | threw e p =>
          -- The exception ends the thread in the middle of its turn.
          have hmoved : Inv { threads with reader := .ended } :=
            hinv'.readerMoves (by rw [htesting]; decide) (by rw [htesting]; rfl) rfl (by simp)
          exact ⟨hmoved, Nat.zero_le _⟩
    · exact absurd rfl hne
  · exact ⟨inv_step _ _ _ hinv hthreads, (step_bytes hthreads hl).2.2 hheld⟩

/-- Every step keeps the parser in line with the threads. -/
theorem follows_step (hret : callback.Returns) {bound : Nat} (hbound : bound + readBufferSize < N)
    (s : IRLoggerToSpd N σ) (l : Shutdown.Label) (s' : IRLoggerToSpd N σ) (h : Follows bound s)
    (hs : step callback s l = some s') : Follows bound s' := by
  obtain ⟨hinv, hheld⟩ := threads_step h.threads h.held hs
  obtain ⟨threads, hthreads, ⟨bytes, rfl, hpc, rfl⟩ | ⟨hl, rfl⟩⟩ := step_cases hs
  · obtain ⟨hwritten, ⟨bytes', -, hpc', -, hpassed⟩ | ⟨hne, -⟩⟩ :=
      readerStep_bytes (l := .push) hthreads
    · rw [hpc] at hpc'
      cases hpc'
      refine ⟨hinv, hheld, fun hlines => ?_⟩
      rw [(handleBytes_bytes _ _ _ _).1, hwritten] at hlines
      obtain ⟨p, hrun, hshows⟩ := h.push hret hbound hpc hlines
      unfold handleBytes
      rw [hrun]
      show Shows p (feedAll newline N ⟨[], []⟩ threads.passed)
      rw [hpassed]
      exact hshows
    · exact absurd rfl hne
  · exact h.moves hthreads hl

end

/-- The callback calls of a state that follows. -/
theorem Follows.calls {bound : Nat} (hbound : bound + readBufferSize < N)
    {s : IRLoggerToSpd N σ} (h : Follows bound s)
    (hlines : LinesAtMost newline bound [] s.threads.written) :
    s.irLoggerParser_.invocations = (lines newline s.threads.passed).map delivery ∧
      s.irLoggerParser_.buffer_.peek = unfinished newline s.threads.passed ∧
      ∀ contents, Event.dumped contents ∉ s.irLoggerParser_.trace := by
  have hshows := h.parser hlines
  obtain ⟨rest, hrest⟩ := h.threads.passed_isPrefix
  rw [← hrest] at hlines
  rw [feedAll_of_linesAtMost (show bound ≤ N by omega) ⟨[], []⟩ hlines.of_append,
    List.nil_append] at hshows
  refine ⟨hshows.invocations_of_lines, hshows.peek, ?_⟩
  intro contents hmem
  have hpiece := hshows.piece_of_event.2 contents hmem
  simp at hpiece

/-- The bound on a line, newline included, that leaves room for a read in the buffer of the
source. -/
def lineBound : Nat := stringBufferSize - readBufferSize - 1

/-- Every run of the threads is a run with the parser, while the lines written are short
enough: `push_data` holds nobody up and throws nothing. -/
theorem run_lifts [NeZero N] (hret : callback.Returns) {bound : Nat}
    (hbound : bound + readBufferSize < N) {s : IRLoggerToSpd N σ} (h : Follows bound s)
    {ls : List Shutdown.Label} {threads : State} (hrun : run Shutdown.step s.threads ls = some threads)
    (hlines : LinesAtMost newline bound [] threads.written) :
    ∃ s', run (step callback) s ls = some s' ∧ s'.threads = threads := by
  induction ls generalizing s with
  | nil => exact ⟨s, rfl, Option.some.inj hrun⟩
  | cons l ls ih =>
      obtain ⟨threads₁, hstep, hrest⟩ := run_cons_eq_some.mp hrun
      -- What is written now is the front of what is written in the end.
      have hwritten : s.threads.written <+: threads.written :=
        (step_written hstep).trans (run_written hrest)
      have hlines₁ : LinesAtMost newline bound [] s.threads.written := by
        obtain ⟨more, hmore⟩ := hwritten
        rw [← hmore] at hlines
        exact hlines.of_append
      have hlift : ∃ s₁, step callback s l = some s₁ ∧ s₁.threads = threads₁ := by
        simp only [step, hstep]
        split
        · rename_i bytes hpc
          obtain ⟨p, hpush, -⟩ := h.push hret hbound hpc hlines₁
          refine ⟨_, rfl, ?_⟩
          rw [handleBytes, hpush]
        · exact ⟨_, rfl, rfl⟩
      obtain ⟨s₁, hs₁, rfl⟩ := hlift
      obtain ⟨s', hs', hthreads⟩ := ih (follows_step hret hbound s l s₁ h hs₁) hrest
      exact ⟨s', run_cons_eq_some.mpr ⟨s₁, hs₁, hs'⟩, hthreads⟩

/-- The lines that have not reached the callback are those whose newline has not been passed
on. -/
theorem Follows.missing {bound : Nat} {s : IRLoggerToSpd N σ} (h : Follows bound s) :
    ∃ missing, lines newline s.threads.written = lines newline s.threads.passed ++ missing ∧
      missing.length = (s.threads.reader.held ++ s.threads.fifo).count newline := by
  rw [← h.threads.conserved, List.append_assoc]
  exact lines_append _ _

/-- At every moment of every run, while the lines written are short enough: the callback has
got one call for each complete line among the bytes passed, in order, the rest of them is in
the buffer, and nothing was dumped. The written lines it has not got are those whose newline
is in the reader's hands or in the FIFO. When the destructor has returned they are all in the
FIFO, and at most one `read` took bytes after the store of `stop_`. -/
theorem reachable_delivers (hret : callback.Returns) (data : Vector Byte stringBufferSize)
    (world : σ) (s : IRLoggerToSpd stringBufferSize σ)
    (hs : Reachable (step callback) (initial data world) s)
    (hlines : LinesAtMost newline lineBound [] s.threads.written) :
    s.irLoggerParser_.invocations = (lines newline s.threads.passed).map delivery ∧
      s.irLoggerParser_.buffer_.peek = unfinished newline s.threads.passed ∧
      (∀ contents, Event.dumped contents ∉ s.irLoggerParser_.trace) ∧
      (∃ missing, lines newline s.threads.written = lines newline s.threads.passed ++ missing ∧
        missing.length = (s.threads.reader.held ++ s.threads.fifo).count newline) ∧
      (s.threads.owner = .destroyed → s.threads.reader.held = [] ∧
        ∃ n, n ≤ readBufferSize ∧ s.threads.fifo = s.threads.unreadAtStop.drop n) := by
  have hbound : lineBound + readBufferSize < stringBufferSize := by decide
  have h := hs.invariant (follows_initial lineBound data world) (follows_step hret hbound)
  obtain ⟨hcalls, hpeek, hdumped⟩ := h.calls hbound hlines
  refine ⟨hcalls, hpeek, hdumped, h.missing, fun hdone => ?_⟩
  have hended : s.threads.reader = .ended := h.threads.reader (by rw [hdone]; decide)
  have hstop : s.threads.stop_ = true := h.threads.stop.mpr (by rw [hdone]; decide)
  obtain ⟨n, hn⟩ := h.threads.since hstop
  exact ⟨by rw [hended]; rfl, n, hn.le, hn.unread⟩

/-- The writer writes a line and half of another one. The reader passes them on in two reads,
and the destructor runs meanwhile. -/
def twoReads : List Shutdown.Label :=
  [.reader (.opens true), .writer .opens, .writer (.write (ascii "INFO [a] @ 1s :hi\nERR")),
    .reader .test, .reader (.poll (.ready ⟨true, false, false⟩)), .reader (.read (.bytes 9)),
    .owner .stopWriter, .reader .push, .writer .finish, .reader .test, .owner .joinWriter,
    .owner .stopReader, .reader (.poll (.ready ⟨true, false, false⟩)), .owner .interruptReader,
    .reader (.read (.bytes 1024)), .reader .push, .reader .test, .owner .joinReader]

/-- The first line is delivered, and the start of the second one is in the buffer. -/
theorem reachable_delivers_twoReads :
    ∃ s : IRLoggerToSpd stringBufferSize (List (LogLevel × Bytes)),
      run (step record) (initial (Vector.replicate stringBufferSize 0) []) twoReads = some s ∧
      s.threads.passed = ascii "INFO [a] @ 1s :hi\nERR" ∧
      s.irLoggerParser_.invocations = (lines newline s.threads.passed).map delivery ∧
      s.irLoggerParser_.buffer_.peek = unfinished newline s.threads.passed ∧
      (∀ contents, Event.dumped contents ∉ s.irLoggerParser_.trace) ∧
      (∃ missing, lines newline s.threads.written = lines newline s.threads.passed ++ missing ∧
        missing.length = (s.threads.reader.held ++ s.threads.fifo).count newline) ∧
      (s.threads.owner = .destroyed → s.threads.reader.held = [] ∧
        ∃ n, n ≤ readBufferSize ∧ s.threads.fifo = s.threads.unreadAtStop.drop n) := by
  have hbound : lineBound + readBufferSize < stringBufferSize := by decide
  have hlines : LinesAtMost newline lineBound [] (ascii "INFO [a] @ 1s :hi\nERR") :=
    ⟨by decide, by decide⟩
  obtain ⟨s, hrun, hthreads⟩ :=
    run_lifts record_returns hbound (follows_initial lineBound (Vector.replicate _ 0) [])
      (show run Shutdown.step .initial twoReads = some _ from rfl) hlines
  refine ⟨s, hrun, by rw [hthreads]; rfl, ?_⟩
  exact reachable_delivers record_returns _ _ s ⟨twoReads, hrun⟩ (by rw [hthreads]; exact hlines)

end IRLoggerToSpd
end NqmIrimager
