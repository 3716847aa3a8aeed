import NqmIrimager.LoggerRouting
import NqmIrimager.Proofs.ParserThrows
import NqmIrimager.Proofs.PipelineDelivers

/-!
# `NqmIrimager.Proofs.LineReports`: the log with a callback that throws

`reachable_delivers` is about a callback that returns. The callback of the bindings runs Python
code, and what `logger.log` raises goes through `try_parse`: its handler reports the line once
more, and what the second call raises ends the reader thread.

`report` says this of one line, and `reportAll` of the lines of a log up to the one that ends the
thread. They know no buffer and no thread. The parser agrees with them on every buffer
(`parseLines_mapState`), and so does the whole, in any order of steps (`reachable_reports`).
-/

set_option autoImplicit false

namespace NqmIrimager

open Framing StepRun

namespace IRLoggerParser

open StringRingBuffer

variable {N : Nat} {σ : Type} {callback : LoggingCallback σ}

/-! ### What a line does to the callback -/

/-- The calls for a complete line: one with its message, and one of the handler, when the line
does not parse or the first call throws. -/
def report (callback : LoggingCallback σ) (line : Bytes) (world : σ) : Outcome σ Unit :=
  match parseLine line with
  | .error e => callback .warn (failedToParse e line) world
  | .ok (level, text) =>
      match callback level text world with
      | .returned _ w => .returned () w
      | .threw e w => callback .warn (failedToParse e line) w

/-- The calls for the lines of a log. A handler that throws is the end of it. -/
def reportAll (callback : LoggingCallback σ) : List Bytes → σ → Outcome σ Unit
  | [], w => .returned () w
  | line :: ls, w => (report callback line w).bind fun _ w => reportAll callback ls w

/-- The calls for a log in two parts: the second part is reported unless a handler threw in the
first. -/
theorem reportAll_append (ls ls' : List Bytes) (w : σ) :
    reportAll callback (ls ++ ls') w
      = (reportAll callback ls w).bind fun _ w => reportAll callback ls' w := by
  induction ls generalizing w with
  | nil => rfl
  | cons line ls ih =>
      rw [List.cons_append, reportAll, reportAll]
      cases report callback line w with
      | returned u w' => exact ih w'
      | threw e w' => rfl

/-- A line whose call returns has one call. -/
theorem report_of_returned {line : Bytes} {w w' : σ}
    (h : callback (delivery line).1 (delivery line).2 w = .returned () w') :
    report callback line w = .returned () w' := by
  cases hline : parseLine line with
  | error e =>
      rw [delivery_of_error hline] at h
      simp only [report, hline, h]
  | ok message =>
      rw [delivery_of_ok hline] at h
      simp only [report, hline, h]

/-- A Python logger that raises nothing has one record for each line, with the level of the
line. -/
theorem reportAll_pythonCallback (logger : PythonLogger)
    {raises : List PythonCall → Option Exception} (h : ∀ made, raises made = none)
    (ls : List Bytes) (made : List PythonCall) :
    reportAll (pythonCallback logger raises) ls made
      = .returned () (made ++ ls.map fun line =>
          logToPython logger (delivery line).1 (delivery line).2) := by
  induction ls generalizing made with
  | nil => rw [List.map_nil, List.append_nil, reportAll]
  | cons line ls ih =>
      have hcall : pythonCallback logger raises (delivery line).1 (delivery line).2 made
          = .returned () (made ++ [logToPython logger (delivery line).1 (delivery line).2]) := by
        simp only [pythonCallback, h]
      rw [reportAll, report_of_returned hcall, Outcome.bind_returned, ih, List.map_cons,
        List.append_assoc]
      rfl

/-! ### The parser -/

/-- Of the parser, a call of the callback reads and writes its state only. -/
theorem loggingCallback_mapState (callback : LoggingCallback σ) (p : IRLoggerParser N σ)
    (level : LogLevel) (text : Bytes) :
    (loggingCallback callback p level text).mapState world = callback level text p.world := by
  unfold loggingCallback
  cases callback level text p.world with
  | returned u w => rfl
  | threw e w => rfl

/-- `try_parse` delivers a line with the calls of `report`. -/
theorem deliver_mapState (callback : LoggingCallback σ) (p : IRLoggerParser N σ) (line : Bytes) :
    (deliver callback p line).mapState world = report callback line p.world := by
  unfold deliver report
  cases parseLine line with
  | error e => exact loggingCallback_mapState callback p .warn _
  | ok message =>
      have hcall := loggingCallback_mapState callback p message.1 message.2
      simp only
      rw [← hcall]
      cases loggingCallback callback p message.1 message.2 with
      | returned u p' => rfl
      | threw e p' => exact loggingCallback_mapState callback p' .warn _

/-- An exception of `try_parse` leaves the loop. -/
theorem parseLines_threw {p p' : IRLoggerParser N σ} {e : Exception}
    (h : tryParse callback p = .threw e p') : parseLines callback p = .threw e p' := by
  rw [parseLines]
  split
  all_goals
    rename_i heq
    cases h.symm.trans heq
  rfl

/-- The loop reports the lines it takes out, whatever the buffer is like. -/
theorem parseLines_mapState (p : IRLoggerParser N σ) :
    (parseLines callback p).mapState world
      = reportAll callback (linesTaken p.buffer_) p.world := by
  induction hn : p.buffer_.size_ using Nat.strongRecOn generalizing p with
  | _ n ih =>
      subst hn
      rcases tryParse_cases callback p with ⟨hidx, hrun⟩ | ⟨index, b, hidx, -, hdiscard, -, hrun⟩
      · rw [parseLines_end hrun, linesTaken_end hidx]
        rfl
      · rw [linesTaken_next hidx hdiscard, reportAll]
        let p₁ := note { p with buffer_ := b } (.removed (p.buffer_.peek.take index))
        have hreport := deliver_mapState callback p₁ (p.buffer_.peek.take index)
        have hbuffer := deliver_buffer callback p₁ (p.buffer_.peek.take index)
        rw [show p.world = p₁.world from rfl, ← hreport]
        cases hdeliver : deliver callback p₁ (p.buffer_.peek.take index) with
        | returned u p₂ =>
            rw [hdeliver] at hrun hbuffer
            have hlt := tryParse_size_lt hrun
            rw [parseLines_next hrun, ih _ hlt p₂ rfl, show p₂.buffer_ = b from hbuffer]
            rfl
        | threw e p₂ =>
            rw [hdeliver] at hrun
            rw [parseLines_threw hrun]
            rfl

/-- A first line that the buffer shows can be taken out of it. -/
theorem discard_first_line {b : StringRingBuffer N} {l r : Bytes} (hpeek : Readable b)
    (hcontents : b.contents = l ++ newline :: r) (hl : newline ∉ l)
    (hfront : ¬ b.LosesFront (l.length + 1)) :
    ∃ b', b.peek.findIdx? (· == newline) = some l.length ∧
      b.discard (l.length + 1) = .returned () b' ∧ b'.size_ < b.size_ ∧ b'.contents = r := by
  have hsize : b.size_ = l.length + 1 + r.length := by
    rw [← length_contents, hcontents]
    simp only [List.length_append, List.length_cons]
    omega
  obtain ⟨b', hdiscard, -, hsize', hrest⟩ :=
    b.discard_spec (show l.length + 1 ≤ b.size_ by omega) hfront
  refine ⟨b', ?_, hdiscard, by omega, ?_⟩
  · rw [hpeek.peek_eq, hcontents, findIdx?_line hl]
  · rw [hrest, hcontents, show l ++ newline :: r = (l ++ [newline]) ++ r by simp]
    exact List.drop_left' (by simp)

/-- A loop that returned leaves the part after the last newline, for any callback. -/
theorem parseLines_rest {p p' : IRLoggerParser N σ} (h : parseLines callback p = .returned () p')
    (hpeek : Readable p.buffer_)
    (hfront : ¬ p.buffer_.LosesFront (p.buffer_.contents.idxOf newline + 1)) :
    Readable p'.buffer_ ∧ p'.buffer_.contents = unfinished newline p.buffer_.contents := by
  -- By induction on what the buffer holds; a removed line leaves a buffer with room.
  induction hn : p.buffer_.size_ using Nat.strongRecOn generalizing p with
  | _ n ih =>
      subst hn
      rcases first_line p.buffer_.contents with hnone | ⟨l, r, hcontents, hl, hlen⟩
      · rw [parseLines_end (tryParse_none (by rwa [hpeek.peek_eq]))] at h
        cases h
        rw [unfinished, cutFrom_of_not_mem [] hnone, List.nil_append]
        exact ⟨hpeek, rfl⟩
      · rw [← hlen] at hfront
        obtain ⟨b, hidx, hdiscard, hlt, hrest⟩ := discard_first_line hpeek hcontents hl hfront
        rcases tryParse_cases callback p with
          ⟨hnone, -⟩ | ⟨index, b', hidx', -, hdiscard', -, hrun⟩
        · cases hidx.symm.trans hnone
        · cases hidx.symm.trans hidx'
          cases hdiscard.symm.trans hdiscard'
          let p₁ := note { p with buffer_ := b } (.removed (p.buffer_.peek.take l.length))
          have hbuffer := deliver_buffer callback p₁ (p.buffer_.peek.take l.length)
          cases hdeliver : deliver callback p₁ (p.buffer_.peek.take l.length) with
          | returned u p₂ =>
              rw [hdeliver] at hrun hbuffer
              have hb : p₂.buffer_ = b := hbuffer
              have hroom : p₂.buffer_.size_ < N := by
                have := p.buffer_.size_le
                rw [hb]
                omega
              rw [parseLines_next hrun] at h
              have hnext := ih _ (by rw [hb]; exact hlt) h (readable_of_room hroom)
                (fun hloses => absurd hloses.1 (by omega)) rfl
              rw [hb, hrest] at hnext
              rwa [unfinished, hcontents, cutFrom_line [] r hl]
          | threw e p₂ =>
              rw [hdeliver] at hrun
              cases (parseLines_threw hrun).symm.trans h

/-- A call of `push_data` that leaves room reports the lines it completes. Where it returns, the
buffer holds what is unfinished. -/
theorem pushData_reports [NeZero N] (callback : LoggingCallback σ) {p : IRLoggerParser N σ}
    {data : Bytes} (hroom : p.buffer_.size_ + data.length < N) :
    (pushData callback p data).mapState world
        = reportAll callback (lines newline (p.buffer_.contents ++ data)) p.world ∧
      ∀ p', pushData callback p data = .returned () p' →
        p'.buffer_.contents = unfinished newline (p.buffer_.contents ++ data) := by
  obtain ⟨b, hinsert, -, hsize, hcontents⟩ := p.buffer_.insert_spec data (Nat.le_of_lt hroom)
  have hb : b.size_ < N := by omega
  have hfront : ¬ b.LosesFront (b.contents.idxOf newline + 1) :=
    fun hloses => absurd hloses.1 (by omega)
  rw [pushData_of_fits callback (Nat.le_of_lt hroom) hinsert, ← hcontents]
  constructor
  · rw [parseLines_mapState, linesTaken_eq_lines b (readable_of_room hb) hfront]
  · exact fun p' hloop => (parseLines_rest hloop (readable_of_room hb) hfront).2

end IRLoggerParser

namespace Shutdown

/-- The thread of the reader ends once. -/
theorem step_ended {s s' : State} {l : Label} (hs : step s l = some s')
    (hended : s.reader = .ended) : s'.reader = .ended := by
  cases l with
  | reader l =>
      have hnone : readerStep s l = none := by
        cases l with
        | _ => simp [readerStep, hended]
      cases hnone.symm.trans hs
  | writer l =>
      rw [(writerStep_bytes hs).2.2]
      exact hended
  | owner l =>
      rw [(ownerStep_bytes hs).2.2.1]
      exact hended

end Shutdown

namespace IRLoggerToSpd

open IRLoggerParser Shutdown

variable {N : Nat} {σ : Type} {callback : LoggingCallback σ} {world : σ}

/-- The callback has got the calls of `reportAll` for the lines passed, and the reader has ended
if the last handler threw. -/
def Reported (callback : LoggingCallback σ) (world : σ) (s : IRLoggerToSpd N σ) : Prop :=
  (reportAll callback (lines newline s.threads.passed) world
        = .returned () s.irLoggerParser_.world ∧
      s.irLoggerParser_.buffer_.contents = unfinished newline s.threads.passed) ∨
    ∃ e, reportAll callback (lines newline s.threads.passed) world
        = .threw e s.irLoggerParser_.world ∧
      s.threads.reader = .ended

/-- The threads and the callback, as long as the lines written, newline included, are at most
`bound` bytes long. -/
structure Reports (callback : LoggingCallback σ) (world : σ) (bound : Nat)
    (s : IRLoggerToSpd N σ) : Prop where
  threads : Inv s.threads
  held : s.threads.reader.held.length ≤ readBufferSize
  reported : LinesAtMost newline bound [] s.threads.written → Reported callback world s

/-- Nothing was passed on and nothing reported at the start. -/
theorem reports_initial (bound : Nat) (data : Vector Byte N) :
    Reports callback world bound (initial data world) where
  threads := inv_initial
  held := Nat.zero_le _
  reported := fun _ => Or.inl ⟨rfl, StringRingBuffer.contents_fresh data⟩

section
variable [NeZero N]

/-- A `push` reports the lines that its bytes complete. -/
theorem Reported.push {bound : Nat} (hbound : bound + readBufferSize < N)
    {s : IRLoggerToSpd N σ} (h : Reported callback world s) {bytes : Bytes}
    (hpc : s.threads.reader = .pushing bytes) (hbytes : bytes.length ≤ readBufferSize)
    (hlines : LinesAtMost newline bound [] s.threads.passed) {threads : State}
    (hpassed : threads.passed = s.threads.passed ++ bytes) :
    Reported callback world (s.handleBytes callback threads bytes) := by
  obtain ⟨hcalls, hcontents⟩ | ⟨e, -, hended⟩ := h
  · have hsize : s.irLoggerParser_.buffer_.size_ = (unfinished newline s.threads.passed).length := by
      rw [← hcontents, StringRingBuffer.length_contents]
    have hpending : (unfinished newline s.threads.passed).length ≤ bound := hlines.2
    have hroom : s.irLoggerParser_.buffer_.size_ + bytes.length < N := by omega
    obtain ⟨hreport, hrest⟩ := pushData_reports callback hroom
    have hall : reportAll callback (lines newline (s.threads.passed ++ bytes)) world
        = (s.irLoggerParser_.pushData callback bytes).mapState IRLoggerParser.world := by
      rw [lines_resume, reportAll_append, hcalls, Outcome.bind_returned, hreport, hcontents]
    unfold handleBytes
    cases hrun : s.irLoggerParser_.pushData callback bytes with
    | returned u p =>
        rw [hrun] at hall
        refine Or.inl ⟨?_, ?_⟩
        · show reportAll callback (lines newline threads.passed) world = _
          rw [hpassed, hall]
          rfl
        · show p.buffer_.contents = unfinished newline threads.passed
          rw [hrest p hrun, hcontents, hpassed, ← unfinished_resume]
    | threw e p =>
        rw [hrun] at hall
        refine Or.inr ⟨e, ?_, rfl⟩
        show reportAll callback (lines newline threads.passed) world = _
        rw [hpassed, hall]
        rfl
  · rw [hended] at hpc
    cases hpc

/-- Every step reports the lines that it passes on. -/
theorem reports_step {bound : Nat} (hbound : bound + readBufferSize < N) (s : IRLoggerToSpd N σ)
    (l : Shutdown.Label) (s' : IRLoggerToSpd N σ) (h : Reports callback world bound s)
    (hs : step callback s l = some s') : Reports callback world bound s' := by
  obtain ⟨hinv, hheld⟩ := threads_step h.threads h.held hs
  obtain ⟨threads, hthreads, ⟨bytes, rfl, hpc, rfl⟩ | ⟨hl, rfl⟩⟩ := step_cases hs
  · obtain ⟨hwritten, ⟨bytes', -, hpc', -, hpassed⟩ | ⟨hne, -⟩⟩ :=
      readerStep_bytes (l := .push) hthreads
    · rw [hpc] at hpc'
      cases hpc'
      refine ⟨hinv, hheld, fun hlines => ?_⟩
      rw [(handleBytes_bytes _ _ _ _).1, hwritten] at hlines
      have hbytes := h.held
      rw [hpc] at hbytes
      obtain ⟨rest, hrest⟩ := h.threads.passed_isPrefix
      have hfront : LinesAtMost newline bound [] (s.threads.passed ++ rest) := by rwa [hrest]
      exact (h.reported hlines).push hbound hpc hbytes hfront.of_append hpassed
    · exact absurd rfl hne
  · refine ⟨hinv, hheld, fun hlines => ?_⟩
    obtain ⟨⟨more, hmore⟩, hpassed, -⟩ := step_bytes hthreads hl
    have hlines' : LinesAtMost newline bound [] (s.threads.written ++ more) := by
      rw [hmore]
      exact hlines
    -- Nothing is passed on, and a reader that has ended stays so.
    unfold Reported
    show (reportAll callback (lines newline threads.passed) world = _ ∧ _ = _) ∨
      ∃ e, reportAll callback (lines newline threads.passed) world = _ ∧ threads.reader = .ended
    rw [hpassed]
    obtain hall | ⟨e, hthrew, hended⟩ := h.reported hlines'.of_append
    · exact Or.inl hall
    · exact Or.inr ⟨e, hthrew, step_ended hthreads hended⟩

end

/-- At every moment of every run, whatever the callback throws, while the lines written are short
enough: the state of the callback is what `reportAll` makes of the complete lines among the bytes
passed. Either all of them were reported and the rest of the bytes is in the buffer, or a handler
threw: then the reader has ended, and that call was the last one. -/
theorem reachable_reports (callback : LoggingCallback σ) (data : Vector Byte stringBufferSize)
    (world : σ) (s : IRLoggerToSpd stringBufferSize σ)
    (hs : Reachable (step callback) (initial data world) s)
    (hlines : LinesAtMost newline lineBound [] s.threads.written) :
    (reportAll callback (lines newline s.threads.passed) world
          = .returned () s.irLoggerParser_.world ∧
        s.irLoggerParser_.buffer_.peek = unfinished newline s.threads.passed) ∨
      ∃ e, reportAll callback (lines newline s.threads.passed) world
          = .threw e s.irLoggerParser_.world ∧
        s.threads.reader = .ended := by
  have hbound : lineBound + readBufferSize < stringBufferSize := by decide
  have h := hs.invariant (reports_initial lineBound data) (reports_step hbound)
  obtain ⟨hcalls, hcontents⟩ | hthrew := h.reported hlines
  · refine Or.inl ⟨hcalls, ?_⟩
    -- What is unfinished is shorter than the buffer, so `peek` shows it.
    obtain ⟨rest, hrest⟩ := h.threads.passed_isPrefix
    rw [← hrest] at hlines
    have hpending : (unfinished newline s.threads.passed).length ≤ lineBound :=
      hlines.of_append.2
    have hroom : s.irLoggerParser_.buffer_.size_ < stringBufferSize := by
      rw [← StringRingBuffer.length_contents, hcontents]
      omega
    rw [(readable_of_room hroom).peek_eq, hcontents]
  · exact Or.inr hthrew

/-- The writer writes a line, and the reader passes it on. -/
def oneLine : List Shutdown.Label :=
  [.reader (.opens true), .writer .opens, .writer (.write (ascii "INFO [a] @ 1s :hi\n")),
    .reader .test, .reader (.poll (.ready ⟨true, false, false⟩)), .reader (.read (.bytes 1024)),
    .reader .push]

/-- A Python logger that raises at its first call. -/
def raisesFirst : List PythonCall → Option Exception :=
  fun made => if made.length = 1 then some ⟨.other, ascii "KeyError"⟩ else none

/-- The line is logged twice: as it is, and with what the first call raised. -/
theorem reachable_reports_raisesFirst :
    ∃ s : IRLoggerToSpd stringBufferSize (List PythonCall),
      run (step (pythonCallback 7 raisesFirst))
        (initial (Vector.replicate stringBufferSize 0) []) oneLine = some s ∧
      s.threads.passed = ascii "INFO [a] @ 1s :hi\n" ∧
      s.irLoggerParser_.world
        = [⟨7, 20, ascii "%s", ascii "[a] hi"⟩,
            ⟨7, 30, ascii "%s", failedToParse ⟨.other, ascii "KeyError"⟩
              (ascii "INFO [a] @ 1s :hi")⟩] := by
  obtain ⟨s, hrun, hwritten, hpassed⟩ :
      ∃ s : IRLoggerToSpd stringBufferSize (List PythonCall),
        run (step (pythonCallback 7 raisesFirst))
          (initial (Vector.replicate stringBufferSize 0) []) oneLine = some s ∧
        s.threads.written = ascii "INFO [a] @ 1s :hi\n" ∧
        s.threads.passed = ascii "INFO [a] @ 1s :hi\n" :=
    ⟨_, rfl, (handleBytes_bytes _ _ _ _).1, (handleBytes_bytes _ _ _ _).2⟩
  have hlines : LinesAtMost newline lineBound [] s.threads.written := by
    rw [hwritten]
    exact ⟨by decide, by decide⟩
  have hreports := reachable_reports (pythonCallback 7 raisesFirst) _ [] s ⟨oneLine, hrun⟩ hlines
  have hcalls : reportAll (pythonCallback 7 raisesFirst)
      (lines newline (ascii "INFO [a] @ 1s :hi\n")) []
      = .returned () [⟨7, 20, ascii "%s", ascii "[a] hi"⟩,
          ⟨7, 30, ascii "%s", failedToParse ⟨.other, ascii "KeyError"⟩
            (ascii "INFO [a] @ 1s :hi")⟩] := by
    decide +kernel
  rw [hpassed, hcalls] at hreports
  refine ⟨s, hrun, hpassed, ?_⟩
  obtain ⟨hworld, -⟩ | ⟨e, hthrew, -⟩ := hreports
  · exact (Outcome.returned.inj hworld).2.symm
  · cases hthrew

end IRLoggerToSpd
end NqmIrimager
