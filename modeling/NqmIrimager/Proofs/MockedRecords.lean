import NqmIrimager.Lib.Decimal
import NqmIrimager.Proofs.LineGrammar
import NqmIrimager.Proofs.PipelineDelivers

/-!
# `NqmIrimager.Proofs.MockedRecords`: what the callback gets from the mock

Every line that `irlogger_mock_thread_` writes is a line of the format of `parse_line`
(`mockLogLines`), so the calls of the callback are known in advance: `mockRecords`. In every run
of the mocked build, whatever the order of the steps, the calls so far are the front of that
list (`mocked_records`). A write that fails cuts the list short and changes nothing else.

`Wrote` is the invariant. Beside `Follows` it says how many lines the thread of the mock has
written at each place of its program.
-/

set_option autoImplicit false

namespace NqmIrimager

open Framing StepRun Decimal

/-! ### The lines -/

/-- A number is written with digits. -/
theorem digit_of_mem_decimal {i : Nat} {c : Byte} (h : c ∈ Chrono.decimal i) :
    isTime c = true ∧ isLocation c = true := by
  obtain ⟨d, hd, rfl⟩ := List.mem_map.mp h
  have hdigit : d.isDigit = true := isDigit_of_mem (Int.natCast_nonneg i) hd
  have hrange := Char.isDigit_iff_toNat.mp hdigit
  have hall : ∀ n, n < 58 → 48 ≤ n →
      isTime (UInt8.ofNat n) = true ∧ isLocation (UInt8.ofNat n) = true := by decide +kernel
  exact hall d.toNat (Nat.lt_succ_of_le hrange.2) hrange.1

/-- A number has a digit. -/
theorem decimal_ne_nil (i : Nat) : Chrono.decimal i ≠ [] := by
  intro hnil
  have hlen := congrArg List.length hnil
  simp only [Chrono.decimal, ascii, List.length_map, List.length_nil,
    toString_of_nonneg (Int.natCast_nonneg i)] at hlen
  exact Nat.toDigits_ne_nil (List.eq_nil_of_length_eq_zero hlen)

/-- The place of a message in the source. -/
def mockLocation (sourceLine : Nat) : Bytes :=
  ascii "irlogger_to_spd_posix.cpp:" ++ Chrono.decimal sourceLine

/-- The regular expression takes the place for a location. -/
theorem mockLocation_class (sourceLine : Nat) :
    ∀ c ∈ mockLocation sourceLine, isLocation c = true := by
  have hfile : ∀ c ∈ ascii "irlogger_to_spd_posix.cpp:", isLocation c = true := by decide +kernel
  intro c hc
  cases List.mem_append.mp hc with
  | inl h => exact hfile c h
  | inr h => exact (digit_of_mem_decimal h).2

/-- The first line of the mock, without its newline. -/
def mockGreeting : LogLine where
  name := .warning
  location := mockLocation 310
  time := ascii "0.01"
  message := ascii "Mocking IRLogger output."
  location_class := mockLocation_class 310
  time_ne_nil := by decide
  time_class := by decide +kernel
  message_class := by decide +kernel

/-- The line of the `i`th turn, without its newline. -/
def mockTurn (i : Nat) : LogLine where
  name := .debug
  location := mockLocation 313
  time := Chrono.decimal i
  message := ascii "This is some dummy mocked IRLogger output."
  location_class := mockLocation_class 313
  time_ne_nil := decimal_ne_nil i
  time_class := fun _ hc => (digit_of_mem_decimal hc).1
  message_class := by decide +kernel

/-- What the mock writes first is that line and a newline. -/
theorem mockFirstLine_eq : mockFirstLine = mockGreeting.text ++ [newline] := by
  have hfront : ascii "WARNING [irlogger_to_spd_posix.cpp:"
      = LevelName.warning.text ++ ascii " [" ++ ascii "irlogger_to_spd_posix.cpp:" := by
    decide +kernel
  have hback : ascii "] @ 0.01s :Mocking IRLogger output."
      = ascii "] @ " ++ ascii "0.01" ++ ascii "s :" ++ ascii "Mocking IRLogger output." := by
    decide +kernel
  rw [mockFirstLine, hfront, hback]
  simp only [mockGreeting, mockLocation, LogLine.text, List.append_assoc, Nat.cast_ofNat]

/-- What it writes in a turn is that line and a newline. -/
theorem mockLoopLine_eq (i : Nat) : mockLoopLine i = (mockTurn i).text ++ [newline] := by
  have hfront : ascii "DEBUG [irlogger_to_spd_posix.cpp:"
      = LevelName.debug.text ++ ascii " [" ++ ascii "irlogger_to_spd_posix.cpp:" := by
    decide +kernel
  have hback : ascii "s :This is some dummy mocked IRLogger output."
      = ascii "s :" ++ ascii "This is some dummy mocked IRLogger output." := by decide +kernel
  rw [mockLoopLine, hfront, hback]
  simp only [mockTurn, mockLocation, LogLine.text, List.append_assoc, Nat.cast_ofNat]

/-- The lines of a whole run of the thread. -/
def mockLogLines : List LogLine := mockGreeting :: (List.range mockTurns).map mockTurn

/-- The calls of the callback they lead to. -/
def mockRecords : List (LogLevel × Bytes) :=
  (.warn, ascii "[" ++ mockLocation 310 ++ ascii "] " ++ ascii "Mocking IRLogger output.")
    :: List.replicate mockTurns
      (.debug, ascii "[" ++ mockLocation 313 ++ ascii "] "
        ++ ascii "This is some dummy mocked IRLogger output.")

/-- The text of the first `k` lines. -/
def mockOutput (k : Nat) : Bytes := (mockLogLines.take k).flatMap fun g => g.text ++ [newline]

/-- The lines of the mock parse, to these records. -/
theorem mockLogLines_parsed : mockLogLines.map LogLine.parsed = mockRecords := by
  -- All turns lead to the same call: it does not show the time.
  have hturns : LogLine.parsed ∘ mockTurn = fun _ => (mockTurn 0).parsed := rfl
  rw [mockLogLines, List.map_cons, List.map_map, hturns, List.map_const', List.length_range]
  rfl

/-- The first line of the output. -/
theorem mockOutput_succ_zero : mockOutput 1 = mockOutput 0 ++ mockFirstLine := by
  rw [mockFirstLine_eq]
  rfl

/-- A turn adds its line to the output. -/
theorem mockOutput_succ {i : Nat} (hi : i < mockTurns) :
    mockOutput (i + 2) = mockOutput (i + 1) ++ mockLoopLine i := by
  have hlen : i + 1 < mockLogLines.length := by
    rw [mockLogLines, List.length_cons, List.length_map, List.length_range]
    omega
  have hget : mockLogLines[i + 1] = mockTurn i := by
    simp [mockLogLines]
  rw [mockOutput, List.take_add_one, List.getElem?_eq_getElem hlen, hget, List.flatMap_append,
    mockLoopLine_eq]
  simp [mockOutput]

/-- Fewer lines are the front of more. -/
theorem mockOutput_isPrefix {k k' : Nat} (h : k ≤ k') : mockOutput k <+: mockOutput k' := by
  obtain ⟨more, hmore⟩ := List.take_prefix_take_left (l := mockLogLines) h
  refine ⟨more.flatMap fun g => g.text ++ [newline], ?_⟩
  rw [mockOutput, mockOutput, ← hmore, List.flatMap_append]

/-- The newlines of the output are the ends of its lines. -/
theorem lines_mockOutput (k : Nat) :
    lines newline (mockOutput k) = (mockLogLines.take k).map LogLine.text ∧
      unfinished newline (mockOutput k) = [] := by
  have hsplit : IsSplit newline (mockOutput k) ((mockLogLines.take k).map LogLine.text) [] := by
    refine ⟨?_, ?_, by simp⟩
    · rw [List.append_nil, List.flatMap_map]
      rfl
    · intro l hl
      obtain ⟨g, hg, rfl⟩ := List.mem_map.mp hl
      exact g.newline_notMem
  obtain ⟨hlines, hrest⟩ := isSplit_iff.mp hsplit
  exact ⟨hlines.symm, hrest.symm⟩

/-- The first `k` lines have `k` newlines. -/
theorem count_mockOutput {k : Nat} (hk : k ≤ mockTurns + 1) :
    (mockOutput k).count newline = k := by
  have hlen := congrArg List.length (lines_mockOutput k).1
  rw [lines, length_cutFrom, List.length_map, List.length_take, mockLogLines, List.length_cons,
    List.length_map, List.length_range] at hlen
  omega

/-- The lines are far shorter than the bound: all but the digits of the time is fixed. -/
theorem mockLine_short (g : LogLine) (hg : g ∈ mockLogLines) :
    g.text.length + 1 ≤ IRLoggerToSpd.lineBound := by
  have hbound : 5000 ≤ IRLoggerToSpd.lineBound := by decide
  refine Nat.le_trans ?_ hbound
  cases List.mem_cons.mp hg with
  | inl h =>
      rw [h]
      decide +kernel
  | inr h =>
      obtain ⟨i, hi, rfl⟩ := List.mem_map.mp h
      have hlt : i < mockTurns := List.mem_range.mp hi
      have htime : (Chrono.decimal i).length ≤ 4 := by
        simp only [Chrono.decimal, ascii, List.length_map,
          toString_of_nonneg (Int.natCast_nonneg i), Int.toNat_natCast]
        exact (Nat.length_toDigits_le_iff (by decide) (by decide)).mpr
          (Nat.lt_trans hlt (by decide))
      have hfixed : LevelName.debug.text.length + (ascii " [").length + (mockLocation 313).length
          + (ascii "] @ ").length + (ascii "s :").length
          + (ascii "This is some dummy mocked IRLogger output.").length < 1000 := by
        decide +kernel
      simp only [LogLine.text, mockTurn, List.length_append]
      omega

/-- The front of the output is made of short lines. -/
theorem linesAtMost_of_isPrefix {written : Bytes} {k : Nat} (h : written <+: mockOutput k) :
    LinesAtMost newline IRLoggerToSpd.lineBound [] written := by
  obtain ⟨rest, hrest⟩ := h
  obtain ⟨hlines, hunfinished⟩ := lines_mockOutput k
  have hall : LinesAtMost newline IRLoggerToSpd.lineBound [] (written ++ rest) := by
    rw [hrest]
    constructor
    · intro l hl
      show l.length + 1 ≤ IRLoggerToSpd.lineBound
      have hl' : l ∈ lines newline (mockOutput k) := hl
      rw [hlines] at hl'
      obtain ⟨g, hg, rfl⟩ := List.mem_map.mp hl'
      exact mockLine_short g (List.mem_of_mem_take hg)
    · show (unfinished newline (mockOutput k)).length ≤ IRLoggerToSpd.lineBound
      rw [hunfinished]
      exact Nat.zero_le _
  exact hall.of_append

/-- The calls for the front of the output are the front of the records. -/
theorem deliveries_of_isPrefix {passed : Bytes} {k : Nat} (h : passed <+: mockOutput k) :
    (lines newline passed).map IRLoggerParser.delivery
      = mockRecords.take (passed.count newline) := by
  obtain ⟨rest, hrest⟩ := h
  obtain ⟨more, hmore, -⟩ := @lines_append Byte _ newline passed rest
  rw [hrest, (lines_mockOutput k).1] at hmore
  -- The lines passed are the texts of so many lines of the format.
  have htake : lines newline passed
      = (mockLogLines.take (passed.count newline)).map LogLine.text := by
    have hcount : (lines newline passed).length = passed.count newline := length_cutFrom [] passed
    have hfront := congrArg (List.take (passed.count newline)) hmore
    have hle := congrArg List.length hmore
    simp only [List.length_map, List.length_take, List.length_append] at hle
    rw [← hcount, List.take_left, ← List.map_take, List.take_take,
      Nat.min_eq_left (by omega), hcount] at hfront
    exact hfront.symm
  rw [htake, ← mockLogLines_parsed, ← List.map_take, List.map_map]
  refine List.map_congr_left fun g _ => ?_
  exact IRLoggerParser.delivery_of_ok (parseLine_text_eq g)

open IRLoggerToSpd Shutdown

variable {N : Nat} {σ : Type} {callback : LoggingCallback σ}

namespace MockPc

/-- How many lines are written at a place, when no write has failed. -/
def Lines : MockPc → Nat → Prop
  | opening, k => k = 0
  | greeting, k => k = 0
  | testing i, k => k = i + 1
  | writing i, k => k = i + 1 ∧ i < mockTurns
  | sleeping i, k => k = i + 2 ∧ i < mockTurns
  | ended, _ => True

/-- Where `Shutdown`'s writer is at a place. -/
def At : MockPc → Shutdown.WriterPc → Prop
  | opening, writer => writer = .opening ∨ writer = .waiting
  | ended, writer => writer = .ended
  | _, writer => writer = .writing

end MockPc

namespace MockedIRLogger

/-- The invariant: the thread of the mock has written the front of its output, and the whole
of its lines if no write has failed. -/
structure Wrote (s : MockedIRLogger N σ) : Prop where
  follows : Follows lineBound s.impl
  writer : s.mock.At s.impl.threads.writer
  written : ∃ k, k ≤ mockTurns + 1 ∧ s.mock.Lines k ∧
    s.impl.threads.written <+: mockOutput k ∧
    (s.outGood = true → s.impl.threads.written = mockOutput k)

/-- The mock has written nothing at the start. -/
theorem wrote_initial (data : Vector Byte N) [NeZero N] (world : σ) :
    Wrote (initial data world : MockedIRLogger N σ) where
  follows := follows_initial lineBound data world
  writer := Or.inl rfl
  written := ⟨0, Nat.zero_le _, rfl, List.nil_prefix, fun _ => rfl⟩

/-- A step of the reader or of the destructor writes nothing. -/
theorem step_quiet [NeZero N] {s s' : IRLoggerToSpd N σ} {l : Shutdown.Label}
    (hl : ∀ w, l ≠ .writer w) (hs : IRLoggerToSpd.step callback s l = some s') :
    s'.threads.written = s.threads.written ∧ s'.threads.writer = s.threads.writer := by
  have hthreads : ∀ threads, Shutdown.step s.threads l = some threads →
      threads.written = s.threads.written ∧ threads.writer = s.threads.writer := by
    intro threads h
    cases l with
    | reader l => exact ⟨(readerStep_bytes h).1, readerStep_writer h⟩
    | writer w => exact absurd rfl (hl w)
    | owner l => exact ⟨(ownerStep_bytes h).1, (ownerStep_bytes h).2.2.2⟩
  obtain ⟨threads, h, ⟨bytes, -, -, rfl⟩ | ⟨-, rfl⟩⟩ := step_cases hs
  · unfold handleBytes
    split
    · exact hthreads threads h
    · exact hthreads threads h
  · exact hthreads threads h

/-- The thread goes on to a place where as many lines are written. -/
theorem Wrote.goesOn {s : MockedIRLogger N σ} (h : Wrote s) {pc : MockPc}
    (hwriter : ∀ writer, s.mock.At writer → pc.At writer)
    (hlines : ∀ k, k ≤ mockTurns + 1 → s.mock.Lines k → pc.Lines k) :
    Wrote { s with mock := pc } where
  follows := h.follows
  writer := hwriter _ h.writer
  written := by
    obtain ⟨k, hk, hplace, hprefix, hall⟩ := h.written
    exact ⟨k, hk, hlines k hk hplace, hprefix, hall⟩

/-- The same, where `Shutdown`'s writer opens or ends without a write. -/
theorem Wrote.moves {s : MockedIRLogger N σ} (h : Wrote s) {pc : MockPc}
    {writer : Shutdown.WriterPc} (hwriter : pc.At writer)
    (hended : writer = .ended ∨ s.impl.threads.writer ≠ .ended)
    (hlines : ∀ k, k ≤ mockTurns + 1 → s.mock.Lines k → pc.Lines k) :
    Wrote (s.mockMoves pc writer) where
  follows :=
    { threads :=
        { conserved := h.follows.threads.conserved
          writer := by
            intro hp
            cases hended with
            | inl hpc => exact hpc
            | inr hs => exact absurd (h.follows.threads.writer hp) hs
          stop := h.follows.threads.stop
          reader := h.follows.threads.reader
          since := h.follows.threads.since }
      held := h.follows.held
      parser := h.follows.parser }
  writer := hwriter
  written := by
    obtain ⟨k, hk, hplace, hprefix, hall⟩ := h.written
    exact ⟨k, hk, hlines k hk hplace, hprefix, hall⟩

/-- The thread writes the next line, or as much of it as gets through. -/
theorem Wrote.put {s s' : MockedIRLogger N σ} (h : Wrote s) {line : Bytes} {n : Nat} {pc : MockPc}
    (hwriting : s.impl.threads.writer = .writing) (hpc : pc.At .writing)
    (hline : ∀ k, k ≤ mockTurns + 1 → s.mock.Lines k →
      mockOutput (k + 1) = mockOutput k ++ line ∧ k + 1 ≤ mockTurns + 1 ∧ pc.Lines (k + 1))
    (hs : s.put line n pc = some s') : Wrote s' := by
  obtain ⟨k, hk, hplace, hprefix, hall⟩ := h.written
  obtain ⟨hnext, hk', hplace'⟩ := hline k hk hplace
  unfold MockedIRLogger.put at hs
  split at hs
  · rename_i hgood
    obtain ⟨threads, hthreads, rfl⟩ := Option.map_eq_some_iff.mp hs
    obtain ⟨hwritten, hwriter⟩ : threads.written = s.impl.threads.written ++ line.take n ∧
        threads.writer = s.impl.threads.writer := by
      simp only [writerStep, if_pos hwriting] at hthreads
      cases hthreads
      exact ⟨rfl, rfl⟩
    rw [hall hgood] at hwritten
    refine ⟨h.follows.moves (l := .writer (.write (line.take n))) hthreads (by simp), ?_,
      k + 1, hk', hplace', ?_, ?_⟩
    · show pc.At threads.writer
      rw [hwriter, hwriting]
      exact hpc
    · show threads.written <+: mockOutput (k + 1)
      rw [hwritten, hnext]
      exact (List.prefix_append_right_inj _).mpr (List.take_prefix n line)
    · intro hall'
      show threads.written = mockOutput (k + 1)
      rw [hwritten, hnext, List.take_of_length_le (of_decide_eq_true hall')]
  · -- The stream has failed before: nothing is written any more.
    rename_i hbad
    cases hs
    refine ⟨h.follows, ?_, k + 1, hk', hplace', ?_, fun hgood => absurd hgood hbad⟩
    · show pc.At s.impl.threads.writer
      rw [hwriting]
      exact hpc
    · exact hprefix.trans (mockOutput_isPrefix (Nat.le_succ k))

/-- A step of the thread of the mock keeps the account of the lines. -/
theorem wrote_mockStep {s s' : MockedIRLogger N σ} {l : MockLabel} (h : Wrote s)
    (hs : s.mockStep l = some s') : Wrote s' := by
  have hplace := h.writer
  cases l with
  | waits =>
      simp only [mockStep] at hs
      split at hs
      · rename_i hpc
        obtain ⟨threads, hthreads, rfl⟩ := Option.map_eq_some_iff.mp hs
        obtain ⟨k, hk, hlines, hprefix, hall⟩ := h.written
        have hwaits : threads.writer = .waiting ∧ threads.written = s.impl.threads.written := by
          simp only [writerStep] at hthreads
          split at hthreads
          · cases hthreads
            exact ⟨rfl, rfl⟩
          · cases hthreads
        refine ⟨h.follows.moves (l := .writer .waits) hthreads (by simp), ?_, k, hk, hlines, ?_, ?_⟩
        · show s.mock.At threads.writer
          rw [hpc, hwaits.1]
          exact Or.inr rfl
        · show threads.written <+: mockOutput k
          rwa [hwaits.2]
        · intro hgood
          show threads.written = mockOutput k
          rw [hwaits.2]
          exact hall hgood
      · cases hs
  | opens succeeds =>
      simp only [mockStep] at hs
      split at hs
      · rename_i hpc
        cases succeeds with
        | true =>
            obtain ⟨threads, hthreads, rfl⟩ := Option.map_eq_some_iff.mp hs
            obtain ⟨k, hk, hplace, hprefix, -⟩ := h.written
            rw [hpc] at hplace
            cases hplace
            -- Nothing was written yet, and the open writes nothing.
            have hnone : s.impl.threads.written = [] := List.prefix_nil.mp hprefix
            have hopened : threads.writer = .writing ∧ threads.written = s.impl.threads.written := by
              simp only [writerStep] at hthreads
              split at hthreads
              · cases hthreads
                exact ⟨rfl, rfl⟩
              · cases hthreads
            have hempty : threads.written = [] := hopened.2.trans hnone
            refine ⟨h.follows.moves (l := .writer .opens) hthreads (by simp), hopened.1, 0,
              Nat.zero_le _, rfl, ?_, fun _ => hempty⟩
            show threads.written <+: mockOutput 0
            rw [hempty]
            exact List.nil_prefix
        | false =>
            cases hs
            rw [hpc] at hplace
            refine h.moves rfl (Or.inr ?_) fun k _ hlines => ?_
            · obtain hw | hw := hplace
              · rw [hw]
                decide
              · rw [hw]
                decide
            · rw [hpc] at hlines
              exact hlines
      · cases hs
  | writes n =>
      simp only [mockStep] at hs
      split at hs
      · rename_i hpc
        rw [hpc] at hplace
        refine h.put hplace (show MockPc.At (.testing 0) .writing from rfl) ?_ hs
        intro k hk hplace
        rw [hpc] at hplace
        cases hplace
        exact ⟨mockOutput_succ_zero, by decide, rfl⟩
      · rename_i i hpc
        rw [hpc] at hplace
        refine h.put hplace (show MockPc.At (.sleeping i) .writing from rfl) ?_ hs
        intro k hk hplace
        rw [hpc] at hplace
        obtain ⟨rfl, hi⟩ := hplace
        exact ⟨mockOutput_succ hi, by omega, rfl, hi⟩
      · cases hs
  | tests =>
      simp only [mockStep] at hs
      split at hs
      · rename_i i hpc
        split at hs
        · rename_i hgoes
          cases hs
          rw [hpc] at hplace
          refine h.goesOn (fun writer hw => by rw [hpc] at hw; exact hw) fun k _ hplace => ?_
          rw [hpc] at hplace
          exact ⟨hplace, hgoes.1⟩
        · cases hs
          exact h.moves rfl (Or.inl rfl) fun _ _ _ => trivial
      · cases hs
  | wakes =>
      simp only [mockStep] at hs
      split at hs
      · rename_i i hpc
        cases hs
        refine h.goesOn (fun writer hw => by rw [hpc] at hw; exact hw) fun k _ hplace => ?_
        rw [hpc] at hplace
        exact hplace.1
      · cases hs

/-- Every step keeps the account of the lines. -/
theorem wrote_step [NeZero N] (hret : callback.Returns) (hN : lineBound + readBufferSize < N)
    (s : MockedIRLogger N σ) (l : MockedLabel) (s' : MockedIRLogger N σ) (h : Wrote s)
    (hs : step callback s l = some s') : Wrote s' := by
  have hquiet : ∀ (impl : IRLoggerToSpd N σ) (l : Shutdown.Label) (stop_ : Bool), (∀ w, l ≠ .writer w) →
      IRLoggerToSpd.step callback s.impl l = some impl →
      Wrote { s with impl := impl, stop_ := stop_ } := by
    intro impl l stop_ hl himpl
    obtain ⟨hwritten, hwriter⟩ := step_quiet hl himpl
    obtain ⟨k, hk, hplace, hprefix, hall⟩ := h.written
    refine ⟨follows_step hret hN _ l impl h.follows himpl, ?_, k, hk, hplace, ?_, ?_⟩
    · show s.mock.At impl.threads.writer
      rw [hwriter]
      exact h.writer
    · show impl.threads.written <+: mockOutput k
      rwa [hwritten]
    · intro hgood
      show impl.threads.written = mockOutput k
      rw [hwritten]
      exact hall hgood
  cases l with
  | reader l =>
      obtain ⟨impl, himpl, rfl⟩ := Option.map_eq_some_iff.mp hs
      exact hquiet impl (.reader l) s.stop_ (by simp) himpl
  | owner l =>
      obtain ⟨impl, himpl, rfl⟩ := Option.map_eq_some_iff.mp hs
      exact hquiet impl (.owner l) _ (by simp) himpl
  | mock l => exact wrote_mockStep h hs

/-- At every moment of every run of the mocked build: the callback has got the first records, as
many as newlines were passed on, and nothing else. No line was refused, and nothing was dumped.
While no write has failed, what is written is a number of whole lines, and their records are
the calls once all of it is passed on. -/
theorem mocked_records (hret : callback.Returns) (data : Vector Byte stringBufferSize) (world : σ)
    (s : MockedIRLogger stringBufferSize σ)
    (hs : Reachable (step callback) (initial data world) s) :
    s.impl.irLoggerParser_.invocations
        = mockRecords.take (s.impl.threads.passed.count newline) ∧
      (∀ contents, Event.dumped contents ∉ s.impl.irLoggerParser_.trace) ∧
      ∃ k, k ≤ mockTurns + 1 ∧ s.impl.threads.written <+: mockOutput k ∧
        (s.outGood = true → s.impl.threads.written = mockOutput k ∧
          (s.impl.threads.passed = s.impl.threads.written →
            s.impl.irLoggerParser_.invocations = mockRecords.take k)) := by
  have hN : lineBound + readBufferSize < stringBufferSize := by decide
  have h := hs.invariant (wrote_initial data world) (wrote_step hret hN)
  obtain ⟨k, hk, -, hprefix, hall⟩ := h.written
  obtain ⟨hcalls, -, hdumped⟩ := h.follows.calls hN (linesAtMost_of_isPrefix hprefix)
  rw [deliveries_of_isPrefix (h.follows.threads.passed_isPrefix.trans hprefix)] at hcalls
  refine ⟨hcalls, hdumped, k, hk, hprefix, fun hgood => ⟨hall hgood, fun hpassed => ?_⟩⟩
  rw [hcalls, hpassed, hall hgood, count_mockOutput hk]

/-- The mock writes its first line and a part of the next one, and the reader reads it all. -/
def lineAndHalf : List MockedLabel :=
  [.reader (.opens true), .mock (.opens true), .mock (.writes 100), .mock .tests,
    .mock (.writes 20), .reader .test, .reader (.poll (.ready ⟨true, false, false⟩)),
    .reader (.read (.bytes 1024))]

/-- The reader has read a line and a part of the next one, and passed them on. -/
theorem mocked_records_lineAndHalf :
    ∃ s : MockedIRLogger stringBufferSize (List (LogLevel × Bytes)),
      run (step record) (initial (Vector.replicate stringBufferSize 0) [])
        (lineAndHalf ++ [.reader .push]) = some s ∧
      s.impl.irLoggerParser_.invocations
          = mockRecords.take (s.impl.threads.passed.count newline) ∧
        (∀ contents, Event.dumped contents ∉ s.impl.irLoggerParser_.trace) ∧
        ∃ k, k ≤ mockTurns + 1 ∧ s.impl.threads.written <+: mockOutput k ∧
          (s.outGood = true → s.impl.threads.written = mockOutput k ∧
            (s.impl.threads.passed = s.impl.threads.written →
              s.impl.irLoggerParser_.invocations = mockRecords.take k)) := by
  have hN : lineBound + readBufferSize < stringBufferSize := by decide
  have hread : ∃ s bytes, run (step record) (initial (Vector.replicate stringBufferSize 0) [])
      lineAndHalf = some s ∧ s.impl.threads.reader = .pushing bytes := ⟨_, _, rfl, rfl⟩
  obtain ⟨s, bytes, hrun, hpc⟩ := hread
  have hpush : ∃ s', step record s (.reader .push) = some s' := by
    simp [step, IRLoggerToSpd.step, Shutdown.step, readerStep, hpc]
  obtain ⟨s', hs'⟩ := hpush
  exact ⟨s', run_concat hrun hs', mocked_records record_returns _ [] s' ⟨_, run_concat hrun hs'⟩⟩

end MockedIRLogger
end NqmIrimager
