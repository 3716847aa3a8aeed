import NqmIrimager.Proofs.ParserFrames
import NqmIrimager.Proofs.RingQueue

/-!
# `NqmIrimager.Proofs.ParserStream`: chunks, lines and dumps of one stream

Two properties of a list of `push_data` calls on a new parser, for the capacity of the
source. Both hold of calls that push safely (`SafePushes`):

* `push_run_of_flatten_eq`: how the stream is cut into chunks does not matter;
* `push_run_conserves`: the removed lines, the dumped contents and what is left are the
  stream.

A stream has one decomposition into lines, so conservation says more when nothing was
dumped: the removed lines are the lines of the stream (`push_run_lines`).

Neither holds of all calls. `hidden_run` takes `begin_` to the array end with two lines
and fills the buffer with one more chunk, which `peek()` then does not show.
-/

set_option autoImplicit false

namespace NqmIrimager
namespace IRLoggerParser

open Framing StepRun StringRingBuffer

variable {N : Nat} {σ : Type} {callback : LoggingCallback σ}

/-- The call an event records. -/
def Event.invocation : Event → Option (LogLevel × Bytes)
  | .removed _ => none
  | .dumped _ => none
  | .invoked level text => some (level, text)

/-- The bytes an event takes out of the buffer. -/
def Event.taken : Event → Bytes
  | .removed line => line ++ [newline]
  | .dumped contents => contents
  | .invoked _ _ => []

/-- The line an event removes. -/
def Event.line : Event → Option Bytes
  | .removed line => some line
  | .dumped _ => none
  | .invoked _ _ => none

/-- The callback calls so far, in order. -/
def invocations (p : IRLoggerParser N σ) : List (LogLevel × Bytes) :=
  p.trace.filterMap Event.invocation

/-- The removed lines with their newlines and the dumped contents, in order. -/
def taken (p : IRLoggerParser N σ) : Bytes := p.trace.flatMap Event.taken

/-- The removed lines, in order. -/
def removed (p : IRLoggerParser N σ) : List Bytes := p.trace.filterMap Event.line

/-- What was taken out is the text of the pieces. -/
theorem Shows.taken {p : IRLoggerParser N σ} {f : Frames Byte} (h : Shows p f) :
    p.taken = f.pieces.flatMap (Piece.text newline) := by
  rw [IRLoggerParser.taken, h.trace, List.flatMap_assoc]
  congr 1
  funext piece
  cases piece with
  | line l => simp [pieceEvents, lineEvents, Event.taken, Piece.text]
  | dump l => simp [pieceEvents, dumpEvents, Event.taken, Piece.text]

/-- What a removed line and a dump of the trace are pieces of. -/
theorem Shows.piece_of_event {p : IRLoggerParser N σ} {f : Frames Byte} (h : Shows p f) :
    (∀ l, Event.removed l ∈ p.trace → Piece.line l ∈ f.pieces) ∧
      ∀ c, Event.dumped c ∈ p.trace → Piece.dump c ∈ f.pieces := by
  rw [h.trace]
  constructor
  · intro l hl
    obtain ⟨piece, hpiece, hevent⟩ := List.mem_flatMap.mp hl
    cases piece with
    | line l' =>
        simp [pieceEvents, lineEvents] at hevent
        rwa [hevent]
    | dump l' => simp [pieceEvents, dumpEvents] at hevent
  · intro c hc
    obtain ⟨piece, hpiece, hevent⟩ := List.mem_flatMap.mp hc
    cases piece with
    | line l' => simp [pieceEvents, lineEvents] at hevent
    | dump l' =>
        simp [pieceEvents, dumpEvents] at hevent
        rwa [hevent]

/-- A removed line is one callback call. -/
theorem filterMap_lineEvents (l : Bytes) :
    (lineEvents l).filterMap Event.invocation = [delivery l] := rfl

/-- When every piece is a line, the callback calls are the deliveries of these lines. -/
theorem Shows.invocations_of_lines {p : IRLoggerParser N σ} {ls : List Bytes} {t : Bytes}
    (h : Shows p ⟨ls.map .line, t⟩) : p.invocations = ls.map delivery := by
  rw [invocations, h.trace]
  show List.filterMap _ (List.flatMap _ (ls.map Piece.line)) = _
  clear h
  induction ls with
  | nil => rfl
  | cons l ls ih =>
      rw [List.map_cons, List.flatMap_cons, List.filterMap_append, ih]
      rfl

/-- Nothing is lost: the bytes taken out and the bytes `peek()` shows are the stream. -/
theorem Shows.conserved {p : IRLoggerParser N σ} {stream : Bytes}
    (h : Shows p (feedAll newline N ⟨[], []⟩ stream)) : p.taken ++ p.buffer_.peek = stream := by
  rw [h.taken, h.peek]
  exact text_feedAll ⟨[], []⟩ stream

/-- What the events of a stream can be: a removed line has no newline, and a dump shows `N`
bytes without one. -/
theorem Shows.clean_events {p : IRLoggerParser N σ} {stream : Bytes}
    (h : Shows p (feedAll newline N ⟨[], []⟩ stream)) :
    (∀ line, Event.removed line ∈ p.trace → newline ∉ line) ∧
      ∀ contents, Event.dumped contents ∈ p.trace → contents.length = N ∧ newline ∉ contents := by
  have hclean : (feedAll newline N ⟨[], []⟩ stream).Clean newline N := clean_empty.feedAll stream
  constructor
  · intro line hline
    exact hclean.pieces _ (h.piece_of_event.1 line hline)
  · intro contents hcontents
    exact hclean.pieces _ (h.piece_of_event.2 contents hcontents)

/-- A removed line is in the trace. -/
theorem mem_removed {p : IRLoggerParser N σ} {line : Bytes} (h : line ∈ p.removed) :
    Event.removed line ∈ p.trace := by
  obtain ⟨event, hevent, hline⟩ := List.mem_filterMap.mp h
  cases event with
  | removed line' =>
      cases hline
      exact hevent
  | dumped contents => cases hline
  | invoked level text => cases hline

/-- Without a dump, the bytes taken out are the removed lines with their newlines. -/
theorem taken_of_not_dumped {p : IRLoggerParser N σ}
    (h : ∀ contents, Event.dumped contents ∉ p.trace) :
    p.taken = p.removed.flatMap (· ++ [newline]) := by
  rw [taken, removed]
  generalize p.trace = trace at h ⊢
  induction trace with
  | nil => rfl
  | cons event events ih =>
      have hrest := ih fun contents hc => h contents (List.mem_cons_of_mem event hc)
      cases event with
      | removed line =>
          rw [List.flatMap_cons, hrest]
          rfl
      | dumped contents => exact absurd List.mem_cons_self (h contents)
      | invoked level text =>
          rw [List.flatMap_cons, hrest]
          rfl

/-! ### The two properties -/

/-- Two lists of chunks of one stream, both pushed safely into a new parser, lead to the
same callback calls and the same contents of the buffer. -/
theorem push_run_of_flatten_eq (hret : callback.Returns)
    (data data' : Vector Byte stringBufferSize) (world : σ) (chunks chunks' : List Bytes)
    (hstream : chunks.flatten = chunks'.flatten)
    (hsafe : SafePushes callback (fresh data world) chunks)
    (hsafe' : SafePushes callback (fresh data' world) chunks') :
    ∃ p p', run (push callback) (fresh data world) chunks = some p ∧
      run (push callback) (fresh data' world) chunks' = some p' ∧
      p.invocations = p'.invocations ∧ p.buffer_.peek = p'.buffer_.peek := by
  obtain ⟨p, hrun, hshows⟩ := push_run hret (shows_fresh data world) hsafe
  obtain ⟨p', hrun', hshows'⟩ := push_run hret (shows_fresh data' world) hsafe'
  rw [← hstream] at hshows'
  refine ⟨p, p', hrun, hrun', ?_, ?_⟩
  · rw [invocations, invocations, hshows.trace, hshows'.trace]
  · rw [hshows.peek, hshows'.peek]

/-- Half a line and the rest of it, against the bytes one by one. -/
theorem push_run_of_flatten_eq_halves :
    ∃ p p' : IRLoggerParser stringBufferSize (List (LogLevel × Bytes)),
      run (push record) (fresh (Vector.replicate _ 0) []) [ascii "a\nb", [], ascii "c"] = some p ∧
      run (push record) (fresh (Vector.replicate _ 0) []) [[97], [10], [98], [99]] = some p' ∧
      p.invocations = p'.invocations ∧ p.buffer_.peek = p'.buffer_.peek :=
  push_run_of_flatten_eq record_returns (Vector.replicate _ 0) (Vector.replicate _ 0) []
    [ascii "a\nb", [], ascii "c"] [[97], [10], [98], [99]] (by decide)
    (safePushes_of_short record_returns (shows_fresh _ _) (by decide))
    (safePushes_of_short record_returns (shows_fresh _ _) (by decide))

/-- Bytes are conserved by calls that push safely into a new parser: the removed lines,
the dumped contents and what `peek()` shows at the end are the stream. A removed line has
no newline, and a dump shows a full buffer without a newline. -/
theorem push_run_conserves (hret : callback.Returns) (data : Vector Byte stringBufferSize)
    (world : σ) (chunks : List Bytes) (hsafe : SafePushes callback (fresh data world) chunks) :
    ∃ p, run (push callback) (fresh data world) chunks = some p ∧
      p.taken ++ p.buffer_.peek = chunks.flatten ∧
      (∀ line, Event.removed line ∈ p.trace → newline ∉ line) ∧
      ∀ contents, Event.dumped contents ∈ p.trace →
        contents.length = stringBufferSize ∧ newline ∉ contents := by
  obtain ⟨p, hrun, hshows⟩ := push_run hret (shows_fresh data world) hsafe
  have hclean := hshows.clean_events
  exact ⟨p, hrun, hshows.conserved, hclean.1, hclean.2⟩

/-- The bytes of two lines and a bit, pushed at once. -/
theorem push_run_conserves_lines :
    ∃ p : IRLoggerParser stringBufferSize (List (LogLevel × Bytes)),
      run (push record) (fresh (Vector.replicate _ 0) []) [ascii "a\nb\nc"] = some p ∧
      p.taken ++ p.buffer_.peek = [ascii "a\nb\nc"].flatten ∧
      (∀ line, Event.removed line ∈ p.trace → newline ∉ line) ∧
      ∀ contents, Event.dumped contents ∈ p.trace →
        contents.length = stringBufferSize ∧ newline ∉ contents :=
  push_run_conserves record_returns (Vector.replicate _ 0) [] [ascii "a\nb\nc"]
    (safePushes_of_short record_returns (shows_fresh _ _) (by decide))

/-- Without an overflow, the removed lines are the lines of the stream and `peek()` is its
unfinished part. -/
theorem push_run_lines (hret : callback.Returns) {data : Vector Byte stringBufferSize} {world : σ}
    {chunks : List Bytes} (hsafe : SafePushes callback (fresh data world) chunks)
    {p : IRLoggerParser stringBufferSize σ} (hrun : run (push callback) (fresh data world) chunks
      = some p) (hdumped : ∀ contents, Event.dumped contents ∉ p.trace) :
    p.removed = lines newline chunks.flatten ∧
      p.buffer_.peek = unfinished newline chunks.flatten := by
  obtain ⟨p', hrun', hshows⟩ := push_run hret (shows_fresh data world) hsafe
  obtain rfl : p = p' := Option.some.inj (hrun.symm.trans hrun')
  have hsplit : IsSplit newline chunks.flatten p.removed p.buffer_.peek := by
    constructor
    · rw [← taken_of_not_dumped hdumped]
      exact hshows.conserved
    · intro line hline
      exact hshows.clean_events.1 line (mem_removed hline)
    · rw [hshows.peek]
      exact hshows.clean
  exact isSplit_iff.mp hsplit

/-! ### A run that is not safe -/

variable [NeZero N]

/-- Two lines that take `begin_` to the array end, through cell `1`. -/
def toArrayEnd (N : Nat) : List Bytes :=
  [[newline], List.replicate (N - 2) (33 : Byte) ++ [newline]]

/-- One more line, and bytes up to the capacity. -/
def filling (N : Nat) : Bytes := newline :: List.replicate (N - 1) (33 : Byte)

/-- The filling has no newline. -/
theorem newline_not_mem_replicate (n : Nat) : newline ∉ List.replicate n (33 : Byte) := by
  intro h
  exact absurd (List.eq_of_mem_replicate h) (by decide)

/-- A line that is pushed alone into an empty buffer moves `begin_` by its length, up to
and including the array end. -/
theorem pushData_line (hret : callback.Returns) {p : IRLoggerParser N σ} {l : Bytes}
    (hempty : p.buffer_.size_ = 0) (hl : newline ∉ l) (hroom : l.length + 1 < N)
    (hend : p.buffer_.begin_ + (l.length + 1) ≤ N) :
    ∃ p', push callback p (l ++ [newline]) = some p' ∧
      p'.buffer_.begin_ = p.buffer_.begin_ + (l.length + 1) ∧ p'.buffer_.size_ = 0 ∧
      p'.trace = p.trace ++ lineEvents l := by
  have hlen : (l ++ [newline]).length = l.length + 1 := by simp
  have hfits : p.buffer_.size_ + (l ++ [newline]).length ≤ N := by omega
  obtain ⟨b, hinsert, hbegin, hsize, hcontents⟩ := p.buffer_.insert_spec (l ++ [newline]) hfits
  let p₁ : IRLoggerParser N σ := { p with buffer_ := b }
  have hsize₁ : b.size_ = l.length + 1 := by omega
  have hline : p₁.buffer_.contents = l ++ newline :: [] := by
    show b.contents = _
    rw [hcontents, contents_eq_nil hempty, List.nil_append]
  have hfront : ¬ p₁.buffer_.LosesFront (l.length + 1) := by
    rintro ⟨hfull, -⟩
    exact absurd (hsize₁.symm.trans hfull) (by omega)
  obtain ⟨p', htry, hbegin', hsize', hrest, htrace⟩ :=
    tryParse_line hret (readable_of_room (show b.size_ < N by omega)) hline hl hfront
  have hpeek : newline ∉ p'.buffer_.peek := by
    rw [peek, if_pos (by rw [hsize']; show b.size_ - _ = 0; omega)]
    simp
  have hparse := (parseLines_next htry).trans (parseLines_end (tryParse_none hpeek))
  have hbody : pushBody callback p (l ++ [newline]) = .returned none p' := by
    rw [pushBody, size, if_pos hfits, onBuffer_insert hinsert, Outcome.bind_returned, hparse,
      Outcome.bind_returned]
  refine ⟨p', ?_, ?_, ?_, htrace⟩
  · rw [push, pushData_end hbody, Outcome.next_returned]
  · rw [hbegin']
    show b.beginAfterDiscard (l.length + 1) = _
    rw [← hbegin] at hend ⊢
    unfold beginAfterDiscard
    rcases b.end_cases with he | he | he
    · rw [if_pos (by omega), if_neg (by omega)]
    · rw [if_neg (by omega), if_pos (by omega)]
    · omega
  · rw [hsize']
    show b.size_ - _ = 0
    omega

/-- A chunk that fills an empty buffer whose `begin_` is at the array end is not seen by
the parser. -/
theorem pushData_hidden {p : IRLoggerParser N σ} {data : Bytes} (hempty : p.buffer_.size_ = 0)
    (hbegin : p.buffer_.begin_ = N) (hfill : data.length = N) :
    ∃ p', push callback p data = some p' ∧ p'.buffer_.peek = [] ∧ p'.trace = p.trace := by
  obtain ⟨b, hinsert, -, -, hpeek⟩ := p.buffer_.peek_hides_after_fill data hbegin (by omega)
  let p' : IRLoggerParser N σ := { p with buffer_ := b }
  have hparse : parseLines callback p' = .returned () p' :=
    parseLines_end (tryParse_none (by rw [show p'.buffer_.peek = [] from hpeek]; simp))
  have hbody : pushBody callback p data = .returned none p' := by
    rw [pushBody, size, if_pos (by omega), onBuffer_insert hinsert, Outcome.bind_returned, hparse,
      Outcome.bind_returned]
  exact ⟨p', by rw [push, pushData_end hbody, Outcome.next_returned], hpeek, rfl⟩

/-- Two lines to the array end, then a chunk of the size of the buffer: the chunk is in
the buffer and out of sight, the line it starts with included. -/
theorem hidden_run (hret : callback.Returns) (hN : 3 ≤ N) (data : Vector Byte N) (world : σ) :
    ∃ p, run (push callback) (fresh data world) (toArrayEnd N ++ [filling N]) = some p ∧
      p.buffer_.peek = [] ∧
      p.trace = lineEvents [] ++ lineEvents (List.replicate (N - 2) 33) := by
  have hlen : (List.replicate (N - 2) (33 : Byte)).length = N - 2 := List.length_replicate
  have hfill : (filling N).length = N := by
    rw [filling, List.length_cons, List.length_replicate]
    omega
  let p₀ : IRLoggerParser N σ := fresh data world
  have hbegin₀ : p₀.buffer_.begin_ = 0 := rfl
  -- The empty line takes `begin_` to `1`, the second line from there to `N`.
  obtain ⟨p₁, hrun₁, hbegin₁, hsize₁, htrace₁⟩ :=
    pushData_line hret (show p₀.buffer_.size_ = 0 from rfl) (show newline ∉ [] by simp)
      (by rw [List.length_nil]; omega) (by rw [hbegin₀, List.length_nil]; omega)
  rw [hbegin₀, List.length_nil] at hbegin₁
  obtain ⟨p₂, hrun₂, hbegin₂, hsize₂, htrace₂⟩ :=
    pushData_line hret hsize₁ (newline_not_mem_replicate (N - 2)) (by omega) (by omega)
  obtain ⟨p₃, hrun₃, hpeek₃, htrace₃⟩ :=
    @pushData_hidden N σ callback _ p₂ (filling N) hsize₂ (by omega) hfill
  refine ⟨p₃, ?_, hpeek₃, ?_⟩
  · rw [toArrayEnd, List.cons_append, List.cons_append, List.nil_append]
    refine run_cons_eq_some.mpr ⟨p₁, hrun₁, run_cons_eq_some.mpr ⟨p₂, hrun₂, ?_⟩⟩
    rw [run_singleton, hrun₃]
  · rw [htrace₃, htrace₂, htrace₁]
    rfl

/-- The lines of that stream. -/
theorem cutFrom_hidden (N : Nat) :
    cutFrom newline [] (toArrayEnd N ++ [filling N]).flatten
      = ([[], List.replicate (N - 2) 33, []], List.replicate (N - 1) 33) := by
  have hstream : (toArrayEnd N ++ [filling N]).flatten
      = [] ++ newline :: (List.replicate (N - 2) 33 ++ newline :: ([] ++ newline ::
          List.replicate (N - 1) 33)) := by
    simp [toArrayEnd, filling]
  rw [hstream, cutFrom_line [] _ (by simp), cutFrom_line [] _ (newline_not_mem_replicate _),
    cutFrom_line [] _ (by simp), cutFrom_of_not_mem [] (newline_not_mem_replicate _)]
  simp

/-- Single bytes are a cut of any stream. -/
theorem flatten_byByte (stream : Bytes) : (stream.map fun c => [c]).flatten = stream := by
  induction stream with
  | nil => rfl
  | cons c cs ih => rw [List.map_cons, List.flatten_cons, ih, List.singleton_append]

/-- The same stream, byte by byte, is framed as it should be. -/
theorem byByte_run (hret : callback.Returns) (hN : 3 ≤ N) (data : Vector Byte N) (world : σ) :
    ∃ p, run (push callback) (fresh data world)
        ((toArrayEnd N ++ [filling N]).flatten.map fun c => [c]) = some p ∧
      p.buffer_.peek = List.replicate (N - 1) 33 ∧
      p.trace = lineEvents [] ++ lineEvents (List.replicate (N - 2) 33) ++ lineEvents [] := by
  let stream := (toArrayEnd N ++ [filling N]).flatten
  have hflatten : (stream.map fun c => [c]).flatten = stream := flatten_byByte stream
  have hlines : LinesAtMost newline (N - 1) [] stream := by
    rw [LinesAtMost, cutFrom_hidden N]
    constructor
    · intro l hl
      simp only [List.mem_cons, List.not_mem_nil, or_false] at hl
      rcases hl with rfl | rfl | rfl
      · rw [List.length_nil]
        omega
      · rw [List.length_replicate]
        omega
      · rw [List.length_nil]
        omega
    · exact Nat.le_of_eq List.length_replicate
  have hsafe : SafePushes callback (fresh data world) (stream.map fun c => [c]) := by
    refine safePushes_of_linesAtMost hret Nat.one_pos (show N - 1 + 1 ≤ N by omega)
      (shows_fresh data world) ?_ (by rwa [hflatten])
    intro chunk hchunk
    obtain ⟨c, -, rfl⟩ := List.mem_map.mp hchunk
    exact Nat.le_refl 1
  obtain ⟨p, hrun, hshows⟩ := push_run hret (shows_fresh data world) hsafe
  rw [hflatten, feedAll_of_linesAtMost (show N - 1 ≤ N by omega) _ hlines, cutFrom_hidden N]
    at hshows
  refine ⟨p, hrun, hshows.peek, ?_⟩
  rw [hshows.trace]
  rfl

/-- One stream in two cuts, for any capacity from three bytes on. -/
theorem cuts_differ (hret : callback.Returns) (hN : 3 ≤ N) (data : Vector Byte N) (world : σ) :
    ∃ p p', run (push callback) (fresh data world) (toArrayEnd N ++ [filling N]) = some p ∧
      run (push callback) (fresh data world)
        ((toArrayEnd N ++ [filling N]).flatten.map fun c => [c]) = some p' ∧
      p.invocations ≠ p'.invocations ∧ p.buffer_.peek ≠ p'.buffer_.peek := by
  obtain ⟨p, hrun, hpeek, htrace⟩ := hidden_run hret hN data world
  obtain ⟨p', hrun', hpeek', htrace'⟩ := byByte_run hret hN data world
  refine ⟨p, p', hrun, hrun', ?_, ?_⟩
  · -- Two lines against three.
    intro heq
    have hlen := congrArg List.length heq
    rw [invocations, invocations, htrace, htrace'] at hlen
    simp only [List.filterMap_append, filterMap_lineEvents, List.length_append,
      List.length_singleton] at hlen
    omega
  · intro heq
    have hlen := congrArg List.length heq
    rw [hpeek, hpeek', List.length_replicate, List.length_nil] at hlen
    omega

/-- The removed lines and what `peek()` shows are half of that stream. -/
theorem half_taken (hret : callback.Returns) (hN : 3 ≤ N) (data : Vector Byte N) (world : σ) :
    ∃ p, run (push callback) (fresh data world) (toArrayEnd N ++ [filling N]) = some p ∧
      p.taken ++ p.buffer_.peek ≠ (toArrayEnd N ++ [filling N]).flatten := by
  obtain ⟨p, hrun, hpeek, htrace⟩ := hidden_run hret hN data world
  refine ⟨p, hrun, ?_⟩
  intro heq
  have hlen := congrArg List.length heq
  simp [taken, hpeek, htrace, lineEvents, Event.taken, toArrayEnd, filling] at hlen

/-- One stream in two cuts that lead to different callback calls and different contents:
two lines and a chunk that fills the buffer from its array end, or one byte at a time. -/
theorem cuts_differ_source :
    ((toArrayEnd stringBufferSize ++ [filling stringBufferSize]).flatten.map
        fun c => [c]).flatten = (toArrayEnd stringBufferSize ++ [filling stringBufferSize]).flatten ∧
      ∃ p p', run (push record) (fresh (Vector.replicate stringBufferSize 0) [])
          (toArrayEnd stringBufferSize ++ [filling stringBufferSize]) = some p ∧
        run (push record) (fresh (Vector.replicate stringBufferSize 0) [])
          ((toArrayEnd stringBufferSize ++ [filling stringBufferSize]).flatten.map
            fun c => [c]) = some p' ∧
        p.invocations ≠ p'.invocations ∧ p.buffer_.peek ≠ p'.buffer_.peek :=
  ⟨flatten_byByte _, cuts_differ record_returns (by decide) _ []⟩

/-- After two lines and a chunk that fills the buffer from its array end, the removed
lines and `peek()` make up half of the stream. -/
theorem half_taken_source :
    ∃ p, run (push record) (fresh (Vector.replicate stringBufferSize 0) [])
        (toArrayEnd stringBufferSize ++ [filling stringBufferSize]) = some p ∧
      p.taken ++ p.buffer_.peek
        ≠ (toArrayEnd stringBufferSize ++ [filling stringBufferSize]).flatten :=
  half_taken record_returns (by decide) _ []

end IRLoggerParser
end NqmIrimager
