import NqmIrimager.Lib.StepRun
import NqmIrimager.Proofs.ParserLines

/-!
# `NqmIrimager.Proofs.ParserFrames`: `push_data` as bounded framing

The parser against `Framing.feed`, which takes the stream one byte at a time, dumps a
pending part of `N` bytes when one more arrives, and knows no chunks.

`Shows p f` is the relation. One activation of `push_data` keeps it on each of its three
paths (`pushBody_fits`, `pushBody_fills`, `pushBody_dumps`), so a call does
(`pushData_shows`) and a list of chunks (`push_run`). They need `FillsSafely` of every
activation: where the data fills the buffer, `begin_` is not at the array end, and the
first line does not end past the array end with bytes behind it. A buffer that is not
filled needs nothing (`pushesSafely_of_room`).
-/

set_option autoImplicit false

namespace NqmIrimager
namespace IRLoggerParser

open Framing StepRun StringRingBuffer

variable {N : Nat} {σ : Type} {callback : LoggingCallback σ}

/-! ### The activations of a call -/

/-- The activations of `push_data` that `push_data(data)` leads to: the parser and the
argument each of them starts with. -/
def activations [NeZero N] (callback : LoggingCallback σ) (p : IRLoggerParser N σ)
    (data : Bytes) : List (IRLoggerParser N σ × Bytes) :=
  (p, data) ::
    match _h : pushBody callback p data with
    | .returned none _ => []
    | .returned (some rest) p' => activations callback p' rest
    | .threw _ _ => []
termination_by data.length
decreasing_by exact pushBody_length_lt _h

/-- A call that leaves a remainder calls itself with it. -/
theorem activations_next [NeZero N] {callback : LoggingCallback σ} {p p' : IRLoggerParser N σ}
    {data rest : Bytes} (h : pushBody callback p data = .returned (some rest) p') :
    activations callback p data = (p, data) :: activations callback p' rest := by
  rw [activations]
  congr 1
  split
  all_goals
    rename_i heq
    cases h.symm.trans heq
  rfl

/-- Every other call is the last one. -/
theorem activations_end [NeZero N] {callback : LoggingCallback σ} {p p' : IRLoggerParser N σ}
    {data : Bytes} (h : pushBody callback p data = .returned none p') :
    activations callback p data = [(p, data)] := by
  rw [activations]
  congr 1
  split
  all_goals
    rename_i heq
    cases h.symm.trans heq
  rfl

/-- An activation that starts in `b` with the argument `data` leaves the buffer readable
and loses nothing, if it fills the buffer. `b.size + data.idxOf newline + 1` is the length
of the first line, its newline included. -/
def FillsSafely (b : StringRingBuffer N) (data : Bytes) : Prop :=
  b.size < N → N ≤ b.size + data.length →
    b.begin_ < N ∧
      ¬ (N < b.begin_ + (b.size + data.idxOf newline + 1) ∧ b.size + data.idxOf newline + 1 < N)

/-- Every activation of `push_data(data)` starts safely. -/
def PushesSafely [NeZero N] (callback : LoggingCallback σ) (p : IRLoggerParser N σ)
    (data : Bytes) : Prop :=
  ∀ a ∈ activations callback p data, FillsSafely a.1.buffer_ a.2

/-! ### The relation -/

/-- The events of a piece of the stream. -/
def pieceEvents : Piece Byte → List Event
  | .line l => lineEvents l
  | .dump l => dumpEvents l

/-- The parser stands for `f`: the contents are what is pending, and the trace tells the
pieces in order. -/
structure Shows (p : IRLoggerParser N σ) (f : Frames Byte) : Prop where
  readable : Readable p.buffer_
  contents : p.buffer_.contents = f.pending
  clean : newline ∉ f.pending
  trace : p.trace = f.pieces.flatMap pieceEvents

/-- The buffer stores what is pending. -/
theorem Shows.size {p : IRLoggerParser N σ} {f : Frames Byte} (h : Shows p f) :
    p.buffer_.size_ = f.pending.length := by
  rw [← h.contents, length_contents]

/-- `peek()` shows what is pending. -/
theorem Shows.peek {p : IRLoggerParser N σ} {f : Frames Byte} (h : Shows p f) :
    p.buffer_.peek = f.pending := by
  rw [h.readable.peek_eq, h.contents]

/-- A new parser has no pieces, and nothing pending. -/
theorem shows_fresh [NeZero N] (data : Vector Byte N) (world : σ) :
    Shows (fresh data world) ⟨[], []⟩ where
  readable := readable_of_room (Nat.pos_of_ne_zero (NeZero.ne N))
  contents := contents_fresh data
  clean := by simp
  trace := rfl

/-! ### One activation -/

/-- An insert changes nothing but the buffer. -/
theorem onBuffer_insert {p : IRLoggerParser N σ} {data : Bytes} {b : StringRingBuffer N}
    (h : p.buffer_.insert data = .returned () b) :
    p.onBuffer (fun b => b.insert data) = .returned () { p with buffer_ := b } := by
  simp only [onBuffer, h]

/-- The first line is the one whose discard loses the front, after `data` has filled the
buffer. -/
def FillLosesFront (b : StringRingBuffer N) (data : Bytes) : Prop :=
  b.size_ + data.length = N ∧ b.begin_ < N ∧
    N < b.begin_ + (b.size_ + data.idxOf newline + 1) ∧ b.size_ + data.idxOf newline + 1 < N

/-- The common end of both paths: insert what fits, then take the lines out. -/
theorem insert_parse (hret : callback.Returns) {p : IRLoggerParser N σ} {f : Frames Byte}
    (h : Shows p f) {data : Bytes} (hfits : p.buffer_.size_ + data.length ≤ N)
    (hreadable : ¬ (p.buffer_.begin_ = N ∧ p.buffer_.size_ + data.length = N))
    (hfront : ¬ FillLosesFront p.buffer_ data) :
    ∃ b p', p.buffer_.insert data = .returned () b ∧
      parseLines callback { p with buffer_ := b } = .returned () p' ∧
      Shows p' (feedAll newline N f data) := by
  obtain ⟨b, hinsert, hbegin, hsize, hcontents⟩ := p.buffer_.insert_spec data hfits
  let p₁ : IRLoggerParser N σ := { p with buffer_ := b }
  have hpending : p₁.buffer_.contents = f.pending ++ data := by
    rw [← h.contents]
    exact hcontents
  have hpeek : Readable p₁.buffer_ := by
    show ¬ (b.begin_ = N ∧ b.size_ = N)
    rw [hbegin, hsize]
    exact hreadable
  -- The first line of the contents ends where the first newline of the data is.
  have hidx : p₁.buffer_.contents.idxOf newline = p.buffer_.size_ + data.idxOf newline := by
    rw [hpending, List.idxOf_append_of_notMem h.clean, h.size, Nat.add_comm]
  have hfront₁ : ¬ p₁.buffer_.LosesFront (p₁.buffer_.contents.idxOf newline + 1) := by
    rw [hidx]
    show ¬ (b.size_ = N ∧ b.begin_ < N ∧ _)
    rw [hbegin, hsize]
    exact hfront
  obtain ⟨p', hparse, hpeek', hcontents', htrace'⟩ := parseLines_spec hret p₁ hpeek hfront₁
  have hfeed : feedAll newline N f data = _ := feedAll_of_fits f data (by rwa [← h.size])
  have hcut : cutFrom newline [] (f.pending ++ data) = cutFrom newline f.pending data :=
    cutFrom_pending data h.clean
  refine ⟨b, p', hinsert, hparse, hpeek', ?_, ?_, ?_⟩
  · rw [hfeed, hcontents', hpending, unfinished, hcut]
  · rw [hfeed]
    exact (cutFrom_clean data h.clean).2
  · rw [hfeed, htrace', hpending, lines, hcut]
    show p.trace ++ _ = _
    rw [h.trace, List.flatMap_append, List.flatMap_map]
    rfl

/-- Data that fits is taken whole, and the call ends. -/
theorem pushBody_fits (hret : callback.Returns) {p : IRLoggerParser N σ} {f : Frames Byte}
    (h : Shows p f) {data : Bytes} (hsafe : FillsSafely p.buffer_ data)
    (hfits : p.buffer_.size_ + data.length ≤ N) :
    ∃ p', pushBody callback p data = .returned none p' ∧ Shows p' (feedAll newline N f data) := by
  have hpeek := h.readable
  unfold Readable at hpeek
  unfold FillsSafely size at hsafe
  have hreadable : ¬ (p.buffer_.begin_ = N ∧ p.buffer_.size_ + data.length = N) := by
    rintro ⟨hbegin, hfill⟩
    have := (hsafe (by omega) (by omega)).1
    omega
  have hfront : ¬ FillLosesFront p.buffer_ data := by
    rintro ⟨hfill, hbegin, hpast, hmore⟩
    exact (hsafe (by omega) (by omega)).2 ⟨hpast, hmore⟩
  obtain ⟨b, p', hinsert, hparse, hshows⟩ := insert_parse hret h hfits hreadable hfront
  refine ⟨p', ?_, hshows⟩
  rw [pushBody, size, if_pos hfits, onBuffer_insert hinsert, Outcome.bind_returned, hparse,
    Outcome.bind_returned]

/-- Data that does not fit fills the buffer, and the call goes on with the rest. -/
theorem pushBody_fills (hret : callback.Returns) {p : IRLoggerParser N σ} {f : Frames Byte}
    (h : Shows p f) {data : Bytes} (hsafe : FillsSafely p.buffer_ data)
    (hover : ¬ p.buffer_.size_ + data.length ≤ N) (hroom : p.buffer_.size_ < N) :
    ∃ now rest p', data = now ++ rest ∧ pushBody callback p data = .returned (some rest) p' ∧
      Shows p' (feedAll newline N f now) := by
  obtain ⟨hbegin, hline⟩ := hsafe hroom (by simp only [size]; omega)
  rw [size] at hline
  let now := data.take (N - p.buffer_.size_)
  have hnow : now.length = N - p.buffer_.size_ := by
    rw [List.length_take]
    omega
  have hfront : ¬ FillLosesFront p.buffer_ now := by
    rintro ⟨-, -, hpast, hmore⟩
    -- A newline that is inserted is where it was in the data.
    have hmem : newline ∈ now := List.idxOf_lt_length_iff.mp (by omega)
    have hidx : data.idxOf newline = now.idxOf newline := by
      rw [← List.take_append_drop (N - p.buffer_.size_) data]
      exact List.idxOf_append_of_mem hmem
    exact hline (by omega)
  obtain ⟨b, p', hinsert, hparse, hshows⟩ :=
    insert_parse hret h (show p.buffer_.size_ + now.length ≤ N by omega) (by omega) hfront
  refine ⟨now, data.drop now.length, p', ?_, ?_, hshows⟩
  · exact (List.prefix_iff_eq_append.mp (List.take_prefix _ data)).symm
  · rw [pushBody, size, if_neg hover, dumpIfFull_room hroom, Outcome.bind_returned]
    show (p.onBuffer fun b => b.insert now).bind _ = _
    rw [onBuffer_insert hinsert, Outcome.bind_returned, hparse, Outcome.bind_returned]
    rfl

/-- A full buffer is dumped first. It is empty then and starts at cell `0`, so what
follows is safe. -/
theorem pushBody_dumps (hret : callback.Returns) {p : IRLoggerParser N σ} {f : Frames Byte}
    (h : Shows p f) {data : Bytes} (hover : ¬ p.buffer_.size_ + data.length ≤ N) (hN : 0 < N)
    (hfull : p.buffer_.size_ = N) :
    ∃ now rest p', data = now ++ rest ∧ pushBody callback p data = .returned (some rest) p' ∧
      Shows p' (feedAll newline N f now) := by
  obtain ⟨p₁, hdump, hbegin₁, hsize₁, htrace₁⟩ := dumpIfFull_full hret h.readable hfull
  have hshows₁ : Shows p₁ ⟨f.pieces ++ [.dump f.pending], []⟩ := by
    refine ⟨readable_of_room (by omega), contents_eq_nil hsize₁, by simp, ?_⟩
    rw [htrace₁, h.trace, h.contents, List.flatMap_append]
    simp [pieceEvents]
  let now := data.take (N - p₁.buffer_.size_)
  have hnow : now.length = min N data.length := by
    rw [List.length_take, hsize₁, Nat.sub_zero]
  have hne : now ≠ [] := by
    rw [← List.length_pos_iff]
    omega
  -- From cell `0` nothing ends past the array end.
  have hfront : ¬ FillLosesFront p₁.buffer_ now := by
    rintro ⟨-, -, hpast, hmore⟩
    omega
  obtain ⟨b, p', hinsert, hparse, hshows⟩ :=
    insert_parse hret hshows₁ (show p₁.buffer_.size_ + now.length ≤ N by omega) (by omega) hfront
  refine ⟨now, data.drop now.length, p', ?_, ?_, ?_⟩
  · exact (List.prefix_iff_eq_append.mp (List.take_prefix _ data)).symm
  · rw [pushBody, size, if_neg hover, hdump, Outcome.bind_returned]
    show (p₁.onBuffer fun b => b.insert now).bind _ = _
    rw [onBuffer_insert hinsert, Outcome.bind_returned, hparse, Outcome.bind_returned]
    rfl
  · rwa [feedAll_of_full hN f hne (by rw [← h.size, hfull])]

/-! ### A call, and a list of chunks -/

variable [NeZero N]

/-- `push_data(data)` returns and frames the data, when its activations start safely. -/
theorem pushData_shows (hret : callback.Returns) {p : IRLoggerParser N σ} {f : Frames Byte}
    (h : Shows p f) (data : Bytes) (hsafe : PushesSafely callback p data) :
    ∃ p', pushData callback p data = .returned () p' ∧ Shows p' (feedAll newline N f data) := by
  have hN : 0 < N := Nat.pos_of_ne_zero (NeZero.ne N)
  -- By induction on the data still to take.
  induction hn : data.length using Nat.strongRecOn generalizing p f data with
  | _ n ih =>
      subst hn
      have hfirst : FillsSafely p.buffer_ data := by
        refine hsafe (p, data) ?_
        rw [activations]
        exact List.mem_cons_self
      by_cases hfits : p.buffer_.size_ + data.length ≤ N
      · -- The last activation.
        obtain ⟨p', hbody, hshows⟩ := pushBody_fits hret h hfirst hfits
        exact ⟨p', pushData_end hbody, hshows⟩
      · -- An activation that takes a part of the data, and the call for the rest.
        have hpart : ∃ now rest p', data = now ++ rest ∧
            pushBody callback p data = .returned (some rest) p' ∧
            Shows p' (feedAll newline N f now) := by
          rcases Nat.lt_or_ge p.buffer_.size_ N with hroom | hfull
          · exact pushBody_fills hret h hfirst hfits hroom
          · exact pushBody_dumps hret h hfits hN (Nat.le_antisymm p.buffer_.size_le hfull)
        obtain ⟨now, rest, p₁, hdata, hbody, hshows⟩ := hpart
        have hsafe₁ : PushesSafely callback p₁ rest := by
          intro a ha
          refine hsafe a ?_
          rw [activations_next hbody]
          exact List.mem_cons_of_mem _ ha
        obtain ⟨p', hrest, hshows'⟩ :=
          ih rest.length (pushBody_length_lt hbody) hshows rest hsafe₁ rfl
        refine ⟨p', (pushData_next hbody).trans hrest, ?_⟩
        rwa [hdata, feedAll_append]

/-- One call of `push_data`. -/
def push (callback : LoggingCallback σ) (p : IRLoggerParser N σ) (data : Bytes) :
    Option (IRLoggerParser N σ) :=
  (pushData callback p data).next

/-- The parser after a safe call stands for the frames of the data. -/
theorem push_shows (hret : callback.Returns) {p p₁ : IRLoggerParser N σ} {f : Frames Byte}
    (h : Shows p f) {data : Bytes} (hsafe : PushesSafely callback p data)
    (hp₁ : push callback p data = some p₁) : Shows p₁ (feedAll newline N f data) := by
  obtain ⟨p', hrun, hshows⟩ := pushData_shows hret h data hsafe
  rw [push, hrun, Outcome.next_returned, Option.some.injEq] at hp₁
  rwa [← hp₁]

/-- Every call of a list of chunks pushes safely. -/
def SafePushes (callback : LoggingCallback σ) (p : IRLoggerParser N σ) (chunks : List Bytes) :
    Prop :=
  Along (push callback) (PushesSafely callback) p chunks

/-- A list of chunks that are pushed safely is framed as one stream. -/
theorem push_run (hret : callback.Returns) {p : IRLoggerParser N σ} {f : Frames Byte}
    (h : Shows p f) {chunks : List Bytes} (hsafe : SafePushes callback p chunks) :
    ∃ p', run (push callback) p chunks = some p' ∧
      Shows p' (feedAll newline N f chunks.flatten) := by
  have hstep : ∀ (p : IRLoggerParser N σ) (f : Frames Byte) (data : Bytes), Shows p f →
      PushesSafely callback p data →
      ∃ p', push callback p data = some p' ∧ Shows p' (feedAll newline N f data) := by
    intro p f data hp hdata
    obtain ⟨p', hrun, hshows⟩ := pushData_shows hret hp data hdata
    exact ⟨p', by rw [push, hrun, Outcome.next_returned], hshows⟩
  obtain ⟨p', hrun, hshows⟩ := run_simulates hstep h hsafe
  exact ⟨p', hrun, by rwa [← foldl_feedAll]⟩

/-! ### Calls that do not fill the buffer -/

/-- A call that leaves room is one activation, and safe. -/
theorem pushesSafely_of_room (hret : callback.Returns) {p : IRLoggerParser N σ} {f : Frames Byte}
    (h : Shows p f) {data : Bytes} (hroom : p.buffer_.size_ + data.length < N) :
    PushesSafely callback p data := by
  have hfirst : FillsSafely p.buffer_ data := by
    intro _ hfill
    rw [size] at hfill
    omega
  obtain ⟨p', hbody, -⟩ := pushBody_fits hret h hfirst (Nat.le_of_lt hroom)
  intro a ha
  rw [activations_end hbody, List.mem_singleton] at ha
  rwa [ha]

/-- A stream shorter than the buffer never fills it. -/
theorem safePushes_of_short (hret : callback.Returns) {p : IRLoggerParser N σ} {f : Frames Byte}
    (h : Shows p f) {chunks : List Bytes}
    (hshort : (f.text newline).length + chunks.flatten.length < N) :
    SafePushes callback p chunks := by
  induction chunks generalizing p f with
  | nil => trivial
  | cons data chunks ih =>
      rw [List.flatten_cons, List.length_append] at hshort
      have hle : p.buffer_.size_ ≤ (f.text newline).length := by
        rw [h.size, Frames.text, List.length_append]
        omega
      have hsafe : PushesSafely callback p data := pushesSafely_of_room hret h (by omega)
      rw [SafePushes, along_cons]
      constructor
      · exact hsafe
      · intro p₁ hp₁
        apply ih (push_shows hret h hsafe hp₁)
        rw [text_feedAll, List.length_append]
        omega

/-- A stream whose lines leave room for one more chunk never fills it either, however long
the stream is. -/
theorem safePushes_of_linesAtMost (hret : callback.Returns) {bound k : Nat} (hk : 0 < k)
    (hbound : bound + k ≤ N) {p : IRLoggerParser N σ} {f : Frames Byte} (h : Shows p f)
    {chunks : List Bytes} (hchunks : ∀ data ∈ chunks, data.length ≤ k)
    (hlines : LinesAtMost newline bound f.pending chunks.flatten) :
    SafePushes callback p chunks := by
  induction chunks generalizing p f with
  | nil => trivial
  | cons data chunks ih =>
      rw [List.flatten_cons] at hlines
      have hlen := hchunks data List.mem_cons_self
      have hroom : p.buffer_.size_ + data.length < N := by
        rw [h.size]
        -- An empty chunk needs `0 < k`, any other one finds the pending part below the bound.
        cases data with
        | nil =>
            have hle := hlines.pending_le
            rw [List.length_nil]
            omega
        | cons c data =>
            have hlt := hlines.pending_lt (List.cons_ne_nil c _)
            omega
      have hsafe : PushesSafely callback p data := pushesSafely_of_room hret h hroom
      rw [SafePushes, along_cons]
      constructor
      · exact hsafe
      · intro p₁ hp₁
        apply ih (push_shows hret h hsafe hp₁) fun d hd => hchunks d (List.mem_cons_of_mem data hd)
        rw [feedAll_of_fits f data (by rw [← h.size]; omega)]
        exact hlines.append

end IRLoggerParser
end NqmIrimager
