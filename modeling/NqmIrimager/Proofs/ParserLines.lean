import NqmIrimager.IRLoggerParser
import NqmIrimager.Lib.Framing
import NqmIrimager.Proofs.RingContents

/-!
# `NqmIrimager.Proofs.ParserLines`: what `try_parse` takes out of the buffer

One specification for each function below `push_data`, when the callback returns
normally. They speak about the buffer's `contents` and the parser's `trace`:

* `deliver_spec`: one line, one callback call, `delivery` says which.
* `tryParse_none` and `tryParse_line`: the two exits of `try_parse`.
* `parseLines_spec`: the loop cuts the contents as `Framing.cutFrom` does.
* `dumpIfFull_full` and `dumpIfFull_room`: the overflow warning, and its absence.

The one condition is on the first line: its discard must not be one that loses the front
(`LosesFront`). After it the buffer is not full any more, and no later discard can be.
-/

set_option autoImplicit false

namespace NqmIrimager
namespace IRLoggerParser

open Framing StringRingBuffer

variable {N : Nat} {σ : Type} {callback : LoggingCallback σ}

/-- `peek()` shows the contents. -/
def Readable (b : StringRingBuffer N) : Prop := ¬ (b.begin_ = N ∧ b.size_ = N)

/-- A readable buffer shows what it stores. -/
theorem Readable.peek_eq {b : StringRingBuffer N} (h : Readable b) : b.peek = b.contents :=
  b.peek_eq_contents h

/-- A buffer that is not full is readable. -/
theorem readable_of_room {b : StringRingBuffer N} (h : b.size_ < N) : Readable b := by
  rintro ⟨-, hfull⟩
  omega

/-- The call a complete line leads to: its level and text when it parses, a warning that
ends with the line when it does not. -/
def delivery (line : Bytes) : LogLevel × Bytes :=
  match parseLine line with
  | .error e => (.warn, failedToParse e line)
  | .ok message => message

/-- The events of a removed line. -/
def lineEvents (line : Bytes) : List Event :=
  [.removed line, .invoked (delivery line).1 (delivery line).2]

/-- The events of an overflow. -/
def dumpEvents (contents : Bytes) : List Event :=
  [.dumped contents, .invoked .warn (overflowed contents)]

/-- A call of the callback is noted, and changes nothing else of the parser. -/
theorem loggingCallback_spec (hret : callback.Returns) (p : IRLoggerParser N σ)
    (level : LogLevel) (text : Bytes) :
    ∃ w, loggingCallback callback p level text
      = .returned () { p.note (.invoked level text) with world := w } := by
  obtain ⟨w, hw⟩ := hret level text p.world
  refine ⟨w, ?_⟩
  rw [loggingCallback, hw]

/-- The delivery of a line that does not parse is the warning. -/
theorem delivery_of_error {line : Bytes} {e : Exception} (h : parseLine line = .error e) :
    delivery line = (.warn, failedToParse e line) := by
  rw [delivery, h]

/-- The delivery of a line that parses is its level and text. -/
theorem delivery_of_ok {line : Bytes} {m : LogLevel × Bytes} (h : parseLine line = .ok m) :
    delivery line = m := by
  rw [delivery, h]

/-- A delivery whose callback call returns is one call. -/
theorem deliver_of_returned {p : IRLoggerParser N σ} {line : Bytes} {w : σ}
    (h : callback (delivery line).1 (delivery line).2 p.world = .returned () w) :
    deliver callback p line
      = .returned () { p.note (.invoked (delivery line).1 (delivery line).2) with world := w } := by
  cases hline : parseLine line with
  | error e =>
      rw [delivery_of_error hline] at h ⊢
      simp only [deliver, hline, loggingCallback, h]
  | ok m =>
      rw [delivery_of_ok hline] at h ⊢
      simp only [deliver, hline, loggingCallback, h]

/-- While the callback returns, `deliver` makes the one call that `delivery` says. -/
theorem deliver_spec (hret : callback.Returns) (p : IRLoggerParser N σ) (line : Bytes) :
    ∃ w, deliver callback p line
      = .returned () { p.note (.invoked (delivery line).1 (delivery line).2) with world := w } := by
  obtain ⟨w, hw⟩ := hret (delivery line).1 (delivery line).2 p.world
  exact ⟨w, deliver_of_returned hw⟩

/-! ### `try_parse` -/

/-- Without a newline there is no line to find. -/
theorem findIdx?_of_not_mem {x : Bytes} (h : newline ∉ x) :
    x.findIdx? (· == newline) = none := by
  rw [List.findIdx?_eq_none_iff]
  intro c hc
  have hne : c ≠ newline := fun heq => h (heq ▸ hc)
  simpa using hne

/-- The first newline is found behind the first line. -/
theorem findIdx?_line {l r : Bytes} (h : newline ∉ l) :
    (l ++ newline :: r).findIdx? (· == newline) = some l.length := by
  induction l with
  | nil => simp [List.findIdx?_cons]
  | cons c l ih =>
      simp only [List.mem_cons, not_or] at h
      obtain ⟨hc, hl⟩ := h
      have hne : (c == newline) = false := by simpa using Ne.symm hc
      simp [List.findIdx?_cons, hne, ih hl]

/-- Without a newline in the buffer, `try_parse` changes nothing. -/
theorem tryParse_none {p : IRLoggerParser N σ} (h : newline ∉ p.buffer_.peek) :
    tryParse callback p = .returned false p := by
  unfold tryParse
  simp only [findIdx?_of_not_mem h]

/-- With a newline, `try_parse` takes the first line and its newline out of the buffer
and delivers the line. -/
theorem tryParse_line (hret : callback.Returns) {p : IRLoggerParser N σ} {l r : Bytes}
    (hpeek : Readable p.buffer_) (hcontents : p.buffer_.contents = l ++ newline :: r)
    (hl : newline ∉ l) (hfront : ¬ p.buffer_.LosesFront (l.length + 1)) :
    ∃ p', tryParse callback p = .returned true p' ∧
      p'.buffer_.begin_ = p.buffer_.beginAfterDiscard (l.length + 1) ∧
      p'.buffer_.size_ = p.buffer_.size_ - (l.length + 1) ∧
      p'.buffer_.contents = r ∧ p'.trace = p.trace ++ lineEvents l := by
  have hsize : p.buffer_.size_ = l.length + 1 + r.length := by
    rw [← length_contents, hcontents]
    simp only [List.length_append, List.length_cons]
    omega
  have hle : l.length + 1 ≤ p.buffer_.size_ := by omega
  obtain ⟨b, hdiscard, hbegin, hsize', hrest⟩ := p.buffer_.discard_spec hle hfront
  let p₁ : IRLoggerParser N σ := { p with buffer_ := b }
  obtain ⟨w, hdeliver⟩ := deliver_spec hret (p₁.note (.removed l)) l
  -- The buffer after the discard, the trace after the note and the call.
  refine ⟨{ (p₁.note (.removed l)).note (.invoked (delivery l).1 (delivery l).2) with world := w },
    ?_, hbegin, hsize', ?_, ?_⟩
  · unfold tryParse
    simp only [hpeek.peek_eq, hcontents, findIdx?_line hl, List.take_left]
    simp only [onBuffer, hdiscard, Outcome.bind_returned]
    rw [hdeliver, Outcome.bind_returned]
  · show b.contents = r
    rw [hrest, hcontents, show l ++ newline :: r = (l ++ [newline]) ++ r by simp]
    exact List.drop_left' (by simp)
  · show (p.trace ++ [Event.removed l]) ++ [Event.invoked _ _] = _
    rw [List.append_assoc]
    rfl

/-! ### The loop -/

/-- A stream has no newline, or a first line. -/
theorem first_line (x : Bytes) : newline ∉ x ∨
    ∃ l r, x = l ++ newline :: r ∧ newline ∉ l ∧ l.length = x.idxOf newline := by
  induction x with
  | nil => exact Or.inl (by simp)
  | cons c x ih =>
      by_cases hc : c = newline
      · exact Or.inr ⟨[], x, by simp [hc], by simp, by simp [hc]⟩
      · rcases ih with hx | ⟨l, r, rfl, hl, hlen⟩
        · exact Or.inl (by simp [hx, Ne.symm hc])
        · refine Or.inr ⟨c :: l, r, rfl, by simp [hl, Ne.symm hc], ?_⟩
          rw [List.idxOf_cons_ne _ hc, ← hlen]
          rfl

/-- `while (try_parse());` delivers every complete line and leaves the rest. -/
theorem parseLines_spec (hret : callback.Returns) (p : IRLoggerParser N σ)
    (hpeek : Readable p.buffer_)
    (hfront : ¬ p.buffer_.LosesFront (p.buffer_.contents.idxOf newline + 1)) :
    ∃ p', parseLines callback p = .returned () p' ∧ Readable p'.buffer_ ∧
      p'.buffer_.contents = unfinished newline p.buffer_.contents ∧
      p'.trace = p.trace ++ (lines newline p.buffer_.contents).flatMap lineEvents := by
  -- By induction on what the buffer holds; a removed line leaves a buffer with room.
  induction hn : p.buffer_.size_ using Nat.strongRecOn generalizing p with
  | _ n ih =>
      subst hn
      rcases first_line p.buffer_.contents with hnone | ⟨l, r, hcontents, hl, hlen⟩
      · -- No newline: the loop ends at once.
        have hcut : cutFrom newline [] p.buffer_.contents = ([], p.buffer_.contents) := by
          rw [cutFrom_of_not_mem [] hnone, List.nil_append]
        refine ⟨p, ?_, hpeek, ?_, ?_⟩
        · exact parseLines_end (tryParse_none (by rwa [hpeek.peek_eq]))
        · rw [unfinished, hcut]
        · rw [lines, hcut]
          simp
      · -- A first line: one turn, and the induction hypothesis for what follows it.
        obtain ⟨p₁, hrun, -, hsize, hrest, htrace⟩ :=
          tryParse_line hret hpeek hcontents hl (by rwa [← hlen] at hfront)
        have hlt := tryParse_size_lt hrun
        have hroom : p₁.buffer_.size_ < N := Nat.lt_of_lt_of_le hlt p.buffer_.size_le
        have hfront₁ : ¬ p₁.buffer_.LosesFront (p₁.buffer_.contents.idxOf newline + 1) := by
          rintro ⟨hfull, -⟩
          omega
        obtain ⟨p', hloop, hpeek', hcontents', htrace'⟩ :=
          ih _ hlt p₁ (readable_of_room hroom) hfront₁ rfl
        have hcut : cutFrom newline [] p.buffer_.contents
            = (l :: lines newline r, unfinished newline r) := by
          rw [hcontents, cutFrom_line [] r hl]
          rfl
        have hlines : lines newline p.buffer_.contents = l :: lines newline r := by
          rw [lines, hcut]
        have hrest' : unfinished newline p.buffer_.contents = unfinished newline r := by
          rw [unfinished, hcut]
        refine ⟨p', (parseLines_next hrun).trans hloop, hpeek', ?_, ?_⟩
        · rw [hcontents', hrest, hrest']
        · rw [htrace', htrace, hrest, hlines, List.flatMap_cons, List.append_assoc]

/-! ### The overflow -/

/-- A full buffer is dumped: the warning shows all of it, and it is empty afterwards,
with `begin_` back at `0`. -/
theorem dumpIfFull_full (hret : callback.Returns) {p : IRLoggerParser N σ}
    (hpeek : Readable p.buffer_) (hfull : p.buffer_.size_ = N) :
    ∃ p', dumpIfFull callback p = .returned () p' ∧ p'.buffer_.begin_ = 0 ∧
      p'.buffer_.size_ = 0 ∧ p'.trace = p.trace ++ dumpEvents p.buffer_.contents := by
  let p₁ := p.note (.dumped p.buffer_.contents)
  obtain ⟨w, hcall⟩ := loggingCallback_spec hret p₁ .warn (overflowed p.buffer_.contents)
  obtain ⟨b, hdiscard, hbegin, hsize, -⟩ := p.buffer_.discard_returns (Nat.le_refl p.buffer_.size_)
  have hle := p.buffer_.begin_le
  refine ⟨{ p₁.note (.invoked .warn (overflowed p.buffer_.contents)) with
    world := w, buffer_ := b }, ?_, hbegin.trans ?_, ?_, ?_⟩
  · rw [dumpIfFull, size, if_pos hfull.symm, hpeek.peek_eq, hcall, Outcome.bind_returned]
    simp only [onBuffer, p₁, note, size, hdiscard]
  · -- `begin_ = end()`, so the discard takes the unwrapped branch.
    unfold Readable at hpeek
    rw [beginAfterDiscard, if_pos, if_pos]
    · omega
    · rcases p.buffer_.end_cases with he | he | he <;> omega
  · show b.size_ = 0
    omega
  · show (p.trace ++ [Event.dumped _]) ++ [Event.invoked _ _] = _
    rw [List.append_assoc]
    rfl

/-- A buffer with room is left alone. -/
theorem dumpIfFull_room {p : IRLoggerParser N σ} (h : p.buffer_.size_ < N) :
    dumpIfFull callback p = .returned () p := by
  rw [dumpIfFull, size, if_neg (by omega)]

end IRLoggerParser
end NqmIrimager
