import NqmIrimager.Proofs.ParserStream

/-!
# `NqmIrimager.Proofs.ParserBounds`: `push_data` ends, and the buffer never throws

Bounds that hold in every parser state, the ones the queue laws exclude included. They
rest on one fact about the buffer: `peek()` never returns more than `size()` bytes
(`length_peek_le`), so the discard of a line that was found is allowed.

The loop and the tail recursion share one measure. A removed line or a dump is one
callback call and takes at least one byte out of the buffer, and an insert moves bytes
from the data to the buffer. `Spends` is that account for each function, and
`pushData_bounded` the result.
-/

set_option autoImplicit false

namespace NqmIrimager

open StringRingBuffer

/-- `peek()` shows `size()` bytes, or none. -/
theorem StringRingBuffer.length_peek_le {N : Nat} (b : StringRingBuffer N) :
    b.peek.length ≤ b.size_ := by
  by_cases hhidden : b.begin_ = N ∧ b.size_ = N
  · rw [b.peek_of_end_full hhidden.1 hhidden.2]
    exact Nat.zero_le _
  · exact Nat.le_of_eq (b.length_peek hhidden)

namespace IRLoggerParser

variable {N : Nat} {σ : Type} {callback : LoggingCallback σ}

/-! ### The calls of the buffer -/

/-- The discards of `while (try_parse());`, with the buffers they are made on. -/
def lineCalls (callback : LoggingCallback σ) (p : IRLoggerParser N σ) :
    List (StringRingBuffer N × RingCall) :=
  match p.buffer_.peek.findIdx? (· == newline) with
  | none => []
  | some index =>
      (p.buffer_, .discard (index + 1)) ::
        match _h : tryParse callback p with
        | .returned true p' => lineCalls callback p'
        | .returned false _ => []
        | .threw _ _ => []
termination_by p.buffer_.size_
decreasing_by exact tryParse_size_lt _h

/-- An insert and the loop after it. -/
def insertCalls (callback : LoggingCallback σ) (p : IRLoggerParser N σ) (string : Bytes) :
    List (StringRingBuffer N × RingCall) :=
  (p.buffer_, .insert string) :: lineCalls callback (p.onBuffer fun b => b.insert string).state

/-- The inserts and discards of one activation of `push_data`, in order. -/
def bodyCalls (callback : LoggingCallback σ) (p : IRLoggerParser N σ) (data : Bytes) :
    List (StringRingBuffer N × RingCall) :=
  if p.buffer_.size + data.length ≤ N then insertCalls callback p data
  else
    let p₁ := (dumpIfFull callback p).state
    (if N = p.buffer_.size then [(p.buffer_, .discard p.buffer_.size)] else [])
      ++ insertCalls callback p₁ (data.take (N - p₁.buffer_.size))

/-- The inserts and discards of `push_data(data)`. -/
def pushCalls [NeZero N] (callback : LoggingCallback σ) (p : IRLoggerParser N σ)
    (data : Bytes) : List (StringRingBuffer N × RingCall) :=
  (activations callback p data).flatMap fun a => bodyCalls callback a.1 a.2

/-- The call returns. -/
def Succeeds (c : StringRingBuffer N × RingCall) : Prop :=
  ∃ reply b', c.1.exec c.2 = .returned reply b'

/-- An insert that fits returns. -/
theorem succeeds_insert {b : StringRingBuffer N} {string : Bytes}
    (h : b.size_ + string.length ≤ N) : Succeeds (b, .insert string) := by
  obtain ⟨b', hrun, -⟩ := b.insert_spec string h
  refine ⟨.void, b', ?_⟩
  rw [exec, hrun]
  rfl

/-- A discard of stored bytes returns. -/
theorem succeeds_discard {b : StringRingBuffer N} {bytes : Nat} (h : bytes ≤ b.size_) :
    Succeeds (b, .discard bytes) := by
  obtain ⟨b', hrun, -⟩ := b.discard_returns h
  refine ⟨.void, b', ?_⟩
  rw [exec, hrun]
  rfl

/-! ### The account -/

/-- From `p` to `p'` the callback was called at most as often as bytes left the buffer,
when `added` bytes came in. -/
def Spends (p p' : IRLoggerParser N σ) (added : Nat) : Prop :=
  p'.invocations.length + p'.buffer_.size_ ≤ p.invocations.length + p.buffer_.size_ + added

/-- The bytes that come in add up. -/
theorem Spends.trans {p p' p'' : IRLoggerParser N σ} {m n : Nat} (h : Spends p p' m)
    (h' : Spends p' p'' n) : Spends p p'' (m + n) := by
  unfold Spends at *
  omega

/-- A callback call is one more invocation. -/
theorem length_invocations_note (p : IRLoggerParser N σ) (level : LogLevel) (text : Bytes)
    (w : σ) :
    ({ p.note (.invoked level text) with world := w } : IRLoggerParser N σ).invocations.length
      = p.invocations.length + 1 := by
  simp [invocations, note, Event.invocation]

/-- A newline that is found lies within the buffer. -/
theorem findIdx?_lt_size {b : StringRingBuffer N} {index : Nat}
    (h : b.peek.findIdx? (· == newline) = some index) : index + 1 ≤ b.size_ := by
  have hlt : index < b.peek.length := (List.findIdx?_eq_some_iff_findIdx_eq.mp h).1
  exact Nat.lt_of_lt_of_le hlt b.length_peek_le

/-- The two ways through `try_parse()`, in every state: no newline shows, or the bytes up
to the first one leave the buffer and the line is delivered. -/
theorem tryParse_cases (callback : LoggingCallback σ) (p : IRLoggerParser N σ) :
    (p.buffer_.peek.findIdx? (· == newline) = none ∧ tryParse callback p = .returned false p) ∨
      ∃ index b, p.buffer_.peek.findIdx? (· == newline) = some index ∧
        index + 1 ≤ p.buffer_.size_ ∧ p.buffer_.discard (index + 1) = .returned () b ∧
        b.size_ = p.buffer_.size_ - (index + 1) ∧
        tryParse callback p
          = (deliver callback (note { p with buffer_ := b } (.removed (p.buffer_.peek.take index)))
              (p.buffer_.peek.take index)).bind fun _ p => .returned true p := by
  unfold tryParse
  cases hidx : p.buffer_.peek.findIdx? (· == newline) with
  | none => exact Or.inl ⟨rfl, by simp only [hidx]⟩
  | some index =>
      have hle := findIdx?_lt_size hidx
      obtain ⟨b, hdiscard, -, hsize, -⟩ := p.buffer_.discard_returns hle
      refine Or.inr ⟨index, b, rfl, hle, hdiscard, hsize, ?_⟩
      simp only [hidx, onBuffer, hdiscard, Outcome.bind_returned]

/-- `try_parse()` returns, in every state. -/
theorem tryParse_returns (hret : callback.Returns) (p : IRLoggerParser N σ) :
    ∃ more p', tryParse callback p = .returned more p' ∧ Spends p p' 0 := by
  rcases tryParse_cases callback p with ⟨-, hrun⟩ | ⟨index, b, -, hle, -, hsize, hrun⟩
  · exact ⟨false, p, hrun, Nat.le_refl _⟩
  · let line := p.buffer_.peek.take index
    let p₁ : IRLoggerParser N σ := { p with buffer_ := b }
    obtain ⟨w, hdeliver⟩ := deliver_spec hret (p₁.note (.removed line)) line
    refine ⟨true, { (p₁.note (.removed line)).note
      (.invoked (delivery line).1 (delivery line).2) with world := w }, ?_, ?_⟩
    · rw [hrun, hdeliver, Outcome.bind_returned]
    · -- One call, and `index + 1` bytes less.
      have hsame : (p₁.note (.removed line)).invocations = p.invocations := by
        simp [invocations, note, Event.invocation, p₁]
      rw [Spends, length_invocations_note, hsame]
      show p.invocations.length + 1 + b.size_ ≤ _
      omega

/-- A turn that finds a line discards it, newline included. -/
theorem lineCalls_next {p p' : IRLoggerParser N σ} (h : tryParse callback p = .returned true p') :
    ∃ index, index + 1 ≤ p.buffer_.size_ ∧
      lineCalls callback p = (p.buffer_, .discard (index + 1)) :: lineCalls callback p' := by
  rcases tryParse_cases callback p with ⟨-, hrun⟩ | ⟨index, b, hidx, hle, -⟩
  · rw [hrun] at h
    cases h
  · refine ⟨index, hle, ?_⟩
    rw [lineCalls]
    split
    all_goals
      rename_i heq
      cases hidx.symm.trans heq
    congr 1
    split
    all_goals
      rename_i heq
      cases h.symm.trans heq
    rfl

/-- The last turn discards nothing. -/
theorem lineCalls_end {p p' : IRLoggerParser N σ} (h : tryParse callback p = .returned false p') :
    lineCalls callback p = [] := by
  rcases tryParse_cases callback p with ⟨hidx, -⟩ | ⟨index, b, -, -, -, -, hrun⟩
  · rw [lineCalls]
    split
    all_goals
      rename_i heq
      cases hidx.symm.trans heq
    rfl
  · -- A newline: `try_parse` would have returned `true`.
    rw [hrun, Outcome.bind_eq_returned] at h
    obtain ⟨_, _, -, hreturn⟩ := h
    cases hreturn

/-- `while (try_parse());` returns, in every state. -/
theorem parseLines_returns (hret : callback.Returns) (p : IRLoggerParser N σ) :
    (∃ p', parseLines callback p = .returned () p' ∧ Spends p p' 0) ∧
      ∀ c ∈ lineCalls callback p, Succeeds c := by
  -- By induction on what the buffer holds.
  induction hn : p.buffer_.size_ using Nat.strongRecOn generalizing p with
  | _ n ih =>
      subst hn
      obtain ⟨more, p₁, hrun, hspends⟩ := tryParse_returns hret p
      cases more with
      | false =>
          refine ⟨⟨p₁, parseLines_end hrun, hspends⟩, ?_⟩
          rw [lineCalls_end hrun]
          simp
      | true =>
          obtain ⟨⟨p', hloop, hspends'⟩, hcalls⟩ := ih _ (tryParse_size_lt hrun) p₁ rfl
          obtain ⟨index, hle, hnext⟩ := lineCalls_next hrun
          refine ⟨⟨p', (parseLines_next hrun).trans hloop, hspends.trans hspends'⟩, ?_⟩
          intro c hc
          rw [hnext] at hc
          rcases List.mem_cons.mp hc with rfl | hc
          · exact succeeds_discard hle
          · exact hcalls c hc

/-- An insert that fits and the loop after it return, in every state. -/
theorem insertAndParse_returns (hret : callback.Returns) (p : IRLoggerParser N σ)
    {string : Bytes} (h : p.buffer_.size_ + string.length ≤ N) :
    (∃ p₁ p', p.onBuffer (fun b => b.insert string) = .returned () p₁ ∧
        parseLines callback p₁ = .returned () p' ∧ Spends p p' string.length) ∧
      ∀ c ∈ insertCalls callback p string, Succeeds c := by
  obtain ⟨b, hinsert, -, hsize, -⟩ := p.buffer_.insert_spec string h
  have hrun := onBuffer_insert hinsert
  have hspends : Spends p { p with buffer_ := b } string.length := by
    show p.invocations.length + b.size_ ≤ _
    omega
  obtain ⟨⟨p', hparse, hspends'⟩, hcalls⟩ := parseLines_returns hret { p with buffer_ := b }
  refine ⟨⟨_, p', hrun, hparse, hspends.trans hspends'⟩, ?_⟩
  intro c hc
  rw [insertCalls, hrun] at hc
  rcases List.mem_cons.mp hc with rfl | hc
  · exact succeeds_insert h
  · exact hcalls c hc

/-- The overflow path returns, in every state. -/
theorem dumpIfFull_returns [NeZero N] (hret : callback.Returns) (p : IRLoggerParser N σ) :
    ∃ p', dumpIfFull callback p = .returned () p' ∧ p'.buffer_.size_ < N ∧ Spends p p' 0 := by
  have hN : N ≠ 0 := NeZero.ne N
  by_cases hfull : N = p.buffer_.size_
  · let p₁ := p.note (.dumped p.buffer_.peek)
    obtain ⟨w, hcall⟩ := loggingCallback_spec hret p₁ .warn (overflowed p.buffer_.peek)
    obtain ⟨b, hdiscard, -, hsize, -⟩ :=
      p.buffer_.discard_returns (Nat.le_refl p.buffer_.size_)
    have hrun : dumpIfFull callback p = .returned ()
        { p₁.note (.invoked .warn (overflowed p.buffer_.peek)) with world := w, buffer_ := b } := by
      rw [dumpIfFull, size, if_pos hfull, hcall, Outcome.bind_returned]
      simp only [onBuffer, p₁, note, size, hdiscard]
    refine ⟨_, hrun, dumpIfFull_size_lt hrun, ?_⟩
    -- One call, and the whole buffer less.
    have hsame : p₁.invocations = p.invocations := by
      simp [invocations, note, Event.invocation, p₁]
    show (p₁.note (.invoked .warn (overflowed p.buffer_.peek))).invocations.length + b.size_ ≤ _
    have hone := length_invocations_note p₁ .warn (overflowed p.buffer_.peek) w
    rw [hsame] at hone
    change (p₁.note (.invoked .warn (overflowed p.buffer_.peek))).invocations.length = _ at hone
    omega
  · have hsize := p.buffer_.size_le
    exact ⟨p, dumpIfFull_room (by omega), by omega, Nat.le_refl _⟩

/-! ### A call -/

variable [NeZero N]

/-- One activation returns, in every state, and the call it ends in has a shorter
argument. -/
theorem pushBody_returns (hret : callback.Returns) (p : IRLoggerParser N σ) (data : Bytes) :
    (∃ p', pushBody callback p data = .returned none p' ∧ Spends p p' data.length) ∨
      ∃ rest p', pushBody callback p data = .returned (some rest) p' ∧
        rest.length < data.length ∧ Spends p p' (data.length - rest.length) := by
  by_cases hfits : p.buffer_.size_ + data.length ≤ N
  · obtain ⟨⟨p₁, p', hinsert, hparse, hspends⟩, -⟩ := insertAndParse_returns hret p hfits
    refine Or.inl ⟨p', ?_, hspends⟩
    rw [pushBody, size, if_pos hfits, hinsert, Outcome.bind_returned, hparse,
      Outcome.bind_returned]
  · obtain ⟨p₁, hdump, hroom, hspends₁⟩ := dumpIfFull_returns hret p
    let now := data.take (N - p₁.buffer_.size)
    have hnow : now.length = min (N - p₁.buffer_.size_) data.length := List.length_take
    obtain ⟨⟨p₂, p', hinsert, hparse, hspends⟩, -⟩ :=
      insertAndParse_returns hret p₁ (show p₁.buffer_.size_ + now.length ≤ N by omega)
    have hbody : pushBody callback p data = .returned (some (data.drop now.length)) p' := by
      rw [pushBody, size, if_neg hfits, hdump, Outcome.bind_returned]
      show (p₁.onBuffer fun b => b.insert now).bind _ = _
      rw [hinsert, Outcome.bind_returned, hparse, Outcome.bind_returned]
    refine Or.inr ⟨_, p', hbody, pushBody_length_lt hbody, ?_⟩
    have htotal := hspends₁.trans hspends
    rw [List.length_drop, show data.length - (data.length - now.length) = 0 + now.length by omega]
    exact htotal

/-- The inserts and discards of one activation succeed. -/
theorem bodyCalls_succeed (hret : callback.Returns) (p : IRLoggerParser N σ) (data : Bytes) :
    ∀ c ∈ bodyCalls callback p data, Succeeds c := by
  intro c hc
  unfold bodyCalls at hc
  split at hc
  · rename_i hfits
    exact (insertAndParse_returns hret p hfits).2 c hc
  · obtain ⟨p₁, hdump, hroom, -⟩ := dumpIfFull_returns hret p
    rw [hdump, Outcome.state_returned] at hc
    rcases List.mem_append.mp hc with hc | hc
    · -- The dump discards all there is.
      split at hc
      · rw [List.mem_singleton.mp hc]
        exact succeeds_discard (Nat.le_refl _)
      · cases hc
    · refine (insertAndParse_returns hret p₁ ?_).2 c hc
      rw [List.length_take, size]
      omega

/-- `push_data(data)` returns, in every state. -/
theorem pushData_returns (hret : callback.Returns) (p : IRLoggerParser N σ) (data : Bytes) :
    ∃ p', pushData callback p data = .returned () p' ∧ Spends p p' data.length := by
  -- By induction on the data still to take.
  induction hn : data.length using Nat.strongRecOn generalizing p data with
  | _ n ih =>
      subst hn
      rcases pushBody_returns hret p data with
        ⟨p', hbody, hspends⟩ | ⟨rest, p₁, hbody, hlt, hspends⟩
      · exact ⟨p', pushData_end hbody, hspends⟩
      · obtain ⟨p', hpush, hspends'⟩ := ih _ hlt p₁ rest rfl
        refine ⟨p', (pushData_next hbody).trans hpush, ?_⟩
        have htotal := hspends.trans hspends'
        rwa [show data.length - rest.length + rest.length = data.length by omega] at htotal

/-- Later activations have shorter data. -/
theorem activations_shorter (hret : callback.Returns) (p : IRLoggerParser N σ) (data : Bytes) :
    (activations callback p data).Pairwise fun a a' => a'.2.length < a.2.length := by
  induction hn : data.length using Nat.strongRecOn generalizing p data with
  | _ n ih =>
      subst hn
      rcases pushBody_returns hret p data with ⟨p', hbody, -⟩ | ⟨rest, p₁, hbody, hlt, -⟩
      · rw [activations_end hbody]
        exact List.pairwise_singleton _ _
      · have hrest := ih _ hlt p₁ rest rfl
        rw [activations_next hbody, List.pairwise_cons]
        refine ⟨?_, hrest⟩
        intro a ha
        -- The first of the later activations has `rest`, and the others have less.
        rw [activations] at ha hrest
        rcases List.mem_cons.mp ha with rfl | ha
        · exact hlt
        · exact Nat.lt_trans ((List.pairwise_cons.mp hrest).1 a ha) hlt

/-- `push_data(data)` returns, in every state, after at most `size()` plus `data.size()`
callback calls. Each call it makes to itself has shorter data, the dump leaves room for
an insert, and no insert and no discard throws. -/
theorem pushData_bounded (hret : callback.Returns) (p : IRLoggerParser N σ) (data : Bytes) :
    (∃ p', pushData callback p data = .returned () p' ∧
        p'.invocations.length ≤ p.invocations.length + (p.buffer_.size + data.length)) ∧
      (activations callback p data).Pairwise (fun a a' => a'.2.length < a.2.length) ∧
      (∀ a ∈ activations callback p data, ¬ a.1.buffer_.size + a.2.length ≤ N →
        ∃ p₁, dumpIfFull callback a.1 = .returned () p₁ ∧ p₁.buffer_.size < N) ∧
      ∀ c ∈ pushCalls callback p data, Succeeds c := by
  refine ⟨?_, activations_shorter hret p data, ?_, ?_⟩
  · obtain ⟨p', hpush, hspends⟩ := pushData_returns hret p data
    refine ⟨p', hpush, ?_⟩
    unfold Spends at hspends
    rw [size]
    omega
  · intro a _ _
    obtain ⟨p₁, hdump, hroom, -⟩ := dumpIfFull_returns hret a.1
    exact ⟨p₁, hdump, hroom⟩
  · intro c hc
    obtain ⟨a, -, hc⟩ := List.mem_flatMap.mp hc
    exact bodyCalls_succeed hret a.1 a.2 c hc

/-- A full buffer of four bytes whose contents do not show, and six bytes of data. -/
theorem pushData_bounded_hidden :
    let p : IRLoggerParser 4 (List (LogLevel × Bytes)) :=
      ⟨⟨4, 4, #v[97, 98, 99, 100], by decide, by decide⟩, [], []⟩
    (∃ p', pushData record p [10, 97, 98, 99, 100, 10] = .returned () p' ∧
        p'.invocations.length ≤ 0 + (4 + 6)) ∧
      (activations record p [10, 97, 98, 99, 100, 10]).Pairwise
        (fun a a' => a'.2.length < a.2.length) ∧
      (∀ a ∈ activations record p [10, 97, 98, 99, 100, 10],
        ¬ a.1.buffer_.size + a.2.length ≤ 4 →
          ∃ p₁, dumpIfFull record a.1 = .returned () p₁ ∧ p₁.buffer_.size < 4) ∧
      ∀ c ∈ pushCalls record p [10, 97, 98, 99, 100, 10], Succeeds c :=
  pushData_bounded record_returns ⟨⟨4, 4, #v[97, 98, 99, 100], by decide, by decide⟩, [], []⟩
    [10, 97, 98, 99, 100, 10]

end IRLoggerParser
end NqmIrimager
