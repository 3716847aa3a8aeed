import NqmIrimager.Definitions

/-!
# `NqmIrimager.StringRingBuffer`: the byte ring buffer

The class template of `string_ring_buffer.hpp`, member by member. The template parameter
`N` is a parameter of the type. `begin_le` and `size_le` are the bounds every member
function keeps; a buffer that breaks them cannot be written down, so no copy into or out
of `data_` leaves the array.

`begin_ = N` is a legal value: `discard` leaves it there when it removes the bytes up to
the exact end of the array on its wrapped branch.
-/

set_option autoImplicit false

namespace NqmIrimager

/-- `StringRingBuffer<N>`. -/
structure StringRingBuffer (N : Nat) where
  begin_ : Nat
  size_ : Nat
  data_ : Vector Byte N
  begin_le : begin_ ≤ N
  size_le : size_ ≤ N
deriving DecidableEq

namespace StringRingBuffer

variable {N : Nat}

/-- A newly constructed buffer. `data_` has no initializer, so it holds anything. -/
def fresh (data : Vector Byte N) : StringRingBuffer N where
  begin_ := 0
  size_ := 0
  data_ := data
  begin_le := Nat.zero_le N
  size_le := Nat.zero_le N

/-- `size()`. -/
def size (b : StringRingBuffer N) : Nat := b.size_

/-- `end()`, the index of the first unfilled cell. -/
def end_ (b : StringRingBuffer N) : Nat := (b.begin_ + b.size_) % N

/-- Where `end()` is: before the array end, past it, or back at `0` after a whole turn. -/
theorem end_cases (b : StringRingBuffer N) :
    (b.begin_ + b.size_ < N ∧ b.end_ = b.begin_ + b.size_) ∨
      (N ≤ b.begin_ + b.size_ ∧ b.begin_ + b.size_ < 2 * N ∧ b.end_ = b.begin_ + b.size_ - N) ∨
      (b.begin_ = N ∧ b.size_ = N ∧ b.end_ = 0) := by
  have hbegin := b.begin_le
  have hsize := b.size_le
  unfold end_
  rcases Nat.lt_or_ge (b.begin_ + b.size_) N with hlt | hge
  · exact Or.inl ⟨hlt, Nat.mod_eq_of_lt hlt⟩
  · rcases Nat.lt_or_ge (b.begin_ + b.size_) (2 * N) with hlt2 | hge2
    · refine Or.inr (Or.inl ⟨hge, hlt2, ?_⟩)
      rw [Nat.mod_eq_sub_mod hge, Nat.mod_eq_of_lt (by omega)]
    · refine Or.inr (Or.inr ⟨by omega, by omega, ?_⟩)
      rw [show b.begin_ + b.size_ = N + N by omega, Nat.add_mod_left, Nat.mod_self]

/-- `string_view::copy(&data_.data()[pos], src.size())`: the cells from `pos` on take the
bytes of `src`. -/
def copyInto (data : Vector Byte N) (pos : Nat) (src : Bytes) : Vector Byte N :=
  Vector.ofFn fun i : Fin N =>
    if h : pos ≤ i.val ∧ i.val < pos + src.length then src[i.val - pos] else data[i]

/-- `data_[i]`. -/
def cell (b : StringRingBuffer N) (i : Nat) (h : i < N) : Byte := b.data_[i]

/-- `std::string(&data_.data()[pos], n)`. -/
def read (b : StringRingBuffer N) (pos n : Nat) : Bytes := (b.data_.toList.drop pos).take n

/-- The two statements `string.copy(&data_.data()[end()], string.size())` and
`size_ += string.size()` of `insert`. -/
def append (b : StringRingBuffer N) (string : Bytes) (h : b.size_ + string.length ≤ N) :
    StringRingBuffer N :=
  { b with
    data_ := copyInto b.data_ b.end_ string
    size_ := b.size_ + string.length
    size_le := h }

/-- The space `insert` finds between `end()` and the array end. -/
private theorem append_fits (b : StringRingBuffer N) (h : b.begin_ ≤ b.end_) (hfull : b.size_ ≠ N)
    {n : Nat} (hn : n ≤ N - b.end_) : b.size_ + n ≤ N := by
  have hsize := b.size_le
  rcases b.end_cases with hend | hend | hend <;> omega

/-- The space `insert` finds between `end()` and `begin_`. -/
private theorem append_fits_wrapped (b : StringRingBuffer N) (h : ¬ b.begin_ ≤ b.end_)
    (hfull : b.size_ ≠ N) {n : Nat} (hn : n ≤ b.begin_ - b.end_) : b.size_ + n ≤ N := by
  have hbegin := b.begin_le
  have hsize := b.size_le
  rcases b.end_cases with hend | hend | hend <;> omega

/-- `insert(string)`. The exception leaves behind what was written before it. -/
def insert (b : StringRingBuffer N) (string : Bytes) : Outcome (StringRingBuffer N) Unit :=
  if hfull : b.size_ = N then
    if string ≠ [] then
      .threw ⟨.outOfRange, ascii "Not enough space in this ring buffer"⟩ b
    else .returned () b
  else if h : b.begin_ ≤ b.end_ then
    -- Not wrapped: first up to the array end, then the rest from its start.
    let spaceBeforeOverflow := N - b.end_
    let bytesToWriteToR := min string.length spaceBeforeOverflow
    let b' := b.append (string.take bytesToWriteToR) (append_fits b h hfull (by
      rw [List.length_take]
      omega))
    if bytesToWriteToR ≠ string.length then b'.insert (string.drop bytesToWriteToR)
    else .returned () b'
  else
    -- Wrapped: the free cells lie between `end()` and `begin_`.
    let spaceBeforeOverflow := b.begin_ - b.end_
    if hspace : string.length > spaceBeforeOverflow then
      .threw ⟨.outOfRange, ascii "Not enough space in this ring buffer"⟩ b
    else .returned () (b.append string (append_fits_wrapped b h hfull (by omega)))
termination_by string.length
decreasing_by
  have := b.size_le
  rw [List.length_drop]
  rcases b.end_cases with hend | hend | hend <;> omega

/-- `peek()`. -/
def peek (b : StringRingBuffer N) : Bytes :=
  if b.size_ = 0 then []
  else if b.begin_ < b.end_ then b.read b.begin_ (b.end_ - b.begin_)
  else b.read b.begin_ (N - b.begin_) ++ b.read 0 b.end_

/-- `discard(bytes)`. -/
def discard (b : StringRingBuffer N) (bytes : Nat) : Outcome (StringRingBuffer N) Unit :=
  if bytes > b.size then
    .threw ⟨.outOfRange, ascii "Not enough bytes in this ring buffer"⟩ b
  else if b.begin_ ≤ b.end_ then
    -- A full buffer comes here too, although its bytes may be wrapped: then
    -- `begin_ = end()`.
    let begin_ := b.begin_ + bytes
    .returned ()
      { b with
        begin_ := if begin_ ≥ N then 0 else begin_
        size_ := b.size_ - bytes
        begin_le := by split <;> omega
        size_le := Nat.le_trans (Nat.sub_le _ _) b.size_le }
  else
    let spaceBeforeOverflow := N - b.begin_
    let bytesToDiscardNow := min bytes spaceBeforeOverflow
    if bytesToDiscardNow ≠ bytes then
      -- What is left after the array end is not wrapped.
      discard
        { b with
          begin_ := 0
          size_ := b.size_ - bytesToDiscardNow
          begin_le := Nat.zero_le N
          size_le := Nat.le_trans (Nat.sub_le _ _) b.size_le }
        (bytes - bytesToDiscardNow)
    else
      -- `begin_` can become `N` here; it is not set back to `0`.
      .returned ()
        { b with
          begin_ := b.begin_ + bytesToDiscardNow
          size_ := b.size_ - bytesToDiscardNow
          begin_le := by
            have := b.begin_le
            omega
          size_le := Nat.le_trans (Nat.sub_le _ _) b.size_le }
termination_by b.begin_
decreasing_by
  omega

/-- Where `begin_` is after `discard(bytes)`. -/
def beginAfterDiscard (b : StringRingBuffer N) (bytes : Nat) : Nat :=
  if b.begin_ ≤ b.end_ then if b.begin_ + bytes ≥ N then 0 else b.begin_ + bytes
  else if bytes ≤ N - b.begin_ then b.begin_ + bytes
  else if bytes - (N - b.begin_) ≥ N then 0 else bytes - (N - b.begin_)

/-- An allowed discard returns. It recurses at most once, into the unwrapped branch. -/
theorem discard_returns (b : StringRingBuffer N) {bytes : Nat} (h : bytes ≤ b.size_) :
    ∃ b', b.discard bytes = .returned () b' ∧ b'.begin_ = b.beginAfterDiscard bytes ∧
      b'.size_ = b.size_ - bytes ∧ b'.data_ = b.data_ := by
  rw [discard, if_neg (by simp only [size]; omega)]
  by_cases hle : b.begin_ ≤ b.end_
  · rw [if_pos hle]
    exact ⟨_, rfl, by rw [beginAfterDiscard, if_pos hle], rfl, rfl⟩
  · rw [if_neg hle]
    by_cases hmore : bytes ≤ N - b.begin_
    · -- The discard ends before the array end, or at it.
      have hmin : min bytes (N - b.begin_) = bytes := Nat.min_eq_left hmore
      simp only [hmin, ne_eq, not_true_eq_false, if_false]
      exact ⟨_, rfl, by rw [beginAfterDiscard, if_neg hle, if_pos hmore], rfl, rfl⟩
    · -- It goes past the array end: the call it makes starts with `begin_ = 0`.
      have hmin : min bytes (N - b.begin_) = N - b.begin_ := Nat.min_eq_right (by omega)
      simp only [hmin]
      rw [if_pos (by omega), discard, if_neg (by simp only [size]; omega),
        if_pos (Nat.zero_le _)]
      refine ⟨_, rfl, ?_, ?_, rfl⟩
      · simp only [beginAfterDiscard, if_neg hle, if_neg hmore, Nat.zero_add]
      · simp only
        omega

/-- A discard of more than there is throws and changes nothing. -/
theorem discard_throws (b : StringRingBuffer N) {bytes : Nat} (h : b.size_ < bytes) :
    b.discard bytes
      = .threw ⟨.outOfRange, ascii "Not enough bytes in this ring buffer"⟩ b := by
  rw [discard]
  exact if_pos h

/-- A discard that returns removes that many bytes. -/
theorem size_of_discard {b b' : StringRingBuffer N} {bytes : Nat}
    (h : b.discard bytes = .returned () b') : b'.size_ + bytes = b.size_ := by
  rcases Nat.lt_or_ge b.size_ bytes with hlt | hge
  · rw [b.discard_throws hlt] at h
    cases h
  · obtain ⟨b₁, hrun, -, hsize, -⟩ := b.discard_returns hge
    rw [hrun] at h
    cases h
    omega

end StringRingBuffer

end NqmIrimager
