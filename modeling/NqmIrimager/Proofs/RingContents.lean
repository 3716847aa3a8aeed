import NqmIrimager.StringRingBuffer

/-!
# `NqmIrimager.Proofs.RingContents`: what the ring buffer holds

`contents` reads the buffer cyclically: `size_` cells from `begin_` on, indices taken
modulo `N`. It is defined for every representation, and each member function gets one
lemma that says what it does to `begin_`, `size_` and `contents`:

* `peek_eq_contents`: `peek()` returns the contents, unless the buffer is full and
  `begin_` is `N`, where `peek_of_end_full` says it returns nothing.
* `insert_spec`: an insert that fits appends.
* `discard_spec`: an allowed discard removes from the front, unless it starts on a full
  buffer, passes the array end and leaves something (`LosesFront`).
-/

set_option autoImplicit false

namespace NqmIrimager
namespace StringRingBuffer

variable {N : Nat}

/-- The stored bytes, oldest first: `data_[(begin_ + i) % N]` for `i < size_`. -/
def contents (b : StringRingBuffer N) : Bytes :=
  List.ofFn fun i : Fin b.size_ =>
    b.cell ((b.begin_ + i.val) % N) (Nat.mod_lt _ (by
      have := b.size_le
      have := i.isLt
      omega))

/-- `size_` counts the contents. -/
@[simp] theorem length_contents (b : StringRingBuffer N) : b.contents.length = b.size_ := by
  simp [contents]

/-- A new buffer is empty. -/
theorem contents_fresh (data : Vector Byte N) : (fresh data).contents = [] := rfl

/-- Without stored bytes there are no contents. -/
theorem contents_eq_nil {b : StringRingBuffer N} (h : b.size_ = 0) : b.contents = [] :=
  List.eq_nil_of_length_eq_zero (by rw [length_contents, h])

/-- The byte `i` of the contents is in the cell `i` places after `begin_`, around the array. -/
theorem getElem_contents (b : StringRingBuffer N) (i : Nat) (hi : i < b.contents.length)
    {j : Nat} (hj : j < N) (hij : (b.begin_ + i) % N = j) : b.contents[i] = b.cell j hj := by
  subst hij
  simp [contents]

/-- One turn of the array is all an index ever makes. -/
theorem turn_of_lt {a N : Nat} (h : a < N) : a % N = a := Nat.mod_eq_of_lt h

/-- An index past the array end, but less than one turn past it. -/
theorem turn_of_ge {a N : Nat} (h : N ≤ a) (h2 : a < 2 * N) : a % N = a - N := by
  rw [Nat.mod_eq_sub_mod h, Nat.mod_eq_of_lt (by omega)]

/-! ### `peek` -/

/-- A copy out of the array has the length that was asked for, up to the array end. -/
theorem length_read (b : StringRingBuffer N) {pos n : Nat} (h : pos + n ≤ N) :
    (b.read pos n).length = n := by
  simp only [read, List.length_take, List.length_drop, Vector.length_toList]
  omega

/-- Its bytes are those of the cells from `pos` on. -/
theorem getElem_read (b : StringRingBuffer N) {pos n : Nat} (i : Nat)
    (hi : i < (b.read pos n).length) (hcell : pos + i < N) :
    (b.read pos n)[i] = b.cell (pos + i) hcell := by
  simp [read, cell]

/-- `peek()` returns the contents in every state but one: full, with `begin_` at the array
end. -/
theorem peek_eq_contents (b : StringRingBuffer N) (h : ¬ (b.begin_ = N ∧ b.size_ = N)) :
    b.peek = b.contents := by
  have hbegin := b.begin_le
  have hsize := b.size_le
  unfold peek
  split
  · rename_i hzero
    exact (contents_eq_nil hzero).symm
  · split
    · -- Unwrapped: one copy, and no index reaches `N`.
      rename_i hlt
      have hone : b.begin_ + b.size_ < N ∧ b.end_ = b.begin_ + b.size_ := by
        rcases b.end_cases with hend | hend | hend
        · exact hend
        · omega
        · omega
      apply List.ext_getElem
      · rw [length_read b (by omega), length_contents]
        omega
      · intro i hi hi'
        rw [length_contents] at hi'
        rw [getElem_read b i hi (by omega),
          getElem_contents b i _ (by omega) (turn_of_lt (by omega))]
    · -- Wrapped: the cells up to the array end, then those from its start.
      rename_i hge
      have htwo : N ≤ b.begin_ + b.size_ ∧ b.begin_ + b.size_ < 2 * N ∧
          b.end_ = b.begin_ + b.size_ - N := by
        rcases b.end_cases with hend | hend | hend
        · omega
        · exact hend
        · omega
      apply List.ext_getElem
      · rw [List.length_append, length_read b (by omega), length_read b (by omega),
          length_contents]
        omega
      · intro i hi hi'
        rw [length_contents] at hi'
        rw [List.getElem_append]
        split
        · -- In the first copy, and the index has not turned.
          rename_i hi₁
          rw [length_read b (by omega)] at hi₁
          rw [getElem_read b i _ (by omega),
            getElem_contents b i _ (by omega) (turn_of_lt (by omega))]
        · -- In the second copy, after the turn.
          rename_i hi₁
          rw [length_read b (by omega)] at hi₁
          have hturn : (b.begin_ + i) % N = 0 + (i - (N - b.begin_)) := by
            rw [turn_of_ge (by omega) (by omega)]
            omega
          simp only [length_read b (show b.begin_ + (N - b.begin_) ≤ N by omega)]
          rw [getElem_read b _ _ (by omega), getElem_contents b i _ _ hturn]

/-- Full, with `begin_` at the array end: `begin_ < end()` fails, and both copies are
empty. -/
theorem peek_of_end_full (b : StringRingBuffer N) (hbegin : b.begin_ = N) (hsize : b.size_ = N) :
    b.peek = [] := by
  have hend : b.end_ = 0 := by
    rw [end_, hbegin, hsize, Nat.add_mod_left, Nat.mod_self]
  unfold peek
  split
  · rfl
  · rw [hend, hbegin, if_neg (by omega)]
    simp [read]

/-- `peek()` shows as many bytes as are stored, unless the buffer is full with `begin_` at the
array end. -/
theorem length_peek (b : StringRingBuffer N) (h : ¬ (b.begin_ = N ∧ b.size_ = N)) :
    b.peek.length = b.size := by
  rw [peek_eq_contents b h, length_contents, size]

/-! ### `insert` -/

/-- A copy into the array changes the cells it covers, and no other. -/
theorem getElem_copyInto (data : Vector Byte N) (pos : Nat) (src : Bytes) (i : Nat) (hi : i < N) :
    (copyInto data pos src)[i]
      = if h : pos ≤ i ∧ i < pos + src.length then src[i - pos] else data[i] := by
  simp [copyInto]

/-- A copy that stays before the array end appends to the contents. The cells it
overwrites are free: they lie between the last stored byte and the first. -/
theorem contents_append (b : StringRingBuffer N) (string : Bytes)
    (h : b.size_ + string.length ≤ N) (hend : b.end_ + string.length ≤ N) :
    (b.append string h).contents = b.contents ++ string := by
  have hbegin := b.begin_le
  apply List.ext_getElem (by simp [append])
  intro i hi hi'
  have hlt : i < b.size_ + string.length := by simpa [append] using hi
  have hi₀ : (b.begin_ + i) % N < N := Nat.mod_lt _ (by omega)
  rw [getElem_contents (b.append string h) i hi hi₀ rfl]
  show (copyInto b.data_ b.end_ string)[(b.begin_ + i) % N] = _
  rw [getElem_copyInto, List.getElem_append]
  -- Where the `i`-th byte lies, before or past the array end.
  have hturn : (b.begin_ + i < N ∧ (b.begin_ + i) % N = b.begin_ + i) ∨
      (N ≤ b.begin_ + i ∧ (b.begin_ + i) % N = b.begin_ + i - N) := by
    rcases Nat.lt_or_ge (b.begin_ + i) N with hn | hn
    · exact Or.inl ⟨hn, turn_of_lt hn⟩
    · exact Or.inr ⟨hn, turn_of_ge hn (by omega)⟩
  by_cases hold : i < b.size_
  · -- An old byte: its cell is outside the copy.
    rw [dif_neg (by rcases b.end_cases with he | he | he <;> omega), dif_pos (by simpa using hold)]
    exact (getElem_contents b i _ hi₀ rfl).symm
  · -- A new byte: the copy put it there.
    rw [dif_pos (by rcases b.end_cases with he | he | he <;> omega),
      dif_neg (by simpa using hold)]
    simp only [length_contents]
    congr 1
    rcases b.end_cases with he | he | he <;> omega

/-- An insert that fits returns, appends to the contents and leaves `begin_` alone. -/
theorem insert_spec (b : StringRingBuffer N) (string : Bytes)
    (h : b.size_ + string.length ≤ N) :
    ∃ b', b.insert string = .returned () b' ∧ b'.begin_ = b.begin_ ∧
      b'.size_ = b.size_ + string.length ∧ b'.contents = b.contents ++ string := by
  fun_induction insert b string with
  | case1 b string hfull hne =>
      -- Full, and something to insert: it would not fit.
      have := List.length_pos_iff.mpr hne
      omega
  | case2 b string hfull hnil =>
      have hnil' : string = [] := by simpa using hnil
      exact ⟨b, rfl, rfl, by simp [hnil'], by simp [hnil']⟩
  | case3 b string hfull hle spaceBeforeOverflow bytesToWriteToR b' hmore ih =>
      -- The first piece ends at the array end, the recursion writes the rest.
      have htake : (string.take bytesToWriteToR).length = bytesToWriteToR := by
        rw [List.length_take]
        omega
      have hsize : b'.size_ = b.size_ + bytesToWriteToR := by
        show b.size_ + (string.take bytesToWriteToR).length = _
        rw [htake]
      have hfirst : b'.contents = b.contents ++ string.take bytesToWriteToR :=
        contents_append b _ _ (by
          rw [htake]
          rcases b.end_cases with he | he | he <;> omega)
      obtain ⟨b'', hrun, hbegin, hsize', hrest⟩ := ih (by
        rw [hsize, List.length_drop]
        omega)
      refine ⟨b'', hrun, hbegin, ?_, ?_⟩
      · rw [hsize', hsize, List.length_drop]
        omega
      · rw [hrest, hfirst, List.append_assoc, List.take_append_drop]
  | case4 b string hfull hle spaceBeforeOverflow bytesToWriteToR b' hmore =>
      -- Everything fits before the array end.
      have hall : string.take bytesToWriteToR = string :=
        List.take_of_length_le (by omega)
      have hfits : b.end_ + (string.take bytesToWriteToR).length ≤ N := by
        rw [hall]
        rcases b.end_cases with he | he | he <;> omega
      have hsize : b'.size_ = b.size_ + string.length := by
        show b.size_ + (string.take bytesToWriteToR).length = _
        rw [hall]
      have happended : b'.contents = b.contents ++ string.take bytesToWriteToR :=
        contents_append b _ _ hfits
      exact ⟨b', rfl, rfl, hsize, happended.trans (by rw [hall])⟩
  | case5 b string hfull hle spaceBeforeOverflow hspace =>
      -- The throw: the space up to `begin_` is all the space there is.
      rcases b.end_cases with he | he | he <;> omega
  | case6 b string hfull hle spaceBeforeOverflow hspace =>
      have hfits : b.end_ + string.length ≤ N := by
        have := b.begin_le
        rcases b.end_cases with he | he | he <;> omega
      exact ⟨_, rfl, rfl, rfl, contents_append b string _ hfits⟩

/-! ### `discard` -/

/-- Equal cells from shifted fronts: the later contents are a suffix of the earlier. -/
theorem contents_of_shift {b b' : StringRingBuffer N} {bytes : Nat} (hdata : b'.data_ = b.data_)
    (hsize : b'.size_ + bytes = b.size_)
    (hturn : ∀ i, i < b'.size_ → (b'.begin_ + i) % N = (b.begin_ + (bytes + i)) % N) :
    b'.contents = b.contents.drop bytes := by
  have hN := b.size_le
  apply List.ext_getElem (by simp; omega)
  intro i hi hi'
  have hlt : i < b'.size_ := by simpa using hi
  have hcell : (b.begin_ + (bytes + i)) % N < N := Nat.mod_lt _ (by omega)
  rw [List.getElem_drop, getElem_contents b' i hi hcell (hturn i hlt),
    getElem_contents b (bytes + i) _ hcell rfl]
  simp only [cell, hdata]

/-- The discards that go wrong: from a full buffer, past the array end, and not of
everything. The unwrapped branch sets `begin_` to `0` there, instead of
`begin_ + bytes - N`. -/
def LosesFront (b : StringRingBuffer N) (bytes : Nat) : Prop :=
  b.size_ = N ∧ b.begin_ < N ∧ N < b.begin_ + bytes ∧ bytes < N

instance (b : StringRingBuffer N) (bytes : Nat) : Decidable (b.LosesFront bytes) :=
  inferInstanceAs (Decidable (_ ∧ _ ∧ _ ∧ _))

/-- Outside `LosesFront` the new `begin_` reads on from where the discarded bytes ended. -/
theorem beginAfterDiscard_turn (b : StringRingBuffer N) {bytes : Nat} (h : bytes ≤ b.size_)
    (hfront : ¬ b.LosesFront bytes) {i : Nat} (hi : i < b.size_ - bytes) :
    (b.beginAfterDiscard bytes + i) % N = (b.begin_ + bytes + i) % N := by
  have hN := b.begin_le
  have hsize_le := b.size_le
  -- A front that made a turn reads the same cells.
  have hturn : ∀ x, N ≤ x → (x - N + i) % N = (x + i) % N := by
    intro x hx
    rw [← Nat.add_mod_right (x - N + i) N, show x - N + i + N = x + i by omega]
  rw [beginAfterDiscard]
  split
  · rename_i hle
    split
    · -- `begin_` reaches the array end exactly: the next front is cell `0`.
      rename_i hge
      have hexact : b.begin_ + bytes = N := by
        unfold LosesFront at hfront
        rcases b.end_cases with he | he | he <;> omega
      have := hturn (b.begin_ + bytes) (by omega)
      rwa [show b.begin_ + bytes - N = 0 by omega] at this
    · rfl
  · split
    · rfl
    · -- The recursion: the bytes behind the turn go from cell `0` on.
      rename_i hle hmore
      rw [if_neg (by rcases b.end_cases with he | he | he <;> omega)]
      have := hturn (b.begin_ + bytes) (by omega)
      rwa [show b.begin_ + bytes - N = bytes - (N - b.begin_) by omega] at this

/-- A discard of nothing leaves a front inside the array where it is. -/
theorem beginAfterDiscard_zero (b : StringRingBuffer N) (h : b.begin_ < N) :
    b.beginAfterDiscard 0 = b.begin_ := by
  rw [beginAfterDiscard]
  split
  · exact if_neg (by omega)
  · exact if_pos (Nat.zero_le _)

/-- An allowed discard returns and, outside `LosesFront`, removes exactly the front. -/
theorem discard_spec (b : StringRingBuffer N) {bytes : Nat} (h : bytes ≤ b.size_)
    (hfront : ¬ b.LosesFront bytes) :
    ∃ b', b.discard bytes = .returned () b' ∧ b'.begin_ = b.beginAfterDiscard bytes ∧
      b'.size_ = b.size_ - bytes ∧ b'.contents = b.contents.drop bytes := by
  obtain ⟨b', hrun, hbegin, hsize, hdata⟩ := b.discard_returns h
  refine ⟨b', hrun, hbegin, hsize, contents_of_shift hdata (by omega) fun i hi => ?_⟩
  rw [hbegin, ← Nat.add_assoc]
  exact b.beginAfterDiscard_turn h hfront (by omega)

end StringRingBuffer
end NqmIrimager
