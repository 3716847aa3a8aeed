import NqmIrimager.Proofs.RingBounds

/-!
# `NqmIrimager.Proofs.RingFront`: what `begin_` and `end()` stand for

`Tracked` keeps, next to the buffer, the stored bytes with the cells they were written to,
oldest first. An insert adds the cells of its copies (also when it throws after the first of
them), a discard that returns removes from the front. `Valid` says that while bytes are
stored, `begin_` is the index of the oldest one and `end()` that of the first free cell.

Two kinds of call break it (`KeepsFront` excludes them). The first one leaves `begin_` at
`N` while bytes are stored: a discard that ends at the array end on the wrapped branch, or
an insert after such a discard has emptied the buffer. The second one is a discard from a
full buffer past the array end, which sets `begin_` to `0` (`LosesFront`).

Each shows in the very next state, so the condition is exact (`front_valid_iff`).
-/

set_option autoImplicit false

namespace NqmIrimager
namespace StringRingBuffer

open StepRun

variable {N : Nat}

/-! ### The stored bytes and their cells -/

/-- The buffer, and its stored bytes with their cells. -/
structure Tracked (N : Nat) where
  ring : RawRing N
  stored : List (Nat × Byte)
deriving DecidableEq

/-- A new buffer stores nothing. -/
def Tracked.fresh (data : Vector Byte N) : Tracked N where
  ring := RawRing.fresh data
  stored := []

/-- Make the call. An insert stores the bytes of its copies, even if it throws after one. -/
def Tracked.step (t : Tracked N) : RingCall → Option (Tracked N)
  | .insert string => (t.ring.insert 1 string).map fun d =>
      { ring := d.outcome.state
        stored := t.stored ++ d.accesses.flatMap Access.written }
  | .discard bytes => (t.ring.discard 1 bytes).map fun o =>
      match o with
      | .returned _ ring => { ring := ring, stored := t.stored.drop bytes }
      | .threw _ ring => { ring := ring, stored := t.stored }
  | .peek => some t
  | .size => some t

/-- What is tracked does not change what the buffer does. -/
theorem Tracked.step_ring (t : Tracked N) (op : RingCall) :
    (t.step op).map Tracked.ring = RawRing.call t.ring op := by
  cases op with
  | insert string =>
      rw [Tracked.step, RawRing.call, Option.map_map]
      rfl
  | discard bytes =>
      rw [Tracked.step, RawRing.call, Option.map_map]
      congr 1
      funext o
      cases o <;> rfl
  | peek => rfl
  | size => rfl

/-- What the indices mean while bytes are stored. -/
structure FrontValid (t : Tracked N) : Prop where
  begin_lt : t.ring.begin_ < N
  oldest : ∃ byte rest, t.stored = (t.ring.begin_, byte) :: rest ∧
    t.ring.data_[t.ring.begin_]? = some byte
  firstFree : t.ring.size_ < N → t.ring.end_ < N ∧ t.ring.end_ ∉ t.stored.map Prod.fst ∧
    ∃ cell byte, t.stored.getLast? = some (cell, byte) ∧ t.ring.end_ = (cell + 1) % N
  full_iff : t.ring.begin_ = t.ring.end_ ↔ t.ring.size_ = N

/-- The representation invariant, with what it gives `peek()`. -/
def Valid (t : Tracked N) : Prop :=
  (0 < t.ring.size_ → FrontValid t) ∧ t.ring.peek.1.length = t.ring.size_

/-- The calls that keep it. -/
def KeepsFront (t : Tracked N) : RingCall → Prop
  | .insert string =>
      ¬ (t.ring.begin_ = N ∧ string ≠ [] ∧ string.length ≤ N - t.ring.size_)
  | .discard bytes =>
      ¬ (t.ring.end_ < t.ring.begin_ ∧ t.ring.begin_ + bytes = N ∧ bytes < t.ring.size_) ∧
        ¬ (t.ring.size_ = N ∧ t.ring.begin_ < N ∧ N < t.ring.begin_ + bytes ∧ bytes < N)
  | .peek => True
  | .size => True

instance (t : Tracked N) : ∀ op, Decidable (KeepsFront t op)
  | .insert string => inferInstanceAs (Decidable
      (¬ (t.ring.begin_ = N ∧ string ≠ [] ∧ string.length ≤ N - t.ring.size_)))
  | .discard bytes => inferInstanceAs (Decidable
      (¬ (t.ring.end_ < t.ring.begin_ ∧ t.ring.begin_ + bytes = N ∧ bytes < t.ring.size_) ∧
        ¬ (t.ring.size_ = N ∧ t.ring.begin_ < N ∧ N < t.ring.begin_ + bytes ∧ bytes < N)))
  | .peek => inferInstanceAs (Decidable True)
  | .size => inferInstanceAs (Decidable True)

/-! ### The layout -/

/-- The contents, each byte with its cell. -/
def layout (b : StringRingBuffer N) : List (Nat × Byte) :=
  (cellsFrom N b.begin_ b.size_).zip b.contents

/-- The cells of the layout are those from `begin_` on. -/
theorem map_fst_layout (b : StringRingBuffer N) :
    b.layout.map Prod.fst = cellsFrom N b.begin_ b.size_ :=
  List.map_fst_zip (Nat.le_of_eq (by rw [length_cellsFrom, length_contents]))

/-- The first byte is in the cell of `begin_`. -/
theorem layout_front (b : StringRingBuffer N) (hsize : 0 < b.size_) (hbegin : b.begin_ < N) :
    ∃ byte rest, b.layout = (b.begin_, byte) :: rest ∧ b.data_[b.begin_]? = some byte := by
  obtain ⟨n, hn⟩ : ∃ n, b.size_ = 1 + n := ⟨b.size_ - 1, by omega⟩
  have hcells : cellsFrom N b.begin_ b.size_ = b.begin_ :: cellsFrom N (b.begin_ + 1) n := by
    rw [hn, cellsFrom_add, cellsFrom, List.range_one, List.map_singleton, Nat.add_zero,
      turn_of_lt hbegin, List.singleton_append]
  obtain ⟨byte, rest, hcontents⟩ : ∃ byte rest, b.contents = byte :: rest :=
    List.exists_cons_of_length_pos (by rw [length_contents]; exact hsize)
  refine ⟨byte, (cellsFrom N (b.begin_ + 1) n).zip rest, ?_, ?_⟩
  · rw [layout, hcells, hcontents, List.zip_cons_cons]
  · have hfirst := getElem_contents b 0 (by rw [length_contents]; exact hsize) hbegin
      (by rw [Nat.add_zero, turn_of_lt hbegin])
    simp only [hcontents, List.getElem_cons_zero] at hfirst
    rw [hfirst]
    exact Vector.getElem?_eq_getElem hbegin

/-- `end()` is the cell after the last byte. -/
theorem layout_back (b : StringRingBuffer N) (hsize : 0 < b.size_) :
    ∃ cell byte, b.layout.getLast? = some (cell, byte) ∧ b.end_ = (cell + 1) % N := by
  obtain ⟨n, hn⟩ : ∃ n, b.size_ = n + 1 := ⟨b.size_ - 1, by omega⟩
  have hcells : cellsFrom N b.begin_ b.size_
      = cellsFrom N b.begin_ n ++ [(b.begin_ + n) % N] := by
    rw [hn, cellsFrom_add, cellsFrom, cellsFrom, List.range_one, List.map_singleton, Nat.add_zero]
  obtain ⟨front, byte, hcontents⟩ : ∃ front byte, b.contents = front ++ [byte] :=
    ⟨_, _, (List.dropLast_concat_getLast (List.ne_nil_of_length_pos (by
      rw [length_contents]
      exact hsize))).symm⟩
  have hfront : front.length = n := by
    have hlength := congrArg List.length hcontents
    rw [length_contents, List.length_append, List.length_singleton] at hlength
    omega
  refine ⟨(b.begin_ + n) % N, byte, ?_, ?_⟩
  · rw [layout, hcells, hcontents, List.zip_append (by rw [length_cellsFrom, hfront]),
      List.zip_cons_cons, List.zip_nil_left, List.getLast?_concat]
  · rw [end_, Nat.mod_add_mod, hn, Nat.add_assoc]

/-- Unless the buffer is full, no byte is in the cell of `end()`. -/
theorem end_notMem_layout (b : StringRingBuffer N) (hroom : b.size_ < N) :
    b.end_ ∉ b.layout.map Prod.fst := by
  rw [map_fst_layout]
  intro hmem
  obtain ⟨i, hi, heq⟩ := List.mem_map.mp hmem
  have hlt : i < b.size_ := List.mem_range.mp hi
  -- Two offsets below `N` that differ do not meet.
  have hbegin := b.begin_le
  have hcell : (b.begin_ + i) % N = b.begin_ + i ∨ (b.begin_ + i) % N + N = b.begin_ + i := by
    rcases Nat.lt_or_ge (b.begin_ + i) N with hn | hn
    · exact Or.inl (turn_of_lt hn)
    · rw [turn_of_ge hn (by omega)]
      omega
  rcases b.end_cases with he | he | he <;> omega

/-- What is left of the layout when bytes are taken from the front. -/
theorem drop_layout (b : StringRingBuffer N) {bytes : Nat} (h : bytes ≤ b.size_) :
    b.layout.drop bytes
      = (cellsFrom N (b.begin_ + bytes) (b.size_ - bytes)).zip (b.contents.drop bytes) := by
  have hcells : (cellsFrom N b.begin_ b.size_).drop bytes
      = cellsFrom N (b.begin_ + bytes) (b.size_ - bytes) := by
    rw [show b.size_ = bytes + (b.size_ - bytes) by omega, cellsFrom_add,
      List.drop_left' (length_cellsFrom N b.begin_ bytes)]
    congr 1
    omega
  rw [layout, List.zip, List.drop_zipWith, hcells]

/-- A discard that does not lose the front leaves that. -/
theorem layout_discard (b : StringRingBuffer N) {bytes : Nat} (hle : bytes ≤ b.size_)
    (hkeeps : ¬ b.LosesFront bytes) {b' : StringRingBuffer N}
    (hreturned : b.discard bytes = .returned () b') : b'.layout = b.layout.drop bytes := by
  obtain ⟨b₁, hreturned₁, hbegin, hsize, hcontents⟩ := b.discard_spec hle hkeeps
  rw [hreturned] at hreturned₁
  cases hreturned₁
  have hcells : cellsFrom N b'.begin_ b'.size_
      = cellsFrom N (b.begin_ + bytes) (b.size_ - bytes) := by
    rw [hbegin, hsize]
    refine List.map_congr_left fun i hi => ?_
    exact b.beginAfterDiscard_turn hle hkeeps (List.mem_range.mp hi)
  rw [b.drop_layout hle, layout, hcells, hcontents]

/-- The cell of the first byte that is left. -/
theorem cell_of_drop_layout (b : StringRingBuffer N) {bytes cell : Nat} {byte : Byte}
    {rest : List (Nat × Byte)} (h : b.layout.drop bytes = (cell, byte) :: rest) :
    cell = (b.begin_ + bytes) % N := by
  have hcells := congrArg (List.map Prod.fst) h
  rw [List.map_drop, map_fst_layout, List.map_cons] at hcells
  have hget : (cellsFrom N b.begin_ b.size_)[bytes]? = some cell := by
    rw [← List.head?_drop, hcells]
    rfl
  rw [cellsFrom, List.getElem?_map] at hget
  obtain ⟨i, hi, rfl⟩ := Option.map_eq_some_iff.mp hget
  obtain ⟨hlt, rfl⟩ := List.getElem?_eq_some_iff.mp hi
  rw [List.getElem_range]

/-! ### One call -/

/-- The tracked bytes are the contents in ring order, and `begin_` is an index while there
are some. -/
structure FrontInv (t : Tracked N) (b : StringRingBuffer N) : Prop where
  ring : t.ring = b.raw
  stored : t.stored = b.layout
  front : 0 < b.size_ → b.begin_ < N

/-- A new buffer meets it. -/
theorem FrontInv.fresh (data : Vector Byte N) :
    FrontInv (Tracked.fresh data) (StringRingBuffer.fresh data) where
  ring := rfl
  stored := rfl
  front := fun h => absurd h (Nat.lt_irrefl 0)

/-- It gives the representation invariant. -/
theorem FrontInv.valid {t : Tracked N} {b : StringRingBuffer N} (hN : 0 < N)
    (h : FrontInv t b) : Valid t := by
  obtain ⟨ring, stored⟩ := t
  obtain ⟨rfl, rfl, hfront⟩ := h
  constructor
  · intro hsize
    have hbegin := hfront hsize
    refine ⟨hbegin, b.layout_front hsize hbegin, fun hroom => ?_, ?_⟩
    · exact ⟨b.end_lt hN, b.end_notMem_layout hroom, b.layout_back hsize⟩
    · show b.begin_ = b.end_ ↔ b.size_ = N
      have hpositive : 0 < b.size_ := hsize
      rcases b.end_cases with he | he | he <;> omega
  · show b.raw.peek.1.length = b.size_
    rw [(b.peek_raw hN).1, b.length_peek (by omega), size]

/-- An insert that stores something while `begin_` is `N` is the only one after which
`begin_` is no index. -/
theorem insert_begin_lt (b : StringRingBuffer N) (hN : 0 < N)
    (hfront : 0 < b.size_ → b.begin_ < N) {string : Bytes}
    (hkeeps : ¬ (b.begin_ = N ∧ string ≠ [] ∧ string.length ≤ N - b.size_))
    (hsize : 0 < (b.insert string).state.size_) : b.begin_ < N := by
  rcases Nat.lt_or_ge b.begin_ N with hlt | hge
  · exact hlt
  · -- `begin_ = N`, so nothing is stored, and the string is empty or too long.
    have hbegin : b.begin_ = N := Nat.le_antisymm b.begin_le hge
    have hempty : b.size_ = 0 := by omega
    by_cases hnil : string = []
    · subst hnil
      obtain ⟨b', hreturned, -, hsize', -⟩ := b.insert_spec [] (by simpa using b.size_le)
      rw [hreturned, Outcome.state_returned, hsize', List.length_nil] at hsize
      omega
    · have hlong : ¬ string.length ≤ N - b.size_ := fun hfits => hkeeps ⟨hbegin, hnil, hfits⟩
      have hend : b.end_ < b.begin_ := by
        rw [hbegin]
        exact b.end_lt hN
      rw [b.insert_refused (Or.inr hend) (by omega), Outcome.state_threw] at hsize
      omega

/-- The insert leaves `begin_` at `N`, with bytes stored. -/
theorem insert_begin_eq (b : StringRingBuffer N) {string : Bytes} (hbegin : b.begin_ = N)
    (hne : string ≠ []) (hfits : string.length ≤ N - b.size_) :
    (b.insert string).state.begin_ = N ∧ 0 < (b.insert string).state.size_ := by
  have hsize_le := b.size_le
  have hpositive : 0 < string.length := List.length_pos_iff.mpr hne
  obtain ⟨b', hreturned, hfront, hsize, -⟩ := b.insert_spec string (by omega)
  rw [hreturned, Outcome.state_returned]
  omega

/-- An insert keeps the invariant when the condition holds, and the representation is valid
after it only then. -/
theorem insert_front {t : Tracked N} {b : StringRingBuffer N} (hN : 0 < N) (h : FrontInv t b)
    (string : Bytes) :
    ∃ t', t.step (.insert string) = some t' ∧
      (KeepsFront t (.insert string) → ∃ b', FrontInv t' b') ∧
      (Valid t' → KeepsFront t (.insert string)) := by
  obtain ⟨ring, stored⟩ := t
  obtain ⟨rfl, rfl, hfront⟩ := h
  obtain ⟨d, k, hrun, htraced⟩ := b.insert_raw hN string
  have houtcome : d.outcome.state = (b.insert string).state.raw := by
    rw [htraced.outcome, Outcome.state_mapState]
  have hlayout : b.layout ++ d.accesses.flatMap Access.written = (b.insert string).state.layout := by
    rw [layout, layout, htraced.written, htraced.size, htraced.front, htraced.contents,
      cellsFrom_add, List.zip_append (by rw [length_cellsFrom, length_contents])]
  refine ⟨⟨d.outcome.state, b.layout ++ d.accesses.flatMap Access.written⟩, ?_, ?_, ?_⟩
  · rw [Tracked.step, hrun 0, Option.map_some]
  · intro hkeeps
    refine ⟨(b.insert string).state, houtcome, hlayout, fun hsize => ?_⟩
    rw [htraced.front]
    exact b.insert_begin_lt hN hfront hkeeps hsize
  · rintro hvalid ⟨hbegin, hne, hfits⟩
    obtain ⟨hbegin', hsize'⟩ := b.insert_begin_eq hbegin hne hfits
    rw [houtcome] at hvalid
    have hlt : (b.insert string).state.begin_ < N := (hvalid.1 hsize').begin_lt
    omega

/-- Where `begin_` is after a discard that loses nothing: an index, unless the discard ends
at the array end on the wrapped branch. -/
theorem beginAfterDiscard_lt (b : StringRingBuffer N) {bytes : Nat} (hN : 0 < N)
    (hexact : ¬ (b.end_ < b.begin_ ∧ b.begin_ + bytes = N)) : b.beginAfterDiscard bytes < N := by
  have hbegin := b.begin_le
  rw [beginAfterDiscard]
  split
  · split
    · exact hN
    · omega
  · split
    · omega
    · split
      · exact hN
      · omega

/-- That discard leaves `begin_` at `N`. -/
theorem beginAfterDiscard_exact (b : StringRingBuffer N) {bytes : Nat} (hwrapped : b.end_ < b.begin_)
    (hexact : b.begin_ + bytes = N) : b.beginAfterDiscard bytes = N := by
  rw [beginAfterDiscard, if_neg (by omega), if_pos (by omega), hexact]

/-- A discard that loses the front leaves `begin_` at `0`, and the oldest byte is in a later
cell. -/
theorem beginAfterDiscard_lost (b : StringRingBuffer N) {bytes : Nat} (h : b.LosesFront bytes) :
    b.beginAfterDiscard bytes ≠ (b.begin_ + bytes) % N := by
  obtain ⟨hfull, hbegin, hpast, hless⟩ := h
  have hle : b.begin_ ≤ b.end_ := by
    rcases b.end_cases with he | he | he <;> omega
  rw [beginAfterDiscard, if_pos hle, if_pos (by omega), turn_of_ge (by omega) (by omega)]
  omega

/-- A discard keeps the invariant when its condition holds, and only then. -/
theorem discard_front {t : Tracked N} {b : StringRingBuffer N} (hN : 0 < N) (h : FrontInv t b)
    (bytes : Nat) :
    ∃ t', t.step (.discard bytes) = some t' ∧
      (KeepsFront t (.discard bytes) → ∃ b', FrontInv t' b') ∧
      (Valid t' → KeepsFront t (.discard bytes)) := by
  obtain ⟨ring, stored⟩ := t
  obtain ⟨rfl, rfl, hfront⟩ := h
  have hsize_le := b.size_le
  rcases Nat.lt_or_ge b.size_ bytes with hlong | hle
  · -- It throws and changes nothing.
    refine ⟨⟨b.raw, b.layout⟩, ?_, fun _ => ⟨b, rfl, rfl, hfront⟩, fun _ => ?_⟩
    · rw [Tracked.step, b.discard_raw bytes 0, b.discard_throws hlong]
      rfl
    · show ¬ (b.end_ < b.begin_ ∧ b.begin_ + bytes = N ∧ bytes < b.size_) ∧
        ¬ (b.size_ = N ∧ b.begin_ < N ∧ N < b.begin_ + bytes ∧ bytes < N)
      omega
  · obtain ⟨b', hreturned, hbegin', hsize', -⟩ := b.discard_returns hle
    refine ⟨⟨b'.raw, b.layout.drop bytes⟩, ?_, ?_, ?_⟩
    · rw [Tracked.step, b.discard_raw bytes 0, hreturned]
      rfl
    · rintro ⟨hexact, hlost⟩
      have hexact' : ¬ (b.end_ < b.begin_ ∧ b.begin_ + bytes = N ∧ bytes < b.size_) := hexact
      have hlost' : ¬ b.LosesFront bytes := hlost
      refine ⟨b', rfl, ?_, fun hsize => ?_⟩
      · exact (b.layout_discard hle hlost' hreturned).symm
      · rw [hbegin']
        exact b.beginAfterDiscard_lt hN (by omega)
    · intro hvalid
      have hleft : bytes < b.size_ → 0 < b'.size_ := by omega
      constructor
      · rintro ⟨hwrapped, hexact, hleaves⟩
        have hlt : b'.begin_ < N := (hvalid.1 (hleft hleaves)).begin_lt
        rw [hbegin', b.beginAfterDiscard_exact hwrapped hexact] at hlt
        omega
      · rintro ⟨hfull, hbegin, hpast, hless⟩
        have hleaves : bytes < b.size_ := by
          rw [show b.size_ = N from hfull]
          exact hless
        obtain ⟨byte, rest, hfirst, -⟩ := (hvalid.1 (hleft hleaves)).oldest
        have hcell : b'.begin_ = (b.begin_ + bytes) % N := b.cell_of_drop_layout hfirst
        rw [hbegin'] at hcell
        exact b.beginAfterDiscard_lost ⟨hfull, hbegin, hpast, hless⟩ hcell

/-- Every call keeps the invariant when its condition holds, and only then. -/
theorem step_front {t : Tracked N} (hN : 0 < N) (h : ∃ b, FrontInv t b) (op : RingCall) :
    ∃ t', t.step op = some t' ∧ (KeepsFront t op → ∃ b', FrontInv t' b') ∧
      (Valid t' → KeepsFront t op) := by
  obtain ⟨b, hb⟩ := h
  cases op with
  | insert string => exact insert_front hN hb string
  | discard bytes => exact discard_front hN hb bytes
  | peek => exact ⟨t, rfl, fun _ => ⟨b, hb⟩, fun _ => trivial⟩
  | size => exact ⟨t, rfl, fun _ => ⟨b, hb⟩, fun _ => trivial⟩

/-! ### Any number of calls -/

/-- The representation invariant holds after every call of a run, the calls that throw
included, exactly when every call of the run keeps the front. -/
theorem front_valid_iff (hN : 0 < N) (data : Vector Byte N) (ops : List RingCall) :
    (∀ pre, pre <+: ops → ∃ t, run Tracked.step (Tracked.fresh data) pre = some t ∧ Valid t) ↔
      Along Tracked.step KeepsFront (Tracked.fresh data) ops := by
  have hgood : ∀ t : Tracked N, (∃ b, FrontInv t b) → Valid t := by
    rintro t ⟨b, hb⟩
    exact hb.valid hN
  exact prefixes_iff_along (fun _ op h => step_front hN h op) hgood ⟨_, FrontInv.fresh data⟩

/-- Over the array end and on: a discard that ends there and leaves nothing, calls that
throw, and a discard that goes past it. -/
theorem front_valid_iff_wrapped :
    ∃ t, run Tracked.step (Tracked.fresh #v[0, 0, 0, 0])
        [.insert [1, 2, 3], .discard 2, .insert [4, 5], .discard 9, .discard 3] = some t ∧
      Valid t :=
  (front_valid_iff (by decide) #v[0, 0, 0, 0]
    [.insert [1, 2, 3], .discard 2, .insert [4, 5], .discard 9, .discard 3]).mpr
    (by decide +kernel) _ (List.prefix_refl _)

/-- A discard that ends at the array end and leaves the byte in cell `0`: `begin_` is `3`,
which is no index. -/
theorem begin_past_array :
    ∃ t, run Tracked.step (Tracked.fresh #v[0, 0, 0])
        [.insert [97, 98, 99], .discard 2, .insert [100], .discard 1] = some t ∧
      t.stored = [(0, 100)] ∧ t.ring.begin_ = 3 ∧ t.ring.size_ = 1 ∧ ¬ Valid t := by
  refine ⟨⟨⟨3, 1, #v[100, 98, 99]⟩, [(0, 100)]⟩, by decide +kernel, rfl, rfl, rfl, ?_⟩
  rintro ⟨hfront, -⟩
  exact absurd (hfront (by decide)).begin_lt (by decide)

end StringRingBuffer
end NqmIrimager
