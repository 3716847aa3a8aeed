import NqmIrimager.Proofs.RingExact
import NqmIrimager.Proofs.RingQueue
import NqmIrimager.RingCells

/-!
# `NqmIrimager.Proofs.RingBounds`: the ring buffer stays inside its array

`RawRing` promises nothing about its data members. It still does what `StringRingBuffer`
does, whose bounds are part of the type: `insert_raw`, `discard_raw` and `peek_raw` say so
for each call, with the cells that the call touches, and `run_raw` for any sequence of
calls, the ones that throw included. What is known about `StringRingBuffer` is then known
about every state of the raw buffer (`ring_bounds`).

The cells of an insert come in ring order, from `end()` on. A copy never passes the array
end, so there they are simply consecutive (`cellsFrom_eq_range'`).
-/

set_option autoImplicit false

namespace NqmIrimager

/-- Each cell of a write, with the byte it takes. -/
def Access.written : Access → List (Nat × Byte)
  | .write pos bytes => (List.range' pos bytes.length).zip bytes
  | .read _ _ => []

/-- All its cells belong to the array. -/
def Access.InBounds (N : Nat) (access : Access) : Prop := ∀ i ∈ access.cells, i < N

namespace StringRingBuffer

open StepRun
open RawRing (sizeSub sizeSub_eq Done)

variable {N : Nat}

/-! ### Cells in ring order -/

/-- The `n` cells from `x` on, in ring order. -/
def cellsFrom (N x n : Nat) : List Nat := (List.range n).map fun i => (x + i) % N

/-- As many cells as were asked for. -/
@[simp] theorem length_cellsFrom (N x n : Nat) : (cellsFrom N x n).length = n := by
  simp [cellsFrom]

/-- A range of cells in two parts, the second from where the first ends. -/
theorem cellsFrom_add (N x m n : Nat) :
    cellsFrom N x (m + n) = cellsFrom N x m ++ cellsFrom N (x + m) n := by
  simp only [cellsFrom, List.range_add, List.map_append, List.map_map, Nat.add_assoc]
  rfl

/-- Up to the array end they are consecutive. -/
theorem cellsFrom_eq_range' {x n : Nat} (h : x % N + n ≤ N) :
    cellsFrom N x n = List.range' (x % N) n := by
  rw [cellsFrom, List.range'_eq_map_range]
  refine List.map_congr_left fun i hi => ?_
  have hlt : i < n := List.mem_range.mp hi
  rw [Nat.add_mod, turn_of_lt (show i < N by omega), turn_of_lt (by omega)]

/-- A copy that ends inside the array. -/
theorem inBounds_write {pos : Nat} {bytes : Bytes} (h : pos + bytes.length ≤ N) :
    (Access.write pos bytes).InBounds N := by
  intro i hi
  have := List.mem_range'_1.mp hi
  omega

/-- A read that ends inside the array. -/
theorem inBounds_read {pos n : Nat} (h : pos + n ≤ N) : (Access.read pos n).InBounds N := by
  intro i hi
  have := List.mem_range'_1.mp hi
  omega

/-! ### One call -/

/-- The data members. -/
def raw (b : StringRingBuffer N) : RawRing N where
  begin_ := b.begin_
  size_ := b.size_
  data_ := b.data_

/-- The raw ring has the same `begin_`. -/
@[simp] theorem raw_begin (b : StringRingBuffer N) : b.raw.begin_ = b.begin_ := rfl

/-- The raw ring has the same `size_`. -/
@[simp] theorem raw_size (b : StringRingBuffer N) : b.raw.size_ = b.size_ := rfl

/-- The raw ring computes the same `end()`. -/
@[simp] theorem raw_end (b : StringRingBuffer N) : b.raw.end_ = b.end_ := rfl

/-- What a call `insert(string)` on `b` does: it ends as `StringRingBuffer.insert` does, and
what it has stored by then are the first `k` bytes of `string`, in the next `k` cells. -/
structure Traced (b : StringRingBuffer N) (string : Bytes) (d : Done N) (k : Nat) : Prop where
  outcome : d.outcome = (b.insert string).mapState raw
  size : (b.insert string).state.size_ = b.size_ + k
  front : (b.insert string).state.begin_ = b.begin_
  contents : (b.insert string).state.contents = b.contents ++ string.take k
  inBounds : ∀ access ∈ d.accesses, access.InBounds N
  written : d.accesses.flatMap Access.written
    = (cellsFrom N (b.begin_ + b.size_) k).zip (string.take k)

/-- An insert that leaves the buffer as it was. -/
theorem Traced.of_unchanged {b : StringRingBuffer N} {string : Bytes}
    (hstate : (b.insert string).state = b) :
    Traced b string ⟨(b.insert string).mapState raw, []⟩ 0 where
  outcome := rfl
  size := by rw [hstate, Nat.add_zero]
  front := by rw [hstate]
  contents := by rw [hstate, List.take_zero, List.append_nil]
  inBounds := fun _ h => by cases h
  written := rfl

/-- An insert that is one copy. -/
theorem Traced.of_copy {b : StringRingBuffer N} {string : Bytes}
    (hsize : b.size_ + string.length ≤ N) (hend : b.end_ + string.length ≤ N)
    (hrun : b.insert string = .returned () (b.append string hsize)) :
    Traced b string ⟨.returned () (b.append string hsize).raw, [.write b.end_ string]⟩
      string.length where
  outcome := by rw [hrun, Outcome.mapState_returned]
  size := by rw [hrun, Outcome.state_returned, append]
  front := by rw [hrun, Outcome.state_returned, append]
  contents := by
    rw [hrun, Outcome.state_returned, contents_append b string hsize hend, List.take_length]
  inBounds := fun access h => by
    rw [List.mem_singleton.mp h]
    exact inBounds_write hend
  written := by
    rw [cellsFrom_eq_range' hend, List.take_length, List.flatMap_cons, List.flatMap_nil,
      List.append_nil]
    rfl

/-- A copy, and then the rest of the string. -/
theorem Traced.after {b : StringRingBuffer N} {string : Bytes} {m : Nat}
    (hm : m ≤ string.length) (hsize : b.size_ + (string.take m).length ≤ N)
    (hend : b.end_ + m ≤ N) {d : Done N} {k : Nat}
    (hrun : b.insert string = (b.append (string.take m) hsize).insert (string.drop m))
    (h : Traced (b.append (string.take m) hsize) (string.drop m) d k) :
    Traced b string (d.after (.write b.end_ (string.take m))) (m + k) := by
  have hlength : (string.take m).length = m := by
    rw [List.length_take, Nat.min_eq_left hm]
  have hgrown : (b.append (string.take m) hsize).size_ = b.size_ + m :=
    congrArg (b.size_ + ·) hlength
  have htake : string.take (m + k) = string.take m ++ (string.drop m).take k := List.take_add
  refine ⟨?_, ?_, ?_, ?_, ?_, ?_⟩
  · rw [hrun]
    exact h.outcome
  · rw [hrun, h.size, hgrown, Nat.add_assoc]
  · rw [hrun, h.front, append]
  · rw [hrun, h.contents, contents_append b _ hsize (by rw [hlength]; exact hend), htake,
      List.append_assoc]
  · intro access haccess
    rcases List.mem_cons.mp haccess with rfl | hrest
    · exact inBounds_write (by rw [hlength]; exact hend)
    · exact h.inBounds access hrest
  · have hfirst : (Access.write b.end_ (string.take m)).written
        = (cellsFrom N (b.begin_ + b.size_) m).zip (string.take m) := by
      rw [cellsFrom_eq_range' hend, Access.written, hlength]
      rfl
    rw [RawRing.Done.after, List.flatMap_cons, h.written, hfirst, htake, cellsFrom_add,
      List.zip_append (by rw [length_cellsFrom, hlength]), hgrown, Nat.add_assoc]
    rfl

/-- `end()` is an index of the array. -/
theorem end_lt (b : StringRingBuffer N) (hN : 0 < N) : b.end_ < N := Nat.mod_lt _ hN

/-- An insert that makes at most one copy. It needs no recursion. -/
theorem insert_raw_flat (b : StringRingBuffer N) (hN : 0 < N) (string : Bytes)
    (h : b.size_ = N ∨ b.end_ < b.begin_ ∨ string.length ≤ N - b.end_) :
    ∃ d k, (∀ depth, b.raw.insert depth string = some d) ∧ Traced b string d k := by
  have hend := b.end_lt hN
  have hbegin := b.begin_le
  have hsize_le := b.size_le
  by_cases hfull : b.size_ = N
  · -- Full: nothing is written, whether it throws or returns.
    have hunchanged : (b.insert string).state = b := by
      rw [insert, dif_pos hfull]
      split <;> rfl
    refine ⟨_, 0, fun depth => ?_, Traced.of_unchanged hunchanged⟩
    rw [RawRing.insert, raw_size, if_pos hfull, insert, dif_pos hfull]
    split <;> rfl
  · by_cases hle : b.begin_ ≤ b.end_
    · have hfits : string.length ≤ N - b.end_ := by omega
      have hsize : b.size_ + string.length ≤ N := by
        rcases b.end_cases with he | he | he <;> omega
      refine ⟨_, _, fun depth => ?_,
        Traced.of_copy hsize (by omega) (b.insert_of_fits hfull hle hfits hsize)⟩
      have hmin : min string.length (sizeSub N b.end_) = string.length := by
        rw [sizeSub_eq (Nat.le_of_lt hend)]
        exact Nat.min_eq_left hfits
      rw [RawRing.insert, raw_size, raw_begin, raw_end, if_neg hfull, if_pos hle]
      simp only [hmin, ne_eq, not_true_eq_false, if_false, List.take_length]
      rfl
    · have hspace : sizeSub b.begin_ b.end_ = b.begin_ - b.end_ := sizeSub_eq (by omega)
      by_cases hlong : string.length > b.begin_ - b.end_
      · -- Wrapped, and too long: refused before anything is written.
        have hrefused : b.insert string
            = .threw ⟨.outOfRange, ascii "Not enough space in this ring buffer"⟩ b := by
          rw [insert, dif_neg hfull, dif_neg hle]
          exact dif_pos hlong
        refine ⟨_, 0, fun depth => ?_, Traced.of_unchanged (by rw [hrefused]; rfl)⟩
        rw [RawRing.insert, raw_size, raw_begin, raw_end, if_neg hfull, if_neg hle, hrefused]
        simp only [hspace]
        exact if_pos hlong
      · have hsize : b.size_ + string.length ≤ N := by
          rcases b.end_cases with he | he | he <;> omega
        have hrun : b.insert string = .returned () (b.append string hsize) := by
          rw [insert, dif_neg hfull, dif_neg hle]
          exact dif_neg hlong
        refine ⟨_, _, fun depth => ?_, Traced.of_copy hsize (by omega) hrun⟩
        rw [RawRing.insert, raw_size, raw_begin, raw_end, if_neg hfull, if_neg hle]
        simp only [hspace]
        rw [if_neg hlong]
        rfl

/-- Every insert recurses at most once: after a copy up to the array end, the rest of the
string starts at cell `0` and is at most one copy. -/
theorem insert_raw (b : StringRingBuffer N) (hN : 0 < N) (string : Bytes) :
    ∃ d k, (∀ depth, b.raw.insert (depth + 1) string = some d) ∧ Traced b string d k := by
  have hend := b.end_lt hN
  have hsize_le := b.size_le
  by_cases hflat : b.size_ = N ∨ b.end_ < b.begin_ ∨ string.length ≤ N - b.end_
  · obtain ⟨d, k, hrun, htraced⟩ := b.insert_raw_flat hN string hflat
    exact ⟨d, k, fun depth => hrun (depth + 1), htraced⟩
  · have hfull : b.size_ ≠ N := by omega
    have hle : b.begin_ ≤ b.end_ := by omega
    have hpast : N - b.end_ < string.length := by omega
    have hone : b.end_ = b.begin_ + b.size_ := by
      rcases b.end_cases with he | he | he <;> omega
    have hlength : (string.take (N - b.end_)).length = N - b.end_ := by
      rw [List.length_take]
      omega
    have hsize : b.size_ + (string.take (N - b.end_)).length ≤ N := by omega
    let b' := b.append (string.take (N - b.end_)) hsize
    -- `end()` has come round to `0`, so `b'` is full or wrapped.
    have hbegin' : b'.begin_ = b.begin_ := rfl
    have hsize' : b'.size_ = b.size_ + (N - b.end_) := congrArg (b.size_ + ·) hlength
    have hflat' : b'.size_ = N ∨ b'.end_ < b'.begin_ ∨
        (string.drop (N - b.end_)).length ≤ N - b'.end_ := by
      rcases b'.end_cases with he | he | he <;> omega
    obtain ⟨d, k, hrun, htraced⟩ := b'.insert_raw_flat hN _ hflat'
    refine ⟨_, _, fun depth => ?_, Traced.after (by omega) hsize (by omega)
      (b.insert_of_passes hfull hle hpast hsize) htraced⟩
    have hmin : min string.length (sizeSub N b.end_) = N - b.end_ := by
      rw [sizeSub_eq (Nat.le_of_lt hend)]
      exact Nat.min_eq_right (Nat.le_of_lt hpast)
    have hraw : b'.raw =
        { begin_ := b.begin_
          data_ := copyInto b.raw.data_ b.end_ (string.take (N - b.end_))
          size_ := b.size_ + (N - b.end_) } := by
      simp only [raw, RawRing.mk.injEq]
      exact ⟨hbegin', hsize', rfl⟩
    rw [RawRing.insert, raw_size, raw_begin, raw_end, if_neg hfull, if_pos hle]
    simp only [hmin]
    rw [if_pos (by omega), ← hraw, hrun, Option.map_some]

/-- A discard that throws, is not wrapped or ends before the array end. -/
theorem discard_raw_flat (b : StringRingBuffer N) (bytes : Nat)
    (h : b.size_ < bytes ∨ b.begin_ ≤ b.end_ ∨ bytes ≤ N - b.begin_) (depth : Nat) :
    b.raw.discard depth bytes = some ((b.discard bytes).mapState raw) := by
  rw [RawRing.discard, discard, raw_size, raw_begin, raw_end, size]
  by_cases hlong : bytes > b.size_
  · rw [if_pos hlong, if_pos hlong]
    rfl
  · have hsize : sizeSub b.size_ bytes = b.size_ - bytes := sizeSub_eq (by omega)
    rw [if_neg hlong, if_neg hlong]
    by_cases hle : b.begin_ ≤ b.end_
    · rw [if_pos hle, if_pos hle]
      simp only [hsize]
      rfl
    · have hspace : sizeSub N b.begin_ = N - b.begin_ := sizeSub_eq b.begin_le
      have hmin : min bytes (N - b.begin_) = bytes := Nat.min_eq_left (by omega)
      rw [if_neg hle, if_neg hle]
      simp only [hspace, hmin, ne_eq, not_true_eq_false, if_false, hsize]
      rfl

/-- Every discard recurses at most once: past the array end, what is left starts at cell
`0` and is not wrapped. -/
theorem discard_raw (b : StringRingBuffer N) (bytes depth : Nat) :
    b.raw.discard (depth + 1) bytes = some ((b.discard bytes).mapState raw) := by
  by_cases hflat : b.size_ < bytes ∨ b.begin_ ≤ b.end_ ∨ bytes ≤ N - b.begin_
  · exact b.discard_raw_flat bytes hflat (depth + 1)
  · have hle : ¬ b.begin_ ≤ b.end_ := by omega
    have hlong : ¬ bytes > b.size_ := by omega
    have hspace : sizeSub N b.begin_ = N - b.begin_ := sizeSub_eq b.begin_le
    have hmin : min bytes (N - b.begin_) = N - b.begin_ := Nat.min_eq_right (by omega)
    have hsize : sizeSub b.size_ (N - b.begin_) = b.size_ - (N - b.begin_) :=
      sizeSub_eq (by omega)
    have hrest : sizeSub bytes (N - b.begin_) = bytes - (N - b.begin_) := sizeSub_eq (by omega)
    rw [RawRing.discard, discard, raw_size, raw_begin, raw_end, size, if_neg hlong, if_neg hlong,
      if_neg hle, if_neg hle]
    simp only [hspace, hmin, hsize, hrest]
    rw [if_pos (by omega), if_pos (by omega)]
    exact discard_raw_flat
      ⟨0, b.size_ - (N - b.begin_), b.data_, Nat.zero_le N, Nat.le_trans (Nat.sub_le _ _) b.size_le⟩
      (bytes - (N - b.begin_)) (Or.inr (Or.inl (Nat.zero_le _))) depth

/-- `peek()` copies from inside the array. -/
theorem peek_raw (b : StringRingBuffer N) (hN : 0 < N) :
    b.raw.peek.1 = b.peek ∧ ∀ access ∈ b.raw.peek.2, access.InBounds N := by
  have hend := b.end_lt hN
  have hbegin := b.begin_le
  rw [RawRing.peek, peek, raw_size, raw_begin, raw_end]
  by_cases hempty : b.size_ = 0
  · rw [if_pos hempty, if_pos hempty]
    exact ⟨rfl, fun _ h => by cases h⟩
  · rw [if_neg hempty, if_neg hempty]
    by_cases hlt : b.begin_ < b.end_
    · have hlength : sizeSub b.end_ b.begin_ = b.end_ - b.begin_ := sizeSub_eq (by omega)
      rw [if_pos hlt, if_pos hlt, hlength]
      refine ⟨rfl, fun access haccess => ?_⟩
      rw [List.mem_singleton.mp haccess]
      exact inBounds_read (show b.begin_ + (b.end_ - b.begin_) ≤ N by omega)
    · have hlength : sizeSub N b.begin_ = N - b.begin_ := sizeSub_eq hbegin
      rw [if_neg hlt, if_neg hlt, hlength]
      refine ⟨rfl, fun access haccess => ?_⟩
      rcases List.mem_cons.mp haccess with rfl | hsecond
      · exact inBounds_read (show b.begin_ + (N - b.begin_) ≤ N by omega)
      · rw [List.mem_singleton.mp hsecond]
        exact inBounds_read (show 0 + b.end_ ≤ N by omega)

end StringRingBuffer

namespace RawRing

open StepRun StringRingBuffer

variable {N : Nat}

/-! ### Any number of calls -/

/-- The buffer after a call, whether it returns or throws. -/
def call (b : RawRing N) : RingCall → Option (RawRing N)
  | .insert string => (b.insert 1 string).map fun d => d.outcome.state
  | .discard bytes => (b.discard 1 bytes).map Outcome.state
  | .peek => some b
  | .size => some b

/-- A call on the raw ring succeeds, and does what the call on the buffer does. -/
theorem call_raw (b : StringRingBuffer N) (hN : 0 < N) (op : RingCall) :
    call b.raw op = some (b.exec op).state.raw := by
  cases op with
  | insert string =>
      obtain ⟨d, k, hrun, htraced⟩ := b.insert_raw hN string
      rw [call, hrun 0, Option.map_some, htraced.outcome, Outcome.state_mapState, exec]
      cases b.insert string <;> rfl
  | discard bytes =>
      rw [call, b.discard_raw bytes 0, Option.map_some, Outcome.state_mapState, exec]
      cases b.discard bytes <;> rfl
  | peek => rfl
  | size => rfl

/-- Whatever the calls do, the data members are those of a `StringRingBuffer`. -/
theorem run_raw (hN : 0 < N) (data : Vector Byte N) (ops : List RingCall) :
    ∃ b : StringRingBuffer N, run call (fresh data) ops = some b.raw := by
  have hstep : ∀ (raw : RawRing N) (b : StringRingBuffer N) (op : RingCall), raw = b.raw → True →
      ∃ raw', call raw op = some raw' ∧ raw' = (b.exec op).state.raw := by
    rintro _ b op rfl -
    exact ⟨_, call_raw b hN op, rfl⟩
  obtain ⟨_, hrun, rfl⟩ := run_simulates (R := fun raw b => raw = b.raw)
    (f := fun b op => (b.exec op).state) hstep (s := fresh data)
    (t := StringRingBuffer.fresh data) rfl (along_of_forall fun op (_ : op ∈ ops) => trivial)
  exact ⟨_, hrun⟩

/-- The call ends in a `std::out_of_range`. -/
def ThrowsOutOfRange (o : Outcome (RawRing N) Unit) : Prop :=
  ∃ e b, o = .threw e b ∧ e.kind = .outOfRange

/-- The call returns, and `n` bytes are stored then. -/
def ReturnsWithSize (o : Outcome (RawRing N) Unit) (n : Nat) : Prop :=
  ∃ b, o = .returned () b ∧ b.size_ = n

/-- A call that returns has not thrown. -/
theorem ReturnsWithSize.not_throws {o : Outcome (RawRing N) Unit} {n : Nat}
    (h : ReturnsWithSize o n) : ¬ ThrowsOutOfRange o := by
  obtain ⟨b, rfl, -⟩ := h
  rintro ⟨e, b', hthrew, -⟩
  cases hthrew

/-- An insert that fits adds its length to `size_`. -/
theorem insert_returnsWithSize (b : StringRingBuffer N) {string : Bytes}
    (hfits : string.length ≤ N - b.size_) :
    ReturnsWithSize ((b.insert string).mapState raw) (b.size_ + string.length) := by
  have hsize_le := b.size_le
  obtain ⟨b', hreturned, -, hsize, -⟩ := b.insert_spec string (by omega)
  rw [hreturned]
  exact ⟨_, rfl, hsize⟩

/-- An insert that does not fit throws. -/
theorem insert_throwsOutOfRange (b : StringRingBuffer N) {string : Bytes}
    (hlong : N - b.size_ < string.length) :
    ThrowsOutOfRange ((b.insert string).mapState raw) := by
  obtain ⟨b', hthrew⟩ := b.insert_throws (show N < b.size_ + string.length by omega)
  rw [hthrew]
  exact ⟨_, _, rfl, rfl⟩

/-- A discard of stored bytes takes them from `size_`. -/
theorem discard_returnsWithSize (b : StringRingBuffer N) {bytes : Nat} (hle : bytes ≤ b.size_) :
    ReturnsWithSize ((b.discard bytes).mapState raw) (b.size_ - bytes) := by
  obtain ⟨b', hreturned, -, hsize, -⟩ := b.discard_returns hle
  rw [hreturned]
  exact ⟨_, rfl, hsize⟩

/-- A discard of more than is stored throws. -/
theorem discard_throwsOutOfRange (b : StringRingBuffer N) {bytes : Nat} (hlong : b.size_ < bytes) :
    ThrowsOutOfRange ((b.discard bytes).mapState raw) := by
  rw [b.discard_throws hlong]
  exact ⟨_, _, rfl, rfl⟩

/-- Bounds, accounting and throws of the ring buffer, after any sequence of calls on a new
one, the ones that throw included. A call that may recurse once ends, and gains nothing
from being allowed to recurse further. -/
theorem ring_bounds (hN : 0 < N) (data : Vector Byte N) (ops : List RingCall) :
    ∃ b, run call (fresh data) ops = some b ∧ b.size_ ≤ N ∧
      (∀ access ∈ b.peek.2, access.InBounds N) ∧
      (∀ string, ∃ d, (∀ depth, b.insert (depth + 1) string = some d) ∧
        (∀ access ∈ d.accesses, access.InBounds N) ∧
        (ThrowsOutOfRange d.outcome ↔ N - b.size_ < string.length) ∧
        (string.length ≤ N - b.size_ → ReturnsWithSize d.outcome (b.size_ + string.length))) ∧
      ∀ bytes, ∃ o, (∀ depth, b.discard (depth + 1) bytes = some o) ∧
        (ThrowsOutOfRange o ↔ b.size_ < bytes) ∧
        (bytes ≤ b.size_ → ReturnsWithSize o (b.size_ - bytes)) := by
  obtain ⟨b, hrun⟩ := run_raw hN data ops
  refine ⟨b.raw, hrun, b.size_le, (b.peek_raw hN).2, fun string => ?_, fun bytes => ?_⟩
  · obtain ⟨d, k, hinsert, htraced⟩ := b.insert_raw hN string
    refine ⟨d, hinsert, htraced.inBounds, ?_, ?_⟩
    · rw [htraced.outcome]
      constructor
      · intro hthrows
        rcases Nat.lt_or_ge (N - b.size_) string.length with hlong | hfits
        · exact hlong
        · exact absurd hthrows (insert_returnsWithSize b hfits).not_throws
      · exact insert_throwsOutOfRange b
    · rw [htraced.outcome]
      exact insert_returnsWithSize b
  · refine ⟨_, fun depth => b.discard_raw bytes depth, ?_, discard_returnsWithSize b⟩
    constructor
    · intro hthrows
      rcases Nat.lt_or_ge b.size_ bytes with hlong | hle
      · exact hlong
      · exact absurd hthrows (discard_returnsWithSize b hle).not_throws
    · exact discard_throwsOutOfRange b

/-- A two-byte buffer, after an insert that threw with both bytes written. -/
theorem ring_bounds_half_finished :
    ∃ b, run call (fresh #v[0, 0]) [.insert [97, 98, 99], .discard 1] = some b ∧ b.size_ ≤ 2 ∧
      ∃ d, (∀ depth, b.insert (depth + 1) [100] = some d) ∧
        (ThrowsOutOfRange d.outcome ↔ 2 - b.size_ < 1) := by
  obtain ⟨b, hrun, hsize, -, hinsert, -⟩ :=
    ring_bounds (by decide) #v[0, 0] [.insert [97, 98, 99], .discard 1]
  obtain ⟨d, hends, -, hthrows, -⟩ := hinsert [100]
  exact ⟨b, hrun, hsize, d, hends, hthrows⟩

end RawRing
end NqmIrimager
