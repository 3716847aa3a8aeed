import NqmIrimager.StringRingBuffer

/-!
# `NqmIrimager.RingCells`: the ring buffer with its array accesses

The member functions of `string_ring_buffer.hpp` again, on data members that promise
nothing: `StringRingBuffer` has the bounds `begin_ ≤ N` and `size_ ≤ N` built in, here they
have to be proved. Three things are explicit that `StringRingBuffer` leaves out:

* every copy to or from `data_` is an `Access`. What a copy does to memory outside of the
  array is undefined, so its only trace is the index;
* a difference of `std::size_t` wraps;
* a call of a function by itself uses up one level of `depth`, and there is no result when
  no level is left.
-/

set_option autoImplicit false

namespace NqmIrimager

/-- The data members of `StringRingBuffer<N>`. -/
structure RawRing (N : Nat) where
  begin_ : Nat
  size_ : Nat
  data_ : Vector Byte N
deriving DecidableEq

/-- A copy that starts at `&data_.data()[pos]`. -/
inductive Access where
  | write (pos : Nat) (bytes : Bytes)
  | read (pos : Nat) (length : Nat)
deriving DecidableEq, Repr

/-- The indices of the cells it reads or writes. -/
def Access.cells : Access → List Nat
  | .write pos bytes => List.range' pos bytes.length
  | .read pos length => List.range' pos length

namespace RawRing

variable {N : Nat}

open StringRingBuffer (copyInto)

/-- A newly constructed buffer. -/
def fresh (data : Vector Byte N) : RawRing N where
  begin_ := 0
  size_ := 0
  data_ := data

/-- The difference of two `std::size_t`. -/
def sizeSub (a b : Nat) : Nat := if b ≤ a then a - b else a + 18446744073709551616 - b

/-- A difference that does not wrap. -/
theorem sizeSub_eq {a b : Nat} (h : b ≤ a) : sizeSub a b = a - b := if_pos h

/-- `end()`. -/
def end_ (b : RawRing N) : Nat := (b.begin_ + b.size_) % N

/-- `std::string(&data_.data()[pos], n)`. -/
def read (b : RawRing N) (pos n : Nat) : Bytes := (b.data_.toList.drop pos).take n

/-- How a call ends, and its accesses in order. -/
structure Done (N : Nat) where
  outcome : Outcome (RawRing N) Unit
  accesses : List Access
deriving DecidableEq

/-- An access before the ones of `d`. -/
def Done.after (access : Access) (d : Done N) : Done N :=
  { d with accesses := access :: d.accesses }

/-- `insert(string)`. -/
def insert (depth : Nat) (b : RawRing N) (string : Bytes) : Option (Done N) :=
  if b.size_ = N then
    if string ≠ [] then
      some ⟨.threw ⟨.outOfRange, ascii "Not enough space in this ring buffer"⟩ b, []⟩
    else some ⟨.returned () b, []⟩
  else if b.begin_ ≤ b.end_ then
    let spaceBeforeOverflow := sizeSub N b.end_
    let bytesToWriteToR := min string.length spaceBeforeOverflow
    let copied := string.take bytesToWriteToR
    let b' : RawRing N :=
      { b with
        data_ := copyInto b.data_ b.end_ copied
        size_ := b.size_ + bytesToWriteToR }
    if bytesToWriteToR ≠ string.length then
      match depth with
      | 0 => none
      | depth + 1 =>
          (insert depth b' (string.drop bytesToWriteToR)).map (Done.after (.write b.end_ copied))
    else some ⟨.returned () b', [.write b.end_ copied]⟩
  else
    let spaceBeforeOverflow := sizeSub b.begin_ b.end_
    if string.length > spaceBeforeOverflow then
      some ⟨.threw ⟨.outOfRange, ascii "Not enough space in this ring buffer"⟩ b, []⟩
    else
      let b' : RawRing N :=
        { b with
          data_ := copyInto b.data_ b.end_ string
          size_ := b.size_ + string.length }
      some ⟨.returned () b', [.write b.end_ string]⟩

/-- `peek()`, with its accesses. -/
def peek (b : RawRing N) : Bytes × List Access :=
  if b.size_ = 0 then ([], [])
  else if b.begin_ < b.end_ then
    (b.read b.begin_ (sizeSub b.end_ b.begin_), [.read b.begin_ (sizeSub b.end_ b.begin_)])
  else
    (b.read b.begin_ (sizeSub N b.begin_) ++ b.read 0 b.end_,
      [.read b.begin_ (sizeSub N b.begin_), .read 0 b.end_])

/-- `discard(bytes)`. It does not touch `data_`. -/
def discard (depth : Nat) (b : RawRing N) (bytes : Nat) : Option (Outcome (RawRing N) Unit) :=
  if bytes > b.size_ then
    some (.threw ⟨.outOfRange, ascii "Not enough bytes in this ring buffer"⟩ b)
  else if b.begin_ ≤ b.end_ then
    let begin_ := b.begin_ + bytes
    some (.returned ()
      { b with
        begin_ := if begin_ ≥ N then 0 else begin_
        size_ := sizeSub b.size_ bytes })
  else
    let spaceBeforeOverflow := sizeSub N b.begin_
    let bytesToDiscardNow := min bytes spaceBeforeOverflow
    if bytesToDiscardNow ≠ bytes then
      match depth with
      | 0 => none
      | depth + 1 =>
          discard depth { b with begin_ := 0, size_ := sizeSub b.size_ bytesToDiscardNow }
            (sizeSub bytes bytesToDiscardNow)
    else
      some (.returned ()
        { b with
          begin_ := b.begin_ + bytesToDiscardNow
          size_ := sizeSub b.size_ bytesToDiscardNow })

end RawRing

end NqmIrimager
