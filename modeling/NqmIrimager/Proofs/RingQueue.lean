import NqmIrimager.Lib.StepRun
import NqmIrimager.Proofs.RingContents

/-!
# `NqmIrimager.Proofs.RingQueue`: the ring buffer as a byte queue

A run of member function calls on a new buffer, against the queue it stands for: all the
inserted bytes, without the discarded ones at the front.

The buffer is that queue in every run that stays clear of two steps (`KeepsQueue`):

* an insert that fills the buffer while `begin_` is `N`. `peek()` then returns nothing
  (`peek_hides_after_fill`), although `size()` is `N`;
* a discard from a full buffer that passes the array end and leaves bytes
  (`LosesFront`). `begin_` goes to `0`, and what is left is read from the wrong cells.

`queue_of_keepsQueue` is the refinement, one step of it is `call_queue`.
-/

set_option autoImplicit false

namespace NqmIrimager
namespace StringRingBuffer

open StepRun

variable {N : Nat}

/-- A call of a public member function, with its argument. -/
inductive RingCall where
  | insert (string : Bytes)
  | discard (bytes : Nat)
  | peek
  | size
deriving DecidableEq, Repr

/-- What a call gives back. -/
inductive Reply where
  | void
  | string (s : Bytes)
  | count (n : Nat)
deriving DecidableEq, Repr

/-- The result of a call that returns nothing. -/
def Reply.ofVoid {σ : Type} : Outcome σ Unit → Outcome σ Reply
  | .returned _ s => .returned .void s
  | .threw e s => .threw e s

/-- Make the call. -/
def exec (b : StringRingBuffer N) : RingCall → Outcome (StringRingBuffer N) Reply
  | .insert string => Reply.ofVoid (b.insert string)
  | .discard bytes => Reply.ofVoid (b.discard bytes)
  | .peek => .returned (.string b.peek) b
  | .size => .returned (.count b.size) b

/-- The buffer after a call that returns. A throw ends the run. -/
def call (b : StringRingBuffer N) (op : RingCall) : Option (StringRingBuffer N) :=
  (b.exec op).next

/-- The calls a queue of capacity `N` allows. -/
def Allowed (b : StringRingBuffer N) : RingCall → Prop
  | .insert string => b.size + string.length ≤ N
  | .discard bytes => bytes ≤ b.size
  | .peek => True
  | .size => True

/-- The calls that stay clear of the two steps the buffer gets wrong. -/
def KeepsQueue (b : StringRingBuffer N) : RingCall → Prop
  | .insert string => ¬ (b.begin_ = N ∧ b.size + string.length = N)
  | .discard bytes => ¬ b.LosesFront bytes
  | .peek => True
  | .size => True

instance (b : StringRingBuffer N) : ∀ op, Decidable (b.Allowed op)
  | .insert string => inferInstanceAs (Decidable (b.size + string.length ≤ N))
  | .discard bytes => inferInstanceAs (Decidable (bytes ≤ b.size))
  | .peek => inferInstanceAs (Decidable True)
  | .size => inferInstanceAs (Decidable True)

instance (b : StringRingBuffer N) : ∀ op, Decidable (b.KeepsQueue op)
  | .insert string => inferInstanceAs (Decidable (¬ (b.begin_ = N ∧ b.size + string.length = N)))
  | .discard bytes => inferInstanceAs (Decidable (¬ b.LosesFront bytes))
  | .peek => inferInstanceAs (Decidable True)
  | .size => inferInstanceAs (Decidable True)

/-! ### The queue -/

/-- The concatenation of the inserted strings. -/
def inserted : List RingCall → Bytes
  | [] => []
  | .insert string :: ops => string ++ inserted ops
  | _ :: ops => inserted ops

/-- The total number of discarded bytes. -/
def discarded : List RingCall → Nat
  | [] => 0
  | .discard bytes :: ops => bytes + discarded ops
  | _ :: ops => discarded ops

/-- The bytes inserted, and the number of bytes discarded, after one more call. -/
def count (h : Bytes × Nat) : RingCall → Bytes × Nat
  | .insert string => (h.1 ++ string, h.2)
  | .discard bytes => (h.1, h.2 + bytes)
  | .peek => h
  | .size => h

/-- After a run the count is of all its calls. -/
theorem foldl_count (ops : List RingCall) (h : Bytes × Nat) :
    ops.foldl count h = (h.1 ++ inserted ops, h.2 + discarded ops) := by
  induction ops generalizing h with
  | nil => simp [inserted, discarded]
  | cons op ops ih =>
      rw [List.foldl_cons, ih]
      cases op <;> simp [count, inserted, discarded, Nat.add_assoc]

/-- The buffer stands for the queue: it is readable (`peek` shows it), and its contents
are the inserted bytes without the discarded ones. -/
structure Holds (b : StringRingBuffer N) (h : Bytes × Nat) : Prop where
  readable : ¬ (b.begin_ = N ∧ b.size_ = N)
  contents : b.contents = h.1.drop h.2
  discarded_le : h.2 ≤ h.1.length

/-- A new buffer stands for the empty queue. -/
theorem Holds.fresh (hN : 0 < N) (data : Vector Byte N) :
    (StringRingBuffer.fresh data).Holds ([], 0) where
  readable := fun h => by
    have hbegin : 0 = N := h.1
    omega
  contents := contents_fresh data
  discarded_le := Nat.le_refl 0

/-- An allowed call that stays clear of the two steps returns, and the buffer stands for
the queue after it. -/
theorem call_queue (b : StringRingBuffer N) (h : Bytes × Nat) (op : RingCall)
    (hb : b.Holds h) (hop : b.Allowed op ∧ b.KeepsQueue op) :
    ∃ b', b.call op = some b' ∧ b'.Holds (count h op) := by
  cases op with
  | insert string =>
      obtain ⟨hfits, hkeeps⟩ := hop
      obtain ⟨b', hrun, hbegin, hsize, hcontents⟩ := b.insert_spec string hfits
      have hstep : b.call (.insert string) = some b' := by
        simp only [call, exec, hrun]
        rfl
      refine ⟨b', hstep, ?_, ?_, ?_⟩
      · rw [hbegin, hsize]
        exact hkeeps
      · rw [hcontents, hb.contents]
        exact (List.drop_append_of_le_length hb.discarded_le).symm
      · have := hb.discarded_le
        simp only [count, List.length_append]
        omega
  | discard bytes =>
      obtain ⟨hle, hkeeps⟩ := hop
      obtain ⟨b', hrun, hbegin, hsize, hcontents⟩ := b.discard_spec hle hkeeps
      have hlen : b.size_ = h.1.length - h.2 := by
        rw [← length_contents, hb.contents, List.length_drop]
      have hle' : bytes ≤ b.size_ := hle
      have hcount := hb.discarded_le
      have hstep : b.call (.discard bytes) = some b' := by
        simp only [call, exec, hrun]
        rfl
      refine ⟨b', hstep, ?_, ?_, ?_⟩
      · -- Full after a discard means that nothing was discarded.
        rintro ⟨hbegin', hsize'⟩
        have hfull : b.size_ = N := by
          have := b.size_le
          omega
        have hzero : bytes = 0 := by omega
        subst hzero
        have hlt : b.begin_ < N := by
          have := b.begin_le
          have := hb.readable
          omega
        rw [b.beginAfterDiscard_zero hlt] at hbegin
        omega
      · rw [hcontents, hb.contents, List.drop_drop]
        rfl
      · simp only [count]
        omega
  | peek => exact ⟨b, rfl, hb⟩
  | size => exact ⟨b, rfl, hb⟩

/-- The ring buffer is a bounded byte queue in every run of allowed calls that keeps
clear of the two steps: no call throws, and after each call `peek()` is the inserted
bytes without the discarded ones and `size()` is its length. -/
theorem queue_of_keepsQueue (hN : 0 < N) (data : Vector Byte N) (ops : List RingCall)
    (hallowed : Along call Allowed (fresh data) ops)
    (hkeeps : Along call KeepsQueue (fresh data) ops)
    (pre : List RingCall) (hpre : pre <+: ops) :
    ∃ b, run call (fresh data) pre = some b ∧
      b.peek = (inserted pre).drop (discarded pre) ∧ b.size = b.peek.length := by
  have hboth := along_of_isPrefix hpre (along_and hallowed hkeeps)
  obtain ⟨b, hrun, hb⟩ :=
    run_simulates call_queue (Holds.fresh hN data) hboth
  have hpeek : b.peek = b.contents := b.peek_eq_contents hb.readable
  refine ⟨b, hrun, ?_, (b.length_peek hb.readable).symm⟩
  rw [hpeek, hb.contents, foldl_count]
  simp

/-- A run over a full buffer, a wrapped one and an empty one: four bytes in, two out, two
in, four out. -/
theorem queue_of_keepsQueue_wrapped :
    ∃ b, run call (fresh #v[0, 0, 0, 0])
        [.insert [1, 2, 3, 4], .discard 2, .insert [5, 6], .peek] = some b ∧
      b.peek = [3, 4, 5, 6] ∧ b.size = b.peek.length :=
  queue_of_keepsQueue (by decide) #v[0, 0, 0, 0]
    [.insert [1, 2, 3, 4], .discard 2, .insert [5, 6], .peek]
    (by decide +kernel) (by decide +kernel) _ (List.prefix_refl _)

/-- An insert that fills the buffer while `begin_` is `N` hides all `N` bytes: the insert
returns, `size()` is `N` and `peek()` is empty. -/
theorem peek_hides_after_fill (b : StringRingBuffer N) (string : Bytes) (hbegin : b.begin_ = N)
    (hfill : b.size_ + string.length = N) :
    ∃ b', b.insert string = .returned () b' ∧ b'.begin_ = N ∧ b'.size = N ∧ b'.peek = [] := by
  obtain ⟨b', hrun, hbegin', hsize', -⟩ := b.insert_spec string (by omega)
  exact ⟨b', hrun, by omega, by simp only [size]; omega, b'.peek_of_end_full (by omega) (by omega)⟩

/-- A run of allowed calls on a two-byte buffer that shows nothing of the two bytes it
holds. The two discards leave `begin_` at `2`, the second insert fills the buffer. -/
theorem peek_hides_two_bytes :
    Along call Allowed (fresh #v[0, 0])
        [.insert [97, 98], .discard 1, .discard 1, .insert [99, 100]] ∧
      (run call (fresh #v[0, 0])
          [.insert [97, 98], .discard 1, .discard 1, .insert [99, 100]]).map
        (fun b => (b.peek, b.size)) = some ([], 2) ∧
      (inserted [.insert [97, 98], .discard 1, .discard 1, .insert [99, 100]]).drop
        (discarded [.insert [97, 98], .discard 1, .discard 1, .insert [99, 100]]) = [99, 100] := by
  refine ⟨?_, ?_, rfl⟩
  · decide +kernel
  · decide +kernel

end StringRingBuffer
end NqmIrimager
