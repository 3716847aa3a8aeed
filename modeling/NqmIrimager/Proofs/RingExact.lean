import NqmIrimager.Proofs.RingContents

/-!
# `NqmIrimager.Proofs.RingExact`: what one call does to any representation

Two laws of a single call, each with the states in which the code keeps it.

* `insert_atomic_iff`: a failed insert changes nothing, unless it starts on the unwrapped
  branch. That branch writes up to the array end before the recursion finds out that the
  rest does not fit (`insert_unwrapped_throws`).
* `discardsExactly_iff`: a discard removes exactly the front, and can be made in two
  parts, unless it loses the front (`LosesFront`). It then shows cells from the start of
  the array instead, which goes unseen only when all of them hold one byte.
-/

set_option autoImplicit false

namespace NqmIrimager
namespace StringRingBuffer

variable {N : Nat}

/-! ### The two parts of an insert -/

/-- On the unwrapped branch, a string that ends before the array end is copied at once. -/
theorem insert_of_fits (b : StringRingBuffer N) {string : Bytes} (hfull : b.size_ ≠ N)
    (hle : b.begin_ ≤ b.end_) (hfits : string.length ≤ N - b.end_)
    (hsize : b.size_ + string.length ≤ N) :
    b.insert string = .returned () (b.append string hsize) := by
  have hmin : min string.length (N - b.end_) = string.length := Nat.min_eq_left hfits
  rw [insert, dif_neg hfull, dif_pos hle]
  simp only [hmin, ne_eq, not_true_eq_false, if_false, List.take_length]

/-- A longer one is copied in two parts. -/
theorem insert_of_passes (b : StringRingBuffer N) {string : Bytes} (hfull : b.size_ ≠ N)
    (hle : b.begin_ ≤ b.end_) (hpast : N - b.end_ < string.length)
    (hsize : b.size_ + (string.take (N - b.end_)).length ≤ N) :
    b.insert string
      = (b.append (string.take (N - b.end_)) hsize).insert (string.drop (N - b.end_)) := by
  have hmin : min string.length (N - b.end_) = N - b.end_ := Nat.min_eq_right (by omega)
  rw [insert, dif_neg hfull, dif_pos hle]
  simp only [hmin]
  exact if_pos (by omega)

/-! ### A failed insert -/

/-- A string that does not fit is refused before anything is written, when the free space
is one piece in front of `begin_`, or none. -/
theorem insert_refused (b : StringRingBuffer N) {string : Bytes}
    (h : b.size_ = N ∨ b.end_ < b.begin_) (hlong : N < b.size_ + string.length) :
    b.insert string
      = .threw ⟨.outOfRange, ascii "Not enough space in this ring buffer"⟩ b := by
  have hsize := b.size_le
  rw [insert]
  by_cases hfull : b.size_ = N
  · have hne : string ≠ [] := List.ne_nil_of_length_pos (by omega)
    rw [dif_pos hfull, if_pos hne]
  · -- Wrapped: all the free cells lie between `end()` and `begin_`.
    have hwrapped : ¬ b.begin_ ≤ b.end_ := by omega
    have hspace : string.length > b.begin_ - b.end_ := by
      rcases b.end_cases with he | he | he <;> omega
    rw [dif_neg hfull, dif_neg hwrapped]
    exact dif_pos hspace

/-- On the unwrapped branch the piece up to the array end stays written. -/
theorem insert_unwrapped_throws (b : StringRingBuffer N) (string : Bytes) (hroom : b.size_ < N)
    (hle : b.begin_ ≤ b.end_) (hlong : N < b.size_ + string.length) :
    ∃ b', b.insert string
        = .threw ⟨.outOfRange, ascii "Not enough space in this ring buffer"⟩ b' ∧
      b'.size_ = N - b.begin_ ∧ b'.contents = b.contents ++ string.take (N - b.end_) := by
  have hend : b.end_ = b.begin_ + b.size_ ∧ b.end_ < N := by
    rcases b.end_cases with he | he | he <;> omega
  have htake : (string.take (N - b.end_)).length = N - b.end_ := by
    rw [List.length_take]
    omega
  let b' := b.append (string.take (N - b.end_)) (by omega)
  have hbegin : b'.begin_ = b.begin_ := rfl
  have hsize : b'.size_ = N - b.begin_ := by
    show b.size_ + (string.take (N - b.end_)).length = _
    omega
  refine ⟨b', ?_, hsize, contents_append b _ _ (by omega)⟩
  rw [b.insert_of_passes (by omega) hle (by omega) (by omega)]
  -- The recursion starts with `end()` at `0`, so it refuses the rest.
  apply insert_refused b'
  · rcases b'.end_cases with he | he | he <;> omega
  · rw [List.length_drop]
    omega

/-- A string that does not fit is refused, with or without a first part written. -/
theorem insert_throws (b : StringRingBuffer N) {string : Bytes}
    (hlong : N < b.size_ + string.length) :
    ∃ b', b.insert string
      = .threw ⟨.outOfRange, ascii "Not enough space in this ring buffer"⟩ b' := by
  have hsize := b.size_le
  by_cases hrefused : b.size_ = N ∨ b.end_ < b.begin_
  · exact ⟨b, b.insert_refused hrefused hlong⟩
  · obtain ⟨b', hrun, -⟩ := b.insert_unwrapped_throws string (by omega) (by omega) hlong
    exact ⟨b', hrun⟩

/-- A failed insert changes nothing exactly when the string fits, the buffer is full, or
the stored bytes wrap around the array end. -/
theorem insert_atomic_iff (b : StringRingBuffer N) (string : Bytes) :
    (∀ e b', b.insert string = .threw e b' → b'.size = b.size ∧ b'.peek = b.peek) ↔
      b.size_ + string.length ≤ N ∨ b.size_ = N ∨ b.end_ < b.begin_ := by
  have hsize := b.size_le
  constructor
  · intro hatomic
    by_cases hcond : b.size_ + string.length ≤ N ∨ b.size_ = N ∨ b.end_ < b.begin_
    · exact hcond
    · -- Unwrapped, with room, and too long: `size()` has grown.
      have hend : b.end_ = b.begin_ + b.size_ ∧ b.end_ < N := by
        rcases b.end_cases with he | he | he <;> omega
      obtain ⟨b', hrun, hsize', -⟩ :=
        b.insert_unwrapped_throws string (by omega) (by omega) (by omega)
      have hsame : b'.size_ = b.size_ := (hatomic _ b' hrun).1
      omega
  · intro hcond e b' hrun
    rcases Nat.lt_or_ge N (b.size_ + string.length) with hlong | hfits
    · rw [b.insert_refused (by omega) hlong] at hrun
      cases hrun
      exact ⟨rfl, rfl⟩
    · obtain ⟨b₁, hreturn, -⟩ := b.insert_spec string hfits
      rw [hreturn] at hrun
      cases hrun

/-- Three bytes into a new two-byte buffer: the call throws and two bytes stay. -/
theorem insert_keeps_two_bytes :
    ((fresh #v[0, 0] : StringRingBuffer 2).insert [97, 98, 99]
        = .threw ⟨.outOfRange, ascii "Not enough space in this ring buffer"⟩
          ⟨0, 2, #v[97, 98], by decide, by decide⟩) ∧
      (fresh #v[0, 0] : StringRingBuffer 2).size = 0 ∧
      (fresh #v[0, 0] : StringRingBuffer 2).peek = [] ∧
      (⟨0, 2, #v[97, 98], by decide, by decide⟩ : StringRingBuffer 2).size = 2 ∧
      (⟨0, 2, #v[97, 98], by decide, by decide⟩ : StringRingBuffer 2).peek = [97, 98] := by
  refine ⟨?_, rfl, rfl, rfl, ?_⟩
  · decide +kernel
  · decide +kernel

/-! ### What a discard leaves -/

/-- The law: `discard(bytes)` removes the first `bytes` bytes, and any two discards of
`bytes` bytes together leave the same. -/
def DiscardsExactly (b : StringRingBuffer N) (bytes : Nat) : Prop :=
  ∃ b', b.discard bytes = .returned () b' ∧ b'.contents = b.contents.drop bytes ∧
    ∀ a c, a + c = bytes → ∃ b₁ b₂, b.discard a = .returned () b₁ ∧
      b₁.discard c = .returned () b₂ ∧ b₂.contents = b'.contents

/-- Contents that do not wrap are one slice of the array. -/
theorem contents_eq_read {b : StringRingBuffer N} (h : b.begin_ + b.size_ ≤ N) :
    b.contents = b.read b.begin_ b.size_ := by
  apply List.ext_getElem
  · rw [length_contents, length_read b h]
  · intro i hi hi'
    rw [length_contents] at hi
    rw [getElem_read b i hi' (by omega),
      getElem_contents b i _ (by omega) (turn_of_lt (by omega))]

/-- The later contents, where they do not wrap, are a slice of the same array. -/
theorem contents_of_data {b b' : StringRingBuffer N} {pos n : Nat} (hdata : b'.data_ = b.data_)
    (hbegin : b'.begin_ = pos) (hsize : b'.size_ = n) (h : pos + n ≤ N) :
    b'.contents = b.read pos n := by
  subst hbegin hsize
  rw [contents_eq_read h, read, read, hdata]

/-- A full buffer has `begin_ = end()`, so its discard only moves `begin_`, or sets it to
`0`. -/
theorem discard_of_full (b : StringRingBuffer N) (hfull : b.size_ = N) (hbegin : b.begin_ < N)
    {bytes : Nat} (h : bytes ≤ N) :
    ∃ b', b.discard bytes = .returned () b' ∧
      b'.begin_ = (if b.begin_ + bytes ≥ N then 0 else b.begin_ + bytes) ∧
      b'.size_ = N - bytes ∧ b'.data_ = b.data_ := by
  obtain ⟨b', hrun, hbegin', hsize, hdata⟩ := b.discard_returns (hfull ▸ h)
  have hle : b.begin_ ≤ b.end_ := by
    rcases b.end_cases with he | he | he <;> omega
  rw [beginAfterDiscard, if_pos hle] at hbegin'
  exact ⟨b', hrun, hbegin', by omega, hdata⟩

/-- The windows of one length that start at `0` up to `d` are the same exactly when the
list they slide over repeats one element. -/
theorem windows_eq_iff {α : Type} (d m : Nat) (xs : List α) (hd : 0 < d) (hm : 0 < m)
    (hlen : xs.length = d + m) :
    (∀ c, c ≤ d → (xs.drop c).take m = xs.take m) ↔ ∃ x, xs = List.replicate (d + m) x := by
  constructor
  · intro hwin
    -- The `c`-th window at `i` is the element at `c + i`.
    have hshift : ∀ c i, c ≤ d → i < m → xs[c + i]? = xs[i]? := by
      intro c i hc hi
      have h := congrArg (fun l => l[i]?) (hwin c hc)
      simpa [List.getElem?_take, hi] using h
    have hsame : ∀ j, j < d + m → xs[j]? = xs[0]? := by
      intro j
      -- Up to `d` a window starts at `j`; past it, go back by `d`.
      induction j using Nat.strongRecOn with
      | _ j ih =>
          intro hj
          rcases Nat.lt_or_ge d j with hgt | hle
          · have hback := hshift d (j - d) (Nat.le_refl d) (by omega)
            rw [show d + (j - d) = j by omega] at hback
            rw [hback]
            exact ih (j - d) (by omega) (by omega)
          · exact hshift j 0 hle hm
    refine ⟨xs.get ⟨0, by omega⟩, List.ext_getElem (by simp [hlen]) ?_⟩
    intro j hj hj'
    have h := hsame j (by omega)
    rw [List.getElem?_eq_getElem hj, List.getElem?_eq_getElem (by omega)] at h
    rw [List.getElem_replicate]
    exact Option.some.inj h
  · rintro ⟨x, rfl⟩ c hc
    rw [List.drop_replicate, List.take_replicate, List.take_replicate]
    congr 1
    omega

/-- Outside `LosesFront` the law holds. A part `a` that loses the front itself belongs to a
discard of everything, which leaves nothing to compare. -/
theorem discardsExactly_of_keepsFront (b : StringRingBuffer N) (hbegin : b.begin_ < N)
    {bytes : Nat} (h : bytes ≤ b.size_) (hfront : ¬ b.LosesFront bytes) :
    b.DiscardsExactly bytes := by
  have hN := b.size_le
  obtain ⟨b', hrun, -, hsize', hcontents⟩ := b.discard_spec h hfront
  refine ⟨b', hrun, hcontents, ?_⟩
  intro a c hac
  by_cases hall : bytes = b.size_
  · -- Everything goes: the two parts leave nothing either.
    obtain ⟨b₁, hrun₁, -, hsize₁, -⟩ := b.discard_returns (show a ≤ b.size_ by omega)
    obtain ⟨b₂, hrun₂, -, hsize₂, -⟩ := b₁.discard_returns (show c ≤ b₁.size_ by omega)
    refine ⟨b₁, b₂, hrun₁, hrun₂, ?_⟩
    rw [contents_eq_nil (by omega), contents_eq_nil (by omega)]
  · -- Neither part loses the front: the first one is shorter, the second one starts on a
    -- buffer that is not full, unless it is the whole discard.
    have hfront₁ : ¬ b.LosesFront a := by
      unfold LosesFront at hfront ⊢
      omega
    obtain ⟨b₁, hrun₁, hbegin₁, hsize₁, hcontents₁⟩ := b.discard_spec (by omega) hfront₁
    have hfront₂ : ¬ b₁.LosesFront c := by
      unfold LosesFront at hfront ⊢
      rintro ⟨hfull, hbegin₁', hpast, hless⟩
      obtain rfl : a = 0 := by omega
      rw [b.beginAfterDiscard_zero hbegin] at hbegin₁
      omega
    obtain ⟨b₂, hrun₂, -, -, hcontents₂⟩ := b₁.discard_spec (by omega) hfront₂
    refine ⟨b₁, b₂, hrun₁, hrun₂, ?_⟩
    rw [hcontents₂, hcontents₁, hcontents, List.drop_drop, hac]

/-- Where the front is lost, the contents should be the slice of the array from
`begin_ + bytes - N` on. -/
theorem contents_drop_of_losesFront (b : StringRingBuffer N) {bytes : Nat}
    (hfront : b.LosesFront bytes) :
    b.contents.drop bytes = b.read (b.begin_ + bytes - N) (N - bytes) := by
  obtain ⟨hfull, hbegin, hpast, hless⟩ := hfront
  apply List.ext_getElem
  · rw [List.length_drop, length_contents, length_read b (by omega)]
    omega
  · intro i hi hi'
    rw [List.length_drop, length_contents] at hi
    have hturn : (b.begin_ + (bytes + i)) % N = b.begin_ + bytes - N + i := by
      rw [turn_of_ge (by omega) (by omega)]
      omega
    rw [List.getElem_drop, getElem_read b i hi' (by omega),
      getElem_contents b _ _ (by omega) hturn]

/-- They are the slice from the start of the array. -/
theorem discard_of_losesFront (b : StringRingBuffer N) {bytes : Nat}
    (hfront : b.LosesFront bytes) :
    ∃ b', b.discard bytes = .returned () b' ∧ b'.contents = b.read 0 (N - bytes) := by
  obtain ⟨hfull, hbegin, hpast, hless⟩ := hfront
  obtain ⟨b', hrun, hbegin', hsize', hdata'⟩ :=
    b.discard_of_full hfull hbegin (show bytes ≤ N by omega)
  rw [if_pos (by omega)] at hbegin'
  exact ⟨b', hrun, contents_of_data hdata' hbegin' hsize' (by omega)⟩

/-- In the contents before the discard that slice begins where the array does. -/
theorem read_of_losesFront (b : StringRingBuffer N) {bytes : Nat} (hfront : b.LosesFront bytes) :
    b.read 0 (N - bytes) = (b.contents.drop (N - b.begin_)).take (N - bytes) := by
  obtain ⟨hfull, hbegin, hpast, hless⟩ := hfront
  apply List.ext_getElem
  · rw [length_read b (by omega), List.length_take, List.length_drop, length_contents]
    omega
  · intro i hi hi'
    rw [length_read b (by omega)] at hi
    have hturn : (b.begin_ + (N - b.begin_ + i)) % N = 0 + i := by
      rw [turn_of_ge (by omega) (by omega)]
      omega
    rw [List.getElem_take, List.getElem_drop, getElem_read b i _ (by omega),
      getElem_contents b _ _ (by omega) hturn]

/-- In two parts, of which the first one loses the front, the second one skips its bytes of
the slice the first one shows. -/
theorem discard_parts_of_losesFront (b : StringRingBuffer N) {a c : Nat}
    (hfront : b.LosesFront (a + c)) (hpast : N < b.begin_ + a) :
    ∃ b₁ b₂, b.discard a = .returned () b₁ ∧ b₁.discard c = .returned () b₂ ∧
      b₂.contents = b.read c (N - (a + c)) := by
  obtain ⟨hfull, hbegin, -, hless⟩ := hfront
  obtain ⟨b₁, hrun₁, hbegin₁, hsize₁, hdata₁⟩ :=
    b.discard_of_full hfull hbegin (show a ≤ N by omega)
  obtain ⟨b₂, hrun₂, hbegin₂, hsize₂, hdata₂⟩ := b₁.discard_returns (show c ≤ b₁.size_ by omega)
  rw [if_pos (by omega)] at hbegin₁
  rw [beginAfterDiscard, if_pos (by omega), if_neg (by omega)] at hbegin₂
  exact ⟨b₁, b₂, hrun₁, hrun₂,
    contents_of_data (hdata₂.trans hdata₁) (by omega) (by omega) (by omega)⟩

/-- A first part of no bytes changes nothing. -/
theorem discard_parts_of_zero (b : StringRingBuffer N) {c : Nat} (hfront : b.LosesFront c) :
    ∃ b₁ b₂, b.discard 0 = .returned () b₁ ∧ b₁.discard c = .returned () b₂ ∧
      b₂.contents = b.read 0 (N - c) := by
  obtain ⟨hfull, hbegin, hpast, hless⟩ := hfront
  obtain ⟨b₁, hrun₁, hbegin₁, hsize₁, hdata₁⟩ :=
    b.discard_of_full hfull hbegin (Nat.zero_le N)
  rw [if_neg (by omega)] at hbegin₁
  obtain ⟨b₂, hrun₂, hbegin₂, hsize₂, hdata₂⟩ :=
    b₁.discard_of_full (by omega) (by omega) (show c ≤ N by omega)
  rw [if_pos (by omega)] at hbegin₂
  exact ⟨b₁, b₂, hrun₁, hrun₂,
    contents_of_data (hdata₂.trans hdata₁) hbegin₂ (by omega) (by omega)⟩

/-- Where the front is lost, the law holds if and only if all the slices between the one
that is left and the one that should be left are the same: the parts of the discard that
lose the front too show every slice in between. -/
theorem discardsExactly_of_losesFront (b : StringRingBuffer N) {bytes : Nat}
    (hfront : b.LosesFront bytes) :
    b.DiscardsExactly bytes ↔
      ∀ c, c ≤ b.begin_ + bytes - N → b.read c (N - bytes) = b.read 0 (N - bytes) := by
  obtain ⟨b', hrun, hcontents'⟩ := b.discard_of_losesFront hfront
  have hdrop := b.contents_drop_of_losesFront hfront
  constructor
  · rintro ⟨b₀, hrun₀, hexact, hparts⟩ c hc
    rw [hrun] at hrun₀
    cases hrun₀
    rcases Nat.lt_or_ge c (b.begin_ + bytes - N) with hlt | hge
    · -- The first part passes the array end, the second one removes `c` bytes more.
      have hsum : bytes - c + c = bytes := by
        have := hfront.2.1
        omega
      obtain ⟨b₁, b₂, hrun₁, hrun₂, hsame⟩ := hparts (bytes - c) c hsum
      obtain ⟨b₃, b₄, hrun₃, hrun₄, hslice⟩ :=
        b.discard_parts_of_losesFront (a := bytes - c) (c := c) (by rwa [hsum]) (by omega)
      rw [hrun₁] at hrun₃
      cases hrun₃
      rw [hrun₂] at hrun₄
      cases hrun₄
      rw [← hcontents', ← hsame, hslice, hsum]
    · rw [show c = b.begin_ + bytes - N by omega, ← hdrop, ← hexact, hcontents']
  · intro hslices
    have hexact : b'.contents = b.contents.drop bytes := by
      rw [hcontents', hdrop, hslices _ (Nat.le_refl _)]
    refine ⟨b', hrun, hexact, ?_⟩
    intro a c hac
    by_cases hzero : a = 0
    · -- The second part is the whole discard.
      subst hzero
      rw [Nat.zero_add] at hac
      subst hac
      obtain ⟨b₁, b₂, hrun₁, hrun₂, hslice⟩ := b.discard_parts_of_zero hfront
      exact ⟨b₁, b₂, hrun₁, hrun₂, hslice.trans hcontents'.symm⟩
    · by_cases hpast : N < b.begin_ + a
      · -- The first part loses the front.
        subst hac
        obtain ⟨b₁, b₂, hrun₁, hrun₂, hslice⟩ := b.discard_parts_of_losesFront hfront hpast
        refine ⟨b₁, b₂, hrun₁, hrun₂, ?_⟩
        rw [hslice, hcontents', hslices c (by omega)]
      · -- Both parts remove exactly their front.
        obtain ⟨hfull, hbegin, -, hless⟩ := hfront
        obtain ⟨b₁, hrun₁, -, hsize₁, hcontents₁⟩ :=
          b.discard_spec (show a ≤ b.size_ by omega) (by unfold LosesFront; omega)
        obtain ⟨b₂, hrun₂, -, hsize₂, hcontents₂⟩ :=
          b₁.discard_spec (show c ≤ b₁.size_ by omega) (by unfold LosesFront; omega)
        refine ⟨b₁, b₂, hrun₁, hrun₂, ?_⟩
        rw [hcontents₂, hcontents₁, hexact, List.drop_drop, hac]

/-- A discard removes exactly the front, and can be made in two parts, exactly when it
does not lose the front or every cell before `begin_` holds the same byte. -/
theorem discardsExactly_iff (b : StringRingBuffer N) {bytes : Nat} (hbegin : b.begin_ < N)
    (h : bytes ≤ b.size_) :
    b.DiscardsExactly bytes ↔
      ¬ b.LosesFront bytes ∨ ∃ c, b.data_.toList.take b.begin_ = List.replicate b.begin_ c := by
  by_cases hfront : b.LosesFront bytes
  · -- The slices are windows over the cells before `begin_`.
    obtain ⟨hfull, -, hpast, hless⟩ := id hfront
    have hwin := windows_eq_iff (b.begin_ + bytes - N) (N - bytes)
      (b.data_.toList.take b.begin_) (by omega) (by omega) (by
        rw [List.length_take, Vector.length_toList]
        omega)
    have hslice : ∀ c, c ≤ b.begin_ + bytes - N →
        ((b.data_.toList.take b.begin_).drop c).take (N - bytes) = b.read c (N - bytes) := by
      intro c hc
      rw [read, List.drop_take, List.take_take]
      congr 1
      omega
    have hfirst : (b.data_.toList.take b.begin_).take (N - bytes) = b.read 0 (N - bytes) :=
      hslice 0 (Nat.zero_le _)
    rw [show b.begin_ + bytes - N + (N - bytes) = b.begin_ by omega, hfirst] at hwin
    rw [discardsExactly_of_losesFront b hfront]
    constructor
    · intro hslices
      exact Or.inr (hwin.mp fun c hc => (hslice c hc).trans (hslices c hc))
    · rintro (hno | hsame)
      · exact absurd hfront hno
      · exact fun c hc => (hslice c hc).symm.trans (hwin.mpr hsame c hc)
  · exact ⟨fun _ => Or.inl hfront, fun _ => discardsExactly_of_keepsFront b hbegin h hfront⟩

/-- A wrapped buffer that is not full: two bytes, one on each side of the array end. -/
theorem discardsExactly_iff_wrapped :
    (⟨3, 2, #v[98, 0, 0, 97], by decide, by decide⟩ : StringRingBuffer 4).DiscardsExactly 1 ↔
      ¬ (⟨3, 2, #v[98, 0, 0, 97], by decide, by decide⟩ : StringRingBuffer 4).LosesFront 1 ∨
        ∃ c, ([98, 0, 0] : Bytes) = List.replicate 3 c :=
  discardsExactly_iff ⟨3, 2, #v[98, 0, 0, 97], by decide, by decide⟩ (by decide) (by decide)

/-- Two bytes off a full three-byte buffer that holds `a`, `b` and `c` from cell `2` on:
`b` is left, not `c`. -/
theorem discard_leaves_second :
    let b : StringRingBuffer 3 := ⟨2, 3, #v[98, 99, 97], by decide, by decide⟩
    (b.discard 2).state.contents = [98] ∧ b.contents.drop 2 = [99] ∧ ¬ b.DiscardsExactly 2 := by
  intro b
  have hleft : (b.discard 2).state.contents = [98] := by decide +kernel
  have hdrop : b.contents.drop 2 = [99] := by decide +kernel
  refine ⟨hleft, hdrop, ?_⟩
  rintro ⟨b', hrun, hexact, -⟩
  rw [hrun, Outcome.state_returned, hexact, hdrop] at hleft
  exact absurd hleft (by decide)

end StringRingBuffer
end NqmIrimager
