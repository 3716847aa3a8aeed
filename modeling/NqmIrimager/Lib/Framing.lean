import Mathlib.Data.List.Basic

/-!
# `Framing`: cutting a stream at a separator, with and without a capacity

Two readings of a stream of `α`, cut at every occurrence of `sep`.

* `cutFrom` has no bound. It takes what is pending and the new input, and returns the
  complete lines and the new pending part. `isSplit_iff` says that the result is a
  decomposition of the input, and that there is no other.
* `feed` takes one element at a time and holds at most `cap` of them. An element that
  arrives while `cap` are pending makes the pending part a `dump`.

`feed` has no notion of a chunk, so `feedAll_append` makes it the reference for chunked
input. `feedAll_of_fits` connects the two: input that fits is cut as `cutFrom` cuts it.
`text_feedAll` is the conservation law, `Clean.feedAll` what a line and a dump can be.
-/

set_option autoImplicit false

namespace Framing

variable {α : Type} [DecidableEq α]

/-! ### Without a capacity -/

/-- The complete lines of `pending ++ xs` and the part after the last separator, when
`pending` has no separator. Lines come without their separator. -/
def cutFrom (sep : α) : List α → List α → List (List α) × List α
  | pending, [] => ([], pending)
  | pending, c :: cs =>
      if c = sep then (pending :: (cutFrom sep [] cs).1, (cutFrom sep [] cs).2)
      else cutFrom sep (pending ++ [c]) cs

/-- The complete lines of a stream. -/
def lines (sep : α) (xs : List α) : List (List α) := (cutFrom sep [] xs).1

/-- The part of a stream after its last separator. -/
def unfinished (sep : α) (xs : List α) : List α := (cutFrom sep [] xs).2

variable {sep : α}

/-- With no input, what was pending stays. -/
@[simp] theorem cutFrom_nil (pending : List α) : cutFrom sep pending [] = ([], pending) := rfl

/-- Cutting a stream in two parts: the second is cut with what the first left. -/
theorem cutFrom_append (pending xs ys : List α) :
    cutFrom sep pending (xs ++ ys)
      = ((cutFrom sep pending xs).1 ++ (cutFrom sep (cutFrom sep pending xs).2 ys).1,
         (cutFrom sep (cutFrom sep pending xs).2 ys).2) := by
  induction xs generalizing pending with
  | nil => rfl
  | cons c cs ih =>
      simp only [List.cons_append, cutFrom]
      split
      · simp only [ih, List.cons_append]
      · exact ih _

/-- Without a separator everything is pending. -/
theorem cutFrom_of_not_mem (pending : List α) {xs : List α} (h : sep ∉ xs) :
    cutFrom sep pending xs = ([], pending ++ xs) := by
  induction xs generalizing pending with
  | nil => simp
  | cons c cs ih =>
      simp only [List.mem_cons, not_or] at h
      obtain ⟨hc, hcs⟩ := h
      simp only [cutFrom, if_neg (Ne.symm hc), ih _ hcs, List.append_assoc,
        List.singleton_append]

/-- The first line comes off the front. -/
theorem cutFrom_line (pending : List α) {l : List α} (r : List α) (h : sep ∉ l) :
    cutFrom sep pending (l ++ sep :: r)
      = ((pending ++ l) :: (cutFrom sep [] r).1, (cutFrom sep [] r).2) := by
  rw [cutFrom_append, cutFrom_of_not_mem pending h]
  simp [cutFrom]

/-- Pending input without a separator can be read again with what follows it. -/
theorem cutFrom_pending {pending : List α} (xs : List α) (h : sep ∉ pending) :
    cutFrom sep [] (pending ++ xs) = cutFrom sep pending xs := by
  rw [cutFrom_append, cutFrom_of_not_mem [] h]
  simp

/-- Cutting loses nothing: the lines with their separators, and the rest, are the
input. -/
theorem cutFrom_join (pending xs : List α) :
    (cutFrom sep pending xs).1.flatMap (· ++ [sep]) ++ (cutFrom sep pending xs).2
      = pending ++ xs := by
  induction xs generalizing pending with
  | nil => simp
  | cons c cs ih =>
      simp only [cutFrom]
      split
      · -- The separator goes back between the line and what follows.
        rename_i hc
        subst hc
        have hrest := ih []
        simp only [List.nil_append] at hrest
        simp only [List.flatMap_cons, List.append_assoc, hrest, List.cons_append,
          List.nil_append]
      · rw [ih, List.append_assoc, List.singleton_append]

/-- No line, and no unfinished part, holds a separator. -/
theorem cutFrom_clean {pending : List α} (xs : List α) (h : sep ∉ pending) :
    (∀ l ∈ (cutFrom sep pending xs).1, sep ∉ l) ∧ sep ∉ (cutFrom sep pending xs).2 := by
  induction xs generalizing pending with
  | nil => exact ⟨by simp, h⟩
  | cons c cs ih =>
      simp only [cutFrom]
      split
      · -- A separator: the pending part is a line, and nothing is pending after it.
        have hrest := @ih [] (by simp)
        constructor
        · intro l hl
          rcases List.mem_cons.mp hl with rfl | hl
          · exact h
          · exact hrest.1 l hl
        · exact hrest.2
      · -- Any other element goes to the pending part.
        rename_i hc
        exact ih (by simp [h, Ne.symm hc])

/-- Each separator ends a line. -/
theorem length_cutFrom (pending xs : List α) :
    (cutFrom sep pending xs).1.length = xs.count sep := by
  induction xs generalizing pending with
  | nil => rfl
  | cons c cs ih =>
      simp only [cutFrom]
      by_cases hc : c = sep
      · rw [if_pos hc, List.length_cons, ih, hc, List.count_cons_self]
      · rw [if_neg hc, ih, List.count_cons_of_ne hc]

/-- A longer stream has the lines of its front first. The other ones end in its rest. -/
theorem lines_append (xs ys : List α) :
    ∃ more, lines sep (xs ++ ys) = lines sep xs ++ more ∧ more.length = ys.count sep :=
  ⟨(cutFrom sep (cutFrom sep [] xs).2 ys).1, congrArg Prod.fst (cutFrom_append [] xs ys),
    length_cutFrom _ ys⟩

/-- The lines of a longer stream: those of its front, then those that begin with what the front
left unfinished. -/
theorem lines_resume (xs ys : List α) :
    lines sep (xs ++ ys) = lines sep xs ++ lines sep (unfinished sep xs ++ ys) := by
  have hclean : sep ∉ unfinished sep xs := (cutFrom_clean xs (by simp)).2
  rw [lines, cutFrom_append, lines, lines, cutFrom_pending ys hclean]
  rfl

/-- Only the unfinished part of a stream matters for what is unfinished later. -/
theorem unfinished_resume (xs ys : List α) :
    unfinished sep (xs ++ ys) = unfinished sep (unfinished sep xs ++ ys) := by
  have hclean : sep ∉ unfinished sep xs := (cutFrom_clean xs (by simp)).2
  rw [unfinished, cutFrom_append, unfinished, cutFrom_pending ys hclean]
  rfl

/-- `ls` are the lines of `xs` and `t` is what follows the last separator. -/
structure IsSplit (sep : α) (xs : List α) (ls : List (List α)) (t : List α) : Prop where
  join : ls.flatMap (· ++ [sep]) ++ t = xs
  lines_clean : ∀ l ∈ ls, sep ∉ l
  rest_clean : sep ∉ t

/-- A stream has one decomposition into lines, the one `cutFrom` computes. -/
theorem isSplit_iff {xs : List α} {ls : List (List α)} {t : List α} :
    IsSplit sep xs ls t ↔ ls = lines sep xs ∧ t = unfinished sep xs := by
  constructor
  · rintro ⟨rfl, hls, ht⟩
    -- Cutting takes the lines off the front one by one, as they were put together.
    have hcut : cutFrom sep [] (ls.flatMap (· ++ [sep]) ++ t) = (ls, t) := by
      induction ls with
      | nil => simpa using cutFrom_of_not_mem [] ht
      | cons l ls ih =>
          have hl : sep ∉ l := hls l List.mem_cons_self
          have hrest := ih fun l' hl' => hls l' (List.mem_cons_of_mem l hl')
          simp only [List.flatMap_cons, List.append_assoc, List.cons_append, List.nil_append]
          rw [cutFrom_line [] _ hl, hrest, List.nil_append]
    exact ⟨by rw [lines, hcut], by rw [unfinished, hcut]⟩
  · rintro ⟨rfl, rfl⟩
    have hclean := @cutFrom_clean α _ sep [] xs (by simp)
    exact ⟨cutFrom_join [] xs, hclean.1, hclean.2⟩

/-- Every line of the stream, its separator included, and its unfinished part are at most
`bound` long. -/
def LinesAtMost (sep : α) (bound : Nat) (pending xs : List α) : Prop :=
  (∀ l ∈ (cutFrom sep pending xs).1, l.length + 1 ≤ bound) ∧
    (cutFrom sep pending xs).2.length ≤ bound

/-- The bound on a stream is a bound on its rest, from what is pending there. -/
theorem LinesAtMost.append {bound : Nat} {pending xs ys : List α}
    (h : LinesAtMost sep bound pending (xs ++ ys)) :
    LinesAtMost sep bound (cutFrom sep pending xs).2 ys := by
  rw [LinesAtMost, cutFrom_append] at h
  exact ⟨fun l hl => h.1 l (List.mem_append_right _ hl), h.2⟩

/-- What is pending is never longer than the bound. -/
theorem LinesAtMost.pending_le {bound : Nat} {pending xs : List α}
    (h : LinesAtMost sep bound pending xs) : pending.length ≤ bound := by
  induction xs generalizing pending with
  | nil => exact h.2
  | cons c cs ih =>
      simp only [LinesAtMost, cutFrom] at h
      split at h
      · -- `c` ends the line: what is pending is a line, and shorter by the separator.
        have hline := h.1 pending List.mem_cons_self
        omega
      · -- `c` makes what is pending longer, and that is still within the bound.
        have hle := ih h
        rw [List.length_append, List.length_singleton] at hle
        omega

/-- The bound on a stream is a bound on what came so far. -/
theorem LinesAtMost.of_append {bound : Nat} {pending xs ys : List α}
    (h : LinesAtMost sep bound pending (xs ++ ys)) : LinesAtMost sep bound pending xs := by
  constructor
  · intro l hl
    rw [LinesAtMost, cutFrom_append] at h
    exact h.1 l (List.mem_append_left _ hl)
  · exact h.append.pending_le

/-- While input is still to come, what is pending is shorter than the bound: the next
element ends the line or makes it longer. -/
theorem LinesAtMost.pending_lt {bound : Nat} {pending xs : List α}
    (h : LinesAtMost sep bound pending xs) (hxs : xs ≠ []) : pending.length < bound := by
  cases xs with
  | nil => exact absurd rfl hxs
  | cons c cs =>
      simp only [LinesAtMost, cutFrom] at h
      split at h
      · exact h.1 pending List.mem_cons_self
      · have hle := LinesAtMost.pending_le h
        rwa [List.length_append, List.length_singleton] at hle

/-! ### With a capacity -/

/-- What leaves the pending part: a complete line, or `cap` elements without a
separator. -/
inductive Piece (α : Type) where
  | line (l : List α)
  | dump (l : List α)
deriving DecidableEq, Repr

/-- The pieces so far and what is pending. -/
structure Frames (α : Type) where
  pieces : List (Piece α)
  pending : List α
deriving DecidableEq, Repr

/-- The part of the stream a piece stands for. -/
def Piece.text (sep : α) : Piece α → List α
  | .line l => l ++ [sep]
  | .dump l => l

/-- Take one element. -/
def feed (sep : α) (cap : Nat) (f : Frames α) (c : α) : Frames α :=
  let f := if f.pending.length = cap then ⟨f.pieces ++ [.dump f.pending], []⟩ else f
  if c = sep then ⟨f.pieces ++ [.line f.pending], []⟩ else ⟨f.pieces, f.pending ++ [c]⟩

/-- Take a list of elements. -/
def feedAll (sep : α) (cap : Nat) (f : Frames α) (xs : List α) : Frames α :=
  xs.foldl (feed sep cap) f

/-- The stream a state stands for. -/
def Frames.text (sep : α) (f : Frames α) : List α :=
  f.pieces.flatMap (Piece.text sep) ++ f.pending

variable {cap : Nat}

/-- No input changes nothing. -/
@[simp] theorem feedAll_nil (f : Frames α) : feedAll sep cap f [] = f := rfl

/-- One element after another. -/
theorem feedAll_cons (f : Frames α) (c : α) (cs : List α) :
    feedAll sep cap f (c :: cs) = feedAll sep cap (feed sep cap f c) cs := rfl

/-- Chunks do not matter: two inputs in a row are their concatenation. -/
theorem feedAll_append (f : Frames α) (xs ys : List α) :
    feedAll sep cap f (xs ++ ys) = feedAll sep cap (feedAll sep cap f xs) ys :=
  List.foldl_append

/-- A list of chunks is its concatenation. -/
theorem foldl_feedAll (f : Frames α) (chunks : List (List α)) :
    chunks.foldl (feedAll sep cap) f = feedAll sep cap f chunks.flatten := by
  induction chunks generalizing f with
  | nil => rfl
  | cons xs chunks ih => rw [List.foldl_cons, ih, List.flatten_cons, feedAll_append]

/-- Input that fits is cut at its separators and nothing is dumped. -/
theorem feedAll_of_fits (f : Frames α) (xs : List α) (h : f.pending.length + xs.length ≤ cap) :
    feedAll sep cap f xs
      = ⟨f.pieces ++ (cutFrom sep f.pending xs).1.map .line, (cutFrom sep f.pending xs).2⟩ := by
  induction xs generalizing f with
  | nil => simp
  | cons c cs ih =>
      simp only [List.length_cons] at h
      -- There is room for `c`, so `feed` dumps nothing here.
      have hroom : f.pending.length ≠ cap := by omega
      rw [feedAll_cons]
      simp only [feed, if_neg hroom, cutFrom]
      split
      · rw [ih _ (by simp only [List.length_nil]; omega)]
        simp
      · rw [ih _ (by simp only [List.length_append, List.length_singleton]; omega)]

/-- A stream of short enough lines is cut at its separators and nothing is dumped,
however long it is. -/
theorem feedAll_of_linesAtMost {bound : Nat} (hcap : bound ≤ cap) (f : Frames α) {xs : List α}
    (h : LinesAtMost sep bound f.pending xs) :
    feedAll sep cap f xs
      = ⟨f.pieces ++ (cutFrom sep f.pending xs).1.map .line, (cutFrom sep f.pending xs).2⟩ := by
  induction xs generalizing f with
  | nil => simp
  | cons c cs ih =>
      -- The bound leaves room for `c`, and it holds of the rest again.
      have hlt := h.pending_lt (List.cons_ne_nil c cs)
      have hrest : LinesAtMost sep bound (cutFrom sep f.pending [c]).2 cs :=
        LinesAtMost.append h
      have hroom : f.pending.length ≠ cap := by omega
      rw [feedAll_cons]
      simp only [feed, if_neg hroom]
      simp only [cutFrom] at hrest ⊢
      split
      · rename_i hc
        rw [if_pos hc] at hrest
        rw [ih _ hrest]
        simp
      · rename_i hc
        rw [if_neg hc] at hrest
        rw [ih _ hrest]

/-- A full pending part is dumped by the next element, whatever it is. -/
theorem feedAll_of_full (hcap : 0 < cap) (f : Frames α) {xs : List α} (hxs : xs ≠ [])
    (h : f.pending.length = cap) :
    feedAll sep cap f xs = feedAll sep cap ⟨f.pieces ++ [.dump f.pending], []⟩ xs := by
  cases xs with
  | nil => exact absurd rfl hxs
  | cons c cs =>
      have hempty : ([] : List α).length ≠ cap := by
        simp only [List.length_nil]
        omega
      simp only [feedAll_cons, feed, if_pos h, if_neg hempty]

/-- An element goes to the end of the text, whether or not a piece ends there. -/
theorem text_feed (f : Frames α) (c : α) : (feed sep cap f c).text sep = f.text sep ++ [c] := by
  by_cases hfull : f.pending.length = cap <;> by_cases hc : c = sep <;>
    simp [feed, Frames.text, Piece.text, hfull, hc]

/-- Conservation: the pieces and the pending part are the input, in order. -/
theorem text_feedAll (f : Frames α) (xs : List α) :
    (feedAll sep cap f xs).text sep = f.text sep ++ xs := by
  induction xs generalizing f with
  | nil => simp
  | cons c cs ih => rw [feedAll_cons, ih, text_feed, List.append_assoc, List.singleton_append]

/-- What a piece can be: a line has no separator, a dump has `cap` elements and no
separator. -/
def Piece.Clean (sep : α) (cap : Nat) : Piece α → Prop
  | .line l => sep ∉ l
  | .dump l => l.length = cap ∧ sep ∉ l

/-- The invariant of `feed`. -/
structure Frames.Clean (sep : α) (cap : Nat) (f : Frames α) : Prop where
  pieces : ∀ p ∈ f.pieces, p.Clean sep cap
  pending : sep ∉ f.pending

omit [DecidableEq α] in
/-- No pieces, and nothing pending. -/
theorem clean_empty : (⟨[], []⟩ : Frames α).Clean sep cap where
  pieces := by simp
  pending := by simp

omit [DecidableEq α] in
/-- Ending a clean piece leaves nothing pending. -/
theorem Frames.Clean.push {f : Frames α} (h : f.Clean sep cap) {p : Piece α}
    (hp : p.Clean sep cap) : (⟨f.pieces ++ [p], []⟩ : Frames α).Clean sep cap where
  pieces := by
    intro q hq
    rcases List.mem_append.mp hq with hq | hq
    · exact h.pieces q hq
    · rwa [List.mem_singleton.mp hq]
  pending := by simp

/-- One element keeps the invariant. A dump is made of a full pending part only. -/
theorem Frames.Clean.feed {f : Frames α} (h : f.Clean sep cap) (c : α) :
    (Framing.feed sep cap f c).Clean sep cap := by
  -- First the dump of a full pending part, then the element itself.
  have hdump : (if f.pending.length = cap then ⟨f.pieces ++ [.dump f.pending], []⟩ else f :
      Frames α).Clean sep cap := by
    split
    · rename_i hfull
      exact h.push ⟨hfull, h.pending⟩
    · exact h
  simp only [Framing.feed]
  split
  · exact hdump.push hdump.pending
  · rename_i hc
    exact ⟨hdump.pieces, by simp [hdump.pending, Ne.symm hc]⟩

/-- A stream keeps the invariant. -/
theorem Frames.Clean.feedAll {f : Frames α} (h : f.Clean sep cap) (xs : List α) :
    (Framing.feedAll sep cap f xs).Clean sep cap := by
  induction xs generalizing f with
  | nil => exact h
  | cons c cs ih => exact ih (h.feed c)

end Framing
