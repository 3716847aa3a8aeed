import Mathlib.Data.List.Basic

/-!
# `Pattern`: regular expressions over character classes, by backtracking

The regular expressions whose repetitions are repetitions of one class: `one p` for a
class, `many p` for its greedy repetition, `seq` and capture `group`s. `walk` lists every
way to match a prefix of the input, in the order a backtracking matcher of the ECMAScript
kind tries them: a repetition first takes as much as it can, a sequence tries all ways of
its second part before the next way of its first. `fullMatch` is the first of them that
uses the whole input.

`Matches` says what a match is, without an order. `mem_walk_iff` is soundness and
completeness of the search, and `fullMatch_eq_some_iff` makes `fullMatch` the one match of
the input, for a pattern that matches it in one way at most.
-/

set_option autoImplicit false

/-- A regular expression over the classes `p : α → Bool`. -/
inductive Pattern (α : Type) where
  | empty
  | one (p : α → Bool)
  | many (p : α → Bool)
  | seq (a b : Pattern α)
  | group (a : Pattern α)

namespace Pattern

variable {α : Type}

/-- `p+`. -/
def some (p : α → Bool) : Pattern α := seq (one p) (many p)

/-- The characters of a literal. -/
def literal [DecidableEq α] : List α → Pattern α
  | [] => empty
  | c :: cs => seq (one fun d => d = c) (literal cs)

/-- The parts in order. -/
def concat : List (Pattern α) → Pattern α
  | [] => empty
  | a :: as => seq a (concat as)

/-- One way to match: the text taken, the capture groups in the order they open, and the
input left. -/
structure Walk (α : Type) where
  text : List α
  groups : List (List α)
  rest : List α
deriving DecidableEq, Repr

/-- The prefixes of the input that `p*` can take, longest first. -/
def manyWalks (p : α → Bool) : List α → List (Walk α)
  | [] => [⟨[], [], []⟩]
  | c :: cs =>
      if p c then ((manyWalks p cs).map fun w => ⟨c :: w.text, w.groups, w.rest⟩)
        ++ [⟨[], [], c :: cs⟩]
      else [⟨[], [], c :: cs⟩]

/-- The ways to match a prefix of the input, in the order they are tried. -/
def walk : Pattern α → List α → List (Walk α)
  | empty, xs => [⟨[], [], xs⟩]
  | one _, [] => []
  | one p, c :: cs => if p c then [⟨[c], [], cs⟩] else []
  | many p, xs => manyWalks p xs
  | seq a b, xs =>
      (walk a xs).flatMap fun w =>
        (walk b w.rest).map fun w' => ⟨w.text ++ w'.text, w.groups ++ w'.groups, w'.rest⟩
  | group a, xs => (walk a xs).map fun w => ⟨w.text, w.text :: w.groups, w.rest⟩

/-- The capture groups of the first match of the whole input, if there is one. -/
def fullMatch (a : Pattern α) (xs : List α) : Option (List (List α)) :=
  ((walk a xs).find? fun w => w.rest.isEmpty).map Walk.groups

/-! ### What a match is -/

/-- The pattern matches exactly `text`, with these capture groups. -/
def Matches : Pattern α → List α → List (List α) → Prop
  | empty, text, groups => text = [] ∧ groups = []
  | one p, text, groups => ∃ c, text = [c] ∧ p c = true ∧ groups = []
  | many p, text, groups => (∀ c ∈ text, p c = true) ∧ groups = []
  | seq a b, text, groups =>
      ∃ text₁ text₂ groups₁ groups₂, text = text₁ ++ text₂ ∧ groups = groups₁ ++ groups₂ ∧
        Matches a text₁ groups₁ ∧ Matches b text₂ groups₂
  | group a, text, groups => ∃ groups', groups = text :: groups' ∧ Matches a text groups'

/-- One or more of a class match the texts of that class that are not empty. -/
theorem matches_some_iff {p : α → Bool} {text : List α} {groups : List (List α)} :
    Matches (some p) text groups ↔ text ≠ [] ∧ (∀ c ∈ text, p c = true) ∧ groups = [] := by
  constructor
  · rintro ⟨_, cs, _, _, rfl, rfl, ⟨c, rfl, hc, rfl⟩, hcs, rfl⟩
    refine ⟨by simp, ?_, rfl⟩
    intro d hd
    rcases List.mem_cons.mp hd with rfl | hd
    · exact hc
    · exact hcs d hd
  · rintro ⟨hne, hall, rfl⟩
    cases text with
    | nil => exact absurd rfl hne
    | cons c cs =>
        exact ⟨[c], cs, [], [], rfl, rfl, ⟨c, rfl, hall c List.mem_cons_self, rfl⟩,
          fun d hd => hall d (List.mem_cons_of_mem c hd), rfl⟩

/-- A literal matches itself. -/
theorem matches_literal_iff [DecidableEq α] {l text : List α} {groups : List (List α)} :
    Matches (literal l) text groups ↔ text = l ∧ groups = [] := by
  induction l generalizing text groups with
  | nil => exact Iff.rfl
  | cons c cs ih =>
      constructor
      · rintro ⟨_, text₂, _, _, rfl, rfl, ⟨d, rfl, hd, rfl⟩, hrest⟩
        obtain ⟨rfl, rfl⟩ := ih.mp hrest
        have hcd : d = c := of_decide_eq_true hd
        exact ⟨by rw [hcd, List.singleton_append], rfl⟩
      · rintro ⟨rfl, rfl⟩
        exact ⟨[c], cs, [], [], rfl, rfl, ⟨c, rfl, decide_eq_true rfl, rfl⟩, ih.mpr ⟨rfl, rfl⟩⟩

/-- A literal in front takes its own characters and captures nothing. -/
theorem matches_literal_seq_iff [DecidableEq α] {l text : List α} {b : Pattern α}
    {groups : List (List α)} :
    Matches (seq (literal l) b) text groups ↔ ∃ rest, text = l ++ rest ∧ Matches b rest groups := by
  constructor
  · rintro ⟨text₁, rest, groups₁, groups₂, rfl, rfl, hl, hrest⟩
    obtain ⟨rfl, rfl⟩ := matches_literal_iff.mp hl
    exact ⟨rest, rfl, hrest⟩
  · rintro ⟨rest, rfl, hrest⟩
    exact ⟨l, rest, [], groups, rfl, rfl, matches_literal_iff.mpr ⟨rfl, rfl⟩, hrest⟩

/-- A literal at the end takes its own characters and captures nothing. -/
theorem matches_seq_literal_iff [DecidableEq α] {l text : List α} {a : Pattern α}
    {groups : List (List α)} :
    Matches (seq a (literal l)) text groups ↔ ∃ front, text = front ++ l ∧ Matches a front groups := by
  constructor
  · rintro ⟨front, text₂, groups₁, groups₂, rfl, rfl, hfront, hl⟩
    obtain ⟨rfl, rfl⟩ := matches_literal_iff.mp hl
    exact ⟨front, rfl, by rwa [List.append_nil]⟩
  · rintro ⟨front, rfl, hfront⟩
    exact ⟨front, l, groups, [], rfl, (List.append_nil _).symm, hfront,
      matches_literal_iff.mpr ⟨rfl, rfl⟩⟩

/-- A group in front captures what it takes. -/
theorem matches_group_seq_iff {a b : Pattern α} {text : List α} {groups : List (List α)} :
    Matches (seq (group a) b) text groups ↔ ∃ taken rest inner outer, text = taken ++ rest ∧
      groups = taken :: (inner ++ outer) ∧ Matches a taken inner ∧ Matches b rest outer := by
  constructor
  · rintro ⟨taken, rest, _, outer, rfl, rfl, ⟨inner, rfl, ha⟩, hb⟩
    exact ⟨taken, rest, inner, outer, rfl, rfl, ha, hb⟩
  · rintro ⟨taken, rest, inner, outer, rfl, rfl, ha, hb⟩
    exact ⟨taken, rest, taken :: inner, outer, rfl, rfl, ⟨inner, rfl, ha⟩, hb⟩

/-- Text of a class up to a character outside of it can be split off in one way. -/
theorem split_unique {p : α → Bool} {c : α} (hc : p c = false) {xs xs' ys ys' : List α}
    (hxs : ∀ d ∈ xs, p d = true) (hxs' : ∀ d ∈ xs', p d = true)
    (h : xs ++ c :: ys = xs' ++ c :: ys') : xs = xs' ∧ ys = ys' := by
  -- The character itself does not belong to the class.
  have hne : ∀ {d zs}, (∀ e ∈ d :: zs, p e = true) → d ≠ c := by
    rintro d zs hall rfl
    rw [hall d List.mem_cons_self] at hc
    cases hc
  induction xs generalizing xs' with
  | nil =>
      cases xs' with
      | nil => exact ⟨rfl, (List.cons.inj h).2⟩
      | cons d ds => exact absurd (List.cons.inj h).1.symm (hne hxs')
  | cons e es ih =>
      cases xs' with
      | nil => exact absurd (List.cons.inj h).1 (hne hxs)
      | cons d ds =>
          obtain ⟨rfl, htail⟩ := List.cons.inj h
          obtain ⟨rfl, rfl⟩ := ih (fun f hf => hxs f (List.mem_cons_of_mem _ hf))
            (fun f hf => hxs' f (List.mem_cons_of_mem _ hf)) htail
          exact ⟨rfl, rfl⟩

/-! ### The search finds the matches -/

/-- The walks of many of a class end behind each front of the input that is in the class. -/
theorem mem_manyWalks_iff {p : α → Bool} {xs : List α} {w : Walk α} :
    w ∈ manyWalks p xs ↔ xs = w.text ++ w.rest ∧ (∀ c ∈ w.text, p c = true) ∧ w.groups = [] := by
  obtain ⟨text, groups, rest⟩ := w
  induction xs generalizing text with
  | nil =>
      rw [manyWalks, List.mem_singleton, Walk.mk.injEq]
      constructor
      · rintro ⟨rfl, rfl, rfl⟩
        simp
      · rintro ⟨hxs, -, rfl⟩
        obtain ⟨rfl, rfl⟩ := List.append_eq_nil_iff.mp hxs.symm
        exact ⟨rfl, rfl, rfl⟩
  | cons c cs ih =>
      rw [manyWalks]
      split
      · rename_i hc
        rw [List.mem_append, List.mem_singleton, Walk.mk.injEq, List.mem_map]
        constructor
        · rintro (⟨w, hw, hcons⟩ | ⟨rfl, rfl, rfl⟩)
          · cases hcons
            obtain ⟨hcs, hall, hgroups⟩ := (ih w.text).mp hw
            refine ⟨by rw [hcs, List.cons_append], ?_, hgroups⟩
            intro d hd
            rcases List.mem_cons.mp hd with rfl | hd
            · exact hc
            · exact hall d hd
          · simp
        · rintro ⟨hxs, hall, rfl⟩
          cases text with
          | nil => exact Or.inr ⟨rfl, rfl, hxs.symm⟩
          | cons d ds =>
              obtain ⟨rfl, rfl⟩ := List.cons.inj hxs
              refine Or.inl ⟨⟨ds, [], rest⟩, ?_, rfl⟩
              exact (ih ds).mpr ⟨rfl, fun e he => hall e (List.mem_cons_of_mem _ he), rfl⟩
      · rename_i hc
        rw [List.mem_singleton, Walk.mk.injEq]
        constructor
        · rintro ⟨rfl, rfl, rfl⟩
          simp
        · rintro ⟨hxs, hall, rfl⟩
          cases text with
          | nil => exact ⟨rfl, rfl, hxs.symm⟩
          | cons d ds =>
              obtain ⟨rfl, -⟩ := List.cons.inj hxs
              exact absurd (hall _ List.mem_cons_self) hc

/-- The search lists the matches of the prefixes of the input, and nothing else. -/
theorem mem_walk_iff {a : Pattern α} {xs : List α} {w : Walk α} :
    w ∈ walk a xs ↔ xs = w.text ++ w.rest ∧ Matches a w.text w.groups := by
  induction a generalizing xs w with
  | empty =>
      obtain ⟨text, groups, rest⟩ := w
      simp only [walk, Matches, List.mem_singleton, Walk.mk.injEq]
      constructor
      · rintro ⟨rfl, rfl, rfl⟩
        exact ⟨rfl, rfl, rfl⟩
      · rintro ⟨rfl, rfl, rfl⟩
        exact ⟨rfl, rfl, rfl⟩
  | one p =>
      obtain ⟨text, groups, rest⟩ := w
      cases xs with
      | nil =>
          simp only [walk, Matches, List.not_mem_nil, false_iff]
          rintro ⟨hxs, c, rfl, -⟩
          cases hxs
      | cons c cs =>
          simp only [walk, Matches]
          split
          · rename_i hc
            rw [List.mem_singleton, Walk.mk.injEq]
            constructor
            · rintro ⟨rfl, rfl, rfl⟩
              exact ⟨rfl, c, rfl, hc, rfl⟩
            · rintro ⟨hxs, d, rfl, -, rfl⟩
              obtain ⟨rfl, rfl⟩ := List.cons.inj hxs
              exact ⟨rfl, rfl, rfl⟩
          · rename_i hc
            simp only [List.not_mem_nil, false_iff]
            rintro ⟨hxs, d, rfl, hd, -⟩
            obtain ⟨rfl, -⟩ := List.cons.inj hxs
            exact hc hd
  | many p => exact mem_manyWalks_iff
  | seq a b iha ihb =>
      simp only [walk, Matches, List.mem_flatMap, List.mem_map, iha, ihb]
      constructor
      · rintro ⟨w₁, ⟨rfl, h₁⟩, w₂, ⟨hrest, h₂⟩, rfl⟩
        exact ⟨by rw [hrest, List.append_assoc],
          w₁.text, w₂.text, w₁.groups, w₂.groups, rfl, rfl, h₁, h₂⟩
      · rintro ⟨rfl, text₁, text₂, groups₁, groups₂, htext, hgroups, h₁, h₂⟩
        refine ⟨⟨text₁, groups₁, text₂ ++ w.rest⟩, ⟨by rw [htext, List.append_assoc], h₁⟩,
          ⟨text₂, groups₂, w.rest⟩, ⟨rfl, h₂⟩, ?_⟩
        rw [← htext, ← hgroups]
  | group a ih =>
      simp only [walk, Matches, List.mem_map, ih]
      constructor
      · rintro ⟨w₁, ⟨rfl, h⟩, rfl⟩
        exact ⟨rfl, w₁.groups, rfl, h⟩
      · rintro ⟨rfl, groups', hgroups, h⟩
        refine ⟨⟨w.text, groups', w.rest⟩, ⟨rfl, h⟩, ?_⟩
        rw [← hgroups]

/-- A match that is found is one. -/
theorem matches_of_fullMatch {a : Pattern α} {xs : List α} {groups : List (List α)}
    (h : fullMatch a xs = .some groups) : Matches a xs groups := by
  obtain ⟨w, hfind, rfl⟩ := Option.map_eq_some_iff.mp h
  obtain ⟨hxs, hw⟩ := mem_walk_iff.mp (List.mem_of_find?_eq_some hfind)
  have hempty := List.find?_some hfind
  have hrest : w.rest = [] := List.isEmpty_iff.mp hempty
  rw [hrest, List.append_nil] at hxs
  rwa [hxs]

/-- A match is found, if there is one. -/
theorem fullMatch_ne_none {a : Pattern α} {xs : List α} {groups : List (List α)}
    (h : Matches a xs groups) : fullMatch a xs ≠ none := by
  intro hnone
  rw [fullMatch, Option.map_eq_none_iff, List.find?_eq_none] at hnone
  exact hnone ⟨xs, groups, []⟩ (mem_walk_iff.mpr ⟨(List.append_nil xs).symm, h⟩) rfl

/-- Where the groups of a match are determined by the input, the order of the search does
not matter. -/
theorem fullMatch_eq_some_iff {a : Pattern α} {xs : List α}
    (huniq : ∀ g g', Matches a xs g → Matches a xs g' → g = g') {groups : List (List α)} :
    fullMatch a xs = .some groups ↔ Matches a xs groups := by
  constructor
  · exact matches_of_fullMatch
  · intro h
    obtain ⟨groups', hfound⟩ := Option.ne_none_iff_exists'.mp (fullMatch_ne_none h)
    rw [hfound, huniq groups' groups (matches_of_fullMatch hfound) h]

end Pattern
