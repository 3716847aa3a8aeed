import Mathlib.Data.List.Nodup

/-!
# `SlotLedger`: the account of a slot for one value

Values of type `α` are put into a slot that holds at most one of them, and taken out by
takers of type `ι`. A value that is put while another one is in the slot replaces it. The
ledger numbers the values in the order they are put, and writes down which value each
`take` took and which value each `put` replaced.

`fates n` counts what happened to value `n`. `Balanced` says that each value that was put
has exactly one fate and every other number has none; `put` and `take` keep it. That a
value is taken by one taker only, and not taken when it was replaced, follows
(`Balanced.taker_unique`).

`Ordered` says that values are taken in the order they were put. So the values taken are some
of the values put, in their order (`Ordered.sublist`).
-/

set_option autoImplicit false

namespace SlotLedger

variable {α ι : Type}

/-- The account: all values, the number of the one in the slot, the numbers taken with
their takers, and the numbers replaced with the numbers that replaced them. -/
structure Ledger (α ι : Type) where
  stored : List α
  held : Option Nat
  taken : List (Nat × ι)
  replaced : List (Nat × Nat)
deriving DecidableEq, Repr

namespace Ledger

/-- Nothing was put yet. -/
def empty : Ledger α ι where
  stored := []
  held := none
  taken := []
  replaced := []

/-- Put a value. -/
def put (l : Ledger α ι) (a : α) : Ledger α ι where
  stored := l.stored ++ [a]
  held := some l.stored.length
  taken := l.taken
  replaced :=
    match l.held with
    | none => l.replaced
    | some n => l.replaced ++ [(n, l.stored.length)]

/-- Take the value in the slot. -/
def take (l : Ledger α ι) (who : ι) : Ledger α ι :=
  match l.held with
  | none => l
  | some n => { l with held := none, taken := l.taken ++ [(n, who)] }

/-- The value in the slot. -/
def value (l : Ledger α ι) : Option α := l.held.bind fun n => l.stored[n]?

/-- How often value `n` was taken. -/
def timesTaken (l : Ledger α ι) (n : Nat) : Nat := (l.taken.map Prod.fst).count n

/-- How often value `n` was replaced. -/
def timesReplaced (l : Ledger α ι) (n : Nat) : Nat := (l.replaced.map Prod.fst).count n

/-- What happened to value `n`: taken, replaced, or still held. -/
def fates (l : Ledger α ι) (n : Nat) : Nat :=
  l.timesTaken n + l.timesReplaced n + if l.held = some n then 1 else 0

/-- Each value has one fate, and a value is replaced by a later one. -/
structure Balanced (l : Ledger α ι) : Prop where
  one : ∀ n, l.fates n = if n < l.stored.length then 1 else 0
  later : ∀ n m, (n, m) ∈ l.replaced → n < m ∧ m < l.stored.length

/-- Before the first value there is no fate. -/
theorem balanced_empty : (empty : Ledger α ι).Balanced where
  one := by
    intro n
    rfl
  later := by
    intro n m h
    cases h

/-- The value in the slot is one that was put. -/
theorem Balanced.held_lt {l : Ledger α ι} (h : l.Balanced) {n : Nat} (hn : l.held = some n) :
    n < l.stored.length := by
  have hone := h.one n
  rw [fates, if_pos hn] at hone
  by_contra hge
  rw [if_neg hge] at hone
  omega

/-- A put value is held, and the one that was held before is replaced by it. -/
theorem Balanced.put {l : Ledger α ι} (h : l.Balanced) (a : α) : (l.put a).Balanced where
  one := by
    intro n
    have hone := h.one n
    have hlen : (l.put a).stored.length = l.stored.length + 1 := by simp [Ledger.put]
    have hheld : (l.put a).held = some l.stored.length := rfl
    rw [hlen]
    simp only [fates, hheld, Option.some.injEq] at hone ⊢
    cases hslot : l.held with
    | none =>
        have hreplaced : (l.put a).timesReplaced n = l.timesReplaced n := by
          simp only [timesReplaced, Ledger.put, hslot]
        have htaken : (l.put a).timesTaken n = l.timesTaken n := rfl
        rw [hreplaced, htaken]
        simp only [hslot, reduceCtorEq, if_false] at hone
        split at hone <;> split <;> split <;> omega
    | some m =>
        -- The value that was held moves from the third count to the second.
        have hm := h.held_lt hslot
        have hreplaced : (l.put a).timesReplaced n = l.timesReplaced n + if m = n then 1 else 0 := by
          simp only [timesReplaced, Ledger.put, hslot, List.map_append, List.map_cons, List.map_nil,
            List.count_append, List.count_singleton, beq_iff_eq]
        have htaken : (l.put a).timesTaken n = l.timesTaken n := rfl
        rw [hreplaced, htaken]
        simp only [hslot, Option.some.injEq] at hone
        split at hone <;> split at hone <;> split <;> split <;> split <;> omega
  later := by
    intro n m hnm
    have hlen : (l.put a).stored.length = l.stored.length + 1 := by simp [Ledger.put]
    rw [hlen]
    cases hslot : l.held with
    | none =>
        simp only [Ledger.put, hslot] at hnm
        have := h.later n m hnm
        omega
    | some k =>
        simp only [Ledger.put, hslot, List.mem_append, List.mem_singleton, Prod.mk.injEq] at hnm
        rcases hnm with hold | ⟨rfl, rfl⟩
        · have := h.later n m hold
          omega
        · have := h.held_lt hslot
          omega

/-- A taken value is not held any more. -/
theorem Balanced.take {l : Ledger α ι} (h : l.Balanced) (who : ι) : (l.take who).Balanced := by
  cases hslot : l.held with
  | none =>
      simp only [Ledger.take, hslot]
      exact h
  | some m =>
      simp only [Ledger.take, hslot]
      refine ⟨?_, h.later⟩
      -- `replaced` stays as it is, so only the counts are to be looked at.
      intro n
      -- The value that was held moves from the third count to the first.
      have hone := h.one n
      simp only [fates, timesTaken, timesReplaced, hslot, Option.some.injEq, List.map_append,
        List.map_cons, List.map_nil, List.count_append, List.count_singleton, beq_iff_eq,
        reduceCtorEq, if_false] at hone ⊢
      rw [← hone]
      omega

/-- A value is taken by one taker. -/
theorem Balanced.taker_unique {l : Ledger α ι} (h : l.Balanced) {n : Nat} {i j : ι}
    (hi : (n, i) ∈ l.taken) (hj : (n, j) ∈ l.taken) : i = j := by
  -- No number is taken twice, since no number has two fates.
  have hnodup : (l.taken.map Prod.fst).Nodup := by
    rw [List.nodup_iff_count_le_one]
    intro m
    have hone := h.one m
    have hle : l.timesTaken m ≤ l.fates m := by
      rw [fates, Nat.add_assoc]
      exact Nat.le_add_right _ _
    have hfates : l.fates m ≤ 1 := by
      rw [hone]
      split <;> omega
    exact Nat.le_trans hle hfates
  have heq := List.inj_on_of_nodup_map hnodup hi hj rfl
  exact congrArg Prod.snd heq

/-- Values keep their numbers. -/
theorem getElem?_put {l : Ledger α ι} {n : Nat} {b : α} (a : α) (h : l.stored[n]? = some b) :
    (l.put a).stored[n]? = some b := by
  have hlt : n < l.stored.length := (List.getElem?_eq_some_iff.mp h).1
  show (l.stored ++ [a])[n]? = some b
  rw [List.getElem?_append_left hlt, h]

/-- The slot holds what was put last. -/
theorem value_put (l : Ledger α ι) (a : α) : (l.put a).value = some a := by
  show (l.stored ++ [a])[l.stored.length]? = some a
  simp

/-- A taken slot is empty. -/
theorem value_take (l : Ledger α ι) (who : ι) : (l.take who).value = none := by
  cases hslot : l.held with
  | none => simp [take, value, hslot]
  | some n => simp [take, value, hslot]

/-- What a `take` takes: it writes down the number of the value that was in the slot. -/
theorem mem_taken_take {l : Ledger α ι} (who : ι) {a : α} (h : l.value = some a) :
    ∃ n, (n, who) ∈ (l.take who).taken ∧ (l.take who).stored[n]? = some a := by
  cases hslot : l.held with
  | none => simp [value, hslot] at h
  | some n =>
      simp only [value, hslot, Option.bind_some] at h
      refine ⟨n, ?_, ?_⟩
      · simp [take, hslot]
      · simpa [take, hslot] using h

/-- Nothing that was taken is forgotten. -/
theorem taken_take {l : Ledger α ι} {x : Nat × ι} (who : ι) (h : x ∈ l.taken) :
    x ∈ (l.take who).taken := by
  cases hslot : l.held with
  | none => simpa [take, hslot] using h
  | some n => simp [take, hslot, h]

/-- Taking forgets no value that was put. -/
theorem stored_take (l : Ledger α ι) (who : ι) : (l.take who).stored = l.stored := by
  cases hslot : l.held with
  | none => simp [take, hslot]
  | some n => simp [take, hslot]

/-! ### The order of the values taken -/

/-- The slot holds the newest value, and the values were taken in the order they were put. -/
structure Ordered (l : Ledger α ι) : Prop where
  newest : ∀ n, l.held = some n → n + 1 = l.stored.length
  taken : (l.taken.map Prod.fst).Pairwise (· < ·)
  before : ∀ n ∈ l.taken.map Prod.fst, n < l.held.getD l.stored.length

/-- Before the first value there is nothing to put in order. -/
theorem ordered_empty : (empty : Ledger α ι).Ordered where
  newest := by
    intro n h
    cases h
  taken := List.Pairwise.nil
  before := by
    intro n h
    cases h

/-- A put value is the newest one. -/
theorem Ordered.put {l : Ledger α ι} (h : l.Ordered) (a : α) : (l.put a).Ordered where
  newest := by
    intro n hn
    obtain rfl := Option.some.inj hn
    simp [Ledger.put]
  taken := h.taken
  before := by
    intro n hn
    show n < l.stored.length
    have hlt := h.before n hn
    cases hheld : l.held with
    | none =>
        rw [hheld] at hlt
        exact hlt
    | some m =>
        rw [hheld, Option.getD_some] at hlt
        have hnewest := h.newest m hheld
        omega

/-- The value taken is newer than those taken before. -/
theorem Ordered.take {l : Ledger α ι} (h : l.Ordered) (who : ι) : (l.take who).Ordered := by
  cases hheld : l.held with
  | none =>
      simp only [Ledger.take, hheld]
      exact h
  | some m =>
      have hnewest := h.newest m hheld
      have hbefore : ∀ n ∈ l.taken.map Prod.fst, n < m := by
        intro n hn
        have hlt := h.before n hn
        rwa [hheld] at hlt
      simp only [Ledger.take, hheld]
      refine ⟨nofun, ?_, ?_⟩
      · simp only [List.map_append, List.map_cons, List.map_nil, List.pairwise_append,
          List.mem_singleton]
        refine ⟨h.taken, List.pairwise_singleton _ _, ?_⟩
        rintro n hn _ rfl
        exact hbefore n hn
      · intro n hn
        show n < l.stored.length
        rw [List.map_append, List.mem_append] at hn
        rcases hn with hold | hnew
        · have hlt := hbefore n hold
          omega
        · obtain rfl : n = m := by simpa using hnew
          omega

/-- A value that was taken is one that was put. -/
theorem Ordered.taken_lt {l : Ledger α ι} (h : l.Ordered) {t : Nat × ι} (ht : t ∈ l.taken) :
    t.1 < l.stored.length := by
  have hlt := h.before t.1 (List.mem_map_of_mem ht)
  cases hheld : l.held with
  | none =>
      rw [hheld] at hlt
      exact hlt
  | some m =>
      rw [hheld, Option.getD_some] at hlt
      have hnewest := h.newest m hheld
      omega

/-- The entries of a list at increasing positions are a part of it. -/
theorem filterMap_getElem?_sublist {l : List α} {is : List Nat} (h : is.Pairwise (· < ·))
    (hlt : ∀ i ∈ is, i < l.length) : (is.filterMap fun i => l[i]?).Sublist l := by
  have hmap : is.filterMap (fun i => l[i]?) = (is.pmap Fin.mk hlt).map (l[·]) := by
    rw [List.map_pmap]
    clear h
    induction is with
    | nil => rfl
    | cons i is ih =>
        have hi : i < l.length := hlt i List.mem_cons_self
        rw [List.filterMap_cons_some (List.getElem?_eq_getElem hi), List.pmap_cons,
          ih fun j hj => hlt j (List.mem_cons_of_mem i hj)]
        rfl
  rw [hmap]
  apply List.map_getElem_sublist
  exact List.Pairwise.pmap h hlt fun _ _ _ _ hij => hij

/-- The values taken are some of the values put, in their order. -/
theorem Ordered.sublist {l : Ledger α ι} (h : l.Ordered) :
    ((l.taken.map Prod.fst).filterMap fun n => l.stored[n]?).Sublist l.stored := by
  apply filterMap_getElem?_sublist h.taken
  intro n hn
  obtain ⟨t, ht, rfl⟩ := List.mem_map.mp hn
  exact h.taken_lt ht

end Ledger
end SlotLedger
