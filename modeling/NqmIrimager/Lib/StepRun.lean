import Mathlib.Data.List.Basic

/-!
# `StepRun`: runs of a labelled step function

A system is a function `step : σ → ι → Option σ`. The label carries every choice the
system does not make itself (an argument, an outcome of the environment, the party that
moves next), so an interleaving is a list of labels. `none` says that the label cannot
be taken in that state.

* `run_append` splits a run.
* `run_invariant` and `run_invariant_along` carry a property from the start state to the
  end of a run, the second one along runs whose every step meets a condition. `run_marks` is
  for what a state remembers of the labels.
* `run_simulates` is the refinement rule: a relation kept by every step that meets the
  condition makes the whole run exist and end related to a fold of the abstract step.
* `run_progress` adds to an invariant that the run exists.
* `prefixes_iff_along` and `run_along_or_not` are the rules for a condition that is not only
  enough: a step that does not meet it shows at once, or at the end of the run.
* `Reachable.invariant` is the rule for the states a system reaches.
-/

set_option autoImplicit false

namespace StepRun

variable {σ ι τ : Type}

/-- Take the labels in order, from the state `s`. -/
def run (step : σ → ι → Option σ) : σ → List ι → Option σ
  | s, [] => some s
  | s, l :: ls => (step s l).bind fun s' => run step s' ls

/-- Every label of the list is met by `P` in the state in which it is taken. A list that
stops at an impossible label is judged up to that label. -/
def Along (step : σ → ι → Option σ) (P : σ → ι → Prop) : σ → List ι → Prop
  | _, [] => True
  | s, l :: ls =>
      P s l ∧
        match step s l with
        | none => True
        | some s' => Along step P s' ls

/-- A condition that can be tested at each step can be tested along a run. -/
instance Along.decidable (step : σ → ι → Option σ) (P : σ → ι → Prop)
    [∀ s l, Decidable (P s l)] : ∀ s ls, Decidable (Along step P s ls)
  | _, [] => inferInstanceAs (Decidable True)
  | s, l :: ls =>
      have : Decidable (match step s l with
          | none => True
          | some s' => Along step P s' ls) :=
        match step s l with
        | none => inferInstanceAs (Decidable True)
        | some s' => Along.decidable step P s' ls
      inferInstanceAs (Decidable (P s l ∧ _))

/-- `s` is the end of some run from `s₀`. -/
def Reachable (step : σ → ι → Option σ) (s₀ s : σ) : Prop :=
  ∃ ls, run step s₀ ls = some s

section
variable {step : σ → ι → Option σ} {P : σ → ι → Prop}

/-- A run of no step. -/
@[simp] theorem run_nil (s : σ) : run step s [] = some s := rfl

/-- A run is its first step and the run after it. -/
theorem run_cons (s : σ) (l : ι) (ls : List ι) :
    run step s (l :: ls) = (step s l).bind fun s' => run step s' ls := rfl

/-- The first step of a run that ends. -/
theorem run_cons_eq_some {s s₁ : σ} {l : ι} {ls : List ι} :
    run step s (l :: ls) = some s₁ ↔ ∃ s', step s l = some s' ∧ run step s' ls = some s₁ := by
  rw [run_cons, Option.bind_eq_some_iff]

/-- A run in two parts. -/
theorem run_append (s : σ) (ls₁ ls₂ : List ι) :
    run step s (ls₁ ++ ls₂) = (run step s ls₁).bind fun s' => run step s' ls₂ := by
  induction ls₁ generalizing s with
  | nil => rfl
  | cons l ls₁ ih =>
      rw [List.cons_append, run_cons, run_cons]
      cases step s l with
      | none => rfl
      | some s' => exact ih s'

/-- A run of one step. -/
theorem run_singleton (s : σ) (l : ι) : run step s [l] = step s l := by
  rw [run_cons]
  cases step s l <;> rfl

/-- A run extended by one step. -/
theorem run_concat {s s₁ s₂ : σ} {ls : List ι} {l : ι} (h : run step s ls = some s₁)
    (hl : step s₁ l = some s₂) : run step s (ls ++ [l]) = some s₂ := by
  rw [run_append, h]
  exact (run_singleton s₁ l).trans hl

/-- A run of no step has nothing to meet. -/
@[simp] theorem along_nil (s : σ) : Along step P s [] := trivial

/-- A condition holds along a run if it does at the first step and along the rest. -/
theorem along_cons {s : σ} {l : ι} {ls : List ι} :
    Along step P s (l :: ls) ↔ P s l ∧ ∀ s', step s l = some s' → Along step P s' ls := by
  rw [Along]
  cases step s l <;> simp

/-- A condition on a run is a condition on its first part and, from where that part ends,
on the rest. -/
theorem along_append {s : σ} {ls₁ ls₂ : List ι} :
    Along step P s (ls₁ ++ ls₂) ↔
      Along step P s ls₁ ∧ ∀ s', run step s ls₁ = some s' → Along step P s' ls₂ := by
  induction ls₁ generalizing s with
  | nil => simp
  | cons l ls₁ ih =>
      simp only [List.cons_append, along_cons, run_cons_eq_some, ih]
      constructor
      · rintro ⟨hP, hrest⟩
        constructor
        · exact ⟨hP, fun s' hs' => (hrest s' hs').1⟩
        · -- The state where the first part ends, reached through `s'`.
          rintro s₁ ⟨s', hs', hrun⟩
          exact (hrest s' hs').2 s₁ hrun
      · rintro ⟨⟨hP, hfirst⟩, hrest⟩
        exact ⟨hP, fun s' hs' => ⟨hfirst s' hs', fun s₁ hrun => hrest s₁ ⟨s', hs', hrun⟩⟩⟩

/-- A prefix of a run that meets the condition meets it too. -/
theorem along_of_isPrefix {s : σ} {ls₁ ls : List ι} (hpre : ls₁ <+: ls)
    (h : Along step P s ls) : Along step P s ls₁ := by
  obtain ⟨ls₂, rfl⟩ := hpre
  exact (along_append.mp h).1

/-- A condition holds along a run when it holds of each label, in the state the labels
before it lead to. -/
theorem along_of_prefixes {s : σ} {ls : List ι}
    (h : ∀ pre l s', pre ++ [l] <+: ls → run step s pre = some s' → P s' l) :
    Along step P s ls := by
  induction ls generalizing s with
  | nil => trivial
  | cons l ls ih =>
      rw [along_cons]
      constructor
      · exact h [] l s ⟨ls, rfl⟩ rfl
      · -- A prefix of the rest is a prefix of the whole with `l` in front.
        intro s₁ hs₁
        apply ih
        intro pre l' s' hpre hrun
        have hpre' : (l :: pre) ++ [l'] <+: l :: ls := by
          rw [List.cons_append]
          exact List.cons_prefix_cons.mpr ⟨rfl, hpre⟩
        exact h (l :: pre) l' s' hpre' (run_cons_eq_some.mpr ⟨s₁, hs₁, hrun⟩)

/-- Two conditions along one run. -/
theorem along_and {Q : σ → ι → Prop} {s : σ} {ls : List ι} (hP : Along step P s ls)
    (hQ : Along step Q s ls) : Along step (fun s l => P s l ∧ Q s l) s ls := by
  induction ls generalizing s with
  | nil => trivial
  | cons l ls ih =>
      rw [along_cons] at hP hQ ⊢
      exact ⟨⟨hP.1, hQ.1⟩, fun s' hs' => ih (hP.2 s' hs') (hQ.2 s' hs')⟩

/-- A property kept by every step holds where the run ends. -/
theorem run_invariant {Inv : σ → Prop}
    (hstep : ∀ s l s', Inv s → step s l = some s' → Inv s') {s s₁ : σ} {ls : List ι}
    (hs : Inv s) (hrun : run step s ls = some s₁) : Inv s₁ := by
  induction ls generalizing s with
  | nil =>
      cases hrun
      exact hs
  | cons l ls ih =>
      obtain ⟨s', hs', hrest⟩ := run_cons_eq_some.mp hrun
      exact ih (hstep s l s' hs hs') hrest

/-- A property kept by every step that meets the condition holds where a run of such
steps ends. -/
theorem run_invariant_along {Inv : σ → Prop}
    (hstep : ∀ s l s', Inv s → P s l → step s l = some s' → Inv s') {s s₁ : σ} {ls : List ι}
    (hs : Inv s) (hP : Along step P s ls) (hrun : run step s ls = some s₁) : Inv s₁ := by
  induction ls generalizing s with
  | nil =>
      cases hrun
      exact hs
  | cons l ls ih =>
      obtain ⟨s', hs', hrest⟩ := run_cons_eq_some.mp hrun
      rw [along_cons] at hP
      exact ih (hstep s l s' hs hP.1 hs') (hP.2 s' hs') hrest

/-- A mark that a state has from some label on: once set it stays, and only the labels of `E`
set it. -/
theorem run_marks {M : σ → Prop} {E : ι → Prop}
    (hstep : ∀ s l s', step s l = some s' → (M s' ↔ M s ∨ E l)) {s s₁ : σ} {ls : List ι}
    (hrun : run step s ls = some s₁) : M s₁ ↔ M s ∨ ∃ l ∈ ls, E l := by
  induction ls generalizing s with
  | nil =>
      cases hrun
      simp
  | cons l ls ih =>
      obtain ⟨s', hs', hrest⟩ := run_cons_eq_some.mp hrun
      rw [ih hrest, hstep s l s' hs']
      simp only [List.mem_cons, exists_eq_or_imp, or_assoc]

/-- The refinement rule. When every step that meets the condition exists and keeps `R`
between the state and the abstract state `f` steps to, a run of such steps exists and
ends related to the fold of `f`. -/
theorem run_simulates {R : σ → τ → Prop} {f : τ → ι → τ}
    (hstep : ∀ s t l, R s t → P s l → ∃ s', step s l = some s' ∧ R s' (f t l))
    {s : σ} {t : τ} {ls : List ι} (hR : R s t) (hP : Along step P s ls) :
    ∃ s', run step s ls = some s' ∧ R s' (ls.foldl f t) := by
  induction ls generalizing s t with
  | nil => exact ⟨s, rfl, hR⟩
  | cons l ls ih =>
      rw [along_cons] at hP
      obtain ⟨s', hs', hR'⟩ := hstep s t l hR hP.1
      obtain ⟨s₁, hrun, hR₁⟩ := ih hR' (hP.2 s' hs')
      exact ⟨s₁, run_cons_eq_some.mpr ⟨s', hs', hrun⟩, hR₁⟩

/-- A condition on labels alone holds along every run of such labels. -/
theorem along_of_forall {Q : ι → Prop} {s : σ} {ls : List ι} (h : ∀ l ∈ ls, Q l) :
    Along step (fun _ l => Q l) s ls := by
  induction ls generalizing s with
  | nil => trivial
  | cons l ls ih =>
      rw [along_cons]
      constructor
      · exact h l List.mem_cons_self
      · intro s' _
        exact ih fun l' hl' => h l' (List.mem_cons_of_mem l hl')

/-- The progress rule. When every step that meets the condition exists and keeps the
invariant, a run of such steps exists and ends in it. -/
theorem run_progress {Inv : σ → Prop}
    (hstep : ∀ s l, Inv s → P s l → ∃ s', step s l = some s' ∧ Inv s') {s : σ} {ls : List ι}
    (hs : Inv s) (hP : Along step P s ls) : ∃ s', run step s ls = some s' ∧ Inv s' := by
  induction ls generalizing s with
  | nil => exact ⟨s, rfl, hs⟩
  | cons l ls ih =>
      rw [along_cons] at hP
      obtain ⟨s', hs', hinv⟩ := hstep s l hs hP.1
      obtain ⟨s₁, hrun, hinv₁⟩ := ih hinv (hP.2 s' hs')
      exact ⟨s₁, run_cons_eq_some.mpr ⟨s', hs', hrun⟩, hinv₁⟩

/-- The rule for an exact condition. When every step exists, keeps the invariant if it meets
the condition, and leads to a bad state if it does not, then the states on the way of a run
are all good exactly when its steps all meet the condition. -/
theorem prefixes_iff_along {Inv Good : σ → Prop}
    (hstep : ∀ s l, Inv s → ∃ s', step s l = some s' ∧ (P s l → Inv s') ∧ (Good s' → P s l))
    (hgood : ∀ s, Inv s → Good s) {s : σ} {ls : List ι} (hs : Inv s) :
    (∀ pre, pre <+: ls → ∃ s', run step s pre = some s' ∧ Good s') ↔ Along step P s ls := by
  induction ls generalizing s with
  | nil =>
      refine iff_of_true (fun pre hpre => ?_) trivial
      rw [List.prefix_nil.mp hpre]
      exact ⟨s, rfl, hgood s hs⟩
  | cons l ls ih =>
      obtain ⟨s', hs', hkeep, hexact⟩ := hstep s l hs
      rw [along_cons]
      constructor
      · intro hall
        obtain ⟨s₁, hrun, hs₁⟩ := hall [l] (List.cons_prefix_cons.mpr ⟨rfl, List.nil_prefix⟩)
        rw [run_singleton, hs'] at hrun
        obtain rfl := Option.some.inj hrun
        have hP := hexact hs₁
        refine ⟨hP, fun s₂ hs₂ => ?_⟩
        rw [hs'] at hs₂
        obtain rfl := Option.some.inj hs₂
        refine (ih (hkeep hP)).mp fun pre hpre => ?_
        -- A prefix of the rest, with `l` in front.
        obtain ⟨s₃, hrun₃, hs₃⟩ := hall (l :: pre) (List.cons_prefix_cons.mpr ⟨rfl, hpre⟩)
        rw [run_cons, hs', Option.bind_some] at hrun₃
        exact ⟨s₃, hrun₃, hs₃⟩
      · rintro ⟨hP, hrest⟩ pre hpre
        cases pre with
        | nil => exact ⟨s, rfl, hgood s hs⟩
        | cons l' pre =>
            obtain ⟨rfl, hpre'⟩ := List.cons_prefix_cons.mp hpre
            rw [run_cons, hs', Option.bind_some]
            exact (ih (hkeep hP)).mpr (hrest s' hs') pre hpre'

/-- The rule for a condition that shows at the end of a run. `A` is kept by the steps that meet
the condition. The first one that does not leads to `B`, which no step leaves. -/
theorem run_along_or_not {A B : σ → Prop} {Q : ι → Prop}
    (hkeep : ∀ s l s', A s → Q l → P s l → step s l = some s' → A s')
    (hbreak : ∀ s l s', A s → Q l → ¬ P s l → step s l = some s' → B s')
    (hstay : ∀ s l s', B s → Q l → step s l = some s' → B s') {s s₁ : σ} {ls : List ι}
    (hs : A s) (hQ : ∀ l ∈ ls, Q l) (hrun : run step s ls = some s₁) :
    (Along step P s ls ∧ A s₁) ∨ (¬ Along step P s ls ∧ B s₁) := by
  induction ls generalizing s with
  | nil =>
      cases hrun
      exact Or.inl ⟨trivial, hs⟩
  | cons l ls ih =>
      obtain ⟨s', hs', hrest⟩ := run_cons_eq_some.mp hrun
      have hQl := hQ l List.mem_cons_self
      have hQls : ∀ l ∈ ls, Q l := fun l' hl' => hQ l' (List.mem_cons_of_mem l hl')
      rw [along_cons]
      by_cases hP : P s l
      · rcases ih (hkeep s l s' hs hQl hP hs') hQls hrest with ⟨halong, hA⟩ | ⟨hnot, hB⟩
        · refine Or.inl ⟨⟨hP, fun s₂ hs₂ => ?_⟩, hA⟩
          rw [hs'] at hs₂
          cases hs₂
          exact halong
        · exact Or.inr ⟨fun h => hnot (h.2 s' hs'), hB⟩
      · have hB := hbreak s l s' hs hQl hP hs'
        exact Or.inr ⟨fun h => hP h.1, run_invariant_along hstay hB (along_of_forall hQls) hrest⟩

/-- An inductive invariant holds in every reachable state. -/
theorem Reachable.invariant {Inv : σ → Prop} {s₀ s : σ} (h : Reachable step s₀ s)
    (h₀ : Inv s₀) (hstep : ∀ s l s', Inv s → step s l = some s' → Inv s') : Inv s := by
  obtain ⟨ls, hrun⟩ := h
  exact run_invariant hstep h₀ hrun

end

end StepRun
