import NqmIrimager.Lib.StepRun

/-!
# `StepProgress`: what a step function can still reach, and how long it runs

Two questions about a system that `StepRun` runs, both answered by a rank that drops.

* `CanReach` says that some run leads to a goal, with steps of a given kind.
  `canReach_of_rank` is the rule: a state that has not reached the goal has a step to a lower
  rank. `not_canReach_of_stuck` is the rule for the opposite.
* `countP_add_rank_le` bounds how often a run takes the steps that lower the rank, and
  `length_add_rank_le` the whole run when all of them do.
-/

set_option autoImplicit false

namespace StepRun

variable {σ ι : Type}

/-- Some run of steps with `Q` leads from `s` to a state with `Goal`. -/
def CanReach (step : σ → ι → Option σ) (Q : ι → Prop) (Goal : σ → Prop) (s : σ) : Prop :=
  ∃ ls s', (∀ l ∈ ls, Q l) ∧ run step s ls = some s' ∧ Goal s'

variable {step : σ → ι → Option σ} {Q : ι → Prop} {Goal : σ → Prop}

/-- A state that meets the goal needs no run. -/
theorem CanReach.of_goal {s : σ} (h : Goal s) : CanReach step Q Goal s :=
  ⟨[], s, by simp, rfl, h⟩

/-- A step with `Q`, and then what can be reached from where it leads. -/
theorem CanReach.of_step {s s' : σ} {l : ι} (hQ : Q l) (hs : step s l = some s')
    (h : CanReach step Q Goal s') : CanReach step Q Goal s := by
  obtain ⟨ls, s₁, hall, hrun, hgoal⟩ := h
  refine ⟨l :: ls, s₁, ?_, run_cons_eq_some.mpr ⟨s', hs, hrun⟩, hgoal⟩
  intro l' hl'
  cases List.mem_cons.mp hl' with
  | inl heq =>
      rw [heq]
      exact hQ
  | inr hmem => exact hall l' hmem

/-- A goal on the way. -/
theorem CanReach.trans {Mid : σ → Prop} {s : σ} (h : CanReach step Q Mid s)
    (hmid : ∀ s', Mid s' → CanReach step Q Goal s') : CanReach step Q Goal s := by
  obtain ⟨ls, s₁, hall, hrun, hs₁⟩ := h
  induction ls generalizing s with
  | nil =>
      cases hrun
      exact hmid _ hs₁
  | cons l ls ih =>
      obtain ⟨s', hs', hrest⟩ := run_cons_eq_some.mp hrun
      have hrest' := ih (fun l' hl' => hall l' (List.mem_cons_of_mem l hl')) hrest
      exact hrest'.of_step (hall l List.mem_cons_self) hs'

/-- The rule for what can be reached. A state with the invariant has reached the goal, or has a
step that keeps the invariant and lowers the rank. -/
theorem canReach_of_rank {Inv : σ → Prop} (rank : σ → Nat)
    (hstep : ∀ s, Inv s → ¬ Goal s → ∃ l s', Q l ∧ step s l = some s' ∧ Inv s' ∧ rank s' < rank s)
    {s : σ} (hs : Inv s) : CanReach step Q Goal s := by
  induction hn : rank s using Nat.strongRecOn generalizing s with
  | _ n ih =>
      by_cases hgoal : Goal s
      · exact .of_goal hgoal
      · obtain ⟨l, s', hQ, hs', hinv, hlt⟩ := hstep s hs hgoal
        exact (ih (rank s') (by omega) hinv rfl).of_step hQ hs'

/-- The rule for what cannot be reached: a property that no step with `Q` ends, and that excludes
the goal. -/
theorem not_canReach_of_stuck {Stuck : σ → Prop}
    (hstep : ∀ s l s', Stuck s → Q l → step s l = some s' → Stuck s')
    (hgoal : ∀ s, Stuck s → ¬ Goal s) {s : σ} (hs : Stuck s) : ¬ CanReach step Q Goal s := by
  intro h
  obtain ⟨ls, s', hall, hrun, hs'⟩ := h
  exact hgoal s' (run_invariant_along hstep hs (along_of_forall hall) hrun) hs'

/-- When no step raises the rank and those of a kind lower it, a run has no more of that kind
than the rank it starts with, less the rank it ends with. -/
theorem countP_add_rank_le {Inv : σ → Prop} (rank : σ → Nat) (p : ι → Bool)
    (hstep : ∀ s l s', Inv s → step s l = some s' →
      Inv s' ∧ rank s' + (if p l then 1 else 0) ≤ rank s) {s s' : σ} {ls : List ι} (hs : Inv s)
    (hrun : run step s ls = some s') : ls.countP p + rank s' ≤ rank s := by
  induction ls generalizing s with
  | nil =>
      cases hrun
      exact Nat.le_of_eq (Nat.zero_add _)
  | cons l ls ih =>
      obtain ⟨s₁, hs₁, hrest⟩ := run_cons_eq_some.mp hrun
      obtain ⟨hinv, hle⟩ := hstep s l s₁ hs hs₁
      have hle' := ih hinv hrest
      rw [List.countP_cons]
      omega

/-- When every step lowers the rank, a run is no longer than the rank it starts with, less the
rank it ends with. -/
theorem length_add_rank_le {Inv : σ → Prop} (rank : σ → Nat)
    (hstep : ∀ s l s', Inv s → step s l = some s' → Inv s' ∧ rank s' < rank s) {s s' : σ}
    {ls : List ι} (hs : Inv s) (hrun : run step s ls = some s') :
    ls.length + rank s' ≤ rank s := by
  have hle := countP_add_rank_le rank (fun _ => true) hstep hs hrun
  rwa [List.countP_true] at hle

end StepRun
