import NqmIrimager.Lib.StepRun
import NqmIrimager.RunWithTimeout

/-!
# `NqmIrimager.Proofs.TimeoutReports`: what `run_with_timeout` reports, and what happened

After `wait_for` has given up, the thread can still store a result before it is cancelled, or
because it never gets to a cancellation point again. `run_with_timeout` then joins the thread
and returns `timeout`, although the function ran to its end, and an exception of it is lost.

So the report is `Truthful` exactly in the runs in which the result is stored while the
caller still waits (`InTime`). `OnTime` is the invariant of these runs, `Late` holds from the
first late store on. Once the function is over, no order of the steps keeps the caller from
its end (`steps_left_le`, `not_stuck`).
-/

set_option autoImplicit false

namespace NqmIrimager
namespace RunWithTimeout

open StepRun

variable {σ : Type} {function : σ → Turn σ}

/-! ### What is said about a run -/

/-- The result of the function, once it has ended on its own. -/
def Worker.result : Worker σ → Option Result
  | .finished result => some result
  | .published result => some result
  | .exited result => some result
  | _ => none

/-- The report says what happened to the function. -/
structure Truthful (report : Report) (worker : Worker σ) : Prop where
  ready_iff : report = .returned .ready ↔ worker.result = some (.ok ())
  rethrew_iff : ∀ e, report = .rethrew e ↔ worker.result = some (.error e)
  cancelled : report = .returned .timeout → worker = .cancelled

/-- The step is not one that stores a result after the caller has given up. -/
def InTime (s : State σ) (l : Label) : Prop := l = .worker .publish → s.caller = .waiting

instance (s : State σ) (l : Label) : Decidable (InTime s l) :=
  inferInstanceAs (Decidable (_ → _))

/-- It is not a `pthread_cancel` that fails. -/
def Label.Succeeds : Label → Prop
  | .caller (.cancelFails _) => False
  | _ => True

instance : (l : Label) → Decidable l.Succeeds
  | .worker _ => inferInstanceAs (Decidable True)
  | .caller (.waitReturns _) => inferInstanceAs (Decidable True)
  | .caller .join => inferInstanceAs (Decidable True)
  | .caller .get => inferInstanceAs (Decidable True)
  | .caller .cancel => inferInstanceAs (Decidable True)
  | .caller (.cancelFails _) => inferInstanceAs (Decidable False)

/-- The function is not running any more. -/
def Worker.Ended (worker : Worker σ) : Prop := ∀ t, worker ≠ .running t

/-! ### The worker's steps -/

/-- A store takes the result from the function that has ended. -/
theorem publish_eq_some {s s' : State σ} (h : workerStep function s .publish = some s') :
    ∃ result, s.worker = .finished result ∧ s' = { s with worker := .published result } := by
  simp only [workerStep] at h
  split at h
  · rename_i result hworker
    exact ⟨result, hworker, (Option.some.inj h).symm⟩
  · cases h

/-- What a step of the worker does: the function takes a turn or is cancelled, or its result
moves on. -/
theorem workerStep_cases {s s' : State σ} {l : WorkerLabel}
    (h : workerStep function s l = some s') :
    (∃ t, s.worker = .running t ∧
      ((∃ t', s' = { s with worker := .running t' }) ∨
        (∃ result, s' = { s with worker := .finished result }) ∨
        s' = { s with worker := .cancelled })) ∨
      (∃ result, s.worker = .finished result ∧ l = .publish ∧
        s' = { s with worker := .published result }) ∨
      ∃ result, s.worker = .published result ∧ l = .exit ∧
        s' = { s with worker := .exited result } := by
  cases l with
  | work =>
      simp only [workerStep] at h
      split at h
      · rename_i t hworker
        refine Or.inl ⟨t, hworker, ?_⟩
        split at h
        · exact Or.inl ⟨_, (Option.some.inj h).symm⟩
        · exact Or.inr (Or.inl ⟨_, (Option.some.inj h).symm⟩)
      · cases h
  | actOnCancel =>
      simp only [workerStep] at h
      split at h
      · rename_i t hworker
        split at h
        · split at h
          · exact Or.inl ⟨t, hworker, Or.inr (Or.inr (Option.some.inj h).symm)⟩
          · cases h
        · cases h
      · cases h
  | publish =>
      obtain ⟨result, hworker, hs'⟩ := publish_eq_some h
      exact Or.inr (Or.inl ⟨result, hworker, rfl, hs'⟩)
  | exit =>
      simp only [workerStep] at h
      split at h
      · rename_i result hworker
        exact Or.inr (Or.inr ⟨result, hworker, rfl, (Option.some.inj h).symm⟩)
      · cases h

/-- A thread that is over takes no step. -/
theorem not_over_of_workerStep {s s' : State σ} {l : WorkerLabel}
    (h : workerStep function s l = some s') : s.worker.over = false ∧ s'.caller = s.caller := by
  rcases workerStep_cases h with ⟨t, ht, ⟨t', rfl⟩ | ⟨result, rfl⟩ | rfl⟩ |
    ⟨result, hfinished, -, rfl⟩ | ⟨result, hpublished, -, rfl⟩
  · rw [ht]
    exact ⟨rfl, rfl⟩
  · rw [ht]
    exact ⟨rfl, rfl⟩
  · rw [ht]
    exact ⟨rfl, rfl⟩
  · rw [hfinished]
    exact ⟨rfl, rfl⟩
  · rw [hpublished]
    exact ⟨rfl, rfl⟩

/-- Only `publish` stores a result, and a result that is stored stays. -/
theorem stored_of_workerStep {s s' : State σ} {l : WorkerLabel}
    (h : workerStep function s l = some s') :
    s'.worker.stored = s.worker.stored ∨
      (l = .publish ∧ s.worker.stored = none ∧ s'.worker.stored.isSome = true) := by
  rcases workerStep_cases h with ⟨t, ht, ⟨t', rfl⟩ | ⟨result, rfl⟩ | rfl⟩ |
    ⟨result, hfinished, hl, rfl⟩ | ⟨result, hpublished, -, rfl⟩
  · rw [ht]
    exact Or.inl rfl
  · rw [ht]
    exact Or.inl rfl
  · rw [ht]
    exact Or.inl rfl
  · rw [hfinished]
    exact Or.inr ⟨hl, rfl, rfl⟩
  · rw [hpublished]
    exact Or.inl rfl

/-! ### The caller's steps -/

/-- What a step of the caller does, as long as no `pthread_cancel` fails. -/
theorem callerStep_cases {s s' : State σ} {l : CallerLabel} (hl : Label.Succeeds (.caller l))
    (h : callerStep s l = some s') :
    (s.caller = .waiting ∧ s.worker.stored.isSome = true ∧ s' = { s with caller := .joining }) ∨
      (s.caller = .waiting ∧ s.worker.stored = none ∧ s' = { s with caller := .cancelling }) ∨
      (s.caller = .joining ∧ s.worker.over = true ∧ s' = { s with caller := .getting }) ∨
      (∃ result, s.caller = .getting ∧ s.worker.stored = some result ∧
        s' = { s with caller := .ended (reportOf result) }) ∨
      (s.caller = .cancelling ∧
        s' = { s with cancelPending := true, caller := .joiningCancelled }) ∨
      (s.caller = .joiningCancelled ∧ s.worker.over = true ∧
        s' = { s with caller := .ended (.returned .timeout) }) := by
  cases l with
  | waitReturns status =>
      simp only [callerStep] at h
      split at h
      · rename_i hwait
        obtain rfl := Option.some.inj h
        cases status with
        | ready => exact Or.inl ⟨hwait.1, hwait.2, rfl⟩
        | timeout => exact Or.inr (Or.inl ⟨hwait.1, hwait.2, rfl⟩)
        | deferred => exact hwait.2.elim
      · cases h
  | join =>
      simp only [callerStep] at h
      split at h
      · rename_i hover
        split at h
        · rename_i hcaller
          exact Or.inr (Or.inr (Or.inl ⟨hcaller, hover, (Option.some.inj h).symm⟩))
        · rename_i hcaller
          refine Or.inr (Or.inr (Or.inr (Or.inr (Or.inr ⟨hcaller, hover, ?_⟩))))
          exact (Option.some.inj h).symm
        · cases h
      · cases h
  | get =>
      simp only [callerStep] at h
      split at h
      · rename_i hcaller
        obtain ⟨result, hstored, rfl⟩ := Option.map_eq_some_iff.mp h
        exact Or.inr (Or.inr (Or.inr (Or.inl ⟨result, hcaller, hstored, rfl⟩)))
      · cases h
  | cancel =>
      simp only [callerStep] at h
      split at h
      · rename_i hcaller
        refine Or.inr (Or.inr (Or.inr (Or.inr (Or.inl ⟨hcaller, ?_⟩))))
        exact (Option.some.inj h).symm
      · cases h
  | cancelFails errnoMessage => exact hl.elim

/-! ### The two invariants -/

/-- What holds while every result was stored in time: a caller that has given up finds none,
and a report is truthful. -/
def OnTime (s : State σ) : Prop :=
  match s.caller with
  | .waiting => True
  | .joining => s.worker.stored.isSome = true
  | .getting => ∃ result, s.worker = .exited result
  | .cancelling => s.worker.stored = none
  | .joiningCancelled => s.worker.stored = none
  | .ended report =>
      s.worker.over = true ∧ Truthful report s.worker ∧
        ((∃ result, report = reportOf result) ∨ report = .returned .timeout)

/-- What holds from the first late store on: there is a result, and the caller is on its way
to return `timeout`. -/
def Late (s : State σ) : Prop :=
  s.worker.stored.isSome = true ∧
    (s.caller = .cancelling ∨ s.caller = .joiningCancelled ∨
      s.caller = .ended (.returned .timeout))

/-- A late caller has given up. -/
theorem Late.caller_ne {s : State σ} (h : Late s) :
    s.caller ≠ .waiting ∧ s.caller ≠ .joining ∧ s.caller ≠ .getting := by
  rcases h.2 with hat | hat | hat
  · rw [hat]
    decide
  · rw [hat]
    decide
  · rw [hat]
    decide

/-- A thread that is over has exited if it stored a result. -/
theorem exited_of_over {worker : Worker σ} {result : Result} (hover : worker.over = true)
    (hstored : worker.stored = some result) : worker = .exited result := by
  cases worker with
  | running t => cases hover
  | finished r => cases hover
  | published r => cases hover
  | exited r => exact congrArg Worker.exited (Option.some.inj hstored)
  | cancelled => cases hstored

/-- If it stored none, it was cancelled. -/
theorem cancelled_of_over {worker : Worker σ} (hover : worker.over = true)
    (hstored : worker.stored = none) : worker = .cancelled := by
  cases worker with
  | running t => cases hover
  | finished r => cases hover
  | published r => cases hover
  | exited r => cases hstored
  | cancelled => rfl

/-- `future.get()` reports the result. -/
theorem truthful_get (result : Result) :
    Truthful (reportOf result) (.exited result : Worker σ) where
  ready_iff := by
    cases result with
    | ok u => exact ⟨fun _ => rfl, fun _ => rfl⟩
    | error e => exact ⟨fun h => (by cases h), fun h => (by cases h)⟩
  rethrew_iff := by
    intro e
    cases result with
    | ok u => exact ⟨fun h => (by cases h), fun h => (by cases h)⟩
    | error e' =>
        constructor
        · intro h
          cases h
          rfl
        · intro h
          cases h
          rfl
  cancelled := by
    intro h
    cases result <;> cases h

/-- `timeout` is the truth about a cancelled thread. -/
theorem truthful_timeout : Truthful (.returned .timeout) (.cancelled : Worker σ) where
  ready_iff := ⟨fun h => (by cases h), fun h => (by cases h)⟩
  rethrew_iff := fun _ => ⟨fun h => (by cases h), fun h => (by cases h)⟩
  cancelled := fun _ => rfl

/-- A thread that has stored a result was not cancelled. -/
theorem not_truthful_late {worker : Worker σ} (hstored : worker.stored.isSome = true) :
    ¬ Truthful (.returned .timeout) worker := by
  intro htruthful
  rw [htruthful.cancelled rfl] at hstored
  cases hstored

/-- A step of the thread that stores no result too late keeps `OnTime`. -/
theorem onTime_workerStep {s s' : State σ} {l : WorkerLabel} (hs : OnTime s)
    (hintime : InTime s (.worker l)) (h : workerStep function s l = some s') : OnTime s' := by
  obtain ⟨hover, hcaller⟩ := not_over_of_workerStep h
  have hstored := stored_of_workerStep h
  -- A caller that has given up sees no store.
  have hnone : s.caller ≠ .waiting → s.worker.stored = none → s'.worker.stored = none := by
    intro hwaiting hbefore
    rcases hstored with hsame | ⟨rfl, -⟩
    · rw [hsame, hbefore]
    · exact absurd (hintime rfl) hwaiting
  cases hat : s.caller with
  | waiting => simp only [OnTime, hcaller, hat]
  | joining =>
      simp only [OnTime, hat] at hs
      simp only [OnTime, hcaller, hat]
      rcases hstored with hsame | ⟨-, -, hafter⟩
      · rw [hsame]
        exact hs
      · exact hafter
  | getting =>
      simp only [OnTime, hat] at hs
      obtain ⟨result, hexited⟩ := hs
      rw [hexited] at hover
      cases hover
  | cancelling =>
      simp only [OnTime, hat] at hs
      simp only [OnTime, hcaller, hat]
      exact hnone (by rw [hat]; exact fun heq => by cases heq) hs
  | joiningCancelled =>
      simp only [OnTime, hat] at hs
      simp only [OnTime, hcaller, hat]
      exact hnone (by rw [hat]; exact fun heq => by cases heq) hs
  | ended report =>
      simp only [OnTime, hat] at hs
      rw [hs.1] at hover
      cases hover

/-- A step of the caller keeps it. -/
theorem onTime_callerStep {s s' : State σ} {l : CallerLabel} (hs : OnTime s)
    (hl : Label.Succeeds (.caller l)) (h : callerStep s l = some s') : OnTime s' := by
  rcases callerStep_cases hl h with ⟨-, hstored, rfl⟩ | ⟨-, hstored, rfl⟩ | ⟨hat, hover, rfl⟩ |
    ⟨result, hat, hstored, rfl⟩ | ⟨hat, rfl⟩ | ⟨hat, hover, rfl⟩
  · exact hstored
  · exact hstored
  · simp only [OnTime, hat] at hs
    obtain ⟨result, hresult⟩ := Option.isSome_iff_exists.mp hs
    exact ⟨result, exited_of_over hover hresult⟩
  · simp only [OnTime, hat] at hs
    obtain ⟨result', hexited⟩ := hs
    rw [hexited] at hstored
    obtain rfl : result' = result := Option.some.inj hstored
    simp only [OnTime, hexited]
    exact ⟨rfl, truthful_get result', Or.inl ⟨result', rfl⟩⟩
  · simp only [OnTime, hat] at hs
    exact hs
  · simp only [OnTime, hat] at hs
    have hcancelled := cancelled_of_over hover hs
    simp only [OnTime, hcancelled]
    exact ⟨rfl, truthful_timeout, Or.inr trivial⟩

/-- Every step in time keeps it. -/
theorem onTime_step {s s' : State σ} {l : Label} (hs : OnTime s) (hl : l.Succeeds)
    (hintime : InTime s l) (h : step function s l = some s') : OnTime s' := by
  cases l with
  | worker l => exact onTime_workerStep hs hintime h
  | caller l => exact onTime_callerStep hs hl h

/-- The first late store: the caller has given up, and there was no result before. -/
theorem late_of_not_inTime {s s' : State σ} {l : Label} (hs : OnTime s)
    (hlate : ¬ InTime s l) (h : step function s l = some s') : Late s' := by
  obtain ⟨rfl, hwaiting⟩ := Classical.not_imp.mp hlate
  have hpublish : workerStep function s .publish = some s' := h
  obtain ⟨result, hfinished, rfl⟩ := publish_eq_some hpublish
  refine ⟨rfl, ?_⟩
  cases hat : s.caller with
  | waiting => exact absurd hat hwaiting
  | joining =>
      simp only [OnTime, hat, hfinished] at hs
      cases hs
  | getting =>
      simp only [OnTime, hat, hfinished] at hs
      obtain ⟨result', hexited⟩ := hs
      cases hexited
  | cancelling => exact Or.inl rfl
  | joiningCancelled => exact Or.inr (Or.inl rfl)
  | ended report =>
      simp only [OnTime, hat, hfinished] at hs
      cases hs.1

/-- A run that is late stays late. -/
theorem late_step {s s' : State σ} {l : Label} (hs : Late s) (hl : l.Succeeds)
    (h : step function s l = some s') : Late s' := by
  obtain ⟨hwaiting, hjoining, hgetting⟩ := hs.caller_ne
  obtain ⟨hstored, hat⟩ := hs
  cases l with
  | worker l =>
      obtain ⟨-, hcaller⟩ := not_over_of_workerStep h
      rw [← hcaller] at hat
      refine ⟨?_, hat⟩
      rcases stored_of_workerStep h with hsame | ⟨-, -, hafter⟩
      · rw [hsame]
        exact hstored
      · exact hafter
  | caller l =>
      rcases callerStep_cases hl h with ⟨hnow, -⟩ | ⟨hnow, -⟩ | ⟨hnow, -⟩ | ⟨result, hnow, -⟩ |
        ⟨-, rfl⟩ | ⟨-, -, rfl⟩
      · exact absurd hnow hwaiting
      · exact absurd hnow hwaiting
      · exact absurd hnow hjoining
      · exact absurd hnow hgetting
      · exact ⟨hstored, Or.inr (Or.inl rfl)⟩
      · exact ⟨hstored, Or.inr (Or.inr rfl)⟩

/-- Every run is one or the other. -/
theorem onTime_or_late {start : σ} {ls : List Label} {s : State σ}
    (hcancel : ∀ l ∈ ls, l.Succeeds)
    (hrun : run (step function) (.initial start) ls = some s) :
    (Along (step function) InTime (.initial start) ls ∧ OnTime s) ∨
      (¬ Along (step function) InTime (.initial start) ls ∧ Late s) :=
  run_along_or_not (fun _ _ _ hs hl hintime h => onTime_step hs hl hintime h)
    (fun _ _ _ hs _ hlate h => late_of_not_inTime hs hlate h)
    (fun _ _ _ hs hl h => late_step hs hl h) (show OnTime (.initial start) from trivial)
    hcancel hrun

/-! ### The end of the call -/

/-- The steps a thread takes after the function. -/
def Worker.stepsLeft : Worker σ → Nat
  | .finished _ => 2
  | .published _ => 1
  | _ => 0

/-- The steps the caller takes until its end. -/
def Caller.stepsLeft : Caller → Nat
  | .waiting => 3
  | .joining => 2
  | .getting => 1
  | .cancelling => 2
  | .joiningCancelled => 1
  | .ended _ => 0

def State.stepsLeft (s : State σ) : Nat := s.worker.stepsLeft + s.caller.stepsLeft

/-- At most five steps are left: the thread stores and exits, and the caller waits, joins and gets. -/
theorem State.stepsLeft_le (s : State σ) : s.stepsLeft ≤ 5 := by
  have hworker : s.worker.stepsLeft ≤ 2 := by
    cases s.worker <;> simp [Worker.stepsLeft]
  have hcaller : s.caller.stepsLeft ≤ 3 := by
    cases s.caller <;> simp [Caller.stepsLeft]
  exact Nat.add_le_add hworker hcaller

/-- Once the function has ended, every step is one of those left. -/
theorem stepsLeft_step {s s' : State σ} {l : Label} (hended : s.worker.Ended) (hl : l.Succeeds)
    (h : step function s l = some s') :
    s'.worker.Ended ∧ s'.stepsLeft + 1 = s.stepsLeft := by
  cases l with
  | worker l =>
      rcases workerStep_cases h with ⟨t, ht, -⟩ | ⟨result, hfinished, -, rfl⟩ |
        ⟨result, hpublished, -, rfl⟩
      · exact absurd ht (hended t)
      · refine ⟨fun t ht => (by cases ht), ?_⟩
        simp only [State.stepsLeft, hfinished, Worker.stepsLeft]
        omega
      · refine ⟨fun t ht => (by cases ht), ?_⟩
        simp only [State.stepsLeft, hpublished, Worker.stepsLeft]
        omega
  | caller l =>
      rcases callerStep_cases hl h with ⟨hat, -, rfl⟩ | ⟨hat, -, rfl⟩ | ⟨hat, -, rfl⟩ |
        ⟨result, hat, -, rfl⟩ | ⟨hat, rfl⟩ | ⟨hat, -, rfl⟩ <;>
      · refine ⟨hended, ?_⟩
        simp only [State.stepsLeft, hat, Caller.stepsLeft]

/-- Once the function is over, only a few steps are left, in whatever order. -/
theorem steps_left_le {s s' : State σ} {ls : List Label} (hended : s.worker.Ended)
    (hcancel : ∀ l ∈ ls, l.Succeeds) (hrun : run (step function) s ls = some s') :
    ls.length ≤ 5 := by
  have hcount : s'.stepsLeft + ls.length = s.stepsLeft := by
    induction ls generalizing s with
    | nil =>
        cases hrun
        rfl
    | cons l ls ih =>
        obtain ⟨s₁, hs₁, hrest⟩ := run_cons_eq_some.mp hrun
        obtain ⟨hended₁, hstep⟩ := stepsLeft_step hended (hcancel l List.mem_cons_self) hs₁
        have hrest := ih hended₁ (fun l' hl' => hcancel l' (List.mem_cons_of_mem l hl')) hrest
        rw [List.length_cons]
        omega
  have := s.stepsLeft_le
  omega

/-- A thread that still has to end can take its next step. -/
theorem worker_enabled {s : State σ} (hended : s.worker.Ended) (hover : s.worker.over = false) :
    ∃ l s', Label.Succeeds l ∧ step function s l = some s' := by
  cases hworker : s.worker with
  | running t => exact absurd hworker (hended t)
  | finished result =>
      refine ⟨.worker .publish, { s with worker := .published result }, by decide, ?_⟩
      simp only [step, workerStep, hworker]
  | published result =>
      refine ⟨.worker .exit, { s with worker := .exited result }, by decide, ?_⟩
      simp only [step, workerStep, hworker]
  | exited result =>
      rw [hworker] at hover
      cases hover
  | cancelled =>
      rw [hworker] at hover
      cases hover

/-- And until the caller is at its end, one of them can be taken. -/
theorem not_stuck {s : State σ} (hended : s.worker.Ended) (hinv : OnTime s ∨ Late s) :
    (∃ report, s.caller = .ended report) ∨
      ∃ l s', Label.Succeeds l ∧ step function s l = some s' := by
  cases hat : s.caller with
  | waiting =>
      refine Or.inr ?_
      cases hstored : s.worker.stored with
      | none =>
          refine ⟨.caller (.waitReturns .timeout), { s with caller := .cancelling }, by decide, ?_⟩
          exact if_pos ⟨hat, hstored⟩
      | some result =>
          refine ⟨.caller (.waitReturns .ready), { s with caller := .joining }, by decide, ?_⟩
          exact if_pos ⟨hat, by rw [State.WaitReturns, hstored]; rfl⟩
  | joining =>
      refine Or.inr ?_
      cases hover : s.worker.over with
      | false => exact worker_enabled hended hover
      | true =>
          refine ⟨.caller .join, { s with caller := .getting }, by decide, ?_⟩
          simp only [step, callerStep, hover, hat, if_true]
  | getting =>
      refine Or.inr ?_
      rcases hinv with hs | hs
      · simp only [OnTime, hat] at hs
        obtain ⟨result, hexited⟩ := hs
        refine ⟨.caller .get, { s with caller := .ended (reportOf result) }, by decide, ?_⟩
        simp only [step, callerStep, hat, hexited, if_true]
        rfl
      · exact absurd hat hs.caller_ne.2.2
  | cancelling =>
      refine Or.inr ⟨.caller .cancel,
        { s with cancelPending := true, caller := .joiningCancelled }, by decide, ?_⟩
      exact if_pos hat
  | joiningCancelled =>
      refine Or.inr ?_
      cases hover : s.worker.over with
      | false => exact worker_enabled hended hover
      | true =>
          refine ⟨.caller .join, { s with caller := .ended (.returned .timeout) }, by decide, ?_⟩
          simp only [step, callerStep, hover, hat, if_true]
  | ended report => exact Or.inl ⟨report, rfl⟩

/-- The report of a call that has ended is truthful exactly when no result was stored too late.
-/
theorem truthful_iff_inTime {start : σ} {ls : List Label} {s : State σ} {report : Report}
    (hcancel : ∀ l ∈ ls, l.Succeeds)
    (hrun : run (step function) (.initial start) ls = some s) (hreport : s.caller = .ended report) :
    Truthful report s.worker ↔ Along (step function) InTime (.initial start) ls := by
  rcases onTime_or_late hcancel hrun with ⟨halong, hs⟩ | ⟨hlate, hstored, hat⟩
  · simp only [OnTime, hreport] at hs
    exact iff_of_true hs.2.1 halong
  · rw [hreport] at hat
    rcases hat with hat | hat | hat
    · cases hat
    · cases hat
    · cases hat
      exact iff_of_false (not_truthful_late hstored) hlate

/-- `run_with_timeout`, for every function and every order of the steps in which
`pthread_cancel` succeeds. Once the function is over, the call comes to its end, and what it
reports is what happened to the function exactly when the thread has not stored a result
after the wait gave up. -/
theorem report_truthful_iff (function : σ → Turn σ) (start : σ) {ls : List Label} {s : State σ}
    (hcancel : ∀ l ∈ ls, l.Succeeds)
    (hrun : run (step function) (.initial start) ls = some s) :
    (s.worker.Ended →
      (∀ ls' s', (∀ l ∈ ls', l.Succeeds) → run (step function) s ls' = some s' →
        ls'.length ≤ 5) ∧
      ((∃ report, s.caller = .ended report) ∨
        ∃ l s', Label.Succeeds l ∧ step function s l = some s')) ∧
      ∀ report, s.caller = .ended report →
        (Truthful report s.worker ↔ Along (step function) InTime (.initial start) ls) := by
  refine ⟨fun hended => ⟨fun ls' s' hcancel' hrun' => steps_left_le hended hcancel' hrun', ?_⟩,
    fun report hreport => truthful_iff_inTime hcancel hrun hreport⟩
  refine not_stuck hended ?_
  rcases onTime_or_late hcancel hrun with ⟨-, hs⟩ | ⟨-, hs⟩
  · exact Or.inl hs
  · exact Or.inr hs

/-- A function that blocks at a cancellation point: it is cancelled, and the report says
so. -/
theorem report_truthful_iff_frozen :
    Truthful (.returned .timeout) (.cancelled : Worker Unit) :=
  have hcancel : ∀ l ∈ [.worker .work, .caller (.waitReturns .timeout), .caller .cancel,
      .worker .actOnCancel, .caller .join], Label.Succeeds l := by decide
  have hrun : run (step fun _ : Unit => .goesOn true ()) (.initial ())
      [.worker .work, .caller (.waitReturns .timeout), .caller .cancel,
        .worker .actOnCancel, .caller .join]
        = some ⟨.cancelled, true, .ended (.returned .timeout)⟩ := by decide
  ((report_truthful_iff (fun _ : Unit => .goesOn true ()) () hcancel hrun).2 _ rfl).mpr (by decide)

/-- A function without cancellation points that takes two turns. The wait gives up after the
first one: the function runs to its end, and the call returns `timeout`. -/
theorem timeout_of_completed :
    ∃ s : State Bool,
      run (step fun last => if last then .ends (.ok ()) else .goesOn false true) (.initial false)
        [.worker .work, .caller (.waitReturns .timeout), .worker .work, .caller .cancel,
          .worker .publish, .worker .exit, .caller .join] = some s ∧
      s.caller = .ended (.returned .timeout) ∧ s.worker.result = some (.ok ()) ∧
      ¬ Truthful (.returned .timeout) s.worker := by
  refine ⟨⟨.exited (.ok ()), true, .ended (.returned .timeout)⟩, by decide, rfl, rfl, ?_⟩
  intro htruthful
  exact absurd (htruthful.cancelled rfl) (by decide)

/-! ### The constructor of `IRLoggerImpl` -/

/-- A stored result is that of the function. -/
theorem result_of_stored {worker : Worker σ} (h : worker.stored.isSome = true) :
    worker.result.isSome = true := by
  cases worker with
  | running t => cases h
  | finished result => rfl
  | published result => rfl
  | exited result => rfl
  | cancelled => cases h

/-- When every result is stored in time, the constructor returns exactly when `setVerbosity`
has returned. After a late store it throws for a call that has come to its own end, and the
destructor that would stop the logger does not run. -/
theorem irLoggerImpl_spec {start : σ} {ls : List Label} {s : State σ} {report : Report}
    (hcancel : ∀ l ∈ ls, l.Succeeds)
    (hrun : run (step function) (.initial start) ls = some s) (hreport : s.caller = .ended report) :
    (Along (step function) InTime (.initial start) ls →
        (irLoggerImpl report = .ok () ↔ s.worker.result = some (.ok ()))) ∧
      (¬ Along (step function) InTime (.initial start) ls →
        irLoggerImpl report
            = .error ⟨.other, ascii "Timeout when calling evo::IRLogger::setVerbosity"⟩ ∧
          s.worker.result.isSome = true) := by
  rcases onTime_or_late hcancel hrun with ⟨halong, hs⟩ | ⟨hlate, hstored, hat⟩
  · refine ⟨fun _ => ?_, fun hlate => absurd halong hlate⟩
    simp only [OnTime, hreport] at hs
    obtain ⟨-, htruthful, hreports⟩ := hs
    rw [← htruthful.ready_iff]
    rcases hreports with ⟨result, rfl⟩ | rfl
    · cases result with
      | ok u => exact iff_of_true rfl rfl
      | error e => exact iff_of_false (fun h => by cases h) (fun h => by cases h)
    · exact iff_of_false (fun h => by cases h) (fun h => by cases h)
  · refine ⟨fun halong => absurd halong hlate, fun _ => ?_⟩
    rw [hreport] at hat
    rcases hat with hat | hat | hat
    · cases hat
    · cases hat
    · cases hat
      exact ⟨rfl, result_of_stored hstored⟩

end RunWithTimeout
end NqmIrimager
