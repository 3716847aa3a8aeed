import NqmIrimager.Lib.StepProgress
import NqmIrimager.Proofs.TimeoutReports

/-!
# `NqmIrimager.Proofs.TimeoutLifetime`: how long the thread lives, and whether the call ends

The function that `IRLoggerImpl` runs has a pointer into a temporary string, which lives as long
as the call of `run_with_timeout`. `outlives_iff` is the exact condition for the thread to live
longer: a `pthread_cancel` that fails. In every other run the thread is over when the call ends,
and nothing can move any more.

`destroyIrLoggerImpl_iff` is what follows for the destructor, which must not throw: each way out
of the wait (`way_run`) has its own end.

The price is the `join` after the cancelation. `Stops` says that the function comes to its end or
to a cancelation point, and `canReach_ended_iff` that the call can come to its end exactly as
long as it does. A `setVerbosity` that is stuck where no thread can be cancelled, as in the lock
of a mutex, hangs the call with it.
-/

set_option autoImplicit false

namespace NqmIrimager
namespace RunWithTimeout

open StepRun

variable {σ : Type} {function : σ → Turn σ}

/-- What holds in every run, also when `pthread_cancel` fails. -/
structure Joins (s : State σ) : Prop where
  joining : s.caller = .joining → s.worker.stored.isSome = true
  getting : s.caller = .getting → ∃ result, s.worker = .exited result
  pending : s.caller = .joiningCancelled → s.cancelPending = true
  ended : ∀ report, s.caller = .ended report →
    (∃ errnoMessage, report = .threw (failedToStop errnoMessage)) ∨
    (report = .returned .timeout ∧ s.worker.over = true) ∨
    ∃ result, report = reportOf result ∧ s.worker = .exited result

/-- After a report that is not its own, the thread is over. -/
theorem Joins.over {s : State σ} {report : Report} (h : Joins s) (hended : s.caller = .ended report)
    (hreport : ∀ errnoMessage, report ≠ .threw (failedToStop errnoMessage)) :
    s.worker.over = true := by
  rcases h.ended report hended with ⟨m, hfailed⟩ | ⟨-, hover⟩ | ⟨result, -, hexited⟩
  · exact absurd hfailed (hreport m)
  · exact hover
  · rw [hexited]
    rfl

/-- The caller waits at the start. -/
theorem joins_initial (start : σ) : Joins (State.initial start) where
  joining := nofun
  getting := nofun
  pending := nofun
  ended := nofun

/-- What a step of the caller does, with the `pthread_cancel` that fails. -/
theorem callerStep_all_cases {s s' : State σ} {l : CallerLabel} (h : callerStep s l = some s') :
    Label.Succeeds (.caller l) ∨
      ∃ errnoMessage, l = .cancelFails errnoMessage ∧ s.caller = .cancelling ∧
        s' = { s with caller := .ended (.threw (failedToStop errnoMessage)) } := by
  cases l with
  | cancelFails errnoMessage =>
      simp only [callerStep] at h
      split at h
      · rename_i hcaller
        exact Or.inr ⟨errnoMessage, rfl, hcaller, (Option.some.inj h).symm⟩
      · cases h
  | _ => exact Or.inl trivial

/-- A step of the thread keeps them: what it has stored stays stored. -/
theorem joins_workerStep {s s' : State σ} {l : WorkerLabel} (hs : Joins s)
    (h : workerStep function s l = some s') : Joins s' := by
  obtain ⟨hover, hcaller⟩ := not_over_of_workerStep h
  have hpending : s'.cancelPending = s.cancelPending := by
    rcases workerStep_cases h with ⟨t, -, ⟨t', rfl⟩ | ⟨result, rfl⟩ | rfl⟩ |
      ⟨result, -, -, rfl⟩ | ⟨result, -, -, rfl⟩ <;> rfl
  constructor
  · intro hat
    have hstored := hs.joining (hcaller ▸ hat)
    rcases stored_of_workerStep h with hsame | ⟨-, -, hafter⟩
    · rw [hsame]
      exact hstored
    · exact hafter
  · intro hat
    obtain ⟨result, hexited⟩ := hs.getting (hcaller ▸ hat)
    rw [hexited] at hover
    cases hover
  · intro hat
    rw [hpending]
    exact hs.pending (hcaller ▸ hat)
  · intro report hat
    by_cases hreport : ∃ errnoMessage, report = .threw (failedToStop errnoMessage)
    · exact Or.inl hreport
    · rw [hs.over (hcaller ▸ hat) fun m h => hreport ⟨m, h⟩] at hover
      cases hover

/-- A step of the caller keeps them: it ends with what it has joined, or with the failed
`pthread_cancel`. -/
theorem joins_callerStep {s s' : State σ} {l : CallerLabel} (hs : Joins s)
    (h : callerStep s l = some s') : Joins s' := by
  rcases callerStep_all_cases h with hl | ⟨m, -, -, rfl⟩
  · rcases callerStep_cases hl h with ⟨-, hstored, rfl⟩ | ⟨-, -, rfl⟩ | ⟨hat, hover, rfl⟩ |
      ⟨result, hat, hresult, rfl⟩ | ⟨-, rfl⟩ | ⟨-, hover, rfl⟩
    · exact ⟨fun _ => hstored, nofun, nofun, nofun⟩
    · exact ⟨nofun, nofun, nofun, nofun⟩
    · obtain ⟨result, hresult⟩ := Option.isSome_iff_exists.mp (hs.joining hat)
      exact ⟨nofun, fun _ => ⟨result, exited_of_over hover hresult⟩, nofun, nofun⟩
    · obtain ⟨result', hexited⟩ := hs.getting hat
      rw [hexited] at hresult
      obtain rfl := Option.some.inj hresult
      refine ⟨nofun, nofun, nofun, fun report hat => Or.inr (Or.inr ⟨result', ?_, hexited⟩)⟩
      exact (Caller.ended.inj hat).symm
    · exact ⟨nofun, nofun, fun _ => rfl, nofun⟩
    · refine ⟨nofun, nofun, nofun, fun report hat => Or.inr (Or.inl ⟨?_, hover⟩)⟩
      exact (Caller.ended.inj hat).symm
  · exact ⟨nofun, nofun, nofun, fun _ hat => Or.inl ⟨m, (Caller.ended.inj hat).symm⟩⟩

/-- Every step keeps them. -/
theorem joins_step (s : State σ) (l : Label) (s' : State σ) (hs : Joins s)
    (h : step function s l = some s') : Joins s' := by
  cases l with
  | worker l => exact joins_workerStep hs h
  | caller l => exact joins_callerStep hs h

/-! ### The way out of the wait -/

/-- The three ways: with the result, by a cancelation, and by one that fails, with the exception
that it is answered with. -/
inductive Way where
  | result
  | cancelled
  | failed (e : Exception)
deriving DecidableEq

/-- The way that a step decides on. -/
def Label.way : Label → Option Way
  | .caller (.waitReturns .ready) => some .result
  | .caller .cancel => some .cancelled
  | .caller (.cancelFails errnoMessage) => some (.failed (failedToStop errnoMessage))
  | _ => none

/-- The way that led to a report. -/
def Report.way : Report → Option Way
  | .returned .ready => some .result
  | .rethrew _ => some .result
  | .returned .timeout => some .cancelled
  | .returned .deferred => none
  | .threw e => some (.failed e)

/-- The way that a caller is on. -/
def Caller.way : Caller → Option Way
  | .joining => some .result
  | .getting => some .result
  | .joiningCancelled => some .cancelled
  | .ended report => report.way
  | _ => none

/-- The error message can be read off the exception. -/
theorem failedToStop_inj {m m' : Bytes} : failedToStop m = failedToStop m' ↔ m = m' := by
  simp [failedToStop]

/-- Only a `wait_for` that says `ready` decides for the result. -/
theorem label_way_result {l : Label} :
    l.way = some .result ↔ l = .caller (.waitReturns .ready) := by
  unfold Label.way
  split <;> simp_all

/-- Only a `pthread_cancel` that succeeds decides for the cancelation. -/
theorem label_way_cancelled {l : Label} : l.way = some .cancelled ↔ l = .caller .cancel := by
  unfold Label.way
  split <;> simp_all

/-- Only a `pthread_cancel` that fails with this message decides for its exception. -/
theorem label_way_failed {l : Label} {m : Bytes} :
    l.way = some (.failed (failedToStop m)) ↔ l = .caller (.cancelFails m) := by
  unfold Label.way
  split <;> simp_all [failedToStop_inj]

/-- Only the exception itself is reported by the way that fails with it. -/
theorem report_way_failed {report : Report} {e : Exception} :
    report.way = some (.failed e) ↔ report = .threw e := by
  unfold Report.way
  split <;> simp_all

/-- A report of `future.get()` came with the result. -/
theorem way_reportOf (result : Result) : (reportOf result).way = some .result := by
  cases result <;> rfl

/-- Each step keeps the way, or decides on it. -/
theorem way_step {s s' : State σ} {l : Label} (h : step function s l = some s') :
    (l.way = none ∧ s'.caller.way = s.caller.way) ∨
      (s.caller.way = none ∧ s'.caller.way = l.way) := by
  cases l with
  | worker l => exact .inl ⟨rfl, congrArg Caller.way (not_over_of_workerStep h).2⟩
  | caller l =>
      cases l with
      | waitReturns status =>
          obtain ⟨hwait, h⟩ := Option.ite_none_right_eq_some.mp h
          obtain rfl := Option.some.inj h
          cases status with
          | ready => exact .inr ⟨by rw [hwait.1]; rfl, rfl⟩
          | timeout => exact .inl ⟨rfl, by rw [hwait.1]; rfl⟩
          | deferred => exact hwait.2.elim
      | join =>
          simp only [step, callerStep] at h
          split at h
          · split at h
            · rename_i hat
              obtain rfl := Option.some.inj h
              exact .inl ⟨rfl, by rw [hat]; rfl⟩
            · rename_i hat
              obtain rfl := Option.some.inj h
              exact .inl ⟨rfl, by rw [hat]; rfl⟩
            · cases h
          · cases h
      | get =>
          obtain ⟨hat, h⟩ := Option.ite_none_right_eq_some.mp h
          obtain ⟨result, -, rfl⟩ := Option.map_eq_some_iff.mp h
          exact .inl ⟨rfl, by rw [hat]; exact way_reportOf result⟩
      | cancel =>
          obtain ⟨hat, h⟩ := Option.ite_none_right_eq_some.mp h
          obtain rfl := Option.some.inj h
          exact .inr ⟨by rw [hat]; rfl, rfl⟩
      | cancelFails errnoMessage =>
          obtain ⟨hat, h⟩ := Option.ite_none_right_eq_some.mp h
          obtain rfl := Option.some.inj h
          exact .inr ⟨by rw [hat]; rfl, rfl⟩

/-- The way of a caller is the one that a step of the run has decided on. -/
theorem way_run {start : σ} {ls : List Label} {s : State σ}
    (hrun : run (step function) (.initial start) ls = some s) (w : Way) :
    s.caller.way = some w ↔ ∃ l ∈ ls, l.way = some w := by
  have hstep : ∀ (s : State σ) (l : Label) (s' : State σ), step function s l = some s' →
      (s'.caller.way = some w ↔ s.caller.way = some w ∨ l.way = some w) := by
    intro s l s' h
    rcases way_step h with ⟨hl, hsame⟩ | ⟨hnone, hl⟩
    · rw [hsame, hl]
      simp
    · rw [hnone, hl]
      simp
  rw [run_marks hstep hrun]
  simp [State.initial, Caller.way]

/-! ### The thread after the call -/

/-- A thread that is not over has a step. -/
theorem workerStep_enabled (function : σ → Turn σ) {s : State σ} (hover : s.worker.over = false) :
    ∃ l s', workerStep function s l = some s' := by
  cases hworker : s.worker with
  | running t =>
      refine ⟨.work, ?_⟩
      simp only [workerStep, hworker]
      split
      · exact ⟨_, rfl⟩
      · exact ⟨_, rfl⟩
  | finished result => exact ⟨.publish, by simp [workerStep, hworker]⟩
  | published result => exact ⟨.exit, by simp [workerStep, hworker]⟩
  | exited result | cancelled =>
      rw [hworker] at hover
      cases hover

/-- A run in which the call has ended. It threw that it could not stop the thread, with the message
of `errno`, exactly when a `pthread_cancel` of the run failed with that `errno`. Then a thread that
is not over goes on, after the string it has been given is gone. Otherwise the thread is over, and
neither party can move. -/
theorem outlives_iff (function : σ → Turn σ) (start : σ) {ls : List Label} {s : State σ}
    {report : Report} (hrun : run (step function) (.initial start) ls = some s)
    (hended : s.caller = .ended report) :
    (∀ errnoMessage, report = .threw (failedToStop errnoMessage) ↔
        .caller (.cancelFails errnoMessage) ∈ ls) ∧
      ((∀ errnoMessage, report ≠ .threw (failedToStop errnoMessage)) →
        s.worker.over = true ∧ ∀ l, step function s l = none) ∧
      ((∃ errnoMessage, report = .threw (failedToStop errnoMessage)) → s.worker.over = false →
        ∃ l s', step function s (.worker l) = some s' ∧ s'.caller = .ended report) := by
  have hjoins := run_invariant joins_step (joins_initial start) hrun
  refine ⟨?_, ?_, ?_⟩
  · intro errnoMessage
    have hway := way_run hrun (.failed (failedToStop errnoMessage))
    rw [hended] at hway
    simp only [label_way_failed, exists_eq_right] at hway
    exact report_way_failed.symm.trans hway
  · intro hreport
    have hover := hjoins.over hended hreport
    refine ⟨hover, fun l => Option.eq_none_iff_forall_ne_some.mpr fun s' h => ?_⟩
    cases l with
    | worker l =>
        rw [(not_over_of_workerStep h).1] at hover
        cases hover
    | caller l =>
        -- Every step of the caller starts somewhere else.
        rcases callerStep_all_cases h with hl | ⟨m, -, hat, -⟩
        · rcases callerStep_cases hl h with ⟨hat, -⟩ | ⟨hat, -⟩ | ⟨hat, -⟩ | ⟨result, hat, -⟩ |
            ⟨hat, -⟩ | ⟨hat, -⟩
          all_goals
            rw [hended] at hat
            cases hat
        · rw [hended] at hat
          cases hat
  · intro _ hover
    obtain ⟨l, s', h⟩ := workerStep_enabled function hover
    exact ⟨l, s', h, (not_over_of_workerStep h).2.trans hended⟩

/-- `pthread_cancel` fails for a function that then takes its last turn. -/
theorem outlives_iff_failedCancel :
    ∃ s : State Bool,
      run (step fun last => if last then .ends (.ok ()) else .goesOn false true) (.initial false)
        [.caller (.waitReturns .timeout), .caller (.cancelFails (ascii "No such process")),
          .worker .work] = some s ∧
      s.worker = .running true ∧
      ∃ l s', step (fun last => if last then Turn.ends (.ok ()) else .goesOn false true) s
          (.worker l) = some s' ∧
        s'.caller = .ended (.threw (failedToStop (ascii "No such process"))) := by
  have hrun : run (step fun last => if last then .ends (.ok ()) else .goesOn false true)
      (.initial false)
      [.caller (.waitReturns .timeout), .caller (.cancelFails (ascii "No such process")),
        .worker .work]
        = some ⟨.running true, false,
            .ended (.threw (failedToStop (ascii "No such process")))⟩ := by decide
  exact ⟨_, hrun, rfl, (outlives_iff _ false hrun rfl).2.2 ⟨_, rfl⟩ rfl⟩

/-! ### The destructor of `IRLoggerImpl` -/

/-- From there the function comes to its end or to a cancelation point. -/
inductive Stops (function : σ → Turn σ) : σ → Prop where
  | ends {t : σ} {result : Result} (h : function t = .ends result) : Stops function t
  | cancellationPoint {t t' : σ} (h : function t = .goesOn true t') : Stops function t
  | goesOn {t t' : σ} (h : function t = .goesOn false t') (hstops : Stops function t') :
      Stops function t

/-- The caller has returned or thrown. -/
def Done (s : State σ) : Prop := ∃ report, s.caller = .ended report

/-- Nothing follows a `pthread_cancel` that failed. -/
theorem done_of_way_failed {s : State σ} {e : Exception} (h : s.caller.way = some (.failed e)) :
    Done s := by
  cases hcaller : s.caller with
  | ended report => exact ⟨report, hcaller⟩
  | _ =>
      rw [hcaller] at h
      cases h

/-- A function that does not stop goes on, never at a cancelation point. -/
theorem turn_of_not_stops {t : σ} (h : ¬ Stops function t) :
    ∃ t', function t = .goesOn false t' ∧ ¬ Stops function t' := by
  cases hturn : function t with
  | ends result => exact absurd (.ends hturn) h
  | goesOn cancellationPoint t' =>
      cases cancellationPoint with
      | true => exact absurd (.cancellationPoint hturn) h
      | false => exact ⟨t', rfl, fun hstops => h (.goesOn hturn hstops)⟩

/-- The function does not stop, and the caller is not at its end. -/
def Frozen (function : σ → Turn σ) (s : State σ) : Prop :=
  ¬ Done s ∧ ∃ t, s.worker = .running t ∧ ¬ Stops function t

/-- A frozen call stays frozen while no `pthread_cancel` fails. -/
theorem frozen_step (s : State σ) (l : Label) (s' : State σ) (hs : Frozen function s)
    (hl : l.Succeeds) (h : step function s l = some s') : Frozen function s' := by
  obtain ⟨hdone, t, hworker, hstops⟩ := hs
  cases l with
  | worker l =>
      obtain ⟨-, hcaller⟩ := not_over_of_workerStep h
      obtain ⟨t', hturn, hstops'⟩ := turn_of_not_stops hstops
      have hdone' : ¬ Done s' := by
        rintro ⟨report, hreport⟩
        exact hdone ⟨report, hcaller ▸ hreport⟩
      cases l with
      | work =>
          simp only [step, workerStep, hworker, hturn, Option.some.injEq] at h
          subst h
          exact ⟨hdone', t', rfl, hstops'⟩
      | actOnCancel => simp [step, workerStep, hworker, hturn] at h
      | publish => simp [step, workerStep, hworker] at h
      | exit => simp [step, workerStep, hworker] at h
  | caller l =>
      -- The caller can give up and cancel, and then waits for the thread.
      have hover : s.worker.over = false := by
        rw [hworker]
        rfl
      rcases callerStep_cases hl h with ⟨-, hstored, -⟩ | ⟨-, -, rfl⟩ | ⟨-, hnow, -⟩ |
        ⟨result, -, hstored, -⟩ | ⟨-, rfl⟩ | ⟨-, hnow, -⟩
      · rw [hworker] at hstored
        cases hstored
      · exact ⟨(by rintro ⟨_, h⟩; cases h), t, hworker, hstops⟩
      · rw [hnow] at hover
        cases hover
      · rw [hworker] at hstored
        cases hstored
      · exact ⟨(by rintro ⟨_, h⟩; cases h), t, hworker, hstops⟩
      · rw [hnow] at hover
        cases hover

/-- What the other module knows of runs in which no `pthread_cancel` fails. -/
theorem live_step {s s' : State σ} {l : Label} (hs : OnTime s ∨ Late s) (hl : l.Succeeds)
    (h : step function s l = some s') : OnTime s' ∨ Late s' := by
  rcases hs with hs | hs
  · by_cases hintime : InTime s l
    · exact Or.inl (onTime_step hs hl hintime h)
    · exact Or.inr (late_of_not_inTime hs hintime h)
  · exact Or.inr (late_step hs hl h)

/-- Once the function is over, the call can come to its end. -/
theorem canReach_done_of_ended {s : State σ} (hs : OnTime s ∨ Late s) (hended : s.worker.Ended) :
    CanReach (step function) Label.Succeeds Done s := by
  refine @canReach_of_rank _ _ (step function) Label.Succeeds Done
    (fun s => (OnTime s ∨ Late s) ∧ s.worker.Ended) State.stepsLeft ?_ s ⟨hs, hended⟩
  rintro s₁ ⟨hs₁, hended₁⟩ hdone
  rcases @not_stuck _ function _ hended₁ hs₁ with hended' | ⟨l, s₂, hl, hstep⟩
  · exact absurd hended' hdone
  · obtain ⟨hended₂, hleft⟩ := stepsLeft_step hended₁ hl hstep
    exact ⟨l, s₂, hl, hstep, ⟨live_step hs₁ hl hstep, hended₂⟩, by omega⟩

/-- A function that stops lets the call come to its end, if need be by a cancelation. -/
theorem canReach_done_of_stops {t : σ} (hstops : Stops function t) {s : State σ}
    (hworker : s.worker = .running t) (hs : OnTime s ∨ Late s) (hjoins : Joins s) :
    CanReach (step function) Label.Succeeds Done s := by
  induction hstops generalizing s with
  | @ends t result hturn =>
      have hstep : step function s (.worker .work)
          = some { s with worker := .finished result } := by
        simp [step, workerStep, hworker, hturn]
      exact (canReach_done_of_ended (live_step hs (by decide) hstep) (fun _ h => by cases h)).of_step (by decide) hstep
  | @goesOn t t' hturn _ ih =>
      have hstep : step function s (.worker .work) = some { s with worker := .running t' } := by
        simp [step, workerStep, hworker, hturn]
      exact (ih rfl (live_step hs (by decide) hstep) (joins_step _ _ _ hjoins hstep)).of_step
        (by decide) hstep
  | @cancellationPoint t t' hturn =>
      -- The thread acts on the request, and the caller that has made it joins it.
      have hcancelled : ∀ s : State σ, s.worker = .running t → s.cancelPending = true →
          (OnTime s ∨ Late s) → CanReach (step function) Label.Succeeds Done s := by
        intro s hworker hpending hs
        have hstep : step function s (.worker .actOnCancel) = some { s with worker := .cancelled } := by
          simp [step, workerStep, hworker, hturn, hpending]
        exact (canReach_done_of_ended (live_step hs (by decide) hstep) (fun _ h => by cases h)).of_step (by decide)
          hstep
      have hcancel : ∀ s : State σ, s.worker = .running t → s.caller = .cancelling →
          (OnTime s ∨ Late s) → CanReach (step function) Label.Succeeds Done s := by
        intro s hworker hat hs
        have hstep : step function s (.caller .cancel)
            = some { s with cancelPending := true, caller := .joiningCancelled } := if_pos hat
        refine CanReach.of_step (by decide) hstep ?_
        exact hcancelled { s with cancelPending := true, caller := .joiningCancelled } hworker rfl
          (live_step hs (by decide) hstep)
      cases hat : s.caller with
      | waiting =>
          have hstored : s.worker.stored = none := by
            rw [hworker]
            rfl
          have hstep : step function s (.caller (.waitReturns .timeout))
              = some { s with caller := .cancelling } := if_pos ⟨hat, hstored⟩
          refine CanReach.of_step (by decide) hstep ?_
          exact hcancel { s with caller := .cancelling } hworker rfl
            (live_step hs (by decide) hstep)
      | joining =>
          have hstored := hjoins.joining hat
          rw [hworker] at hstored
          cases hstored
      | getting =>
          obtain ⟨result, hexited⟩ := hjoins.getting hat
          rw [hworker] at hexited
          cases hexited
      | cancelling => exact hcancel s hworker hat hs
      | joiningCancelled => exact hcancelled s hworker (hjoins.pending hat) hs
      | ended report => exact .of_goal ⟨report, hat⟩

/-- From every state of every run, the call can come to its end without a `pthread_cancel` that
fails, if and only if it has or the function is not frozen. -/
theorem canReach_ended_iff (function : σ → Turn σ) (start : σ) {s : State σ}
    (hs : Reachable (step function) (.initial start) s) :
    CanReach (step function) Label.Succeeds Done s ↔
      Done s ∨ ∀ t, s.worker = .running t → Stops function t := by
  obtain ⟨ls, hrun⟩ := hs
  have hjoins := run_invariant joins_step (joins_initial start) hrun
  constructor
  · intro hreach
    by_cases hdone : Done s
    · exact Or.inl hdone
    · refine Or.inr fun t hworker => ?_
      by_contra hstops
      refine not_canReach_of_stuck frozen_step (fun _ hfrozen => hfrozen.1) ?_ hreach
      exact ⟨hdone, t, hworker, hstops⟩
  · rintro (hdone | hstops)
    · exact .of_goal hdone
    · by_cases hfailed : ∃ m, .caller (.cancelFails m) ∈ ls
      · obtain ⟨m, hm⟩ := hfailed
        exact .of_goal (done_of_way_failed ((way_run hrun _).mpr ⟨_, hm, rfl⟩))
      · have hall : ∀ l ∈ ls, l.Succeeds := by
          intro l hl
          cases l with
          | worker l => exact trivial
          | caller l =>
              cases l with
              | cancelFails m => exact absurd ⟨m, hl⟩ hfailed
              | _ => exact trivial
        have hlive : OnTime s ∨ Late s :=
          (onTime_or_late hall hrun).imp And.right And.right
        cases hworker : s.worker with
        | running t => exact canReach_done_of_stops (hstops t hworker) hworker hlive hjoins
        | _ => exact canReach_done_of_ended hlive fun _ h => by rw [hworker] at h; cases h

/-- A function that waits for a mutex that nobody unlocks: the call has cancelled it, and hangs
in the `join`. -/
theorem canReach_ended_iff_mutex :
    ∃ s : State Unit,
      run (step fun _ : Unit => .goesOn false ()) (.initial ())
        [.worker .work, .caller (.waitReturns .timeout), .caller .cancel] = some s ∧
      (CanReach (step fun _ : Unit => .goesOn false ()) Label.Succeeds Done s ↔
        Done s ∨ ∀ t, s.worker = .running t → Stops (fun _ : Unit => .goesOn false ()) t) := by
  have hrun : run (step fun _ : Unit => .goesOn false ()) (.initial ())
      [.worker .work, .caller (.waitReturns .timeout), .caller .cancel]
        = some ⟨.running (), true, .joiningCancelled⟩ := by decide
  exact ⟨_, hrun, canReach_ended_iff _ () ⟨_, hrun⟩⟩

/-- And so it is: no run of this function stops. -/
example : ∀ t, ¬ Stops (fun _ : Unit => .goesOn false ()) t := by
  intro t h
  induction h with
  | ends h => cases h
  | cancellationPoint h => cases h
  | goesOn _ _ ih => exact ih

end RunWithTimeout
end NqmIrimager
