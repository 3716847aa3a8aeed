import NqmIrimager.Proofs.ShutterRetry

/-!
# `NqmIrimager.Proofs.FrameSession`: one caller, call after call

`getFrameMonotonic_retries` is one call. A `session` is any number of calls of
`get_frame_monotonic`, each one made after the one before it has ended, on one object and with
one list of device answers.

`outcomes` says what the calls are to be: the answers without the closed captures, in order.
`session_outcomes` is the refinement. The session ends exactly when the device has an answer
for each call, the calls end as `outcomes` says, the answers that are left stand for the rest of
it, and no callback has found the slot full.
-/

set_option autoImplicit false

namespace NqmIrimager
namespace IRImagerRealImpl

open StepRun

/-- How a call ends with an answer. A closed capture does not end it. -/
def DeviceAnswer.outcome (a : DeviceAnswer) : Option CallPc :=
  if a.deviceError ≠ .success then some (.threw (irDeviceException a.deviceError))
  else if a.flagOpen then some (.returned a.rawFrame a.timestamp)
  else none

/-- How the calls of a session end. -/
def outcomes (answers : List DeviceAnswer) : List CallPc := answers.filterMap DeviceAnswer.outcome

/-- Calls one after the other, numbered from `i`, with the answers that are left. -/
def session : Nat → IRImagerRealImpl → Nat → List DeviceAnswer →
    Option (IRImagerRealImpl × List DeviceAnswer)
  | 0, s, _, answers => some (s, answers)
  | count + 1, s, i, answers =>
      (step s (.enter i)).bind fun s₁ =>
        (getFrameMonotonic s₁ i answers).bind fun ended =>
          session count ended.1 (i + 1) ended.2

/-- What calls that end leave behind: an empty slot, no warning, and the calls that are not
among them. -/
structure Quiet (s s' : IRImagerRealImpl) (own : Nat → Prop) : Prop where
  slot : s'.thermalData_ = .null
  warned : s'.warned = s.warned
  calls : ∀ j, ¬ own j → s'.calls j = s.calls j

section
variable {s s' : IRImagerRealImpl} {i : Nat} {a : DeviceAnswer}

/-- Two stretches one after the other, each with calls of its own. -/
theorem Quiet.trans {s₁ s₂ s₃ : IRImagerRealImpl} {own own' all : Nat → Prop}
    (h : Quiet s₁ s₂ own) (h' : Quiet s₂ s₃ own') (hown : ∀ j, own j → all j)
    (hown' : ∀ j, own' j → all j) : Quiet s₁ s₃ all where
  slot := h'.slot
  warned := h'.warned.trans h.warned
  calls := fun j hj => (h'.calls j fun hc => hj (hown' j hc)).trans (h.calls j fun hc => hj (hown j hc))

/-- A request that finds the slot empty changes its own call only. -/
theorem attempt_keeps (hempty : s.thermalData_ = .null) (h : attempt s i a = some s') :
    s'.warned = s.warned ∧ ∀ j, j ≠ i → s'.calls j = s.calls j := by
  obtain ⟨s₁, hget, hrest⟩ := Option.bind_eq_some_iff.mp h
  obtain ⟨-, rfl⟩ := step_getFrame hget
  have hfirst : (s.getFrame i a.deviceError a.rawFrame a.timestamp).warned = s.warned ∧
      (s.getFrame i a.deviceError a.rawFrame a.timestamp).thermalData_ = s.thermalData_ ∧
      ∀ j, j ≠ i → (s.getFrame i a.deviceError a.rawFrame a.timestamp).calls j = s.calls j := by
    unfold getFrame
    split
    · exact ⟨rfl, rfl, fun j hj => setCall_of_ne _ _ hj⟩
    · exact ⟨rfl, rfl, fun j hj => setCall_of_ne _ _ hj⟩
  obtain ⟨hwarned, hslot, hcalls⟩ := hfirst
  split at hrest
  · obtain ⟨s₂, hprocess, hrest⟩ := run_cons_eq_some.mp hrest
    obtain ⟨rawFrame, timestamp, -, rfl⟩ := step_process hprocess
    obtain ⟨s₃, hput, hrest⟩ := run_cons_eq_some.mp hrest
    obtain rfl := step_onThermalFrame hput
    rw [run_singleton] at hrest
    -- The callback of the request finds the slot as the call found it.
    have hwarned' : ∀ s₂ : IRImagerRealImpl, s₂.thermalData_ = .null →
        (s₂.onThermalFrame a.capture).warned = s₂.warned := by
      intro s₂ hnull
      simp [onThermalFrame, hnull]
    obtain ⟨_, _, -, ⟨_, -, rfl⟩ | ⟨_, -, rfl⟩⟩ := step_take hrest
    · refine ⟨(hwarned' _ (hslot.trans hempty)).trans hwarned, fun j hj => ?_⟩
      rw [setCall_of_ne _ _ hj]
      exact (setCall_of_ne _ _ hj).trans (hcalls j hj)
    · refine ⟨(hwarned' _ (hslot.trans hempty)).trans hwarned, fun j hj => ?_⟩
      rw [setCall_of_ne _ _ hj]
      exact (setCall_of_ne _ _ hj).trans (hcalls j hj)
  · cases hrest
    exact ⟨hwarned, hcalls⟩

/-- A request: the call ends as the answer says, or is back at its start. -/
theorem attempt_outcome (hentered : s.calls i = .entered) (hempty : s.thermalData_ = .null)
    (a : DeviceAnswer) :
    ∃ s', attempt s i a = some s' ∧ s'.calls i = a.outcome.getD .entered ∧ Quiet s s' (· = i) := by
  have hcases : ∃ s', attempt s i a = some s' ∧ s'.calls i = a.outcome.getD .entered ∧
      s'.thermalData_ = .null := by
    by_cases hsuccess : a.deviceError = .success
    · obtain ⟨s', hattempt, hnull, hcalls⟩ := attempt_success hentered hsuccess
      refine ⟨s', hattempt, ?_, hnull⟩
      simp only [hcalls, DeviceAnswer.outcome, hsuccess, ne_eq, not_true_eq_false, if_false]
      split
      · rfl
      · rfl
    · obtain ⟨s', hattempt, hcalls, hslot⟩ := attempt_error hentered hsuccess
      refine ⟨s', hattempt, ?_, hslot.trans hempty⟩
      rw [hcalls, DeviceAnswer.outcome, if_pos hsuccess]
      rfl
  obtain ⟨s', hattempt, hcalls, hnull⟩ := hcases
  obtain ⟨hwarned, hothers⟩ := attempt_keeps hempty hattempt
  exact ⟨s', hattempt, hcalls, hnull, hwarned, hothers⟩

/-- A call that has ended is not at its start. -/
theorem outcome_ne_entered {pc : CallPc} (h : a.outcome = some pc) : pc ≠ .entered := by
  unfold DeviceAnswer.outcome at h
  split at h
  · cases h
    simp
  · split at h
    · cases h
      simp
    · cases h

/-! ### One call -/

/-- A call without an answer that ends it goes on asking. -/
theorem getFrameMonotonic_none {answers : List DeviceAnswer} (hentered : s.calls i = .entered)
    (hempty : s.thermalData_ = .null) (hnone : outcomes answers = []) :
    getFrameMonotonic s i answers = none := by
  induction answers generalizing s with
  | nil => rfl
  | cons a answers ih =>
      obtain ⟨s₁, hattempt, hcalls, hquiet⟩ := attempt_outcome hentered hempty a
      rw [outcomes, List.filterMap_cons] at hnone
      cases hout : a.outcome with
      | some pc =>
          rw [hout] at hnone
          cases hnone
      | none =>
          rw [hout] at hnone hcalls
          rw [getFrameMonotonic, hattempt, Option.bind_some]
          simp only [hcalls, Option.getD_none]
          exact ih hcalls hquiet.slot hnone

/-- A call ends with the first answer that ends it, and leaves the answers after that one. -/
theorem getFrameMonotonic_outcome {answers : List DeviceAnswer} {pc : CallPc} {pcs : List CallPc}
    (hentered : s.calls i = .entered) (hempty : s.thermalData_ = .null)
    (hsome : outcomes answers = pc :: pcs) :
    ∃ s' rest, getFrameMonotonic s i answers = some (s', rest) ∧ rest <:+ answers ∧
      outcomes rest = pcs ∧ s'.calls i = pc ∧ Quiet s s' (· = i) := by
  induction answers generalizing s with
  | nil => cases hsome
  | cons a answers ih =>
      obtain ⟨s₁, hattempt, hcalls, hquiet⟩ := attempt_outcome hentered hempty a
      rw [outcomes, List.filterMap_cons] at hsome
      cases hout : a.outcome with
      | some pc₁ =>
          rw [hout] at hsome hcalls
          obtain ⟨rfl, hpcs⟩ := List.cons.inj hsome
          have hends : s₁.calls i ≠ .entered := by
            rw [hcalls]
            exact outcome_ne_entered hout
          exact ⟨s₁, answers, getFrameMonotonic_ends answers hattempt hends,
            List.suffix_cons a answers, hpcs, hcalls, hquiet⟩
      | none =>
          -- A closed capture: the call goes on with the next answer.
          rw [hout] at hsome hcalls
          obtain ⟨s', rest, hcall, hrest, hpcs, hpc, hquiet'⟩ := ih hcalls hquiet.slot hsome
          refine ⟨s', rest, ?_, hrest.trans (List.suffix_cons a answers), hpcs, hpc,
            hquiet.trans hquiet' (fun _ => id) (fun _ => id)⟩
          rw [getFrameMonotonic, hattempt, Option.bind_some]
          simp only [hcalls, Option.getD_none]
          exact hcall

/-! ### A session -/

/-- The calls of a session. -/
def Within (i count j : Nat) : Prop := i ≤ j ∧ j < i + count

/-- With enough answers the calls end one after the other, each with the next outcome. -/
theorem session_runs (count : Nat) {answers : List DeviceAnswer} (hempty : s.thermalData_ = .null)
    (hidle : ∀ j, i ≤ j → s.calls j = .idle) (hlen : count ≤ (outcomes answers).length) :
    ∃ s' rest, session count s i answers = some (s', rest) ∧ rest <:+ answers ∧
      outcomes rest = (outcomes answers).drop count ∧
      (∀ j, j < count → some (s'.calls (i + j)) = (outcomes answers)[j]?) ∧
      Quiet s s' (Within i count) := by
  induction count generalizing s i answers with
  | zero =>
      exact ⟨s, answers, rfl, List.suffix_refl _, rfl, fun _ h => absurd h (Nat.not_lt_zero _),
        hempty, rfl, fun _ _ => rfl⟩
  | succ count ih =>
      cases hout : outcomes answers with
      | nil =>
          rw [hout] at hlen
          exact absurd hlen (Nat.not_succ_le_zero _)
      | cons pc pcs =>
          have henter : step s (.enter i) = some (s.setCall i .entered) := by
            simp only [step, hidle i (Nat.le_refl i)]
          obtain ⟨s₁, rest₁, hcall, hrest₁, hpcs, hpc, hquiet⟩ :=
            getFrameMonotonic_outcome (setCall_self s i .entered) hempty hout
          have hidle₁ : ∀ j, i + 1 ≤ j → s₁.calls j = .idle := by
            intro j hj
            rw [hquiet.calls j (by omega), setCall_of_ne _ _ (by omega)]
            exact hidle j (by omega)
          rw [hout, List.length_cons, ← hpcs] at hlen
          obtain ⟨s', rest, hsession, hrest, hdrop, hends, hquiet'⟩ :=
            ih hquiet.slot hidle₁ (Nat.le_of_succ_le_succ hlen)
          refine ⟨s', rest, ?_, hrest.trans hrest₁, ?_, ?_, ?_⟩
          · rw [session, henter, Option.bind_some, hcall, Option.bind_some]
            exact hsession
          · rw [hdrop, hpcs]
            rfl
          · intro j hj
            cases j with
            | zero =>
                -- The later calls leave the first one alone.
                rw [Nat.add_zero, hquiet'.calls i (fun h => absurd h.1 (by omega)), hpc]
                rfl
            | succ j =>
                have hlater := hends j (Nat.lt_of_succ_lt_succ hj)
                rw [hpcs] at hlater
                rw [show i + (j + 1) = i + 1 + j by omega, List.getElem?_cons_succ]
                exact hlater
          · refine ⟨hquiet'.slot, hquiet'.warned.trans hquiet.warned, fun j hj => ?_⟩
            have hne : j ≠ i := by
              rintro rfl
              exact hj ⟨Nat.le_refl _, by omega⟩
            rw [hquiet'.calls j (fun h => hj ⟨by have := h.1; omega, by have := h.2; omega⟩),
              hquiet.calls j hne, setCall_of_ne _ _ hne]

/-- With too few answers some call goes on asking the device. -/
theorem session_none (count : Nat) {answers : List DeviceAnswer} (hempty : s.thermalData_ = .null)
    (hidle : ∀ j, i ≤ j → s.calls j = .idle) (hlen : (outcomes answers).length < count) :
    session count s i answers = none := by
  induction count generalizing s i answers with
  | zero => exact absurd hlen (Nat.not_lt_zero _)
  | succ count ih =>
      have henter : step s (.enter i) = some (s.setCall i .entered) := by
        simp only [step, hidle i (Nat.le_refl i)]
      rw [session, henter, Option.bind_some]
      cases hout : outcomes answers with
      | nil => rw [getFrameMonotonic_none (setCall_self s i .entered) hempty hout, Option.bind_none]
      | cons pc pcs =>
          obtain ⟨s₁, rest₁, hcall, -, hpcs, -, hquiet⟩ :=
            getFrameMonotonic_outcome (setCall_self s i .entered) hempty hout
          rw [hcall, Option.bind_some]
          rw [hout, List.length_cons, ← hpcs] at hlen
          refine ih hquiet.slot (fun j hj => ?_) (Nat.lt_of_succ_lt_succ hlen)
          rw [hquiet.calls j (by omega), setCall_of_ne _ _ (by omega)]
          exact hidle j (by omega)

end

/-- Two calls: the shutter closes for a capture, and the device is gone in the second call. -/
example : (session 2 initial 0 [⟨.success, 5, 10, false⟩, ⟨.success, 6, 20, true⟩,
      ⟨.disconnected, 0, 0, false⟩, ⟨.success, 7, 30, true⟩]).map (·.2)
    = some [⟨.success, 7, 30, true⟩] := rfl

end IRImagerRealImpl
end NqmIrimager
