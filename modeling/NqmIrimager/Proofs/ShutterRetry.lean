import NqmIrimager.IRImagerRealImpl
import NqmIrimager.Lib.StepRun

/-!
# `NqmIrimager.Proofs.ShutterRetry`: one caller and a shutter that closes

A call of `get_frame_monotonic` alone on the object, and a device that answers each
request from a list. `attempt` takes the steps of the object from one request to the next:
`process()` invokes `onThermalFrame` once, so the slot is filled before the wait.
`getFrameMonotonic` repeats it while the call goes back to its start.

`getFrameMonotonic_retries` is the run over any number of closed captures. It takes one
answer for each of them and one more, and its result is that of the last answer alone.
`getFrameMonotonic_isRun` says that the call is a run of the object like any other.
-/

set_option autoImplicit false

namespace NqmIrimager
namespace IRImagerRealImpl

open StepRun

/-- What the device answers to one request: the result of `getFrame`, the raw frame with
its timestamp, and the shutter flag when `process()` invokes the callback. -/
structure DeviceAnswer where
  deviceError : IRDeviceError
  rawFrame : RawFrame
  timestamp : Timestamp
  flagOpen : Bool
deriving DecidableEq, Repr

/-- The capture `process()` hands to the callback. -/
def DeviceAnswer.capture (a : DeviceAnswer) : Capture := ⟨a.rawFrame, a.flagOpen⟩

/-- One request of call `i`: `getFrame`, and after a success `process()` with its one
callback and the end of the wait. -/
def attempt (s : IRImagerRealImpl) (i : Nat) (a : DeviceAnswer) : Option IRImagerRealImpl :=
  (step s (.getFrame i a.deviceError a.rawFrame a.timestamp)).bind fun s₁ =>
    match s₁.calls i with
    | .gotFrame _ _ => run step s₁ [.process i, .onThermalFrame a.capture, .take i]
    | _ => some s₁

/-- `get_frame_monotonic()` as call `i`, with the answers it has not used. A retry is the
function from its start. -/
def getFrameMonotonic (s : IRImagerRealImpl) (i : Nat) :
    List DeviceAnswer → Option (IRImagerRealImpl × List DeviceAnswer)
  | [] => none
  | a :: answers =>
      (attempt s i a).bind fun s' =>
        match s'.calls i with
        | .entered => getFrameMonotonic s' i answers
        | _ => some (s', answers)

variable {s : IRImagerRealImpl} {i : Nat} {a : DeviceAnswer}

/-- The steps of a request with this answer. -/
def attemptLabels (i : Nat) (a : DeviceAnswer) : List Label :=
  if a.deviceError = .success then
    [.getFrame i a.deviceError a.rawFrame a.timestamp, .process i, .onThermalFrame a.capture,
      .take i]
  else [.getFrame i a.deviceError a.rawFrame a.timestamp]

/-- A request is these steps of the object. -/
theorem attempt_isRun {s' : IRImagerRealImpl} (h : attempt s i a = some s') :
    run step s (attemptLabels i a) = some s' := by
  obtain ⟨s₁, hget, hrest⟩ := Option.bind_eq_some_iff.mp h
  obtain ⟨-, hframe⟩ := step_getFrame hget
  rw [attemptLabels]
  by_cases hsuccess : a.deviceError = .success
  · have hcalls : s₁.calls i = .gotFrame a.rawFrame a.timestamp := by
      simp only [hframe, getFrame, hsuccess, ne_eq, not_true_eq_false, if_false, setCall_self]
    simp only [hcalls] at hrest
    rw [if_pos hsuccess]
    exact run_cons_eq_some.mpr ⟨s₁, hget, hrest⟩
  · have hcalls : s₁.calls i = .threw (irDeviceException a.deviceError) := by
      simp only [hframe, getFrame, if_pos (show a.deviceError ≠ .success from hsuccess),
        setCall_self]
    simp only [hcalls] at hrest
    rw [if_neg hsuccess, run_singleton, hget]
    exact hrest

/-- So is the call: the steps of the requests that it has used, one after the other. -/
theorem getFrameMonotonic_isRun {answers rest : List DeviceAnswer} {s' : IRImagerRealImpl}
    (h : getFrameMonotonic s i answers = some (s', rest)) :
    ∃ used, answers = used ++ rest ∧ run step s (used.flatMap (attemptLabels i)) = some s' := by
  induction answers generalizing s with
  | nil => cases h
  | cons a answers ih =>
      obtain ⟨s₁, hattempt, hrest⟩ := Option.bind_eq_some_iff.mp h
      have hrun := attempt_isRun hattempt
      split at hrest
      · obtain ⟨used, hused, hrun'⟩ := ih hrest
        refine ⟨a :: used, by rw [hused]; rfl, ?_⟩
        rw [List.flatMap_cons, run_append, hrun]
        exact hrun'
      · cases hrest
        exact ⟨[a], rfl, by rw [List.flatMap_singleton, hrun]⟩

/-- An error of `getFrame` ends the call before `process()`: the slot is as it was. -/
theorem attempt_error (hentered : s.calls i = .entered) (herror : a.deviceError ≠ .success) :
    ∃ s', attempt s i a = some s' ∧ s'.calls i = .threw (irDeviceException a.deviceError) ∧
      s'.thermalData_ = s.thermalData_ := by
  have hget : step s (.getFrame i a.deviceError a.rawFrame a.timestamp)
      = some (s.setCall i (.threw (irDeviceException a.deviceError))) := by
    simp only [step, hentered, getFrame, if_pos herror]
  refine ⟨s.setCall i (.threw (irDeviceException a.deviceError)), ?_, setCall_self s i _, rfl⟩
  rw [attempt, hget, Option.bind_some]
  simp only [setCall_self]

/-- The end of a wait for a capture that is in the slot. -/
theorem take_capture {rawFrame : RawFrame} {timestamp : Timestamp} {c : Capture}
    (hwaiting : s.calls i = .waiting rawFrame timestamp) (hdata : s.thermalData_ = c.data) :
    ∃ s', step s (.take i) = some s' ∧ s'.thermalData_ = .null ∧
      s'.calls i = if c.flagOpen then .returned c.picture timestamp else .entered := by
  rw [Capture.data] at hdata
  by_cases hopen : c.flagOpen = true
  · rw [if_pos hopen] at hdata
    rw [if_pos hopen]
    simp only [step, hwaiting, takeData, hdata]
    exact ⟨_, rfl, rfl, setCall_self _ i _⟩
  · rw [if_neg hopen] at hdata
    rw [if_neg hopen]
    simp only [step, hwaiting, takeData, hdata]
    exact ⟨_, rfl, rfl, setCall_self _ i _⟩

/-- A frame that the device hands out fills the slot and empties it again. The call is
back at its start after a closed capture, and returns an open one with its timestamp. -/
theorem attempt_success (hentered : s.calls i = .entered) (hsuccess : a.deviceError = .success) :
    ∃ s', attempt s i a = some s' ∧ s'.thermalData_ = .null ∧
      s'.calls i = if a.flagOpen then .returned a.rawFrame a.timestamp else .entered := by
  let s₁ := s.getFrame i a.deviceError a.rawFrame a.timestamp
  have hcalls₁ : s₁.calls i = .gotFrame a.rawFrame a.timestamp := by
    simp only [s₁, getFrame, hsuccess, ne_eq, not_true_eq_false, if_false, setCall_self]
  have hget : step s (.getFrame i a.deviceError a.rawFrame a.timestamp) = some s₁ := by
    simp only [step, hentered, s₁]
  -- The callback stores the capture while the call waits.
  let s₂ := { s₁ with submitted := s₁.submitted ++ [a.rawFrame] }.setCall i
    (.waiting a.rawFrame a.timestamp)
  have hprocess : step s₁ (.process i) = some s₂ := by
    simp only [step, hcalls₁, s₂]
  let s₃ := s₂.onThermalFrame a.capture
  have hcalls₃ : s₃.calls i = .waiting a.rawFrame a.timestamp := setCall_self _ i _
  -- The end of the wait takes what was stored, and nothing else.
  obtain ⟨s', htake, hnull, hcalls⟩ :=
    take_capture hcalls₃ (show s₃.thermalData_ = a.capture.data from rfl)
  refine ⟨s', ?_, hnull, hcalls⟩
  rw [attempt, hget, Option.bind_some]
  simp only [hcalls₁]
  exact run_cons_eq_some.mpr ⟨s₂, hprocess, run_cons_eq_some.mpr ⟨s₃, rfl,
    (run_singleton s₃ _).trans htake⟩⟩

/-- One request that ends the call: the result is the call's. -/
theorem getFrameMonotonic_ends {s' : IRImagerRealImpl} (answers : List DeviceAnswer)
    (hattempt : attempt s i a = some s') (hends : s'.calls i ≠ .entered) :
    getFrameMonotonic s i (a :: answers) = some (s', answers) := by
  rw [getFrameMonotonic, hattempt, Option.bind_some]
  split
  · contradiction
  · rfl

/-- A closed capture costs one answer, and the call starts again with an empty slot. -/
theorem getFrameMonotonic_closed (answers : List DeviceAnswer) (hentered : s.calls i = .entered)
    (hsuccess : a.deviceError = .success) (hclosed : a.flagOpen = false) :
    ∃ s', getFrameMonotonic s i (a :: answers) = getFrameMonotonic s' i answers ∧
      s'.calls i = .entered ∧ s'.thermalData_ = .null := by
  obtain ⟨s', hattempt, hnull, hcalls⟩ := attempt_success hentered hsuccess
  rw [hclosed, if_neg Bool.false_ne_true] at hcalls
  refine ⟨s', ?_, hcalls, hnull⟩
  rw [getFrameMonotonic, hattempt, Option.bind_some]
  simp only [hcalls]

/-- After any number of closed captures the call ends with the next answer. It has used
that many answers and one more, returns the picture of the open capture with the
timestamp of that capture or throws for the error, and leaves the slot empty. -/
theorem getFrameMonotonic_retries (closed : List DeviceAnswer) (last : DeviceAnswer)
    (answers : List DeviceAnswer) (hentered : s.calls i = .entered)
    (hempty : s.thermalData_ = .null)
    (hclosed : ∀ a ∈ closed, a.deviceError = .success ∧ a.flagOpen = false)
    (hlast : last.deviceError = .success → last.flagOpen = true) :
    ∃ s', getFrameMonotonic s i (closed ++ last :: answers) = some (s', answers) ∧
      s'.thermalData_ = .null ∧
      s'.calls i = if last.deviceError = .success then .returned last.rawFrame last.timestamp
        else .threw (irDeviceException last.deviceError) := by
  -- By induction on the closed captures; each leaves the state as the call needs it.
  induction closed generalizing s with
  | nil =>
      by_cases hsuccess : last.deviceError = .success
      · obtain ⟨s', hattempt, hnull, hcalls⟩ := attempt_success hentered hsuccess
        rw [hlast hsuccess, if_pos rfl] at hcalls
        refine ⟨s', getFrameMonotonic_ends answers hattempt (by rw [hcalls]; simp), hnull, ?_⟩
        rw [hcalls, if_pos hsuccess]
      · obtain ⟨s', hattempt, hcalls, hslot⟩ := attempt_error hentered hsuccess
        refine ⟨s', getFrameMonotonic_ends answers hattempt (by rw [hcalls]; simp),
          hslot.trans hempty, ?_⟩
        rw [hcalls, if_neg hsuccess]
  | cons a closed ih =>
      obtain ⟨hsuccess, hflag⟩ := hclosed a List.mem_cons_self
      obtain ⟨s₁, hretry, hentered₁, hempty₁⟩ :=
        getFrameMonotonic_closed (closed ++ last :: answers) hentered hsuccess hflag
      obtain ⟨s', hrun, hnull, hcalls⟩ :=
        ih hentered₁ hempty₁ fun b hb => hclosed b (List.mem_cons_of_mem a hb)
      exact ⟨s', hretry.trans hrun, hnull, hcalls⟩

/-- Two closed captures and an open one, out of four answers. -/
theorem getFrameMonotonic_retries_twice :
    ∃ s', getFrameMonotonic (initial.setCall 0 .entered) 0
        [⟨.success, 5, 10, false⟩, ⟨.success, 6, 20, false⟩, ⟨.success, 7, 30, true⟩,
          ⟨.success, 8, 40, true⟩] = some (s', [⟨.success, 8, 40, true⟩]) ∧
      s'.thermalData_ = .null ∧ s'.calls 0 = .returned 7 30 :=
  getFrameMonotonic_retries [⟨.success, 5, 10, false⟩, ⟨.success, 6, 20, false⟩]
    ⟨.success, 7, 30, true⟩ [⟨.success, 8, 40, true⟩] (setCall_self initial 0 .entered) rfl
    (by decide) (by decide)

end IRImagerRealImpl
end NqmIrimager
