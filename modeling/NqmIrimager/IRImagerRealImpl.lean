import Mathlib.Logic.Function.Basic
import NqmIrimager.Definitions
import NqmIrimager.Lib.SlotLedger

/-!
# `NqmIrimager.IRImagerRealImpl`: the hand-over of a frame

`IRImagerRealImpl::get_frame_monotonic` and `onThermalFrame`, from `irimager_class.cpp`,
as steps of any number of calls on one object. A call can be in another thread, and the
callback can come from anywhere, so any call and any callback may move next. Each step
between two calls of the SDK, and each critical section under `mutex_`, is one step.

`thermal_data_` is a slot for one value. A raw frame stands for the picture in it: what
`onThermalFrame` stores is the number of the raw frame the picture was made from.

`ledger`, `warned`, `lastFrame`, `handedOut` and `submitted` record what happened. No
step reads them.
-/

set_option autoImplicit false

namespace NqmIrimager

open SlotLedger

/-- `evo::IRDeviceError`. `other` is a value that is not an enumerator. -/
inductive IRDeviceError where
  | success
  | nodata
  | disconnected
  | nosync
  | streamoff
  | eagain
  | eio
  | eunknown
  | other
deriving DecidableEq, Repr

/-- `IRDeviceException::enum_to_string_message`. -/
def enumToStringMessage : IRDeviceError → Except Exception Bytes
  | .success => .error ⟨.invalidArgument, ascii "IRIMAGER_SUCCESS is not an error"⟩
  | .nodata =>
      .ok (ascii
        "IRIMAGER_NODATA: Error occurred in getting frame. You may need to reconnect the camera.")
  | .disconnected =>
      .ok (ascii
        "IRIMAGER_DISCONNECTED: Error occurred in getting frame. You may need to reconnect the camera.")
  | .nosync =>
      .ok (ascii
        "IRIMAGER_NOSYNC: Error occurred in getting frame. You may need to reconnect the camera.")
  | .streamoff => .ok (ascii "IRIMAGER_STREAMOFF: Not streaming")
  | .eagain =>
      .ok (ascii
        "IRIMAGER_EAGAIN: Error occurred in getting frame. You may need to reconnect the camera.")
  | .eio =>
      .ok (ascii
        "IRIMAGER_EIO: Error occurred in getting frame. You may need to reconnect the camera.")
  | .eunknown =>
      .ok (ascii
        "IRIMAGER_EUNKNOWN: Error occurred in getting frame. You may need to reconnect the camera.")
  | .other => .ok (ascii "IRImager::getFrame() returned an unknown error code")

/-- What `throw IRDeviceException(device_error)` throws. -/
def irDeviceException (deviceError : IRDeviceError) : Exception :=
  match enumToStringMessage deviceError with
  | .error e => e
  | .ok what => ⟨.runtimeError, what⟩

/-- A raw frame, and the picture in it. -/
abbrev RawFrame := Nat

/-- A time point of the steady clock, in nanoseconds. -/
abbrev Timestamp := Int

/-- Why a frame is bad. -/
inductive BadFrame where
  | shutterClosed
deriving DecidableEq, Repr

/-- `std::variant<IRImager::ThermalFrame, BadFrame, nullptr_t>`. -/
inductive ThermalData where
  | thermalFrame (picture : RawFrame)
  | badFrame (reason : BadFrame)
  | null
deriving DecidableEq, Repr

/-- A callback: the picture it carries and whether the shutter flag was open. -/
structure Capture where
  picture : RawFrame
  flagOpen : Bool
deriving DecidableEq, Repr

/-- What `onThermalFrame` stores. -/
def Capture.data (c : Capture) : ThermalData :=
  if c.flagOpen then .thermalFrame c.picture else .badFrame .shutterClosed

/-- Where a call of `get_frame_monotonic` is, with its local variables. `entered` is the
start of the function, where a retry begins again. -/
inductive CallPc where
  | idle
  | entered
  | gotFrame (rawFrame : RawFrame) (timestamp : Timestamp)
  | waiting (rawFrame : RawFrame) (timestamp : Timestamp)
  | returned (picture : RawFrame) (timestamp : Timestamp)
  | threw (e : Exception)
deriving DecidableEq, Repr

/-- The object, the calls on it, and the record. -/
structure IRImagerRealImpl where
  thermalData_ : ThermalData
  calls : Nat → CallPc
  ledger : Ledger Capture Nat
  warned : List Nat
  lastFrame : Nat → Option (RawFrame × Timestamp)
  handedOut : List RawFrame
  submitted : List RawFrame

namespace IRImagerRealImpl

/-- An object no call was made on. -/
def initial : IRImagerRealImpl where
  thermalData_ := .null
  calls := fun _ => .idle
  ledger := .empty
  warned := []
  lastFrame := fun _ => none
  handedOut := []
  submitted := []

/-- Move one call. -/
def setCall (s : IRImagerRealImpl) (i : Nat) (pc : CallPc) : IRImagerRealImpl :=
  { s with calls := Function.update s.calls i pc }

/-- The call that is set. -/
@[simp] theorem setCall_self (s : IRImagerRealImpl) (i : Nat) (pc : CallPc) :
    (s.setCall i pc).calls i = pc := by
  simp [setCall]

/-- The other calls stay. -/
theorem setCall_of_ne (s : IRImagerRealImpl) {i j : Nat} (pc : CallPc) (h : j ≠ i) :
    (s.setCall i pc).calls j = s.calls j := by
  simp [setCall, h]

/-- The next step: of call `i`, with the answer it gets, or of the SDK. -/
inductive Label where
  | enter (i : Nat)
  | getFrame (i : Nat) (deviceError : IRDeviceError) (rawFrame : RawFrame)
      (timestamp : Timestamp)
  | process (i : Nat)
  | timeout (i : Nat)
  | take (i : Nat)
  | onThermalFrame (capture : Capture)
deriving DecidableEq, Repr

/-- `ir_device_->getFrame(..)` and the test of its result. -/
def getFrame (s : IRImagerRealImpl) (i : Nat) (deviceError : IRDeviceError)
    (rawFrame : RawFrame) (timestamp : Timestamp) : IRImagerRealImpl :=
  if deviceError ≠ .success then s.setCall i (.threw (irDeviceException deviceError))
  else
    { s with
      lastFrame := Function.update s.lastFrame i (some (rawFrame, timestamp))
      handedOut := s.handedOut ++ [rawFrame] }.setCall i (.gotFrame rawFrame timestamp)

/-- The critical section of `get_frame_monotonic` once the wait is over, and what follows
it: `swap`, then a retry of a bad frame or the return. -/
def takeData (s : IRImagerRealImpl) (i : Nat) (timestamp : Timestamp) : Option IRImagerRealImpl :=
  let taken := { s with thermalData_ := .null, ledger := s.ledger.take i }
  match s.thermalData_ with
  | .null => none
  -- The retry is a tail call: it asks the device for another raw frame.
  | .badFrame .shutterClosed => some (taken.setCall i .entered)
  | .thermalFrame picture => some (taken.setCall i (.returned picture timestamp))

/-- `onThermalFrame`. -/
def onThermalFrame (s : IRImagerRealImpl) (capture : Capture) : IRImagerRealImpl :=
  { s with
    thermalData_ := capture.data
    ledger := s.ledger.put capture
    warned :=
      if s.thermalData_ ≠ .null then s.warned ++ [s.ledger.stored.length] else s.warned
    submitted := s.submitted.erase capture.picture }

/-- One step. `wait_for` with a predicate gives up only while the predicate is false. -/
def step (s : IRImagerRealImpl) : Label → Option IRImagerRealImpl
  | .enter i =>
      match s.calls i with
      | .idle => some (s.setCall i .entered)
      | _ => none
  | .getFrame i deviceError rawFrame timestamp =>
      match s.calls i with
      | .entered => some (s.getFrame i deviceError rawFrame timestamp)
      | _ => none
  | .process i =>
      match s.calls i with
      | .gotFrame rawFrame timestamp =>
          some ({ s with submitted := s.submitted ++ [rawFrame] }.setCall i
            (.waiting rawFrame timestamp))
      | _ => none
  | .timeout i =>
      match s.calls i with
      | .waiting _ _ =>
          -- The predicate is tested once more when the time is up.
          if s.thermalData_ = .null then
            some (s.setCall i (.threw
              ⟨.runtimeError, ascii "Timeout when waiting for a new thermal frame"⟩))
          else none
      | _ => none
  | .take i =>
      match s.calls i with
      | .waiting _ timestamp => s.takeData i timestamp
      | _ => none
  | .onThermalFrame capture => some (s.onThermalFrame capture)

/-! ### What each step can do -/

section
variable {s s' : IRImagerRealImpl} {i : Nat}

/-- A call starts once. -/
theorem step_enter (hs : step s (.enter i) = some s') :
    s.calls i = .idle ∧ s' = s.setCall i .entered := by
  simp only [step] at hs
  split at hs
  · rename_i hidle
    exact ⟨hidle, (Option.some.inj hs).symm⟩
  · cases hs

/-- `getFrame` asks the device for a frame, and any answer is handled. -/
theorem step_getFrame {deviceError : IRDeviceError} {rawFrame : RawFrame} {timestamp : Timestamp}
    (hs : step s (.getFrame i deviceError rawFrame timestamp) = some s') :
    s.calls i = .entered ∧ s' = s.getFrame i deviceError rawFrame timestamp := by
  simp only [step] at hs
  split at hs
  · rename_i hentered
    exact ⟨hentered, (Option.some.inj hs).symm⟩
  · cases hs

/-- `process` submits the frame of the call to the SDK, and the call waits. -/
theorem step_process (hs : step s (.process i) = some s') :
    ∃ rawFrame timestamp, s.calls i = .gotFrame rawFrame timestamp ∧
      s' = { s with submitted := s.submitted ++ [rawFrame] }.setCall i
        (.waiting rawFrame timestamp) := by
  simp only [step] at hs
  split at hs
  · rename_i rawFrame timestamp hgot
    exact ⟨rawFrame, timestamp, hgot, (Option.some.inj hs).symm⟩
  · cases hs

/-- The wait gives up only while there is no frame, and the call throws then. -/
theorem step_timeout (hs : step s (.timeout i) = some s') :
    (∃ rawFrame timestamp, s.calls i = .waiting rawFrame timestamp) ∧ s.thermalData_ = .null ∧
      ∃ e, s' = s.setCall i (.threw e) := by
  simp only [step] at hs
  split at hs
  · rename_i rawFrame timestamp hwaiting
    split at hs
    · rename_i hnull
      exact ⟨⟨rawFrame, timestamp, hwaiting⟩, hnull, _, (Option.some.inj hs).symm⟩
    · cases hs
  · cases hs

/-- The end of a wait empties the slot. A bad frame sends the call back to the start, a
frame is returned with the timestamp the call kept. -/
theorem step_take (hs : step s (.take i) = some s') :
    ∃ rawFrame timestamp, s.calls i = .waiting rawFrame timestamp ∧
      ((∃ reason, s.thermalData_ = .badFrame reason ∧
          s' = { s with thermalData_ := .null, ledger := s.ledger.take i }.setCall i .entered) ∨
        ∃ picture, s.thermalData_ = .thermalFrame picture ∧
          s' = { s with thermalData_ := .null, ledger := s.ledger.take i }.setCall i
            (.returned picture timestamp)) := by
  simp only [step] at hs
  split at hs
  · rename_i rawFrame timestamp hwaiting
    refine ⟨rawFrame, timestamp, hwaiting, ?_⟩
    unfold takeData at hs
    cases hdata : s.thermalData_ with
    | null =>
        rw [hdata] at hs
        cases hs
    | badFrame reason =>
        rw [hdata] at hs
        exact Or.inl ⟨reason, rfl, (Option.some.inj hs).symm⟩
    | thermalFrame picture =>
        rw [hdata] at hs
        exact Or.inr ⟨picture, rfl, (Option.some.inj hs).symm⟩
  · cases hs

/-- The callback can run at any time. -/
theorem step_onThermalFrame {capture : Capture} (hs : step s (.onThermalFrame capture) = some s') :
    s' = s.onThermalFrame capture :=
  (Option.some.inj hs).symm

end

end IRImagerRealImpl
end NqmIrimager
