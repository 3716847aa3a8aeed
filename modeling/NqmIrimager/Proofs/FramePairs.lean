import NqmIrimager.IRImagerRealImpl
import NqmIrimager.Lib.StepRun

/-!
# `NqmIrimager.Proofs.FramePairs`: the picture and the timestamp of a returned frame

The picture of a call travels through the shared slot, its timestamp stays with the call.
They belong together when the call that takes from the slot is the call whose raw frame
the slot holds. Two kinds of steps can break that (`KeepsPair` excludes them):

* `process` while a frame is in the slot: that frame is from before;
* a callback that stores a frame while some call waits for another raw frame.

`returned_pairs_of_keepsPair` is a run without such steps: every returned picture is that
of the raw frame the call got last. `mispaired_of_not_keepsPair` says that no weaker
condition will do: after any other step, one more step returns a wrong pair.
`late_callback_mispairs` is such a run of two calls, one after the other.
-/

set_option autoImplicit false

namespace NqmIrimager
namespace IRImagerRealImpl

open StepRun

/-- The SDK: raw frames are distinct, and a callback carries the picture of a raw frame
that was given to `process`, once for each. -/
def SdkStep (s : IRImagerRealImpl) : Label → Prop
  | .getFrame _ _ rawFrame _ => rawFrame ∉ s.handedOut
  | .onThermalFrame capture => capture.picture ∈ s.submitted
  | _ => True

/-- A step that keeps picture and timestamp together. -/
def KeepsPair (s : IRImagerRealImpl) : Label → Prop
  | .process _ => ∀ picture, s.thermalData_ ≠ .thermalFrame picture
  | .onThermalFrame capture =>
      capture.flagOpen = true →
        ∀ i rawFrame timestamp, s.calls i = .waiting rawFrame timestamp →
          rawFrame = capture.picture
  | _ => True

/-- A frame in the slot is the picture the callback carried. -/
theorem picture_of_data {capture : Capture} {picture : RawFrame}
    (h : capture.data = .thermalFrame picture) : picture = capture.picture := by
  unfold Capture.data at h
  split at h
  · cases h
    rfl
  · cases h

/-! ### Runs that keep the pairs -/

/-- What a call has in its local variables, or returned, is what it got last. -/
def Local (pc : CallPc) (last : Option (RawFrame × Timestamp)) : Prop :=
  match pc with
  | .gotFrame rawFrame timestamp => last = some (rawFrame, timestamp)
  | .waiting rawFrame timestamp => last = some (rawFrame, timestamp)
  | .returned picture timestamp => last = some (picture, timestamp)
  | _ => True

/-- A frame in the slot is for every call that waits. -/
def SlotForWaiting (s : IRImagerRealImpl) : Prop :=
  ∀ picture, s.thermalData_ = .thermalFrame picture →
    ∀ i rawFrame timestamp, s.calls i = .waiting rawFrame timestamp → rawFrame = picture

/-- The invariant. -/
structure Paired (s : IRImagerRealImpl) : Prop where
  locals : ∀ i, Local (s.calls i) (s.lastFrame i)
  slot : SlotForWaiting s

/-- No call has a frame at the start. -/
theorem paired_initial : Paired initial where
  locals := by
    intro i
    trivial
  slot := by
    intro picture h
    cases h

/-- Moving call `i` keeps the local variables of the others. -/
theorem locals_setCall {s : IRImagerRealImpl} (h : ∀ i, Local (s.calls i) (s.lastFrame i))
    {i : Nat} {pc : CallPc} (hpc : Local pc (s.lastFrame i)) (j : Nat) :
    Local ((s.setCall i pc).calls j) ((s.setCall i pc).lastFrame j) := by
  by_cases hj : j = i
  · rw [hj, setCall_self]
    exact hpc
  · rw [setCall_of_ne s pc hj]
    exact h j

/-- A call that does not wait after its move changes nothing for the slot. -/
theorem slot_setCall {s : IRImagerRealImpl} (h : SlotForWaiting s) {i : Nat} {pc : CallPc}
    (hpc : ∀ rawFrame timestamp, pc ≠ .waiting rawFrame timestamp) :
    SlotForWaiting (s.setCall i pc) := by
  intro picture hpicture j rawFrame timestamp hj
  by_cases hji : j = i
  · rw [hji, setCall_self] at hj
    exact absurd hj (hpc rawFrame timestamp)
  · rw [setCall_of_ne s pc hji] at hj
    exact h picture hpicture j rawFrame timestamp hj

/-- The slot is empty after a wait, whatever the call does with the value. -/
theorem slot_empty (s : IRImagerRealImpl) (i : Nat) (pc : CallPc) :
    SlotForWaiting ({ s with thermalData_ := .null, ledger := s.ledger.take i }.setCall i pc) := by
  intro picture hpicture
  cases hpicture

/-- `getFrame` puts the raw frame and its timestamp into the local variables. -/
theorem paired_getFrame {s : IRImagerRealImpl} (h : Paired s) (i : Nat)
    (deviceError : IRDeviceError) (rawFrame : RawFrame) (timestamp : Timestamp) :
    Paired (s.getFrame i deviceError rawFrame timestamp) := by
  unfold getFrame
  split
  · exact ⟨locals_setCall h.locals trivial, slot_setCall h.slot (by simp)⟩
  · let s₁ : IRImagerRealImpl :=
      { s with
        lastFrame := Function.update s.lastFrame i (some (rawFrame, timestamp))
        handedOut := s.handedOut ++ [rawFrame] }
    refine ⟨?_, @slot_setCall s₁ h.slot i _ (by simp)⟩
    intro j
    show Local ((s₁.setCall i (.gotFrame rawFrame timestamp)).calls j) (s₁.lastFrame j)
    by_cases hj : j = i
    · rw [hj, setCall_self]
      simp [Local, s₁]
    · rw [setCall_of_ne _ _ hj]
      simpa [s₁, hj] using h.locals j

/-- A step that keeps the pairs keeps the invariant. -/
theorem paired_step (s : IRImagerRealImpl) (l : Label) (s' : IRImagerRealImpl) (h : Paired s)
    (hl : KeepsPair s l) (hs : step s l = some s') : Paired s' := by
  cases l with
  | enter i =>
      obtain ⟨-, rfl⟩ := step_enter hs
      exact ⟨locals_setCall h.locals trivial, slot_setCall h.slot (by simp)⟩
  | getFrame i deviceError rawFrame timestamp =>
      obtain ⟨-, rfl⟩ := step_getFrame hs
      exact paired_getFrame h i deviceError rawFrame timestamp
  | process i =>
      obtain ⟨rawFrame, timestamp, hgot, rfl⟩ := step_process hs
      have hlast := h.locals i
      rw [hgot] at hlast
      constructor
      · exact locals_setCall h.locals hlast
      · -- There is no frame in the slot, so it makes no difference who waits.
        intro picture hpicture
        exact absurd hpicture (hl picture)
  | timeout i =>
      obtain ⟨-, -, e, rfl⟩ := step_timeout hs
      exact ⟨locals_setCall h.locals trivial, slot_setCall h.slot (by simp)⟩
  | take i =>
      obtain ⟨rawFrame, timestamp, hwaiting, ⟨reason, -, rfl⟩ | ⟨picture, hdata, rfl⟩⟩ :=
        step_take hs
      · exact ⟨locals_setCall h.locals trivial, slot_empty s i _⟩
      · -- The frame in the slot is the one the call waits for.
        have hown : rawFrame = picture := h.slot picture hdata i rawFrame timestamp hwaiting
        have hlast := h.locals i
        rw [hwaiting, hown] at hlast
        exact ⟨locals_setCall h.locals hlast, slot_empty s i _⟩
  | onThermalFrame capture =>
      obtain rfl := step_onThermalFrame hs
      constructor
      · exact h.locals
      · intro picture hpicture i rawFrame timestamp hi
        have hdata : capture.data = .thermalFrame picture := hpicture
        unfold Capture.data at hdata
        split at hdata
        · rename_i hopen
          cases hdata
          exact hl hopen i rawFrame timestamp hi
        · cases hdata

/-- In a run whose steps all keep the pairs, every call that returned has returned the
picture of the raw frame it got last, with that raw frame's timestamp. -/
theorem returned_pairs_of_keepsPair (ls : List Label) (s : IRImagerRealImpl)
    (hpairs : Along step KeepsPair initial ls) (hrun : run step initial ls = some s) (i : Nat)
    (picture : RawFrame) (timestamp : Timestamp)
    (hreturned : s.calls i = .returned picture timestamp) :
    s.lastFrame i = some (picture, timestamp) := by
  have hlocal := (run_invariant_along paired_step paired_initial hpairs hrun).locals i
  rwa [hreturned] at hlocal

/-- A call that retries after a closed shutter. -/
def retryThenReturn : List Label :=
  [.enter 0, .getFrame 0 .success 7 70, .process 0, .onThermalFrame ⟨7, false⟩, .take 0,
    .getFrame 0 .success 8 80, .process 0, .onThermalFrame ⟨8, true⟩, .take 0]

/-- The frame comes while nobody else waits. -/
theorem keepsPair_retryThenReturn : Along step KeepsPair initial retryThenReturn := by
  refine ⟨trivial, trivial, ?_, ?_, trivial, trivial, ?_, ?_, trivial, trivial⟩
  · intro picture hpicture
    cases hpicture
  · intro hopen
    cases hopen
  · intro picture hpicture
    cases hpicture
  · intro _ i rawFrame timestamp hi
    by_cases h0 : i = 0
    · subst h0
      cases hi
      rfl
    · simp [initial, setCall, getFrame, onThermalFrame, h0] at hi

/-- The retried call returns the second picture, with its own timestamp. -/
theorem returned_pairs_of_keepsPair_retry :
    ∃ s, run step initial retryThenReturn = some s ∧ s.lastFrame 0 = some (8, 80) :=
  ⟨_, rfl, returned_pairs_of_keepsPair retryThenReturn _ keepsPair_retryThenReturn rfl 0 8 80 rfl⟩

/-- Two calls, one after the other, on an SDK that keeps its word. The callback of the
first one comes after it has given up, and the second one returns that picture, `7`, with
the timestamp of its own raw frame, `8`. -/
theorem late_callback_mispairs :
    Along step SdkStep initial
        [.enter 0, .getFrame 0 .success 7 70, .process 0, .timeout 0, .onThermalFrame ⟨7, true⟩,
          .enter 1, .getFrame 1 .success 8 80, .process 1, .take 1] ∧
      ∃ s, run step initial
          [.enter 0, .getFrame 0 .success 7 70, .process 0, .timeout 0, .onThermalFrame ⟨7, true⟩,
            .enter 1, .getFrame 1 .success 8 80, .process 1, .take 1] = some s ∧
        s.calls 1 = .returned 7 80 ∧ s.lastFrame 1 = some (8, 80) := by
  refine ⟨?_, _, rfl, rfl, rfl⟩
  refine ⟨trivial, ?_, trivial, trivial, ?_, trivial, ?_, trivial, trivial, trivial⟩
  · show (7 : Nat) ∉ []
    decide
  · show (7 : Nat) ∈ [7]
    decide
  · show (8 : Nat) ∉ [7]
    decide

/-! ### The condition is not too strong -/

/-- What the SDK's word is worth: a raw frame that a call holds and has not submitted yet
is in no callback to come and not in the slot, and no other call holds it. -/
structure Distinct (s : IRImagerRealImpl) : Prop where
  submitted : ∀ r, r ∈ s.submitted → r ∈ s.handedOut
  slot : ∀ r, s.thermalData_ = .thermalFrame r → r ∈ s.handedOut
  got : ∀ i r timestamp, s.calls i = .gotFrame r timestamp →
    r ∈ s.handedOut ∧ r ∉ s.submitted ∧ s.thermalData_ ≠ .thermalFrame r ∧
      ∀ j timestamp', s.calls j = .gotFrame r timestamp' → j = i

/-- No raw frame was handed out at the start. -/
theorem distinct_initial : Distinct initial where
  submitted := by
    intro r hr
    cases hr
  slot := by
    intro r hr
    cases hr
  got := by
    intro i r timestamp hi
    cases hi

/-- A call that moves on, and holds no unsubmitted raw frame afterwards. -/
theorem Distinct.setCall {s : IRImagerRealImpl} (h : Distinct s) {i : Nat} {pc : CallPc}
    (hpc : ∀ r timestamp, pc ≠ .gotFrame r timestamp) : Distinct (s.setCall i pc) where
  submitted := h.submitted
  slot := h.slot
  got := by
    have hback : ∀ j r timestamp, (s.setCall i pc).calls j = .gotFrame r timestamp →
        s.calls j = .gotFrame r timestamp := by
      intro j r timestamp hj
      by_cases hji : j = i
      · rw [hji, setCall_self] at hj
        exact absurd hj (hpc r timestamp)
      · rwa [setCall_of_ne s pc hji] at hj
    intro j r timestamp hj
    obtain ⟨hout, hsub, hslot, hone⟩ := h.got j r timestamp (hback j r timestamp hj)
    exact ⟨hout, hsub, hslot, fun k timestamp' hk => hone k timestamp' (hback k r timestamp' hk)⟩

/-- A new raw frame is distinct from all others. -/
theorem Distinct.getFrame {s : IRImagerRealImpl} (h : Distinct s) (i : Nat)
    (deviceError : IRDeviceError) {rawFrame : RawFrame} (timestamp : Timestamp)
    (hnew : rawFrame ∉ s.handedOut) : Distinct (s.getFrame i deviceError rawFrame timestamp) := by
  unfold IRImagerRealImpl.getFrame
  split
  · exact h.setCall (by simp)
  · refine ⟨?_, ?_, ?_⟩
    · intro r hr
      exact List.mem_append_left _ (h.submitted r hr)
    · intro r hr
      exact List.mem_append_left _ (h.slot r hr)
    · intro j r timestamp₁ hj
      by_cases hji : j = i
      · -- The raw frame that was just handed out.
        subst hji
        rw [setCall_self] at hj
        cases hj
        refine ⟨List.mem_append_right _ List.mem_cons_self, ?_, ?_, ?_⟩
        · intro hsub
          exact hnew (h.submitted _ hsub)
        · intro hslot
          exact hnew (h.slot _ hslot)
        · intro k timestamp' hk
          by_contra hkj
          rw [setCall_of_ne _ _ hkj] at hk
          exact hnew (h.got k _ timestamp' hk).1
      · rw [setCall_of_ne _ _ hji] at hj
        obtain ⟨hout, hsub, hslot, hone⟩ := h.got j r timestamp₁ hj
        refine ⟨List.mem_append_left _ hout, hsub, hslot, ?_⟩
        intro k timestamp' hk
        by_cases hki : k = i
        · rw [hki, setCall_self] at hk
          cases hk
          exact absurd hout hnew
        · rw [setCall_of_ne _ _ hki] at hk
          exact hone k timestamp' hk

/-- A raw frame that is submitted is not held by any call any more. -/
theorem Distinct.process {s : IRImagerRealImpl} (h : Distinct s) {i : Nat} {rawFrame : RawFrame}
    {timestamp : Timestamp} (hi : s.calls i = .gotFrame rawFrame timestamp) :
    Distinct ({ s with submitted := s.submitted ++ [rawFrame] }.setCall i
      (.waiting rawFrame timestamp)) where
  submitted := by
    intro r hr
    rcases List.mem_append.mp hr with hr | hr
    · exact h.submitted r hr
    · rw [List.mem_singleton.mp hr]
      exact (h.got i rawFrame timestamp hi).1
  slot := h.slot
  got := by
    intro j r timestamp₁ hj
    have hji : j ≠ i := by
      rintro rfl
      rw [setCall_self] at hj
      cases hj
    rw [setCall_of_ne _ _ hji] at hj
    obtain ⟨hout, hsub, hslot, hone⟩ := h.got j r timestamp₁ hj
    refine ⟨hout, ?_, hslot, ?_⟩
    · intro hr
      rcases List.mem_append.mp hr with hr | hr
      · exact hsub hr
      · -- Call `j` would hold the raw frame that `i` holds.
        rw [List.mem_singleton] at hr
        subst hr
        exact hji (hone i timestamp hi).symm
    · intro k timestamp' hk
      by_cases hki : k = i
      · rw [hki, setCall_self] at hk
        cases hk
      · rw [setCall_of_ne _ _ hki] at hk
        exact hone k timestamp' hk

/-- A callback stores the picture of a raw frame that was submitted. -/
theorem Distinct.onThermalFrame {s : IRImagerRealImpl} (h : Distinct s) {capture : Capture}
    (hsubmitted : capture.picture ∈ s.submitted) : Distinct (s.onThermalFrame capture) where
  submitted := by
    intro r hr
    exact h.submitted r (List.mem_of_mem_erase hr)
  slot := by
    intro r hr
    rw [show r = capture.picture from picture_of_data hr]
    exact h.submitted _ hsubmitted
  got := by
    intro i r timestamp hi
    obtain ⟨hout, hsub, -, hone⟩ := h.got i r timestamp hi
    refine ⟨hout, fun hr => hsub (List.mem_of_mem_erase hr), ?_, hone⟩
    intro hslot
    rw [show r = capture.picture from picture_of_data hslot] at hsub
    exact hsub hsubmitted

/-- An empty slot holds nothing a call could hold too. -/
theorem Distinct.take {s : IRImagerRealImpl} (h : Distinct s) (i : Nat) :
    Distinct { s with thermalData_ := .null, ledger := s.ledger.take i } where
  submitted := h.submitted
  slot := by
    intro r hr
    cases hr
  got := by
    intro j r timestamp hj
    obtain ⟨hout, hsub, -, hone⟩ := h.got j r timestamp hj
    exact ⟨hout, hsub, by simp, hone⟩

/-- A step in which the SDK keeps its word keeps raw frames distinct. -/
theorem distinct_step (s : IRImagerRealImpl) (l : Label) (s' : IRImagerRealImpl)
    (h : Distinct s) (hl : SdkStep s l) (hs : step s l = some s') : Distinct s' := by
  cases l with
  | enter i =>
      obtain ⟨-, rfl⟩ := step_enter hs
      exact h.setCall (by simp)
  | getFrame i deviceError rawFrame timestamp =>
      obtain ⟨-, rfl⟩ := step_getFrame hs
      exact h.getFrame i deviceError timestamp hl
  | process i =>
      obtain ⟨rawFrame, timestamp, hgot, rfl⟩ := step_process hs
      exact h.process hgot
  | timeout i =>
      obtain ⟨-, -, e, rfl⟩ := step_timeout hs
      exact h.setCall (by simp)
  | take i =>
      obtain ⟨rawFrame, timestamp, -, ⟨reason, -, rfl⟩ | ⟨picture, -, rfl⟩⟩ := step_take hs
      · exact (h.take i).setCall (by simp)
      · exact (h.take i).setCall (by simp)
  | onThermalFrame capture =>
      obtain rfl := step_onThermalFrame hs
      exact h.onThermalFrame hl

/-- A call that waits can return the frame in the slot at once, whatever it waits for. -/
theorem take_returns {s : IRImagerRealImpl} {i : Nat} {rawFrame picture : RawFrame}
    {timestamp : Timestamp} (hi : s.calls i = .waiting rawFrame timestamp)
    (hslot : s.thermalData_ = .thermalFrame picture) :
    ∃ s', step s (.take i) = some s' ∧ s'.calls i = .returned picture timestamp := by
  refine ⟨{ s with thermalData_ := .null, ledger := s.ledger.take i }.setCall i
    (.returned picture timestamp), ?_, setCall_self _ i _⟩
  simp only [step, hi, takeData, hslot]

/-- After any step that does not keep the pairs, the next step can return a wrong pair: a
call that waits for one raw frame returns the picture of another. -/
theorem mispaired_of_not_keepsPair {ls : List Label} {s s₁ : IRImagerRealImpl} {l : Label}
    (hsdk : Along step SdkStep initial ls) (hrun : run step initial ls = some s)
    (hbreaks : ¬ KeepsPair s l) (hs : step s l = some s₁) :
    ∃ i rawFrame timestamp picture s₂, s₁.calls i = .waiting rawFrame timestamp ∧
      picture ≠ rawFrame ∧ step s₁ (.take i) = some s₂ ∧
      s₂.calls i = .returned picture timestamp := by
  have hdistinct := run_invariant_along distinct_step distinct_initial hsdk hrun
  cases l with
  | process i =>
      simp only [KeepsPair, ne_eq, not_forall, not_not] at hbreaks
      obtain ⟨picture, hslot⟩ := hbreaks
      obtain ⟨rawFrame, timestamp, hgot, rfl⟩ := step_process hs
      -- The frame in the slot is not the one that was just submitted.
      have hne : picture ≠ rawFrame := by
        rintro rfl
        exact (hdistinct.got i picture timestamp hgot).2.2.1 hslot
      have hwaiting := setCall_self { s with submitted := s.submitted ++ [rawFrame] } i
        (.waiting rawFrame timestamp)
      obtain ⟨s₂, htake, hreturned⟩ := take_returns hwaiting hslot
      exact ⟨i, rawFrame, timestamp, picture, s₂, hwaiting, hne, htake, hreturned⟩
  | onThermalFrame capture =>
      simp only [KeepsPair, not_forall] at hbreaks
      obtain ⟨hopen, i, rawFrame, timestamp, hwaiting, hne⟩ := hbreaks
      obtain rfl := step_onThermalFrame hs
      have hslot : (s.onThermalFrame capture).thermalData_ = .thermalFrame capture.picture := by
        show capture.data = _
        rw [Capture.data, if_pos hopen]
      obtain ⟨s₂, htake, hreturned⟩ :=
        @take_returns (s.onThermalFrame capture) i rawFrame capture.picture timestamp hwaiting hslot
      exact ⟨i, rawFrame, timestamp, capture.picture, s₂, hwaiting, Ne.symm hne, htake, hreturned⟩
  | enter i => exact absurd trivial hbreaks
  | getFrame i deviceError rawFrame timestamp => exact absurd trivial hbreaks
  | timeout i => exact absurd trivial hbreaks
  | take i => exact absurd trivial hbreaks

end IRImagerRealImpl
end NqmIrimager
