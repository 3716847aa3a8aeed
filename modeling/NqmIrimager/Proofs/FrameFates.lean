import NqmIrimager.IRImagerRealImpl
import NqmIrimager.Lib.StepRun

/-!
# `NqmIrimager.Proofs.FrameFates`: every stored value has one fate

The slot `thermal_data_` keeps the account of `SlotLedger`: `onThermalFrame` puts, the
`swap` at the end of a wait takes, and no other step touches either. `Inv` couples the
two, `inv_step` is one step, and `reachable_fates` is what it says of every interleaving
of any number of calls and callbacks:

* a stored value was taken once, or replaced once, or is in the slot;
* the callback that replaced it logged the warning;
* a call that returned took a value that was stored with the shutter flag open, and no
  other call took that value.
-/

set_option autoImplicit false

namespace NqmIrimager
namespace IRImagerRealImpl

open SlotLedger StepRun

/-- A callback never stores the null value that stands for an empty slot. -/
theorem data_ne_null (c : Capture) : c.data ≠ .null := by
  unfold Capture.data
  split <;> simp

/-- A frame in the slot was stored with the flag open. -/
theorem capture_of_data {c : Capture} {picture : RawFrame}
    (h : c.data = .thermalFrame picture) : c = ⟨picture, true⟩ := by
  obtain ⟨p, flagOpen⟩ := c
  cases flagOpen with
  | true =>
      cases h
      rfl
  | false => cases h

/-- What the slot is when the ledger says what is in it. -/
def slotOf : Option Capture → ThermalData
  | none => .null
  | some c => c.data

/-- The invariant. -/
structure Inv (s : IRImagerRealImpl) : Prop where
  balanced : s.ledger.Balanced
  slot : s.thermalData_ = slotOf s.ledger.value
  warned : ∀ n m, (n, m) ∈ s.ledger.replaced → m ∈ s.warned
  returned : ∀ i picture timestamp, s.calls i = .returned picture timestamp →
    ∃ n, (n, i) ∈ s.ledger.taken ∧ s.ledger.stored[n]? = some ⟨picture, true⟩

/-- The slot is empty at the start, and no call holds anything. -/
theorem inv_initial : Inv initial where
  balanced := Ledger.balanced_empty
  slot := rfl
  warned := by
    intro n m h
    cases h
  returned := by
    intro i picture timestamp h
    cases h

/-- A step that leaves the slot and its account alone, and makes no call return. -/
theorem Inv.quiet {s s' : IRImagerRealImpl} (h : Inv s) (hslot : s'.thermalData_ = s.thermalData_)
    (hledger : s'.ledger = s.ledger) (hwarned : s'.warned = s.warned)
    (hcalls : ∀ j picture timestamp, s'.calls j = .returned picture timestamp →
      s.calls j = .returned picture timestamp) : Inv s' where
  balanced := by
    rw [hledger]
    exact h.balanced
  slot := by
    rw [hslot, hledger]
    exact h.slot
  warned := by
    rw [hledger, hwarned]
    exact h.warned
  returned := by
    intro i picture timestamp hi
    rw [hledger]
    exact h.returned i picture timestamp (hcalls i picture timestamp hi)

/-- A call that moves without returning. -/
theorem returned_of_setCall {s : IRImagerRealImpl} {i : Nat} {pc : CallPc}
    (hpc : ∀ picture timestamp, pc ≠ .returned picture timestamp) (j : Nat) (picture : RawFrame)
    (timestamp : Timestamp) (h : (s.setCall i pc).calls j = .returned picture timestamp) :
    s.calls j = .returned picture timestamp := by
  by_cases hj : j = i
  · rw [hj, setCall_self] at h
    exact absurd h (hpc picture timestamp)
  · rwa [setCall_of_ne s pc hj] at h

/-- The `swap` empties the slot and writes the taker down. -/
theorem Inv.take {s : IRImagerRealImpl} (h : Inv s) (i : Nat) :
    Inv { s with thermalData_ := .null, ledger := s.ledger.take i } where
  balanced := h.balanced.take i
  slot := by
    show ThermalData.null = slotOf (s.ledger.take i).value
    rw [Ledger.value_take]
    rfl
  warned := by
    intro n m hnm
    have hreplaced : (s.ledger.take i).replaced = s.ledger.replaced := by
      unfold Ledger.take
      split <;> rfl
    exact h.warned n m (hreplaced ▸ hnm)
  returned := by
    intro j picture timestamp hj
    obtain ⟨n, htaken, hstored⟩ := h.returned j picture timestamp hj
    refine ⟨n, Ledger.taken_take i htaken, ?_⟩
    show (s.ledger.take i).stored[n]? = _
    rw [Ledger.stored_take, hstored]

/-- The end of a wait that returns: the call has taken the value it returns. -/
theorem inv_returned {s : IRImagerRealImpl} (h : Inv s) (i : Nat) {picture : RawFrame}
    (timestamp : Timestamp) (hdata : s.thermalData_ = .thermalFrame picture) :
    Inv ({ s with thermalData_ := .null, ledger := s.ledger.take i }.setCall i
      (.returned picture timestamp)) where
  balanced := (h.take i).balanced
  slot := (h.take i).slot
  warned := (h.take i).warned
  returned := by
    intro j picture' timestamp' hj
    by_cases hji : j = i
    · -- The call that returns: its value is the one the slot held.
      rw [hji, setCall_self] at hj
      cases hj
      have hvalue : s.ledger.value = some ⟨picture, true⟩ := by
        have hslot := h.slot
        rw [hdata] at hslot
        cases hv : s.ledger.value with
        | none =>
            rw [hv] at hslot
            cases hslot
        | some c =>
            rw [hv] at hslot
            rw [capture_of_data hslot.symm]
      obtain ⟨n, htaken, hstored⟩ := Ledger.mem_taken_take i hvalue
      exact ⟨n, hji ▸ htaken, hstored⟩
    · rw [setCall_of_ne _ _ hji] at hj
      exact (h.take i).returned j picture' timestamp' hj

/-- A callback puts a value. If it replaces one, it has logged the warning. -/
theorem inv_onThermalFrame {s : IRImagerRealImpl} (h : Inv s) (capture : Capture) :
    Inv (s.onThermalFrame capture) where
  balanced := h.balanced.put capture
  slot := by
    show capture.data = slotOf (s.ledger.put capture).value
    rw [Ledger.value_put]
    rfl
  warned := by
    intro n m hnm
    show m ∈ (if s.thermalData_ ≠ .null then s.warned ++ [s.ledger.stored.length] else s.warned)
    have hslot := h.slot
    cases hheld : s.ledger.held with
    | none =>
        have hnull : s.thermalData_ = .null := by
          rw [hslot, Ledger.value, hheld]
          rfl
        rw [if_neg (by simp [hnull])]
        simp only [onThermalFrame, Ledger.put, hheld] at hnm
        exact h.warned n m hnm
    | some k =>
        have hfull : s.thermalData_ ≠ .null := by
          have hlt := h.balanced.held_lt hheld
          rw [hslot, Ledger.value, hheld, Option.bind_some, List.getElem?_eq_getElem hlt]
          exact data_ne_null _
        rw [if_pos hfull]
        simp only [onThermalFrame, Ledger.put, hheld, List.mem_append, List.mem_singleton,
          Prod.mk.injEq] at hnm
        rcases hnm with hold | ⟨-, rfl⟩
        · exact List.mem_append_left _ (h.warned n m hold)
        · exact List.mem_append_right _ List.mem_cons_self
  returned := by
    intro i picture timestamp hi
    obtain ⟨n, htaken, hstored⟩ := h.returned i picture timestamp hi
    exact ⟨n, htaken, Ledger.getElem?_put capture hstored⟩

/-- A step keeps the invariant. -/
theorem inv_step (s : IRImagerRealImpl) (l : Label) (s' : IRImagerRealImpl) (h : Inv s)
    (hs : step s l = some s') : Inv s' := by
  cases l with
  | enter i =>
      obtain ⟨-, rfl⟩ := step_enter hs
      exact h.quiet rfl rfl rfl (returned_of_setCall (by simp))
  | getFrame i deviceError rawFrame timestamp =>
      obtain ⟨-, rfl⟩ := step_getFrame hs
      unfold getFrame
      split
      · exact h.quiet rfl rfl rfl (returned_of_setCall (by simp))
      · exact h.quiet rfl rfl rfl (returned_of_setCall (by simp))
  | process i =>
      obtain ⟨rawFrame, timestamp, -, rfl⟩ := step_process hs
      exact h.quiet rfl rfl rfl (returned_of_setCall (by simp))
  | timeout i =>
      obtain ⟨-, -, e, rfl⟩ := step_timeout hs
      exact h.quiet rfl rfl rfl (returned_of_setCall (by simp))
  | take i =>
      obtain ⟨rawFrame, timestamp, -, ⟨reason, -, rfl⟩ | ⟨picture, hdata, rfl⟩⟩ := step_take hs
      · exact (h.take i).quiet rfl rfl rfl (returned_of_setCall (by simp))
      · exact inv_returned h i timestamp hdata
  | onThermalFrame capture =>
      obtain rfl := step_onThermalFrame hs
      exact inv_onThermalFrame h capture

/-- In every reachable state: each value a callback stored was taken once, or replaced
once by a later callback that logged the warning, or is in the slot. The slot holds what
the account says. A value was taken by one call only, and a call that returned took a
value that was stored with the flag open, and returned that picture. -/
theorem reachable_fates (s : IRImagerRealImpl) (hs : Reachable step initial s) :
    (∀ n, n < s.ledger.stored.length →
      s.ledger.timesTaken n + s.ledger.timesReplaced n +
        (if s.ledger.held = some n then 1 else 0) = 1) ∧
    (∀ n m, (n, m) ∈ s.ledger.replaced →
      n < m ∧ m < s.ledger.stored.length ∧ m ∈ s.warned) ∧
    s.thermalData_ = slotOf s.ledger.value ∧
    (∀ n i j, (n, i) ∈ s.ledger.taken → (n, j) ∈ s.ledger.taken → i = j) ∧
    ∀ i picture timestamp, s.calls i = .returned picture timestamp →
      ∃ n, (n, i) ∈ s.ledger.taken ∧ s.ledger.stored[n]? = some ⟨picture, true⟩ := by
  have h := hs.invariant inv_initial inv_step
  refine ⟨?_, ?_, h.slot, ?_, h.returned⟩
  · intro n hn
    have hone := h.balanced.one n
    rwa [if_pos hn] at hone
  · intro n m hnm
    obtain ⟨hlt, hm⟩ := h.balanced.later n m hnm
    exact ⟨hlt, hm, h.warned n m hnm⟩
  · intro n i j hi hj
    exact h.balanced.taker_unique hi hj

/-- Two calls and three callbacks: a closed shutter that one call takes, a frame that is
replaced, and the frame that the other call returns. -/
theorem reachable_fates_two_calls :
    ∃ s, run step initial
        [.enter 0, .enter 1, .getFrame 0 .success 7 70, .process 0, .getFrame 1 .success 8 80,
          .process 1, .onThermalFrame ⟨7, false⟩, .take 0, .onThermalFrame ⟨9, true⟩,
          .onThermalFrame ⟨8, true⟩, .take 1] = some s ∧
      (∀ n, n < s.ledger.stored.length →
        s.ledger.timesTaken n + s.ledger.timesReplaced n +
          (if s.ledger.held = some n then 1 else 0) = 1) ∧
      (∀ n m, (n, m) ∈ s.ledger.replaced →
        n < m ∧ m < s.ledger.stored.length ∧ m ∈ s.warned) ∧
      s.thermalData_ = slotOf s.ledger.value ∧
      (∀ n i j, (n, i) ∈ s.ledger.taken → (n, j) ∈ s.ledger.taken → i = j) ∧
      ∀ i picture timestamp, s.calls i = .returned picture timestamp →
        ∃ n, (n, i) ∈ s.ledger.taken ∧ s.ledger.stored[n]? = some ⟨picture, true⟩ :=
  ⟨_, rfl, reachable_fates _
    ⟨[.enter 0, .enter 1, .getFrame 0 .success 7 70, .process 0, .getFrame 1 .success 8 80,
      .process 1, .onThermalFrame ⟨7, false⟩, .take 0, .onThermalFrame ⟨9, true⟩,
      .onThermalFrame ⟨8, true⟩, .take 1], rfl⟩⟩

end IRImagerRealImpl
end NqmIrimager
