import NqmIrimager.Lib.StepRun
import NqmIrimager.WakeSignal

/-!
# `NqmIrimager.Proofs.WakeSignalKills`: when the wake-up signal terminates the process

The thread publishes its handle before it sets the signal to be ignored. A destructor
that loads the handle in between sends a signal that is not ignored yet.

* `not_killed_of_seesIgnored`: a run in which every load of a handle sees `0` or an
  ignored signal (`SeesIgnored`) never terminates the process.
* `killed_after_load`: any other load can be followed by a signal that does, while the
  thread has not ended.

`threadStep_spec` and `ownerStep_spec` say what a step does to the three things the
argument looks at: the disposition, `killed`, and what owners have loaded.
-/

set_option autoImplicit false

namespace NqmIrimager
namespace WakeSignal

open StepRun

/-- A load of a handle sees `0`, or the signal is ignored already. Other steps are free. -/
def SeesIgnored (s : State) : Label → Prop
  | .owner i .loadHandle => (s.readers i).threadHandle_ = 0 ∨ s.disposition = .ignore
  | _ => True

/-- The invariant: an owner that holds a handle got it with the signal ignored. -/
structure Inv (s : State) : Prop where
  alive : s.killed = false
  loaded : ∀ i value, (s.readers i).owner = .handleLoaded value → value ≠ 0 →
    s.disposition = .ignore

/-- No reader was made, so nobody holds a handle. -/
theorem inv_initial : Inv .initial where
  alive := rfl
  loaded := by
    intro i value hvalue
    cases hvalue

/-- The step of a thread. It changes the disposition in one direction, and no owner. -/
theorem threadStep_spec {s s' : State} {i : Nat} {l : ThreadLabel}
    (hs : threadStep s i l = some s') :
    s'.killed = s.killed ∧ (s.disposition = .ignore → s'.disposition = .ignore) ∧
      ∀ j, (s'.readers j).owner = (s.readers j).owner := by
  -- Every case changes reader `i` only, and keeps its owner.
  have hset : ∀ (t : State) (r : Reader), t.readers = s.readers → r.owner = (s.readers i).owner →
      ∀ j, ((t.setReader i r).readers j).owner = (s.readers j).owner := by
    intro t r ht hr j
    by_cases hj : j = i
    · rw [hj, setReader_self, hr]
    · rw [setReader_of_ne t r hj, ht]
  unfold threadStep at hs
  simp only at hs
  split at hs
  · cases hs
  · split at hs
    · cases hs
      exact ⟨rfl, fun h => h, hset s _ rfl rfl⟩
    · cases hs
      exact ⟨rfl, fun _ => rfl, hset { s with disposition := .ignore } _ rfl rfl⟩
    · cases hs
      exact ⟨rfl, fun h => h, hset s _ rfl rfl⟩
    · cases hs
      exact ⟨rfl, fun h => h, hset s _ rfl rfl⟩
    · split at hs
      · cases hs
        exact ⟨rfl, fun h => h, hset s _ rfl rfl⟩
      · cases hs
    · cases hs

/-- The step of an owner other than the signal: the disposition stays, and the owner
holds a handle afterwards only if it has just loaded it. -/
theorem ownerStep_spec {s s' : State} {i : Nat} {l : OwnerLabel} (hl : l ≠ .kill)
    (hs : ownerStep s i l = some s') :
    s'.killed = s.killed ∧ s'.disposition = s.disposition ∧
      (∀ j, j ≠ i → s'.readers j = s.readers j) ∧
      ∀ value, (s'.readers i).owner = .handleLoaded value →
        l = .loadHandle ∧ value = (s.readers i).threadHandle_ := by
  -- Every case but the load and the signal leaves reader `i` without a loaded handle.
  have hset : ∀ r : Reader, (∀ value, r.owner ≠ .handleLoaded value) →
      (s.setReader i r).killed = s.killed ∧ (s.setReader i r).disposition = s.disposition ∧
        (∀ j, j ≠ i → (s.setReader i r).readers j = s.readers j) ∧
        ∀ value, ((s.setReader i r).readers i).owner = .handleLoaded value →
          l = .loadHandle ∧ value = (s.readers i).threadHandle_ := by
    intro r hr
    refine ⟨rfl, rfl, fun j hj => setReader_of_ne s r hj, ?_⟩
    intro value hvalue
    rw [setReader_self] at hvalue
    exact absurd hvalue (hr value)
  unfold ownerStep at hs
  simp only at hs
  split at hs
  · cases hs
    exact hset _ (by simp)
  · cases hs
    exact hset _ (by simp)
  · -- The load.
    cases hs
    refine ⟨rfl, rfl, fun j hj => setReader_of_ne s _ hj, ?_⟩
    intro value hvalue
    rw [setReader_self] at hvalue
    cases hvalue
    exact ⟨rfl, rfl⟩
  · exact absurd rfl hl
  · split at hs
    · cases hs
      exact hset _ (by simp)
    · cases hs
  · cases hs

/-- The signal. -/
theorem kill_spec {s s' : State} {i : Nat} (hs : ownerStep s i .kill = some s') :
    ∃ value, (s.readers i).owner = .handleLoaded value ∧
      s' = (if value ≠ 0 then sendSignal s else s).setReader i
        { s.readers i with owner := .joining } := by
  cases howner : (s.readers i).owner with
  | handleLoaded value =>
      simp only [ownerStep, howner, Option.some.injEq] at hs
      exact ⟨value, rfl, hs.symm⟩
  | unborn => simp only [ownerStep, howner, reduceCtorEq] at hs
  | alive => simp only [ownerStep, howner, reduceCtorEq] at hs
  | stopStored => simp only [ownerStep, howner, reduceCtorEq] at hs
  | joining => simp only [ownerStep, howner, reduceCtorEq] at hs
  | destroyed => simp only [ownerStep, howner, reduceCtorEq] at hs

/-- A step that meets the condition keeps the invariant. -/
theorem inv_step (s : State) (l : Label) (s' : State) (h : Inv s) (hl : SeesIgnored s l)
    (hs : step s l = some s') : Inv s' := by
  unfold step at hs
  rw [if_neg (by rw [h.alive]; decide)] at hs
  cases l with
  | thread i l =>
      -- No owner changes, and the signal does not stop being ignored.
      obtain ⟨hkilled, hdisposition, howner⟩ := threadStep_spec hs
      constructor
      · exact hkilled.trans h.alive
      · intro j value hvalue hne
        rw [howner j] at hvalue
        exact hdisposition (h.loaded j value hvalue hne)
  | owner i l =>
      by_cases hkill : l = .kill
      · -- The owner holds a handle, so the signal is ignored.
        subst hkill
        obtain ⟨value, hvalue, rfl⟩ := kill_spec hs
        have hsame : (if value ≠ 0 then sendSignal s else s) = s := by
          split
          · rename_i hne
            rw [sendSignal, h.loaded i value hvalue hne]
          · rfl
        rw [hsame]
        constructor
        · exact h.alive
        · intro j value' hvalue' hne
          by_cases hj : j = i
          · -- The owner of `i` joins now.
            rw [hj, setReader_self] at hvalue'
            cases hvalue'
          · rw [setReader_of_ne s _ hj] at hvalue'
            exact h.loaded j value' hvalue' hne
      · obtain ⟨hkilled, hdisposition, hother, hloaded⟩ := ownerStep_spec hkill hs
        constructor
        · exact hkilled.trans h.alive
        · intro j value hvalue hne
          rw [hdisposition]
          by_cases hj : j = i
          · rw [hj] at hvalue
            obtain ⟨rfl, rfl⟩ := hloaded value hvalue
            -- The load itself: the condition is about it.
            rcases hl with hzero | hignore
            · exact absurd hzero hne
            · exact hignore
          · rw [hother j hj] at hvalue
            exact h.loaded j value hvalue hne

/-- A run whose loads of a handle all see `0` or an ignored signal sends no signal that
terminates the process. -/
theorem not_killed_of_seesIgnored (ls : List Label) (s : State)
    (hloads : Along step SeesIgnored .initial ls) (hrun : run step .initial ls = some s) :
    s.killed = false :=
  (run_invariant_along inv_step inv_initial hloads hrun).alive

/-- One reader that is destroyed after its thread has set the signal to be ignored, and
then a second one whose thread has not. -/
theorem not_killed_of_seesIgnored_second :
    ∃ s, run step .initial
        [.owner 0 .create, .thread 0 .storeHandle, .thread 0 (.sigaction true),
          .owner 0 .storeStop, .owner 0 .loadHandle, .owner 0 .kill, .owner 1 .create,
          .thread 1 .storeHandle, .owner 1 .storeStop, .owner 1 .loadHandle, .owner 1 .kill]
        = some s ∧ s.killed = false :=
  ⟨_, rfl, not_killed_of_seesIgnored
    [.owner 0 .create, .thread 0 .storeHandle, .thread 0 (.sigaction true),
      .owner 0 .storeStop, .owner 0 .loadHandle, .owner 0 .kill, .owner 1 .create,
      .thread 1 .storeHandle, .owner 1 .storeStop, .owner 1 .loadHandle, .owner 1 .kill] _
    ⟨trivial, trivial, trivial, trivial, Or.inr rfl, trivial, trivial, trivial, trivial,
      Or.inr rfl, trivial, trivial⟩ rfl⟩

/-- The condition is not too strong: from any state where a load would break it and the
thread has not ended, the load and the signal after it terminate the process. The signal
goes to a thread that is still there. -/
theorem killed_after_load {s : State} {i : Nat} (halive : s.killed = false)
    (howner : (s.readers i).owner = .stopStored) (hthread : (s.readers i).thread ≠ .ended)
    (hload : ¬ SeesIgnored s (.owner i .loadHandle)) :
    ∃ s₁ s₂, step s (.owner i .loadHandle) = some s₁ ∧ (s₁.readers i).thread ≠ .ended ∧
      step s₁ (.owner i .kill) = some s₂ ∧ s₂.killed = true := by
  simp only [SeesIgnored, not_or] at hload
  obtain ⟨hne, hdefault⟩ := hload
  have hdefault' : s.disposition = .default := by
    cases hd : s.disposition with
    | default => rfl
    | ignore => exact absurd hd hdefault
  -- The state after the load, and the one after the signal.
  let r := s.readers i
  let s₁ := s.setReader i { r with owner := .handleLoaded r.threadHandle_ }
  let s₂ := State.setReader { s₁ with killed := true } i { s₁.readers i with owner := .joining }
  have hfirst : step s (.owner i .loadHandle) = some s₁ := by
    unfold step
    rw [if_neg (by rw [halive]; decide)]
    simp only [ownerStep, howner]
    rfl
  have hsecond : step s₁ (.owner i .kill) = some s₂ := by
    have howner₁ : (s₁.readers i).owner = .handleLoaded r.threadHandle_ := by
      rw [setReader_self]
    have hsend : sendSignal s₁ = { s₁ with killed := true } := by
      rw [sendSignal, setReader_disposition, hdefault']
    unfold step
    rw [if_neg (by rw [setReader_killed, halive]; decide)]
    simp only [ownerStep, howner₁]
    rw [if_pos hne, hsend]
  -- The load does not move the thread.
  have hthread₁ : (s₁.readers i).thread ≠ .ended := by
    rw [setReader_self]
    exact hthread
  exact ⟨s₁, s₂, hfirst, hthread₁, hsecond, rfl⟩

/-- The destructor runs between the two publications of the thread: handle stored, signal
not set yet. -/
theorem killed_between_publications :
    ∃ s, run step .initial
        [.owner 0 .create, .thread 0 .storeHandle, .owner 0 .storeStop, .owner 0 .loadHandle,
          .owner 0 .kill] = some s ∧ s.killed = true :=
  ⟨_, rfl, rfl⟩

end WakeSignal
end NqmIrimager
