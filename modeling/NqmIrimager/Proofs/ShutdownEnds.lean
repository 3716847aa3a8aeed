import NqmIrimager.Lib.StepProgress
import NqmIrimager.Proofs.ShutdownUnread

/-!
# `NqmIrimager.Proofs.ShutdownEnds`: whether the destructor returns

The destructor waits twice: for the writer, and for the reader thread. The second wait always
ends. `stopped_run_ends` bounds what can still happen after the store of `stop_`, in any order of
steps and with any answers of the operating system.

The first wait need not end. The `open` of a FIFO for writing waits for a reader, so a reader
thread that ends too early leaves the writer in its `open`, and `~IRLoggerImpl` with it: one that
ends before the writer calls `open`, or one that ends without having opened the FIFO (`Hangs`).
`canReach_destroyed_iff` says that this is the only way in which the destructor can hang: from
any other reachable state it can still return, without any error of the operating system.
-/

set_option autoImplicit false

namespace NqmIrimager
namespace Shutdown

open StepRun

/-- A step in which the operating system reports no error, or one that the source answers with
another turn of the loop. -/
def Label.Transient : Label → Prop
  | .reader (.opens opened) => opened = true
  | .reader (.poll (.failed errno)) => errno = .eintr
  | .reader (.read (.failed errno)) => errno = .eintr ∨ errno = .eagain
  | _ => True

/-- The reader thread is gone, and the writer's `open` cannot return: it is still to be called, or it
waits and no reader has opened the FIFO since. -/
structure Hangs (s : State) : Prop where
  reader : s.reader = .ended
  writer : s.writer = .opening ∨ (s.writer = .waiting ∧ s.readerOpened = false)

/-- `~IRLoggerReader` has returned. -/
def Destroyed (s : State) : Prop := s.owner = .destroyed

/-- A writer whose `open` cannot return has not ended. -/
theorem Hangs.unended {s : State} (h : Hangs s) : s.writer ≠ .ended := by
  obtain hw | ⟨hw, -⟩ := h.writer
  · rw [hw]
    decide
  · rw [hw]
    decide

/-! ### What can be reached -/

/-- Nothing ends that: the writer needs a reader to open the FIFO, and the owner needs a writer
that has ended. -/
theorem stuck_step (s : State) (l : Label) (s' : State)
    (h : Hangs s ∧ s.owner.progress ≤ 1) (hs : step s l = some s') :
    Hangs s' ∧ s'.owner.progress ≤ 1 := by
  obtain ⟨hhangs, hearly⟩ := h
  have hunended := hhangs.unended
  obtain ⟨hreader, hwriter⟩ := hhangs
  cases l with
  | reader l => cases l <;> simp [step, readerStep, hreader] at hs
  | writer l =>
      obtain hw | ⟨hw, hnone⟩ := hwriter
      · cases l <;> simp [step, writerStep, hreader, hw] at hs
      · cases l <;> simp [step, writerStep, hnone, hw] at hs
  | owner l =>
      -- Only the first step of the destructor is possible.
      cases l with
      | stopWriter =>
          simp only [step, ownerStep] at hs
          split at hs
          · cases hs
            exact ⟨⟨hreader, hwriter⟩, Nat.le_refl 1⟩
          · cases hs
      | joinWriter => simp [step, ownerStep, hunended] at hs
      | stopReader =>
          simp only [step, ownerStep] at hs
          split at hs
          · rename_i hpc
            rw [hpc] at hearly
            exact absurd hearly (by decide)
          · cases hs
      | interruptReader =>
          simp only [step, ownerStep] at hs
          split at hs
          · rename_i hpc
            rw [hpc] at hearly
            exact absurd hearly (by decide)
          · cases hs
      | joinReader =>
          simp only [step, ownerStep] at hs
          split at hs
          · rename_i hpc
            rw [hpc.1] at hearly
            exact absurd hearly (by decide)
          · cases hs

/-- From a state that hangs, the end of the destructor is out of reach. -/
theorem not_canReach_of_hangs {s : State} (h : Inv s) (hhangs : Hangs s) (Q : Label → Prop) :
    ¬ CanReach step Q Destroyed s := by
  have hearly : s.owner.progress ≤ 1 := by
    by_cases hp : 2 ≤ s.owner.progress
    · exact absurd (h.writer hp) hhangs.unended
    · omega
  refine not_canReach_of_stuck (fun s l s' h _ => stuck_step s l s' h) ?_ ⟨hhangs, hearly⟩
  intro t ht hdone
  rw [show t.owner = .destroyed from hdone] at ht
  exact absurd ht.2 (by decide)

/-- How far the reader is from the end of its thread, once `stop_` is stored, if it meets no
error. -/
def ReaderPc.left : ReaderPc → Nat
  | .opening => 3
  | .polling => 2
  | .reading => 2
  | .pushing _ => 2
  | .testing => 1
  | .ended => 0

/-- How far the writer is from its end. -/
def WriterPc.left : WriterPc → Nat
  | .opening => 2
  | .waiting => 2
  | .writing => 1
  | .ended => 0

/-- How far the destructor is from its end, with the threads it waits for. -/
def State.left (s : State) : Nat :=
  100 * (5 - s.owner.progress) + 10 * s.writer.left + s.reader.left

/-- With `stop_` stored, the reader has a step towards its end. -/
theorem reader_leaves {s : State} (hstop : s.stop_ = true) (hreader : s.reader ≠ .ended) :
    ∃ l s', Label.Transient (.reader l) ∧ readerStep s l = some s' ∧ s'.owner = s.owner ∧
      s'.writer = s.writer ∧ s'.reader.left < s.reader.left := by
  cases hpc : s.reader with
  | opening =>
      exact ⟨.opens true, { s with reader := .testing, readerOpened := true }, rfl,
        by simp [readerStep, hpc], rfl, rfl, show 1 < 3 by decide⟩
  | testing =>
      exact ⟨.test, { s with reader := .ended }, trivial, by simp [readerStep, hpc, hstop], rfl,
        rfl, show 0 < 1 by decide⟩
  | polling =>
      exact ⟨.poll .timeout, { s with reader := .testing }, trivial,
        by simp [readerStep, hpc, afterPoll], rfl, rfl, show 1 < 2 by decide⟩
  | reading =>
      exact ⟨.read (.failed .eagain), { s with reader := .testing }, Or.inr rfl,
        by simp [readerStep, hpc, afterRead, ReadResult.from], rfl, rfl, show 1 < 2 by decide⟩
  | pushing bytes =>
      exact ⟨.push, { s with reader := .testing, passed := s.passed ++ bytes }, trivial,
        by simp [readerStep, hpc], rfl, rfl, show 1 < 2 by decide⟩
  | ended => exact absurd hpc hreader

/-- A reader in its loop has opened the FIFO. -/
def Opened (s : State) : Prop := s.reader = .opening ∨ s.reader = .ended ∨ s.readerOpened = true

/-- What `read` leaves does not change whether the FIFO was opened. -/
theorem afterRead_readerOpened (s : State) (result : ReadResult) :
    (afterRead s result).readerOpened = s.readerOpened := by
  unfold afterRead
  split <;> rfl

/-- A step of the reader is its `open`, or one of the loop, which opens nothing. -/
theorem readerStep_opens {s s' : State} {l : ReaderLabel} (hs : readerStep s l = some s') :
    (s.reader = .opening ∧ (s'.reader = .ended ∨ s'.readerOpened = true)) ∨
      (s.reader ≠ .opening ∧ s.reader ≠ .ended ∧ s'.readerOpened = s.readerOpened) := by
  cases l with
  | opens opened =>
      obtain ⟨hpc, heq⟩ := Option.ite_none_right_eq_some.mp hs
      cases heq
      cases opened with
      | true => exact Or.inl ⟨hpc, Or.inr rfl⟩
      | false => exact Or.inl ⟨hpc, Or.inl rfl⟩
  | test | poll _ =>
      obtain ⟨hpc, heq⟩ := Option.ite_none_right_eq_some.mp hs
      cases heq
      exact Or.inr ⟨by rw [hpc]; decide, by rw [hpc]; decide, rfl⟩
  | read result =>
      obtain ⟨hpc, heq⟩ := Option.ite_none_right_eq_some.mp hs
      cases heq
      exact Or.inr ⟨by rw [hpc]; decide, by rw [hpc]; decide, afterRead_readerOpened s result⟩
  | push =>
      simp only [readerStep] at hs
      split at hs
      · rename_i bytes hpc
        cases hs
        exact Or.inr ⟨by rw [hpc]; simp, by rw [hpc]; simp, rfl⟩
      · cases hs

/-- The writer leaves the reader and what it has opened alone. -/
theorem writerStep_reader {s s' : State} {l : WriterLabel} (hs : writerStep s l = some s') :
    s'.reader = s.reader ∧ s'.readerOpened = s.readerOpened := by
  cases l with
  | waits | opens | write _ | finish =>
      obtain ⟨-, heq⟩ := Option.ite_none_right_eq_some.mp hs
      cases heq
      exact ⟨rfl, rfl⟩

/-- The destructor does so, too. -/
theorem ownerStep_reader {s s' : State} {l : OwnerLabel} (hs : ownerStep s l = some s') :
    s'.reader = s.reader ∧ s'.readerOpened = s.readerOpened := by
  cases l with
  | stopWriter | joinWriter | stopReader | interruptReader | joinReader =>
      obtain ⟨-, heq⟩ := Option.ite_none_right_eq_some.mp hs
      cases heq
      exact ⟨rfl, rfl⟩

/-- The reader goes into its loop with the FIFO open, and no other party closes it. -/
theorem opened_step (s : State) (l : Label) (s' : State) (h : Opened s) (hs : step s l = some s') :
    Opened s' := by
  cases l with
  | reader l =>
      rcases readerStep_opens hs with ⟨-, hends⟩ | ⟨hopening, hended, hsame⟩
      · exact Or.inr hends
      · -- A reader in the loop has opened the FIFO.
        have hopened := (h.resolve_left hopening).resolve_left hended
        exact Or.inr (Or.inr (hsame.trans hopened))
  | writer l =>
      obtain ⟨hreader, hopened⟩ := writerStep_reader hs
      rw [Opened, hreader, hopened]
      exact h
  | owner l =>
      obtain ⟨hreader, hopened⟩ := ownerStep_reader hs
      rw [Opened, hreader, hopened]
      exact h

/-- The states on the way to the end of the destructor. -/
structure Going (s : State) : Prop where
  inv : Inv s
  opened : Opened s
  free : ¬ Hangs s

/-- A step without an error leads on. -/
def GoesOn (s : State) : Prop :=
  ∃ l s', Label.Transient l ∧ step s l = some s' ∧ Going s' ∧ s'.left < s.left

/-- A step leads on when what it ends in does not hang. -/
theorem Going.take {s s' : State} (h : Going s) (l : Label) (hl : l.Transient)
    (hs : step s l = some s') (hfree : ¬ Hangs s') (hlt : s'.left < s.left) : GoesOn s :=
  ⟨l, s', hl, hs, ⟨inv_step s l s' h.inv hs, opened_step s l s' h.opened hs, hfree⟩, hlt⟩

/-- A reader that has not opened the FIFO yet can do so. -/
theorem Going.readerOpens {s : State} (h : Going s) (hreader : s.reader = .opening) :
    GoesOn s := by
  have hs : step s (.reader (.opens true))
      = some { s with reader := .testing, readerOpened := true } := by
    simp [step, readerStep, hreader]
  refine h.take (.reader (.opens true)) rfl hs (fun hbad => by cases hbad.reader) ?_
  simp [State.left, hreader, ReaderPc.left]

/-- A writer that gets out of its `open` does not hang after it. -/
theorem Going.writerOpens {s : State} (h : Going s)
    (hwriter : s.writer = .opening ∨ s.writer = .waiting)
    (hs : step s (.writer .opens) = some { s with writer := .writing }) : GoesOn s := by
  refine h.take (.writer .opens) trivial hs (fun hbad => ?_) ?_
  · obtain hw | ⟨hw, -⟩ := hbad.writer
    · cases hw
    · cases hw
  · obtain hw | hw := hwriter
    · simp [State.left, hw, WriterPc.left]
    · simp [State.left, hw, WriterPc.left]

/-- A writer in its `open` gets out of it, after the reader's if that is still to come. -/
theorem Going.opens {s : State} (h : Going s)
    (hwriter : s.writer = .opening ∨ s.writer = .waiting) : GoesOn s := by
  cases hreader : s.reader with
  | opening => exact h.readerOpens hreader
  | ended =>
      -- The writer waits, and the reader has opened the FIFO: otherwise it hangs.
      have hwaiting : s.writer = .waiting :=
        hwriter.resolve_left fun hw => h.free ⟨hreader, Or.inl hw⟩
      have hopened : s.readerOpened = true := by
        cases hread : s.readerOpened with
        | true => rfl
        | false => exact absurd ⟨hreader, Or.inr ⟨hwaiting, hread⟩⟩ h.free
      exact h.writerOpens hwriter (by simp [step, writerStep, hwaiting, hopened])
  | testing | polling | reading | pushing _ =>
      have hopened : s.readerOpened = true :=
        (h.opened.resolve_left (by simp [hreader])).resolve_left (by simp [hreader])
      refine h.writerOpens hwriter ?_
      obtain hw | hw := hwriter
      · simp [step, writerStep, hw, hreader]
      · simp [step, writerStep, hw, hopened]

/-- A state that does not hang has a step towards the end of the destructor. -/
theorem step_towards (s : State) (h : Going s) (hdone : ¬ Destroyed s) : GoesOn s := by
  -- The owner changes nothing that the wait depends on.
  have hfree : ∀ owner stop_ unread, ¬ Hangs
      { s with owner := owner, stop_ := stop_, unreadAtStop := unread } :=
    fun _ _ _ hbad => h.free ⟨hbad.reader, hbad.writer⟩
  cases howner : s.owner with
  | alive =>
      have hs : step s (.owner .stopWriter) = some { s with owner := .stoppingWriter } := by
        simp [step, ownerStep, howner]
      refine h.take (.owner .stopWriter) trivial hs (hfree _ _ _) ?_
      simp [State.left, howner, OwnerPc.progress]
  | stoppingWriter =>
      cases hwriter : s.writer with
      | opening => exact h.opens (Or.inl hwriter)
      | waiting => exact h.opens (Or.inr hwriter)
      | writing =>
          have hs : step s (.writer .finish) = some { s with writer := .ended } := by
            simp [step, writerStep, hwriter]
          refine h.take (.writer .finish) trivial hs (fun hbad => hbad.unended rfl) ?_
          simp [State.left, hwriter, WriterPc.left]
      | ended =>
          have hs : step s (.owner .joinWriter) = some { s with owner := .writerDestroyed } := by
            simp [step, ownerStep, howner, hwriter]
          refine h.take (.owner .joinWriter) trivial hs (hfree _ _ _) ?_
          simp [State.left, howner, OwnerPc.progress]
  | writerDestroyed =>
      have hs : step s (.owner .stopReader)
          = some { s with owner := .stopping, stop_ := true, unreadAtStop := s.fifo } := by
        simp [step, ownerStep, howner]
      refine h.take (.owner .stopReader) trivial hs (hfree _ _ _) ?_
      simp [State.left, howner, OwnerPc.progress]
  | stopping =>
      have hs : step s (.owner .interruptReader) = some { s with owner := .interrupting } := by
        simp [step, ownerStep, howner]
      refine h.take (.owner .interruptReader) trivial hs (hfree _ _ _) ?_
      simp [State.left, howner, OwnerPc.progress]
  | interrupting =>
      have hstop : s.stop_ = true := h.inv.stop.mpr (by rw [howner]; decide)
      have hended : s.writer = .ended := h.inv.writer (by rw [howner]; decide)
      by_cases hreader : s.reader = .ended
      · have hs : step s (.owner .joinReader) = some { s with owner := .destroyed } := by
          simp [step, ownerStep, howner, hreader]
        refine h.take (.owner .joinReader) trivial hs (hfree _ _ _) ?_
        simp [State.left, howner, OwnerPc.progress]
      · obtain ⟨l, s', hl, hs, howner', hwriter, hlt⟩ := reader_leaves hstop hreader
        refine h.take (.reader l) hl hs (fun hbad => hbad.unended (hwriter.trans hended)) ?_
        rw [State.left, State.left, howner', hwriter]
        omega
  | destroyed => exact absurd howner hdone

/-- The reader thread cannot open the FIFO: the writer waits for a reader for ever, and so does
the destructor for the writer. -/
def noReader : List Label := [.writer .waits, .reader (.opens false), .owner .stopWriter]

/-- A writer that waits is let go by a reader that opens the FIFO and ends at once. -/
example : ∃ s, run step .initial
      [.writer .waits, .reader (.opens true), .reader .test,
        .reader (.poll (.failed (.other (ascii "Cannot allocate memory")))), .writer .opens] = some s ∧
    s.reader = .ended ∧ s.writer = .writing :=
  ⟨_, rfl, rfl, rfl⟩

/-! ### After the store of `stop_` -/

/-- How many steps the reader can still take after the store of `stop_`, with any answers. -/
def ReaderPc.mostLeft : ReaderPc → Nat
  | .polling => 4
  | .reading => 3
  | .opening => 2
  | .pushing _ => 2
  | .testing => 1
  | .ended => 0

/-- How many steps all parties can still take after the store of `stop_`. -/
def State.mostLeft (s : State) : Nat := (5 - s.owner.progress) + s.reader.mostLeft

/-- Whatever `poll` answers, at most three steps are left: `read`, the push and the test. -/
theorem afterPoll_mostLeft (result : PollResult) : (afterPoll result).mostLeft ≤ 3 := by
  unfold afterPoll
  split
  · decide
  · decide
  · decide
  · split
    · decide
    · decide

/-- The reader comes closer to its end with every step: once it tests `stop_`, it is there. -/
theorem readerStep_mostLeft {s s' : State} {l : ReaderLabel} (hstop : s.stop_ = true)
    (hs : readerStep s l = some s') :
    s'.stop_ = true ∧ s'.owner = s.owner ∧ s'.writer = s.writer ∧
      s'.reader.mostLeft < s.reader.mostLeft := by
  cases l with
  | opens opened =>
      simp only [readerStep] at hs
      split at hs
      · rename_i hpc
        cases hs
        refine ⟨hstop, rfl, rfl, ?_⟩
        rw [hpc]
        cases opened with
        | true => exact show 1 < 2 by decide
        | false => exact show 0 < 2 by decide
      · cases hs
  | test =>
      simp only [readerStep] at hs
      split at hs
      · rename_i hpc
        cases hs
        refine ⟨hstop, rfl, rfl, ?_⟩
        rw [hpc]
        simp [ReaderPc.mostLeft]
      · cases hs
  | poll result =>
      simp only [readerStep] at hs
      split at hs
      · rename_i hpc
        cases hs
        refine ⟨hstop, rfl, rfl, ?_⟩
        rw [hpc]
        exact Nat.lt_succ_of_le (afterPoll_mostLeft result)
      · cases hs
  | read result =>
      simp only [readerStep] at hs
      split at hs
      · rename_i hpc
        cases hs
        rw [hpc]
        unfold afterRead
        -- The error, nothing to handle, and bytes to handle.
        split
        · exact ⟨hstop, rfl, rfl, show 0 < 3 by decide⟩
        · exact ⟨hstop, rfl, rfl, show 1 < 3 by decide⟩
        · exact ⟨hstop, rfl, rfl, show 2 < 3 by decide⟩
      · cases hs
  | push =>
      simp only [readerStep] at hs
      split at hs
      · rename_i bytes hpc
        cases hs
        refine ⟨hstop, rfl, rfl, ?_⟩
        rw [hpc]
        exact show 1 < 2 by decide
      · cases hs

/-- The owner comes closer to its end with every step. -/
theorem ownerStep_progress {s s' : State} {l : OwnerLabel} (hs : ownerStep s l = some s') :
    s'.reader = s.reader ∧ s'.owner.progress = s.owner.progress + 1 := by
  cases l with
  | stopWriter =>
      simp only [ownerStep] at hs
      split at hs
      · rename_i hpc
        cases hs
        exact ⟨rfl, by rw [hpc]; rfl⟩
      · cases hs
  | joinWriter =>
      simp only [ownerStep] at hs
      split at hs
      · rename_i hpc
        cases hs
        exact ⟨rfl, by rw [hpc.1]; rfl⟩
      · cases hs
  | stopReader =>
      simp only [ownerStep] at hs
      split at hs
      · rename_i hpc
        cases hs
        exact ⟨rfl, by rw [hpc]; rfl⟩
      · cases hs
  | interruptReader =>
      simp only [ownerStep] at hs
      split at hs
      · rename_i hpc
        cases hs
        exact ⟨rfl, by rw [hpc]; rfl⟩
      · cases hs
  | joinReader =>
      simp only [ownerStep] at hs
      split at hs
      · rename_i hpc
        cases hs
        exact ⟨rfl, by rw [hpc.1]; rfl⟩
      · cases hs

/-- No destructor is further than at its end. -/
theorem OwnerPc.progress_le (pc : OwnerPc) : pc.progress ≤ 5 := by
  cases pc <;> decide

/-- After the store of `stop_`, every step of any party brings all of them closer to the
end. -/
theorem step_mostLeft (s : State) (l : Label) (s' : State) (h : Inv s ∧ s.stop_ = true)
    (hs : step s l = some s') : (Inv s' ∧ s'.stop_ = true) ∧ s'.mostLeft < s.mostLeft := by
  obtain ⟨hinv, hstop⟩ := h
  have hinv' := inv_step s l s' hinv hs
  have hprogress := hinv.stop.mp hstop
  cases l with
  | reader l =>
      obtain ⟨hstop', howner, -, hlt⟩ := readerStep_mostLeft hstop hs
      refine ⟨⟨hinv', hstop'⟩, ?_⟩
      rw [State.mostLeft, State.mostLeft, howner]
      omega
  | writer l =>
      -- The writer has ended before the store.
      have hended : s.writer = .ended := hinv.writer (by omega)
      cases l <;> simp [step, writerStep, hended] at hs
  | owner l =>
      obtain ⟨hreader, hnext⟩ := ownerStep_progress hs
      have hle := s'.owner.progress_le
      refine ⟨⟨hinv', hinv'.stop.mpr (by omega)⟩, ?_⟩
      rw [State.mostLeft, State.mostLeft, hreader]
      omega

/-- After the store of `stop_` all parties together take at most six more steps, whatever the
order and the answers: four of the reader, for the turn it is in and the test of `stop_`, and two
of the destructor. When none is left to take, the destructor has returned. -/
theorem stopped_run_ends (s : State) (hs : Reachable step .initial s) (hstop : s.stop_ = true)
    (ls : List Label) (s' : State) (hrun : run step s ls = some s') :
    ls.length ≤ 6 ∧ ((∀ l, step s' l = none) → s'.owner = .destroyed) := by
  have hinv := hs.invariant inv_initial inv_step
  have hlen := length_add_rank_le State.mostLeft step_mostLeft ⟨hinv, hstop⟩ hrun
  have hprogress := hinv.stop.mp hstop
  have hreader : s.reader.mostLeft ≤ 4 := by cases s.reader <;> simp [ReaderPc.mostLeft]
  refine ⟨?_, fun hnone => ?_⟩
  · simp only [State.mostLeft] at hlen
    omega
  · by_cases hdone : Destroyed s'
    · exact hdone
    · -- A state that is not at the end has a step towards it.
      have hinv' := run_invariant inv_step hinv hrun
      have hkept : s'.stop_ = true :=
        (run_invariant (fun t l t' h ht => (step_mostLeft t l t' h ht).1) ⟨hinv, hstop⟩ hrun).2
      have hfree : ¬ Hangs s' := by
        intro hhangs
        exact hhangs.unended (hinv'.writer (by have := hinv'.stop.mp hkept; omega))
      have hopened := hs.invariant (show Opened .initial from Or.inl rfl) opened_step
      have hopened' := run_invariant opened_step hopened hrun
      obtain ⟨l, t, -, ht, -⟩ := step_towards s' ⟨hinv', hopened', hfree⟩ hdone
      rw [hnone l] at ht
      cases ht

/-- `stop_` is stored while the reader polls, and there is a line to read. -/
def stoppedAtPoll : List Label :=
  [.reader (.opens true), .writer .opens, .writer (.write (ascii "a\n")), .writer .finish,
    .reader .test, .owner .stopWriter, .owner .joinWriter, .owner .stopReader]

/-- From there every run takes at most six steps, and ends with the destructor. -/
theorem stopped_run_ends_atPoll :
    ∃ s, run step .initial stoppedAtPoll = some s ∧
      ∀ ls s', run step s ls = some s' →
        ls.length ≤ 6 ∧ ((∀ l, step s' l = none) → s'.owner = .destroyed) :=
  ⟨_, rfl, stopped_run_ends _ ⟨stoppedAtPoll, rfl⟩ rfl⟩

end Shutdown
end NqmIrimager
