import NqmIrimager.Lib.StepRun
import NqmIrimager.Shutdown

/-!
# `NqmIrimager.Proofs.ShutdownUnread`: what is left in the FIFO at shutdown

The read loop tests `stop_` before each `poll` and does not drain the FIFO, so bytes that
are in it when `stop_` is stored can stay there (`unread_after_stop` is such a run). What
holds of every run, whatever the order of the steps:

* `destroyed_passed_unread`: the bytes passed to `push_data` and the bytes still unread
  are, in this order, all the bytes the writer wrote. Of what was unread when `stop_` was
  stored, at most one `read` was passed. So nothing is lost if the FIFO was empty then.

`Inv` is the invariant. Its two parts are the conservation of bytes, which every step of
the reader and the writer keeps, and the account of the reads after the store.
-/

set_option autoImplicit false

namespace NqmIrimager
namespace Shutdown

open StepRun

/-- The bytes between `read` and `push_data`. -/
def ReaderPc.held : ReaderPc → Bytes
  | .pushing bytes => bytes
  | _ => []

/-- How far the destructor is. -/
def OwnerPc.progress : OwnerPc → Nat
  | .alive => 0
  | .stoppingWriter => 1
  | .writerDestroyed => 2
  | .stopping => 3
  | .interrupting => 4
  | .destroyed => 5

/-- After the store of `stop_`: `n` bytes were read since, a read takes at most one
buffer, and a reader that has not tested `stop_` since has read nothing since. -/
structure ReadSinceStop (fifo unreadAtStop : Bytes) (reader : ReaderPc) (n : Nat) : Prop where
  unread : fifo = unreadAtStop.drop n
  le : n ≤ readBufferSize
  none_yet : reader = .polling ∨ reader = .reading → n = 0

/-- The invariant. -/
structure Inv (s : State) : Prop where
  conserved : s.passed ++ s.reader.held ++ s.fifo = s.written
  writer : 2 ≤ s.owner.progress → s.writer = .ended
  stop : s.stop_ = true ↔ 3 ≤ s.owner.progress
  reader : 5 ≤ s.owner.progress → s.reader = .ended
  since : s.stop_ = true → ∃ n, ReadSinceStop s.fifo s.unreadAtStop s.reader n

/-- Nothing was written, read or stored at the start. -/
theorem inv_initial : Inv .initial where
  conserved := rfl
  writer := by
    intro h
    exact absurd h (by decide)
  stop := by decide
  reader := by
    intro h
    exact absurd h (by decide)
  since := by
    intro h
    cases h

/-! ### The reader -/

/-- A move of the reader that takes nothing from the FIFO and passes nothing. After the
store of `stop_` it must not lead to a `read`, unless the reader was on its way there. -/
theorem Inv.readerMoves {s : State} (h : Inv s) {pc : ReaderPc} (hended : s.reader ≠ .ended)
    (hheld : s.reader.held = []) (hheld' : pc.held = [])
    (hpoll : s.stop_ = true → pc = .polling ∨ pc = .reading →
      s.reader = .polling ∨ s.reader = .reading) :
    Inv { s with reader := pc } where
  conserved := by
    have hall := h.conserved
    rw [hheld] at hall
    show s.passed ++ pc.held ++ s.fifo = s.written
    rw [hheld']
    exact hall
  writer := h.writer
  stop := h.stop
  reader := by
    intro hdone
    exact absurd (h.reader hdone) hended
  since := by
    intro hstop
    obtain ⟨n, hn⟩ := h.since hstop
    exact ⟨n, hn.unread, hn.le, fun hpc => hn.none_yet (hpoll hstop hpc)⟩

/-- A `read` moves bytes from the FIFO to the reader's hands. It is the one read after the
store of `stop_`, if there is one. -/
theorem Inv.readerReads {s : State} (h : Inv s) {pc : ReaderPc} {fifo : Bytes}
    (hreading : s.reader = .reading) (hfifo : s.fifo = pc.held ++ fifo)
    (hlen : pc.held.length ≤ readBufferSize) (hpc : ¬ (pc = .polling ∨ pc = .reading)) :
    Inv { s with reader := pc, fifo := fifo } where
  conserved := by
    have hall := h.conserved
    rw [hreading, hfifo] at hall
    show s.passed ++ pc.held ++ fifo = s.written
    rw [← hall]
    simp [ReaderPc.held]
  writer := h.writer
  stop := h.stop
  reader := by
    intro hdone
    have hend := h.reader hdone
    rw [hreading] at hend
    cases hend
  since := by
    intro hstop
    obtain ⟨n, hn⟩ := h.since hstop
    have hzero : n = 0 := hn.none_yet (Or.inr hreading)
    refine ⟨pc.held.length, ?_, hlen, ?_⟩
    · show fifo = s.unreadAtStop.drop pc.held.length
      have hunread : s.unreadAtStop = pc.held ++ fifo := by
        rw [← hfifo, hn.unread, hzero, List.drop_zero]
      rw [hunread, List.drop_left]
    · intro hpc'
      exact absurd hpc' hpc

/-- A step of the reader keeps the invariant. `read` moves bytes from the FIFO to its hands, the
push from there to `passed`. -/
theorem inv_readerStep {s s' : State} {l : ReaderLabel} (h : Inv s) (hs : readerStep s l = some s') :
    Inv s' := by
  -- All moves but `read` and `push` take nothing and pass nothing.
  cases l with
  | opens opened =>
      simp only [readerStep] at hs
      split at hs
      · rename_i hpc
        cases hs
        have hmoved : Inv { s with reader := if opened then .testing else .ended } := by
          refine h.readerMoves (by rw [hpc]; decide) (by rw [hpc]; rfl) (by cases opened <;> rfl) ?_
          intro _ hto
          cases opened <;> simp at hto
        exact ⟨hmoved.conserved, hmoved.writer, hmoved.stop, hmoved.reader, hmoved.since⟩
      · cases hs
  | test =>
      simp only [readerStep] at hs
      split at hs
      · rename_i hpc
        cases hs
        refine h.readerMoves (by rw [hpc]; decide) (by rw [hpc]; rfl)
          (by cases s.stop_ <;> rfl) ?_
        -- With `stop_` stored, the test leads out of the loop.
        intro hstop hto
        simp [hstop] at hto
      · cases hs
  | poll result =>
      simp only [readerStep] at hs
      split at hs
      · rename_i hpc
        cases hs
        refine h.readerMoves (by rw [hpc]; decide) (by rw [hpc]; rfl) ?_ ?_
        · unfold afterPoll
          split
          · rfl
          · rfl
          · rfl
          · split
            · rfl
            · rfl
        · intro _ _
          exact Or.inl hpc
      · cases hs
  | read result =>
      simp only [readerStep] at hs
      split at hs
      · rename_i hpc
        cases hs
        unfold afterRead
        -- The error, nothing to handle, and bytes to handle.
        split
        · exact h.readerMoves (by rw [hpc]; decide) (by rw [hpc]; rfl) rfl (by simp)
        · rename_i fifo hread
          obtain ⟨hfifo, hlen⟩ := ReadResult.from_ok hread
          exact h.readerReads hpc hfifo hlen (by simp)
        · rename_i bytes fifo _ hread
          obtain ⟨hfifo, hlen⟩ := ReadResult.from_ok hread
          exact h.readerReads hpc hfifo hlen (by simp)
      · cases hs
  | push =>
      simp only [readerStep] at hs
      split at hs
      · rename_i bytes hpc
        cases hs
        have hall := h.conserved
        rw [hpc] at hall
        refine ⟨?_, h.writer, h.stop, ?_, ?_⟩
        · -- The bytes go from the reader's hands to the parser.
          show s.passed ++ bytes ++ [] ++ s.fifo = s.written
          rw [List.append_nil]
          exact hall
        · intro hdone
          have hend := h.reader hdone
          rw [hpc] at hend
          cases hend
        · intro hstop
          obtain ⟨n, hn⟩ := h.since hstop
          exact ⟨n, hn.unread, hn.le, by simp⟩
      · cases hs

/-! ### The writer and the owner -/

/-- A step of the writer keeps the invariant: a write adds to both ends of the equation. -/
theorem inv_writerStep {s s' : State} {l : WriterLabel} (h : Inv s) (hs : writerStep s l = some s') :
    Inv s' := by
  -- No writer moves once it has ended, so `stop_` is not stored yet.
  have hrunning : s.writer ≠ .ended → ¬ 2 ≤ s.owner.progress := fun hw hp => hw (h.writer hp)
  cases l with
  | waits =>
      simp only [writerStep] at hs
      split at hs
      · rename_i hpc
        cases hs
        have hearly := hrunning (by rw [hpc.1]; decide)
        exact ⟨h.conserved, fun hp => absurd hp hearly, h.stop, h.reader, h.since⟩
      · cases hs
  | opens =>
      simp only [writerStep] at hs
      split at hs
      · rename_i hpc
        cases hs
        have hearly : ¬ 2 ≤ s.owner.progress := by
          obtain ⟨hopening, -⟩ | ⟨hwaiting, -⟩ := hpc
          · exact hrunning (by rw [hopening]; decide)
          · exact hrunning (by rw [hwaiting]; decide)
        exact ⟨h.conserved, fun hp => absurd hp hearly, h.stop, h.reader, h.since⟩
      · cases hs
  | write bytes =>
      simp only [writerStep] at hs
      split at hs
      · rename_i hpc
        cases hs
        have hearly := hrunning (by rw [hpc]; decide)
        refine ⟨?_, h.writer, h.stop, h.reader, ?_⟩
        · show s.passed ++ s.reader.held ++ (s.fifo ++ bytes) = s.written ++ bytes
          rw [← List.append_assoc, h.conserved]
        · -- `stop_` is stored only after the writer has ended.
          intro hstop
          have := h.stop.mp hstop
          omega
      · cases hs
  | finish =>
      simp only [writerStep] at hs
      split at hs
      · cases hs
        exact ⟨h.conserved, fun _ => rfl, h.stop, h.reader, h.since⟩
      · cases hs

/-- A move of the owner that stores nothing. -/
theorem Inv.ownerMoves {s : State} (h : Inv s) {pc : OwnerPc}
    (hwriter : 2 ≤ pc.progress → s.writer = .ended)
    (hstop : 3 ≤ s.owner.progress ↔ 3 ≤ pc.progress)
    (hreader : 5 ≤ pc.progress → s.reader = .ended) : Inv { s with owner := pc } where
  conserved := h.conserved
  writer := hwriter
  stop := h.stop.trans hstop
  reader := hreader
  since := h.since

/-- A step of the destructor keeps the invariant. The store of `stop_` is where `unreadAtStop`
starts. -/
theorem inv_ownerStep {s s' : State} {l : OwnerLabel} (h : Inv s) (hs : ownerStep s l = some s') :
    Inv s' := by
  cases l with
  | stopWriter =>
      simp only [ownerStep] at hs
      split at hs
      · rename_i hpc
        cases hs
        refine h.ownerMoves ?_ (by rw [hpc]; decide) ?_
        · intro hp
          exact absurd hp (by decide)
        · intro hp
          exact absurd hp (by decide)
      · cases hs
  | joinWriter =>
      simp only [ownerStep] at hs
      split at hs
      · rename_i hpc
        cases hs
        refine h.ownerMoves (fun _ => hpc.2) (by rw [hpc.1]; decide) ?_
        intro hp
        exact absurd hp (by decide)
      · cases hs
  | stopReader =>
      simp only [ownerStep] at hs
      split at hs
      · rename_i hpc
        cases hs
        refine ⟨h.conserved, ?_, ?_, ?_, ?_⟩
        · intro _
          exact h.writer (by rw [hpc]; decide)
        · exact ⟨fun _ => Nat.le_refl 3, fun _ => rfl⟩
        · intro hp
          exact absurd (show 5 ≤ 3 from hp) (by decide)
        · -- The account of the reads starts here, at zero.
          intro _
          exact ⟨0, rfl, Nat.zero_le _, fun _ => rfl⟩
      · cases hs
  | interruptReader =>
      simp only [ownerStep] at hs
      split at hs
      · rename_i hpc
        cases hs
        refine h.ownerMoves ?_ (by rw [hpc]; decide) ?_
        · intro _
          exact h.writer (by rw [hpc]; decide)
        · intro hp
          exact absurd hp (by decide)
      · cases hs
  | joinReader =>
      simp only [ownerStep] at hs
      split at hs
      · rename_i hpc
        cases hs
        refine h.ownerMoves ?_ (by rw [hpc.1]; decide) (fun _ => hpc.2)
        intro _
        exact h.writer (by rw [hpc.1]; decide)
      · cases hs

/-! ### Every run -/

/-- Every step keeps the invariant. -/
theorem inv_step (s : State) (l : Label) (s' : State) (h : Inv s) (hs : step s l = some s') :
    Inv s' := by
  cases l with
  | reader l => exact inv_readerStep h hs
  | writer l => exact inv_writerStep h hs
  | owner l => exact inv_ownerStep h hs

/-- When the destructor has returned: the bytes passed and the bytes unread are the bytes
written. At most one `read` took bytes after the store of `stop_`, and all bytes were
passed if none were unread then. -/
theorem destroyed_passed_unread (s : State) (hs : Reachable step .initial s)
    (hdone : s.owner = .destroyed) :
    s.passed ++ s.fifo = s.written ∧
      (∃ n, n ≤ readBufferSize ∧ s.fifo = s.unreadAtStop.drop n) ∧
      (s.unreadAtStop = [] → s.passed = s.written) := by
  have h := hs.invariant inv_initial inv_step
  have hended : s.reader = .ended := h.reader (by rw [hdone]; decide)
  have hall : s.passed ++ s.fifo = s.written := by
    have := h.conserved
    rwa [hended, show ReaderPc.ended.held = [] from rfl, List.append_nil] at this
  obtain ⟨n, hn⟩ := h.since (h.stop.mpr (by rw [hdone]; decide))
  refine ⟨hall, ⟨n, hn.le, hn.unread⟩, ?_⟩
  -- Dropping from an empty FIFO leaves it empty.
  intro hempty
  rw [← hall, hn.unread, hempty, List.drop_nil, List.append_nil]

/-- The run in which the writer's line is read before the destructor starts. -/
def readThenStopped : List Label :=
  [.reader (.opens true), .writer .opens, .writer (.write (ascii "a\n")), .reader .test,
    .reader (.poll (.ready ⟨true, false, false⟩)), .reader (.read (.bytes 1024)), .reader .push,
    .owner .stopWriter, .writer .finish, .owner .joinWriter, .reader .test, .owner .stopReader,
    .owner .interruptReader, .reader (.poll (.failed .eintr)), .reader .test, .owner .joinReader]

/-- The end of that run: everything was passed on. -/
theorem destroyed_passed_unread_read :
    ∃ s, run step .initial readThenStopped = some s ∧
      s.passed ++ s.fifo = s.written ∧
      (∃ n, n ≤ readBufferSize ∧ s.fifo = s.unreadAtStop.drop n) ∧
      (s.unreadAtStop = [] → s.passed = s.written) :=
  ⟨_, rfl, destroyed_passed_unread _ ⟨readThenStopped, rfl⟩ rfl⟩

/-- A run without an error in which the writer's line stays in the FIFO: `stop_` is stored
before the reader tests it for the first time. -/
theorem unread_after_stop :
    ∃ s, run step .initial
        [.reader (.opens true), .writer .opens, .writer (.write (ascii "a\n")), .owner .stopWriter,
          .writer .finish, .owner .joinWriter, .owner .stopReader, .owner .interruptReader,
          .reader .test, .owner .joinReader] = some s ∧
      s.owner = .destroyed ∧ s.written = ascii "a\n" ∧ s.passed = [] :=
  ⟨_, rfl, rfl, rfl, rfl⟩

end Shutdown
end NqmIrimager
