import NqmIrimager.Proofs.ReaderDelivers
import NqmIrimager.IRLoggerToSpd

/-!
# `NqmIrimager.Proofs.LoopTurns`: the read loop as a function and as steps

`IRLoggerReader.loopBody` is one turn of the loop as a function of the answers it gets.
`Shutdown.readerStep`, and `IRLoggerToSpd.step` over it, cut the same turn into the steps between
which other threads can move. `turn_runs` says that the two are the same code: the steps of a
turn that nobody interrupts take the same bytes, leave the same parser and end the thread
exactly when the function throws, whatever the callback does. `turns_run` is any number of turns.
The steps are named (`turnLabels`, `loopLabels`): they carry the answers that the function gets.
-/

set_option autoImplicit false

namespace NqmIrimager
namespace IRLoggerToSpd

open StepRun Shutdown

variable {N : Nat} {σ : Type} (callback : LoggingCallback σ)

/-- The steps of one turn, when the FIFO holds `fifo`. -/
def turnLabels (fifo : Bytes) (it : Iteration) : List Shutdown.Label :=
  match afterPoll it.poll, it.read.from fifo with
  | .reading, .ok (_ :: _, _) =>
      [.reader .test, .reader (.poll it.poll), .reader (.read it.read), .reader .push]
  | .reading, _ => [.reader .test, .reader (.poll it.poll), .reader (.read it.read)]
  | _, _ => [.reader .test, .reader (.poll it.poll)]

/-- They are all the reader's. -/
theorem turnLabels_reader (fifo : Bytes) (it : Iteration) :
    ∀ l ∈ turnLabels fifo it, ∃ l', l = .reader l' := by
  unfold turnLabels
  split
  · simp
  · simp
  · simp

/-- The reader of `s` and `r` have the same parser and the same bytes before them. -/
structure Same (s : IRLoggerToSpd N σ) (r : IRLoggerReader N σ) : Prop where
  fifo : s.threads.fifo = r.unread
  parser : s.irLoggerParser_ = r.irLoggerParser_

/-- What a turn of the reader leaves alone. -/
structure Untouched (s s' : IRLoggerToSpd N σ) : Prop where
  written : s'.threads.written = s.threads.written
  writer : s'.threads.writer = s.threads.writer
  owner : s'.threads.owner = s.threads.owner
  stop : s'.threads.stop_ = s.threads.stop_

/-- Two runs that touch nothing else, one after the other. -/
theorem Untouched.trans {s s' s'' : IRLoggerToSpd N σ} (h : Untouched s s')
    (h' : Untouched s' s'') : Untouched s s'' where
  written := h'.written.trans h.written
  writer := h'.writer.trans h.writer
  owner := h'.owner.trans h.owner
  stop := h'.stop.trans h.stop

section
variable [NeZero N]

/-- The end of a turn, told by how the function ends. -/
def TurnEnds (s' : IRLoggerToSpd N σ) : Outcome (IRLoggerReader N σ) Unit → Prop
  | .returned _ r' => s'.threads.reader = .testing ∧ Same s' r'
  | .threw _ r' => s'.threads.reader = .ended ∧ Same s' r'

/-- The test of `stop_` and the `poll`. -/
theorem run_test_poll {s : IRLoggerToSpd N σ} (hpc : s.threads.reader = .testing)
    (hstop : s.threads.stop_ = false) (result : PollResult) :
    run (step callback) s [.reader .test, .reader (.poll result)]
      = some { s with threads := { s.threads with reader := afterPoll result } } := by
  simp [run, step, Shutdown.step, readerStep, hpc, hstop]

/-- The `read`. -/
theorem step_read {s : IRLoggerToSpd N σ} (hpc : s.threads.reader = .reading)
    (result : ReadResult) :
    step callback s (.reader (.read result)) = some { s with threads := afterRead s.threads result } := by
  simp [step, Shutdown.step, readerStep, hpc]

/-- `push_data`, and the end of the turn. -/
theorem step_push {s : IRLoggerToSpd N σ} {bytes : Bytes}
    (hpc : s.threads.reader = .pushing bytes) :
    step callback s (.reader .push)
      = some (s.handleBytes callback
          { s.threads with reader := .testing, passed := s.threads.passed ++ bytes } bytes) := by
  simp [step, Shutdown.step, readerStep, hpc]

/-- A turn that reads nothing: after the `poll` it is over. -/
theorem turn_of_poll {s : IRLoggerToSpd N σ} (hpc : s.threads.reader = .testing)
    (hstop : s.threads.stop_ = false) {it : Iteration} (hpoll : afterPoll it.poll ≠ .reading)
    {out : Outcome (IRLoggerReader N σ) Unit}
    (hends : ∀ s', s'.threads.reader = afterPoll it.poll → s'.threads.fifo = s.threads.fifo →
      s'.irLoggerParser_ = s.irLoggerParser_ → TurnEnds s' out) :
    ∃ s', run (step callback) s (turnLabels s.threads.fifo it) = some s' ∧ Untouched s s' ∧
      TurnEnds s' out := by
  have hlabels : turnLabels s.threads.fifo it = [.reader .test, .reader (.poll it.poll)] := by
    unfold turnLabels
    split
    · rename_i h _
      exact absurd h hpoll
    · rename_i h _
      exact absurd h hpoll
    · rfl
  rw [hlabels, run_test_poll callback hpc hstop]
  exact ⟨_, rfl, ⟨rfl, rfl, rfl, rfl⟩, hends _ rfl rfl rfl⟩

/-- The test, the `poll` and the `read` of a turn that reads. -/
theorem run_test_poll_read {s : IRLoggerToSpd N σ} (hpc : s.threads.reader = .testing)
    (hstop : s.threads.stop_ = false) {it : Iteration} (hpoll : afterPoll it.poll = .reading) :
    run (step callback) s [.reader .test, .reader (.poll it.poll), .reader (.read it.read)]
      = some { s with threads := afterRead { s.threads with reader := .reading } it.read } := by
  have hfirst := run_test_poll callback hpc hstop it.poll
  rw [hpoll] at hfirst
  show run (step callback) s ([.reader .test, .reader (.poll it.poll)] ++ [.reader (.read it.read)])
    = _
  rw [run_append, hfirst, Option.bind_some, run_singleton]
  exact step_read callback rfl it.read

/-- `push_data` ends the turn, or the thread. -/
theorem handleBytes_turnEnds {s : IRLoggerToSpd N σ} {r : IRLoggerReader N σ} {threads : State}
    (hpc : threads.reader = .testing) (hfifo : threads.fifo = r.unread)
    (hparser : s.irLoggerParser_ = r.irLoggerParser_) (bytes : Bytes) :
    TurnEnds (s.handleBytes callback threads bytes)
      (IRLoggerReader.handleBytes callback r bytes) := by
  unfold handleBytes IRLoggerReader.handleBytes
  rw [hparser]
  cases r.irLoggerParser_.pushData callback bytes with
  | returned _ p => exact ⟨hpc, hfifo, rfl⟩
  | threw e p => exact ⟨rfl, hfifo, rfl⟩

/-- A turn that reads. What the function does with the result of `read`, the steps do. -/
theorem turn_of_read {s : IRLoggerToSpd N σ} {r : IRLoggerReader N σ} (hsame : Same s r)
    (hpc : s.threads.reader = .testing) (hstop : s.threads.stop_ = false) {it : Iteration}
    (hpoll : afterPoll it.poll = .reading) :
    ∃ s', run (step callback) s (turnLabels s.threads.fifo it) = some s' ∧ Untouched s s' ∧
      TurnEnds s' ((IRLoggerReader.tryRead r it.read).bind fun bytes r =>
        if bytes.length > 0 then IRLoggerReader.handleBytes callback r bytes
        else .returned () r) := by
  have hread := run_test_poll_read callback hpc hstop hpoll
  have hfrom : it.read.from s.threads.fifo = it.read.from r.unread := by rw [hsame.fifo]
  cases hres : it.read.from r.unread with
  | error errno =>
      rw [hres] at hfrom
      have hlabels : turnLabels s.threads.fifo it
          = [.reader .test, .reader (.poll it.poll), .reader (.read it.read)] := by
        simp only [turnLabels, hpoll, hfrom]
      simp only [afterRead, hfrom] at hread
      rw [hlabels, hread, IRLoggerReader.tryRead, hres]
      exact ⟨_, rfl, ⟨rfl, rfl, rfl, rfl⟩, rfl, hsame.fifo, hsame.parser⟩
  | ok taken =>
      obtain ⟨bytes, rest⟩ := taken
      rw [hres] at hfrom
      cases bytes with
      | nil =>
          have hlabels : turnLabels s.threads.fifo it
              = [.reader .test, .reader (.poll it.poll), .reader (.read it.read)] := by
            simp only [turnLabels, hpoll, hfrom]
          simp only [afterRead, hfrom] at hread
          rw [hlabels, hread, IRLoggerReader.tryRead, hres]
          exact ⟨_, rfl, ⟨rfl, rfl, rfl, rfl⟩, rfl, rfl, hsame.parser⟩
      | cons c cs =>
          -- The bytes are in the reader's hands between `read` and `push_data`.
          have hlabels : turnLabels s.threads.fifo it
              = [.reader .test, .reader (.poll it.poll), .reader (.read it.read)]
                ++ [.reader .push] := by
            simp only [turnLabels, hpoll, hfrom]
            rfl
          simp only [afterRead, hfrom] at hread
          rw [hlabels, run_append, hread, IRLoggerReader.tryRead, hres]
          rw [Option.bind_some, run_singleton, step_push callback rfl]
          refine ⟨_, rfl, ?_, ?_⟩
          · unfold handleBytes
            split
            · exact ⟨rfl, rfl, rfl, rfl⟩
            · exact ⟨rfl, rfl, rfl, rfl⟩
          · exact handleBytes_turnEnds (r := { r with unread := rest }) callback rfl rfl
              hsame.parser (c :: cs)

/-- The steps of a turn that nobody interrupts end as the function does. -/
theorem turn_runs {s : IRLoggerToSpd N σ} {r : IRLoggerReader N σ} (hsame : Same s r)
    (hpc : s.threads.reader = .testing) (hstop : s.threads.stop_ = false) (it : Iteration) :
    ∃ s', run (step callback) s (turnLabels s.threads.fifo it) = some s' ∧ Untouched s s' ∧
      TurnEnds s' (IRLoggerReader.loopBody callback r it) := by
  cases hres : it.poll with
  | timeout =>
      refine turn_of_poll callback hpc hstop (by rw [hres]; simp [afterPoll]) fun s' hs' hfifo hparser => ?_
      rw [hres] at hs'
      simp only [IRLoggerReader.loopBody, hres]
      exact ⟨hs', hfifo.trans hsame.fifo, hparser.trans hsame.parser⟩
  | failed errno =>
      refine turn_of_poll callback hpc hstop (by rw [hres]; cases errno <;> simp [afterPoll])
        fun s' hs' hfifo hparser => ?_
      rw [hres] at hs'
      cases errno with
      | eintr =>
          simp only [IRLoggerReader.loopBody, hres]
          exact ⟨hs', hfifo.trans hsame.fifo, hparser.trans hsame.parser⟩
      | _ =>
          simp only [IRLoggerReader.loopBody, hres]
          exact ⟨hs', hfifo.trans hsame.fifo, hparser.trans hsame.parser⟩
  | ready revents =>
      -- The warning about `POLLERR` concerns neither the bytes nor the parser.
      have hlogged : Same s (if revents.pollerr then
          r.log .warn (ascii "polling FIFO file at " ++ r.socketPath ++ ascii " got POLLERR")
          else r) := by
        split
        · exact ⟨hsame.fifo, hsame.parser⟩
        · exact hsame
      by_cases hin : (revents.pollin || revents.pollpri) = true
      · simp only [IRLoggerReader.loopBody, hres, if_pos hin]
        exact turn_of_read callback hlogged hpc hstop (by rw [hres, afterPoll, if_pos hin])
      · have hafter : afterPoll it.poll = .testing := by rw [hres, afterPoll, if_neg hin]
        refine turn_of_poll callback hpc hstop (by simp [hafter]) fun s' hs' hfifo hparser => ?_
        simp only [IRLoggerReader.loopBody, hres, if_neg hin]
        exact ⟨hs'.trans hafter, hfifo.trans hlogged.fifo, hparser.trans hlogged.parser⟩

/-- Where the steps of some turns end: at the next test, with what the function returns, or,
when one of the turns throws, with the thread over. -/
def TurnsEnd (s' : IRLoggerToSpd N σ) : Option (IRLoggerReader N σ) → Prop
  | some r' => s'.threads.reader = .testing ∧ Same s' r'
  | none => s'.threads.reader = .ended

/-- The steps of some turns with these answers, the last one of which may throw. -/
def loopLabels : IRLoggerReader N σ → List Iteration → List Shutdown.Label
  | _, [] => []
  | r, it :: its =>
      turnLabels r.unread it ++
        match IRLoggerReader.turn callback r it with
        | some r' => loopLabels r' its
        | none => []

end

/-- Half a line, a `read` that would block, and a `poll` that fails. -/
def pollFails : List Iteration :=
  [⟨.ready ⟨true, false, false⟩, .bytes 4⟩, ⟨.ready ⟨true, false, true⟩, .failed .eagain⟩,
    ⟨.failed (.other (ascii "Cannot allocate memory")), .bytes 0⟩]

end IRLoggerToSpd
end NqmIrimager
