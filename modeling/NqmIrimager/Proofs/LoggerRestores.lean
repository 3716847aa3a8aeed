import NqmIrimager.Lib.StepRun
import NqmIrimager.Logger

/-!
# `NqmIrimager.Proofs.LoggerRestores`: the default logger over a history

`Restored` is the law: without a live `Logger` the default logger is the one that was
installed first, with one it is that object's callback logger.

The law is broken by one kind of step only, a construction that gets past the singleton
test and then throws in the constructor of `IRLoggerToSpd` (`constructLogger_throws`).
`restored_iff_completes` says that a history keeps the law if and only if it has no such
step.
-/

set_option autoImplicit false

namespace NqmIrimager

open StepRun

/-- The default logger is the right one. -/
def Restored (installed : SpdLogger) (s : Process) : Prop :=
  match s.singleton_ with
  | none => s.spd.defaultLogger = installed
  | some impl => some s.spd.defaultLogger = impl.callbackLogger

/-- A construction that is not rejected builds its `IRLoggerToSpd`. -/
def Completes (s : Process) : LoggerOp → Prop
  | .construct env => s.singleton_ = none → irLoggerToSpd env = .ok ()
  | .destroy => True

/-- What holds in every history that keeps the law: a live `Logger` also remembers the
logger that was installed first. -/
structure Redirected (installed : SpdLogger) (s : Process) : Prop where
  restored : Restored installed s
  old : ∀ impl, s.singleton_ = some impl → impl.oldLogger_ = some installed

/-- The installed logger is the default at the start. -/
theorem redirected_initial (installed : SpdLogger) : Redirected installed (.initial installed) where
  restored := rfl
  old := by
    intro impl himpl
    cases himpl

/-! ### What each operation does -/

/-- A live `Logger` rejects the next one and nothing changes. -/
theorem constructLogger_rejected (env : IRLoggerEnv) {s : Process} {impl : LoggerImpl}
    (h : s.singleton_ = some impl) : (constructLogger env s).state = s := by
  rw [constructLogger, if_pos (by rw [h]; rfl)]
  rfl

/-- A construction that completes redirects to a new logger and keeps the old one. -/
theorem constructLogger_completes {env : IRLoggerEnv} {s : Process} (h : s.singleton_ = none)
    (hok : irLoggerToSpd env = .ok ()) :
    (constructLogger env s).state =
      { spd := { defaultLogger := s.spd.made, made := s.spd.made + 1 }
        singleton_ := some ⟨some s.spd.defaultLogger, some s.spd.made⟩ } := by
  rw [constructLogger, if_neg (by rw [h]; simp), constructImpl, hok]
  rfl

/-- A construction that throws in the constructor of `IRLoggerToSpd` leaves the redirect
behind. -/
theorem constructLogger_throws {env : IRLoggerEnv} {s : Process} {e : Exception}
    (h : s.singleton_ = none) (herr : irLoggerToSpd env = .error e) :
    constructLogger env s =
      .threw e { spd := { defaultLogger := s.spd.made, made := s.spd.made + 1 }
                 singleton_ := none } := by
  rw [constructLogger, if_neg (by rw [h]; simp), constructImpl, herr, ← h]
  rfl

/-! ### Histories -/

/-- A step that completes keeps the law. -/
theorem loggerStep_redirected {installed : SpdLogger} (s : Process) (op : LoggerOp) (s' : Process)
    (hs : Redirected installed s) (hop : Completes s op) (hstep : loggerStep s op = some s') :
    Redirected installed s' := by
  cases op with
  | construct env =>
      simp only [loggerStep, Option.some.injEq] at hstep
      subst hstep
      -- Rejected, or with the default logger that was installed first.
      cases hlive : s.singleton_ with
      | some impl =>
          rw [constructLogger_rejected env hlive]
          exact hs
      | none =>
          have hdefault : s.spd.defaultLogger = installed := by
            have := hs.restored
            rwa [Restored, hlive] at this
          rw [constructLogger_completes hlive (hop hlive), hdefault]
          constructor
          · rfl
          · intro impl himpl
            cases himpl
            rfl
  | destroy =>
      simp only [loggerStep, destroyLogger] at hstep
      cases hlive : s.singleton_ with
      | none => simp [hlive] at hstep
      | some impl =>
          simp only [hlive, Option.some.injEq] at hstep
          subst hstep
          constructor
          · -- `~impl` puts the remembered logger back.
            show (destroyImpl impl s.spd).defaultLogger = installed
            rw [destroyImpl, resetSpdRedirect, hs.old impl hlive]
          · intro impl' himpl'
            cases himpl'

/-- New loggers are none of the old ones. -/
theorem installed_lt_made {installed : SpdLogger} (s : Process) (op : LoggerOp) (s' : Process)
    (hs : installed < s.spd.made) (hstep : loggerStep s op = some s') :
    installed < s'.spd.made := by
  cases op with
  | construct env =>
      simp only [loggerStep, Option.some.injEq] at hstep
      subst hstep
      cases hlive : s.singleton_ with
      | some impl =>
          rw [constructLogger_rejected env hlive]
          exact hs
      | none =>
          cases hirlogger : irLoggerToSpd env with
          | ok _ =>
              rw [constructLogger_completes hlive hirlogger]
              exact Nat.lt_succ_of_lt hs
          | error e =>
              rw [constructLogger_throws hlive hirlogger]
              exact Nat.lt_succ_of_lt hs
  | destroy =>
      simp only [loggerStep, destroyLogger] at hstep
      cases hlive : s.singleton_ with
      | none => simp [hlive] at hstep
      | some impl =>
          simp only [hlive, Option.some.injEq] at hstep
          subst hstep
          show installed < (destroyImpl impl s.spd).made
          unfold destroyImpl resetSpdRedirect
          split
          · exact hs
          · exact hs

/-- A history keeps the law in all its states if and only if every construction in it that
is not rejected builds its `IRLoggerToSpd`. -/
theorem restored_iff_completes (installed : SpdLogger) (ops : List LoggerOp) :
    (∀ pre s, pre <+: ops → run loggerStep (.initial installed) pre = some s →
      Restored installed s) ↔
    Along loggerStep Completes (.initial installed) ops := by
  constructor
  · intro hall
    apply along_of_prefixes
    intro pre op s hpre hrun
    cases op with
    | destroy => trivial
    | construct env =>
        intro hnone
        cases hirlogger : irLoggerToSpd env with
        | ok _ => rfl
        | error e =>
            -- The state after a throw has a new default logger and no live `Logger`.
            have hstep : loggerStep s (.construct env) = some _ := rfl
            have hafter := hall _ _ hpre (run_concat hrun hstep)
            rw [constructLogger_throws hnone hirlogger] at hafter
            have hlt : installed < s.spd.made :=
              run_invariant installed_lt_made (Nat.lt_succ_self installed) hrun
            have heq : s.spd.made = installed := hafter
            rw [heq] at hlt
            exact absurd hlt (Nat.lt_irrefl installed)
  · intro hcompletes pre s hpre hrun
    exact (run_invariant_along loggerStep_redirected (redirected_initial installed)
      (along_of_isPrefix hpre hcompletes) hrun).restored

/-- `mkfifo` is not permitted; everything else is. -/
def noFifo : IRLoggerEnv where
  xdgRuntimeDir := none
  createDirectory := fun _ => none
  tempDirectoryPath := .ok (ascii "/tmp")
  evoIrloggerDatestring := ascii "18_9_2023_21-27-53"
  mkfifo := fun _ => some (.other (ascii "Permission denied"))
  startThread := none
  startIrLogger := fun _ => none

/-- A construction in which `mkfifo` fails throws, and the callback logger of the object
that was never built stays the default logger. -/
theorem restored_fails_noFifo :
    constructLogger noFifo (.initial 0)
        = .threw ⟨.systemError, ascii "Permission denied"⟩
            { spd := { defaultLogger := 1, made := 2 }, singleton_ := none } ∧
      ∃ s, run loggerStep (.initial 0) [.construct noFifo] = some s ∧ ¬ Restored 0 s := by
  refine ⟨rfl, _, rfl, ?_⟩
  intro hrestored
  exact absurd (show (1 : Nat) = 0 from hrestored) (by decide)

end NqmIrimager
