import NqmIrimager.LoggerRouting
import NqmIrimager.Proofs.LoggerRestores

/-!
# `NqmIrimager.Proofs.LoggerRoutes`: every message gets where it should, but for one case

A `Route` says where messages are to go: to the Python logger of the live `Logger`, and else to
the program's own logger. `Route.deliveries` is what a history is to deliver. What makes it exact
is the base of the route. A construction that throws leaves its redirect behind, and from then on
`base` is its Python logger.

`Routes` couples a route to the loggers of `spdlog`, also to the one that the live `Logger` will
put back. `routed` is the refinement over every history. The loggers are those of
`NqmIrimager.Logger` all the time (`process_run`).
-/

set_option autoImplicit false

namespace NqmIrimager
namespace RoutedProcess

open StepRun

/-- Where messages go while a `Logger` lives, and while none does. `none` is the logger that was
installed first. -/
structure Route where
  live : Option PythonLogger
  base : Option PythonLogger

/-- Where they go now. -/
def Route.target (r : Route) : Option PythonLogger :=
  match r.live with
  | some pythonLogger => some pythonLogger
  | none => r.base

/-- What becomes of a message. -/
def deliveryTo (installed : SpdLogger) (target : Option PythonLogger) (msg : LogMsg) : Delivery :=
  match target with
  | some pythonLogger =>
      .python (logToPython pythonLogger (spdLevelToIrimagerLevel msg.level) msg.payload)
  | none => .spdlog installed msg

/-- The route after an operation. Only a construction that is not rejected changes the base, if
it throws. -/
def Route.next (r : Route) : Op → Route
  | .construct pythonLogger env _ =>
      match r.live with
      | some _ => r
      | none =>
          match irLoggerToSpd env with
          | .ok _ => { r with live := some pythonLogger }
          | .error _ => { r with base := some pythonLogger }
  | .destroy _ => { r with live := none }
  | .log _ => r

/-- The messages of an operation, and where they go. -/
def Route.messages (r : Route) : Op → List (Option PythonLogger × LogMsg)
  | .construct pythonLogger _ msgs =>
      match r.live with
      | some _ => []
      | none => (setUpMessages ++ msgs).map fun msg => (some pythonLogger, msg)
  | .destroy msgs => msgs.map fun msg => (r.target, msg)
  | .log msg => [(r.target, msg)]

/-- What a history is to deliver. -/
def Route.deliveries (installed : SpdLogger) : Route → List Op → List Delivery
  | _, [] => []
  | r, op :: ops =>
      (r.messages op).map (fun m => deliveryTo installed m.1 m.2)
        ++ (r.next op).deliveries installed ops

/-- A logger of `spdlog` is where a route leads. -/
structure LeadsTo (installed : SpdLogger) (s : RoutedProcess) (logger : SpdLogger)
    (target : Option PythonLogger) : Prop where
  lt_made : logger < s.process.spd.made
  callbackSink : s.callbackSink logger = target
  installed : target = none → logger = installed

/-- The route of a process. -/
structure Routes (installed : SpdLogger) (s : RoutedProcess) (r : Route) : Prop where
  default : LeadsTo installed s s.process.spd.defaultLogger r.target
  dead : s.process.singleton_ = none → r.live = none
  live : ∀ impl, s.process.singleton_ = some impl →
    r.live.isSome = true ∧ ∃ old, impl.oldLogger_ = some old ∧ LeadsTo installed s old r.base

/-- At the start messages go to the installed logger. -/
theorem routes_initial (installed : SpdLogger) :
    Routes installed (initial installed) ⟨none, none⟩ where
  default := ⟨Nat.lt_succ_self installed, rfl, fun _ => rfl⟩
  dead := fun _ => rfl
  live := fun _ h => by cases h

/-! ### Messages -/

section
variable {installed : SpdLogger} {s s' : RoutedProcess} {r : Route}

/-- Messages change what was delivered and nothing else. -/
theorem logAll_eq (s : RoutedProcess) (msgs : List LogMsg) {target : Option PythonLogger}
    (h : LeadsTo installed s s.process.spd.defaultLogger target) :
    s.logAll msgs =
      { s with deliveries := s.deliveries ++ msgs.map (deliveryTo installed target) } := by
  induction msgs generalizing s with
  | nil => simp [logAll]
  | cons msg msgs ih =>
      have hone : s.log msg
          = { s with deliveries := s.deliveries ++ [deliveryTo installed target msg] } := by
        have hsink := h.callbackSink
        cases target with
        | some pythonLogger => simp only [log, hsink, deliveryTo]
        | none =>
            have hinstalled := h.installed rfl
            rw [hinstalled] at hsink
            simp only [log, hinstalled, hsink, deliveryTo]
      have hrest := ih (s.log msg) (by rw [hone]; exact ⟨h.lt_made, h.callbackSink, h.installed⟩)
      show (s.log msg).logAll msgs = _
      rw [hrest, hone, List.map_cons, List.append_assoc]
      rfl

/-- A new logger does not change where the others lead. -/
theorem LeadsTo.redirect {logger : SpdLogger} {target : Option PythonLogger}
    (h : LeadsTo installed s logger target) (pythonLogger : PythonLogger) :
    LeadsTo installed (s.redirect pythonLogger) logger target where
  lt_made := Nat.lt_succ_of_lt h.lt_made
  callbackSink := by
    show Function.update s.callbackSink s.process.spd.made (some pythonLogger) logger = target
    rw [Function.update_of_ne (Nat.ne_of_lt h.lt_made)]
    exact h.callbackSink
  installed := h.installed

/-- The new logger leads to its Python logger. -/
theorem leadsTo_redirect (s : RoutedProcess) (pythonLogger : PythonLogger) :
    LeadsTo installed (s.redirect pythonLogger)
      (s.redirect pythonLogger).process.spd.defaultLogger (some pythonLogger) where
  lt_made := Nat.lt_succ_self _
  callbackSink := Function.update_self ..
  installed := fun h => by cases h

/-- Two states with the same loggers. -/
theorem LeadsTo.congr {logger : SpdLogger} {target : Option PythonLogger}
    (h : LeadsTo installed s logger target)
    (hmade : s'.process.spd.made = s.process.spd.made) (hsink : s'.callbackSink = s.callbackSink) :
    LeadsTo installed s' logger target where
  lt_made := hmade ▸ h.lt_made
  callbackSink := hsink ▸ h.callbackSink
  installed := h.installed

/-! ### Operations -/

/-- A construction that is not rejected: its messages go to its Python logger. -/
theorem construct_eq (installed : SpdLogger) (hnone : s.process.singleton_ = none)
    (pythonLogger : PythonLogger) (env : IRLoggerEnv) (msgs : List LogMsg) :
    s.construct pythonLogger env msgs =
      { process := (constructLogger env s.process).state
        callbackSink := (s.redirect pythonLogger).callbackSink
        deliveries := s.deliveries
          ++ (setUpMessages ++ msgs).map (deliveryTo installed (some pythonLogger)) } := by
  have hleads : LeadsTo installed (s.redirect pythonLogger)
      (s.redirect pythonLogger).process.spd.defaultLogger (some pythonLogger) :=
    leadsTo_redirect s pythonLogger
  have hmessages := logAll_eq (s.redirect pythonLogger) (setUpMessages ++ msgs) hleads
  rw [construct, hmessages, hnone]
  rfl

/-- After it the default logger is the new one, and the old one leads where it led. -/
theorem leadsTo_construct (hnone : s.process.singleton_ = none)
    (hdefault : LeadsTo installed s s.process.spd.defaultLogger r.target)
    (pythonLogger : PythonLogger) (env : IRLoggerEnv) (msgs : List LogMsg) :
    LeadsTo installed (s.construct pythonLogger env msgs)
        (s.construct pythonLogger env msgs).process.spd.defaultLogger (some pythonLogger) ∧
      LeadsTo installed (s.construct pythonLogger env msgs) s.process.spd.defaultLogger r.target := by
  have hspd : (constructLogger env s.process).state.spd
      = { defaultLogger := s.process.spd.made, made := s.process.spd.made + 1 } := by
    cases hirlogger : irLoggerToSpd env with
    | ok _ => rw [constructLogger_completes hnone hirlogger]
    | error e => rw [constructLogger_throws hnone hirlogger]; rfl
  have hprocess : (s.construct pythonLogger env msgs).process.spd
      = (s.redirect pythonLogger).process.spd := by
    rw [construct_eq installed hnone]
    exact hspd
  have hsink : (s.construct pythonLogger env msgs).callbackSink
      = (s.redirect pythonLogger).callbackSink := by
    rw [construct_eq installed hnone]
  rw [hprocess]
  exact ⟨(leadsTo_redirect s pythonLogger).congr (by rw [hprocess]) hsink,
    (hdefault.redirect pythonLogger).congr (by rw [hprocess]) hsink⟩

/-- A construction moves the route as `Route.next` says, and its messages go where the route has
been at each of them. -/
theorem routes_construct (h : Routes installed s r) (pythonLogger : PythonLogger)
    (env : IRLoggerEnv) (msgs : List LogMsg) :
    Routes installed (s.construct pythonLogger env msgs)
        (r.next (.construct pythonLogger env msgs)) ∧
      (s.construct pythonLogger env msgs).deliveries = s.deliveries
        ++ (r.messages (.construct pythonLogger env msgs)).map
          fun m => deliveryTo installed m.1 m.2 := by
  cases hlive : s.process.singleton_ with
  | some impl =>
      have hrejected : s.construct pythonLogger env msgs = s := by
        rw [construct, hlive]
        rfl
      obtain ⟨pythonLogger', hroute⟩ := Option.isSome_iff_exists.mp (h.live impl hlive).1
      simp only [hrejected, Route.next, Route.messages, hroute, List.map_nil, List.append_nil]
      exact ⟨h, trivial⟩
  | none =>
      have hroute := h.dead hlive
      have hbase : r.target = r.base := by rw [Route.target, hroute]
      obtain ⟨hnew, hold⟩ := leadsTo_construct hlive h.default pythonLogger env msgs
      have hprocess : (s.construct pythonLogger env msgs).process
          = (constructLogger env s.process).state := by rw [construct_eq installed hlive]
      refine ⟨?_, ?_⟩
      · simp only [Route.next, hroute]
        cases hirlogger : irLoggerToSpd env with
        | ok _ =>
            rw [constructLogger_completes hlive hirlogger] at hprocess
            refine ⟨hnew, fun hdead => ?_, fun impl himpl => ⟨rfl, ?_⟩⟩
            · rw [hprocess] at hdead
              cases hdead
            · rw [hprocess] at himpl
              obtain rfl := Option.some.inj himpl
              exact ⟨_, rfl, hbase ▸ hold⟩
        | error e =>
            -- Nothing is live, and the new logger stays.
            rw [constructLogger_throws hlive hirlogger] at hprocess
            refine ⟨hnew, fun _ => rfl, fun impl himpl => ?_⟩
            · rw [hprocess] at himpl
              cases himpl
      · rw [construct_eq installed hlive]
        simp only [Route.messages, hroute, List.map_map]
        rfl

/-- A destruction moves the route, too, and its messages follow it. -/
theorem routes_destroy (h : Routes installed s r) {msgs : List LogMsg}
    (hs : s.destroy msgs = some s') :
    Routes installed s' (r.next (.destroy msgs)) ∧
      s'.deliveries = s.deliveries
        ++ (r.messages (.destroy msgs)).map fun m => deliveryTo installed m.1 m.2 := by
  unfold destroy at hs
  cases hlive : s.process.singleton_ with
  | none => simp [destroyLogger, hlive] at hs
  | some impl =>
      obtain ⟨-, old, hold, hleads⟩ := h.live impl hlive
      -- `reset_spd_redirect` puts the old logger back.
      have hreset : destroyImpl impl s.process.spd
          = { s.process.spd with defaultLogger := old } := by
        rw [destroyImpl, resetSpdRedirect, hold]
      simp only [destroyLogger, hlive, hreset, Option.some.injEq] at hs
      rw [logAll_eq s msgs h.default] at hs
      subst hs
      refine ⟨⟨hleads.congr rfl rfl, fun _ => rfl, fun _ h => by cases h⟩, ?_⟩
      simp only [Route.messages, List.map_map]
      rfl

/-- One operation keeps the process on its route, and delivers what the route says. -/
theorem routes_step (h : Routes installed s r) {op : Op} (hs : step s op = some s') :
    Routes installed s' (r.next op) ∧
      s'.deliveries = s.deliveries
        ++ (r.messages op).map fun m => deliveryTo installed m.1 m.2 := by
  cases op with
  | construct pythonLogger env msgs =>
      obtain rfl := Option.some.inj hs
      exact routes_construct h pythonLogger env msgs
  | destroy msgs => exact routes_destroy h hs
  | log msg =>
      obtain rfl := Option.some.inj hs
      have hone := logAll_eq s [msg] h.default
      rw [show s.logAll [msg] = s.log msg from rfl] at hone
      rw [hone]
      refine ⟨⟨h.default.congr rfl rfl, h.dead, fun impl himpl => ?_⟩, rfl⟩
      obtain ⟨hroute, old, hold, hleads⟩ := h.live impl himpl
      exact ⟨hroute, old, hold, hleads.congr rfl rfl⟩

/-- Without its messages an operation is the one of `NqmIrimager.Logger`. -/
theorem process_step {op : Op} (hs : step s op = some s') :
    run loggerStep s.process op.loggerOp.toList = some s'.process := by
  cases op with
  | construct pythonLogger env msgs =>
      obtain rfl := Option.some.inj hs
      show some (constructLogger env s.process).state = some (s.construct pythonLogger env msgs).process
      unfold construct
      by_cases hlive : s.process.singleton_.isSome = true
      · rw [if_pos hlive, constructLogger, if_pos hlive]
        rfl
      · rw [if_neg hlive]
  | destroy msgs =>
      show run loggerStep s.process [.destroy] = _
      rw [run_singleton, loggerStep]
      simp only [step, destroy] at hs
      cases hdestroy : destroyLogger s.process with
      | none => simp [hdestroy] at hs
      | some process =>
          rw [hdestroy] at hs
          obtain rfl := Option.some.inj hs
          rfl
  | log msg =>
      obtain rfl := Option.some.inj hs
      rfl

/-- Without the messages, a history is one of the model without routes. -/
theorem process_run {ops : List Op} (hrun : run step s ops = some s') :
    run loggerStep s.process (ops.filterMap Op.loggerOp) = some s'.process := by
  induction ops generalizing s with
  | nil =>
      cases hrun
      rfl
  | cons op ops ih =>
      obtain ⟨s₁, hs₁, hrest⟩ := run_cons_eq_some.mp hrun
      have hfirst := process_step hs₁
      have hops : (op :: ops).filterMap Op.loggerOp
          = op.loggerOp.toList ++ ops.filterMap Op.loggerOp := by
        cases hop : op.loggerOp <;> simp [hop]
      rw [hops, run_append, hfirst]
      exact ih hrest

/-- A whole history delivers what the routes say. -/
theorem routes_run {ops : List Op} (h : Routes installed s r) (hrun : run step s ops = some s') :
    s'.deliveries = s.deliveries ++ r.deliveries installed ops := by
  induction ops generalizing s r with
  | nil =>
      cases hrun
      exact (List.append_nil _).symm
  | cons op ops ih =>
      obtain ⟨s₁, hs₁, hrest⟩ := run_cons_eq_some.mp hrun
      obtain ⟨hroutes, hdeliveries⟩ := routes_step h hs₁
      rw [ih hroutes hrest, hdeliveries, Route.deliveries, List.append_assoc]

end

/-- Everything is permitted. -/
def allowed : IRLoggerEnv := { noFifo with mkfifo := fun _ => none }

end RoutedProcess
end NqmIrimager
