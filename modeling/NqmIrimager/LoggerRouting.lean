import Mathlib.Logic.Function.Basic
import NqmIrimager.Logger

/-!
# `NqmIrimager.LoggerRouting`: where a `spdlog` message goes

The sinks behind the loggers of `NqmIrimager.Logger`, and what `logger.cpp` makes of a message:
`spd_level_to_irimager_level`, the lambda of `redirect_spd`, and `log_to_python`.

A message goes to the default logger. The loggers that `redirect_spd` makes have one sink, which
calls `logging_callback` for every level. A logger with another sink is one of the program's own;
it gets the message as it is.

The messages of the constructor and of the destructor are arguments, after the two that
`logger.cpp` emits itself: those of `irlogger_to_spd_posix.cpp` depend on what happens there, and
other threads have messages of their own.
-/

set_option autoImplicit false

namespace NqmIrimager

/-- `spdlog::level::level_enum`. -/
inductive SpdLevel where
  | trace
  | debug
  | info
  | warn
  | err
  | critical
  | off
  | nLevels
deriving DecidableEq, Repr

/-- `spd_level_to_irimager_level(input)`. -/
def spdLevelToIrimagerLevel : SpdLevel → LogLevel
  | .warn => .warn
  | .debug => .debug
  | .info => .info
  | .err => .error
  | .critical => .critical
  | .off => .trace
  | .trace => .trace
  | .nLevels => .trace

/-- `static_cast<int>(log_level)`: the values of the enumerators. -/
def LogLevel.toInt : LogLevel → Int
  | .trace => 5
  | .debug => 10
  | .info => 20
  | .warn => 30
  | .error => 40
  | .critical => 50

/-- `spdlog::details::log_msg`. -/
structure LogMsg where
  level : SpdLevel
  payload : Bytes
deriving DecidableEq, Repr

/-- A `pybind11::object` with a Python logger. -/
abbrev PythonLogger := Nat

/-- A call of `logger.log(level, format, msg)`. -/
structure PythonCall where
  logger : PythonLogger
  level : Int
  format : Bytes
  msg : Bytes
deriving DecidableEq, Repr

/-- `log_to_python(logger)`: the call it makes. -/
def logToPython (logger : PythonLogger) (logLevel : LogLevel) (msg : Bytes) : PythonCall :=
  ⟨logger, logLevel.toInt, ascii "%s", msg⟩

/-- `log_to_python(logger)` as the callback it is. Its state is the calls that were made, and
`raises` is what the Python logger answers to the last of them. -/
def pythonCallback (logger : PythonLogger) (raises : List PythonCall → Option Exception) :
    LoggingCallback (List PythonCall) :=
  fun logLevel msg calls =>
    let made := calls ++ [logToPython logger logLevel msg]
    match raises made with
    | none => .returned () made
    | some e => .threw e made

/-- What became of a message: a Python call, or a message for a logger of the program. -/
inductive Delivery where
  | python (call : PythonCall)
  | spdlog (logger : SpdLogger) (msg : LogMsg)
deriving DecidableEq, Repr

/-- The process, the `callback_sink`s of its loggers with the Python logger they log to, and the
messages so far. -/
structure RoutedProcess where
  process : Process
  callbackSink : SpdLogger → Option PythonLogger
  deliveries : List Delivery

namespace RoutedProcess

/-- Before the first construction. -/
def initial (installed : SpdLogger) : RoutedProcess where
  process := .initial installed
  callbackSink := fun _ => none
  deliveries := []

/-- `spdlog::log(level, payload)`. -/
def log (s : RoutedProcess) (msg : LogMsg) : RoutedProcess :=
  let logger := s.process.spd.defaultLogger
  let delivery :=
    match s.callbackSink logger with
    | some pythonLogger =>
        .python (logToPython pythonLogger (spdLevelToIrimagerLevel msg.level) msg.payload)
    | none => .spdlog logger msg
  { s with deliveries := s.deliveries ++ [delivery] }

/-- Messages one after the other. -/
def logAll (s : RoutedProcess) (msgs : List LogMsg) : RoutedProcess := msgs.foldl log s

/-- The message of `redirect_spd`, and the one of the constructor of `impl` after it. -/
def setUpMessages : List LogMsg :=
  [⟨.debug, ascii "Redirecting spdlogs to a callback."⟩,
    ⟨.debug, ascii "set up Python logging callback"⟩]

/-- `redirect_spd(log_to_python(pythonLogger))` of a new `impl`. -/
def redirect (s : RoutedProcess) (pythonLogger : PythonLogger) : RoutedProcess :=
  { s with
    process := { s.process with spd := (redirectSpd ⟨none, none⟩ s.process.spd).2 }
    callbackSink := Function.update s.callbackSink s.process.spd.made (some pythonLogger) }

/-- `Logger::Logger(pythonLogger)`, with the messages during the construction of the
`IRLoggerToSpd`. -/
def construct (s : RoutedProcess) (pythonLogger : PythonLogger) (env : IRLoggerEnv)
    (msgs : List LogMsg) : RoutedProcess :=
  if s.process.singleton_.isSome then s
  else
    { (s.redirect pythonLogger).logAll (setUpMessages ++ msgs) with
      process := (constructLogger env s.process).state }

/-- `Logger::~Logger()`, with the messages during the destruction of the `IRLoggerToSpd`. The
redirect is reset after it. -/
def destroy (s : RoutedProcess) (msgs : List LogMsg) : Option RoutedProcess :=
  match destroyLogger s.process with
  | none => none
  | some process => some { s.logAll msgs with process := process }

/-- A construction or a destruction, with the messages meanwhile, or a message in between. -/
inductive Op where
  | construct (pythonLogger : PythonLogger) (env : IRLoggerEnv) (msgs : List LogMsg)
  | destroy (msgs : List LogMsg)
  | log (msg : LogMsg)

/-- One operation of a history. -/
def step (s : RoutedProcess) : Op → Option RoutedProcess
  | .construct pythonLogger env msgs => some (s.construct pythonLogger env msgs)
  | .destroy msgs => s.destroy msgs
  | .log msg => some (s.log msg)

/-- The `Logger` operation in it. -/
def Op.loggerOp : Op → Option LoggerOp
  | .construct _ env _ => some (.construct env)
  | .destroy _ => some .destroy
  | .log _ => none

end RoutedProcess
end NqmIrimager
