import NqmIrimager.IRLoggerReader

/-!
# `NqmIrimager.Logger`: construction and destruction of a `Logger`

`logger.cpp`, and the constructors it reaches in `irlogger_to_spd_posix.cpp`.

A `spdlog::logger` object is a number, and `make_shared` gives a number that was never
used. The global state is `spdlog`'s default logger and `Logger::impl::singleton_`. The
answers of the operating system and of `evo::IRLogger` during one construction are an
`IRLoggerEnv`.

The constructor of `impl` is where the order matters: it redirects first and creates the
`IRLoggerToSpd` last. When that throws, C++ destroys the members of the half-built object
and does not run `~impl`.
-/

set_option autoImplicit false

namespace NqmIrimager

/-! ### `IRLoggerToSpd` -/

/-- A `std::filesystem::filesystem_error`. -/
structure FilesystemError where
  noSuchFileOrDirectory : Bool
  what : Bytes
deriving DecidableEq, Repr

/-- What the constructor of `IRLoggerToSpd` asks for and gets. `none` is success. -/
structure IRLoggerEnv where
  xdgRuntimeDir : Option Bytes
  createDirectory : Bytes → Option FilesystemError
  tempDirectoryPath : Except FilesystemError Bytes
  evoIrloggerDatestring : Bytes
  mkfifo : Bytes → Option Errno
  startThread : Option Errno
  startIrLogger : Bytes → Option Exception

/-- `std::filesystem::path::operator/` with a relative right side. -/
def joinPath (path rest : Bytes) : Bytes :=
  if path = [] ∨ path.getLast? = some 47 then path ++ rest else path ++ ascii "/" ++ rest

/-- The exception a `FilesystemError` leaves as. -/
def FilesystemError.thrown (e : FilesystemError) : Exception := ⟨.systemError, e.what⟩

/-- The last lines of `default_socket_path`, after the attempt with `XDG_RUNTIME_DIR`. -/
def tempSocketPath (env : IRLoggerEnv) : Except Exception Bytes :=
  match env.tempDirectoryPath with
  | .error e => .error e.thrown
  | .ok path =>
      let tempDir := joinPath path (ascii "nqm-irimager")
      match env.createDirectory tempDir with
      | some e => .error e.thrown
      | none => .ok (joinPath tempDir (ascii "irlogger.fifo"))

/-- `default_socket_path()`. -/
def defaultSocketPath (env : IRLoggerEnv) : Except Exception Bytes :=
  match env.xdgRuntimeDir with
  | none => tempSocketPath env
  | some dir =>
      let xdgRuntimeDir := joinPath dir (ascii "nqm-irimager")
      -- Only a missing parent directory leads to the fallback.
      match env.createDirectory xdgRuntimeDir with
      | none => .ok (joinPath xdgRuntimeDir (ascii "irlogger.fifo"))
      | some e => if e.noSuchFileOrDirectory then tempSocketPath env else .error e.thrown

/-- `irlogger_log_path(prefix)`. -/
def irloggerLogPath (env : IRLoggerEnv) (irloggerLogPathPrefix : Bytes) : Bytes :=
  irloggerLogPathPrefix ++ ascii "_" ++ env.evoIrloggerDatestring ++ ascii ".log"

/-- The constructor of `IRLoggerReader`: `mkfifo`, where a file that exists already is
fine, and the thread. -/
def startReader (env : IRLoggerEnv) (socketPath : Bytes) : Except Exception Unit :=
  match env.mkfifo socketPath with
  -- A FIFO from an earlier run is used again.
  | some errno =>
      if errno ≠ .eexist then .error ⟨.systemError, errno.what⟩
      else startThread
  | none => startThread
where
  /-- `std::async(std::launch::async, ..)`. -/
  startThread : Except Exception Unit :=
    match env.startThread with
    | some errno => .error ⟨.systemError, errno.what⟩
    | none => .ok ()

/-- The constructor of `IRLoggerToSpd`: the reader, then `IRLoggerImpl`. -/
def irLoggerToSpd (env : IRLoggerEnv) : Except Exception Unit :=
  match defaultSocketPath env with
  | .error e => .error e
  | .ok socketPath =>
      match startReader env (irloggerLogPath env socketPath) with
      | .error e => .error e
      | .ok _ =>
          match env.startIrLogger socketPath with
          | some e => .error e
          | none => .ok ()

/-! ### `Logger` -/

/-- A `spdlog::logger` object. -/
abbrev SpdLogger := Nat

/-- `spdlog`: its default logger, and the number of logger objects made so far. -/
structure Spdlog where
  defaultLogger : SpdLogger
  made : Nat
deriving DecidableEq, Repr

/-- `std::make_shared<spdlog::logger>`. -/
def Spdlog.makeLogger (spd : Spdlog) : SpdLogger × Spdlog :=
  (spd.made, { spd with made := spd.made + 1 })

/-- `Logger::impl`. `callbackLogger` is the `callback_logger` its `redirect_spd` made; no
function reads it. -/
structure LoggerImpl where
  oldLogger_ : Option SpdLogger
  callbackLogger : Option SpdLogger
deriving DecidableEq, Repr

/-- The process: `spdlog`, and the object `singleton_` observes. -/
structure Process where
  spd : Spdlog
  singleton_ : Option LoggerImpl
deriving DecidableEq, Repr

/-- `reset_spd_redirect()`. -/
def resetSpdRedirect (impl : LoggerImpl) (spd : Spdlog) : LoggerImpl × Spdlog :=
  match impl.oldLogger_ with
  | none => (impl, spd)
  | some old => ({ impl with oldLogger_ := none }, { spd with defaultLogger := old })

/-- `redirect_spd(logging_callback)`. -/
def redirectSpd (impl : LoggerImpl) (spd : Spdlog) : LoggerImpl × Spdlog :=
  let (impl, spd) := resetSpdRedirect impl spd
  let (callbackLogger, spd) := spd.makeLogger
  let impl : LoggerImpl :=
    { impl with oldLogger_ := some spd.defaultLogger, callbackLogger := some callbackLogger }
  (impl, { spd with defaultLogger := callbackLogger })

/-- `impl::impl(logging_callback)`. -/
def constructImpl (env : IRLoggerEnv) (spd : Spdlog) : Outcome Spdlog LoggerImpl :=
  let (impl, spd) := redirectSpd ⟨none, none⟩ spd
  match irLoggerToSpd env with
  -- The object is not complete: its members go, `~impl` is not called.
  | .error e => .threw e spd
  | .ok _ => .returned impl spd

/-- `impl::~impl()`. -/
def destroyImpl (impl : LoggerImpl) (spd : Spdlog) : Spdlog := (resetSpdRedirect impl spd).2

/-- `Logger::Logger(logging_callback)`. -/
def constructLogger (env : IRLoggerEnv) (s : Process) : Outcome Process Unit :=
  if s.singleton_.isSome then
    .threw ⟨.runtimeError,
      ascii "Only a single instance of the Logger should be active at the same time."⟩ s
  else
    -- `singleton_` is set after the constructor of `impl` has returned.
    match constructImpl env s.spd with
    | .returned impl spd => .returned () { spd := spd, singleton_ := some impl }
    | .threw e spd => .threw e { s with spd := spd }

/-- `Logger::~Logger()` of the one `Logger` there is. -/
def destroyLogger (s : Process) : Option Process :=
  match s.singleton_ with
  | none => none
  | some impl => some { spd := destroyImpl impl s.spd, singleton_ := none }

/-- A construction, with the answers it gets, or the destruction of the live `Logger`. -/
inductive LoggerOp where
  | construct (env : IRLoggerEnv)
  | destroy

/-- One operation of a history. The caller of a constructor that throws goes on. -/
def loggerStep (s : Process) : LoggerOp → Option Process
  | .construct env => some (constructLogger env s).state
  | .destroy => destroyLogger s

/-- The process before the first construction, with any logger installed. -/
def Process.initial (installed : SpdLogger) : Process where
  spd := { defaultLogger := installed, made := installed + 1 }
  singleton_ := none

end NqmIrimager
