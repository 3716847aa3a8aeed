import Mathlib.Data.List.Basic

/-!
# `NqmIrimager.Definitions`: bytes, exceptions, log levels and the logging callback

What `definitions.hpp` declares, and the part of the C++ library every other module
shares.

A `std::string` and a `std::string_view` are lists of bytes. A call that can throw ends in
an `Outcome`, which keeps the state of the object on both exits: a C++ member function
that throws leaves behind whatever it had written.
-/

set_option autoImplicit false

namespace NqmIrimager

/-- `char`. -/
abbrev Byte := UInt8

/-- The contents of a `std::string` or a `std::string_view`. -/
abbrev Bytes := List Byte

/-- The bytes of an ASCII literal of the source. -/
def ascii (s : String) : Bytes := s.toList.map fun c => UInt8.ofNat c.toNat

/-- The `'\n'` byte. -/
def newline : Byte := 10

/-- The standard exception classes the source throws or catches. -/
inductive ExceptionKind where
  | invalidArgument
  | logicError
  | outOfRange
  | runtimeError
  | systemError
  | other
deriving DecidableEq, Repr

/-- A `std::exception`: its class and its `what()`. -/
structure Exception where
  kind : ExceptionKind
  what : Bytes
deriving DecidableEq, Repr

/-- How a member function ends, with the state it leaves: it returns a value or throws. -/
inductive Outcome (σ α : Type) where
  | returned (value : α) (state : σ)
  | threw (e : Exception) (state : σ)
deriving DecidableEq, Repr

namespace Outcome
variable {σ α : Type}

/-- The state the call leaves, on either exit. -/
def state : Outcome σ α → σ
  | returned _ s => s
  | threw _ s => s

/-- What follows a call: it runs after a normal return, a throw skips it. -/
def bind {β : Type} (o : Outcome σ α) (f : α → σ → Outcome σ β) : Outcome σ β :=
  match o with
  | returned a s => f a s
  | threw e s => threw e s

/-- The state after a normal return. -/
def next : Outcome σ α → Option σ
  | returned _ s => some s
  | threw _ _ => none

/-- The same exit, with the state seen through `f`. -/
def mapState {τ : Type} (f : σ → τ) : Outcome σ α → Outcome τ α
  | returned a s => returned a (f s)
  | threw e s => threw e (f s)

/-- A map of the state keeps what was returned. -/
@[simp] theorem mapState_returned {τ : Type} (f : σ → τ) (a : α) (s : σ) :
    (returned a s).mapState f = returned a (f s) := rfl

/-- A map of the state keeps what was thrown. -/
@[simp] theorem mapState_threw {τ : Type} (f : σ → τ) (e : Exception) (s : σ) :
    (threw e s : Outcome σ α).mapState f = threw e (f s) := rfl

/-- The state a call returns in. -/
@[simp] theorem state_returned (a : α) (s : σ) : (returned a s).state = s := rfl

/-- The state an exception leaves. -/
@[simp] theorem state_threw (e : Exception) (s : σ) : (threw e s : Outcome σ α).state = s := rfl

/-- The state of a mapped outcome is mapped. -/
@[simp] theorem state_mapState {τ : Type} (f : σ → τ) (o : Outcome σ α) :
    (o.mapState f).state = f o.state := by
  cases o <;> rfl

/-- The next statement runs after one that returned. -/
@[simp] theorem bind_returned {β : Type} (a : α) (s : σ) (f : α → σ → Outcome σ β) :
    (returned a s).bind f = f a s := rfl

/-- An exception skips the next statement. -/
@[simp] theorem bind_threw {β : Type} (e : Exception) (s : σ) (f : α → σ → Outcome σ β) :
    (threw e s).bind f = threw e s := rfl

/-- A sequence returns when both parts do. -/
theorem bind_eq_returned {β : Type} {o : Outcome σ α} {f : α → σ → Outcome σ β} {b : β} {s' : σ} :
    o.bind f = returned b s' ↔ ∃ a s, o = returned a s ∧ f a s = returned b s' := by
  cases o <;> simp

/-- A call that returned can be followed by another one. -/
@[simp] theorem next_returned (a : α) (s : σ) : (returned a s).next = some s := rfl

/-- After an exception there is no next call. -/
@[simp] theorem next_threw (e : Exception) (s : σ) : (threw e s : Outcome σ α).next = none := rfl

end Outcome

/-- `LogLevel`, the level of a Python log record. -/
inductive LogLevel where
  | trace
  | debug
  | info
  | warn
  | error
  | critical
deriving DecidableEq, Repr

/-- `LoggingCallback`. The function object may hold state (in the bindings, a Python
logger), so a call takes the state `σ` and leaves a new one. -/
abbrev LoggingCallback (σ : Type) := LogLevel → Bytes → σ → Outcome σ Unit

/-- The callback returns normally, whatever it is given. -/
def LoggingCallback.Returns {σ : Type} (callback : LoggingCallback σ) : Prop :=
  ∀ level text s, ∃ s', callback level text s = .returned () s'

/-- The callback that keeps every message. It returns normally. -/
def record : LoggingCallback (List (LogLevel × Bytes)) :=
  fun level text s => .returned () (s ++ [(level, text)])

/-- `record` never throws. -/
theorem record_returns : record.Returns :=
  fun level text s => ⟨s ++ [(level, text)], rfl⟩

end NqmIrimager
