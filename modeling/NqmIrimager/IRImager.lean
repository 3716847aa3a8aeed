import Mathlib.Algebra.Ring.Nat
import NqmIrimager.IRImagerRealImpl

/-!
# `NqmIrimager.IRImager`: the two implementations and the constructors

`IRImager`, `IRImagerMockImpl` and the constructors of `IRImagerRealImpl`, from
`irimager_class.cpp`. The macro `IR_IMAGER_MOCK` is the parameter `build`: it selects the
class that `IRImager(xml_path)` and the copy constructor create.

An `Impl` is the object behind `pImpl_`, a `Chain` the constructor calls that led to an
`IRImager`. What the file system and the SDK answer is in the arguments. `call` is a call
of a member function, and its `Answer` tells apart the two ways in which a real
implementation can lack what it needs: a null `ir_device_`, and an `ir_imager_` that has
no callback to wait for.
-/

set_option autoImplicit false

namespace NqmIrimager

/-- The build macro. -/
inductive Build where
  | mocked
  | notMocked
deriving DecidableEq, Repr

/-- The file behind `xml_path`: its contents, or why it does not open. -/
structure XmlFile where
  path : Bytes
  contents : Except Bytes Bytes

/-- `evo::IRDevice`, as far as `ir_imager_.init` asks it. -/
structure IRDevice where
  frequency : Nat
  width : Nat
  height : Nat
  controlledViaHID : Bool
deriving DecidableEq, Repr

/-- `evo::IRImager`: the arguments of its `init`, if that was called, and whether
`onThermalFrame` is its callback. -/
structure EvoIRImager where
  initialised : Option IRDevice
  onThermalFrame : Bool
deriving DecidableEq, Repr

/-- `evo::IRImager()`. -/
def EvoIRImager.default : EvoIRImager where
  initialised := none
  onThermalFrame := false

/-- What the SDK answers to `readXMLC` (whether it fails) and `IRCreateDevice`. -/
structure SdkAnswers where
  readXMLCFails : Bool
  irCreateDevice : Option IRDevice
deriving DecidableEq, Repr

/-- `IRImager::impl`: an `IRImagerMockImpl` or an `IRImagerRealImpl`. -/
inductive Impl where
  | mock (streaming_ : Bool)
  | real (streaming_ : Bool) (irDevice_ : Option IRDevice) (irImager_ : EvoIRImager)
deriving DecidableEq, Repr

/-- Which of the two it is. -/
inductive Kind where
  | mock
  | real
deriving DecidableEq, Repr

/-- The class of an implementation. -/
def Impl.kind : Impl → Kind
  | mock _ => .mock
  | real _ _ _ => .real

/-- The member of the base class. -/
def Impl.streaming_ : Impl → Bool
  | mock streaming_ => streaming_
  | real streaming_ _ _ => streaming_

/-- The exception for a file that does not start with `<?xml`. -/
def invalidXmlFile : Exception :=
  ⟨.runtimeError,
    ascii "Invalid XML file: The given XML file does not start with '<?xml'"⟩

/-- `IRImager::impl(xml_path)`, with the `streaming_` it leaves. The stream throws when it
cannot read five bytes. -/
def baseImpl (file : XmlFile) : Except Exception Bool :=
  match file.contents with
  | .error what =>
      .error ⟨.runtimeError,
        ascii "Failed to open file " ++ file.path ++ ascii " due to " ++ what⟩
  | .ok contents =>
      if contents.length < 5 then
        .error ⟨.systemError, ascii "basic_ios::clear: iostream error"⟩
      else if contents.take 5 ≠ ascii "<?xml" then .error invalidXmlFile
      else .ok false

/-- The five bytes of `xml_header` after a read that does not throw. -/
def xmlHeader (file : XmlFile) : Bytes :=
  match file.contents with
  | .error _ => List.replicate 5 0
  | .ok contents => contents.take 5 ++ List.replicate (5 - contents.length) 0

/-- `IRImagerMockImpl(xml_path)`. -/
def mockImpl (file : XmlFile) : Except Exception Impl :=
  match baseImpl file with
  | .error e => .error e
  | .ok streaming_ => .ok (.mock streaming_)

/-- `IRImagerRealImpl(xml_path)`. -/
def realImpl (file : XmlFile) (sdk : SdkAnswers) : Except Exception Impl :=
  -- A failing `readXMLC` is ignored, as long as the file looks like XML.
  if sdk.readXMLCFails ∧ xmlHeader file ≠ ascii "<?xml" then .error invalidXmlFile
  else
    match sdk.irCreateDevice with
    | none => .error ⟨.runtimeError, ascii "Failed to create IRDevice"⟩
    | some irDevice =>
        .ok (.real false (some irDevice) { initialised := some irDevice, onThermalFrame := true })

/-- `IRImagerMockImpl(const IRImager::impl &)`. -/
def copyToMock (other : Impl) : Impl := .mock other.streaming_

/-- `IRImagerRealImpl(const IRImager::impl &)`. The `dynamic_cast` gives a null pointer for
a mock; `ir_imager_` is default constructed. -/
def copyToReal (other : Impl) : Impl :=
  match other with
  | .mock streaming_ => .real streaming_ none .default
  | .real streaming_ irDevice_ _ => .real streaming_ irDevice_ .default

/-- `IRImagerDefaultImplementation(xml_path)`. -/
def defaultImpl (build : Build) (file : XmlFile) (sdk : SdkAnswers) : Except Exception Impl :=
  match build with
  | .mocked => mockImpl file
  | .notMocked => realImpl file sdk

/-- `IRImagerDefaultImplementation(*other.pImpl_)`. -/
def copyImpl (build : Build) (other : Impl) : Impl :=
  match build with
  | .mocked => copyToMock other
  | .notMocked => copyToReal other

/-- The constructor calls that lead to an `IRImager`: `IRImager(xml_path)`,
`IRImagerMock(xml_path)`, and the copy and the move of an object built before. -/
inductive Chain where
  | path (file : XmlFile) (sdk : SdkAnswers)
  | mockPath (file : XmlFile)
  | copy (other : Chain)
  | move (other : Chain)

/-- The implementation of the last object of the chain, if no constructor throws. A move
hands it over. -/
def Chain.impl (build : Build) : Chain → Except Exception Impl
  | path file sdk => defaultImpl build file sdk
  | mockPath file => mockImpl file
  | copy other =>
      match other.impl build with
      | .error e => .error e
      | .ok impl => .ok (copyImpl build impl)
  | move other => other.impl build

/-! ### Calls -/

/-- A call of a member function, with what the SDK answers: whether `startStreaming` and
`stopStreaming` fail, and the outcome of the capture. -/
inductive ImplCall where
  | startStreaming (fails : Bool)
  | stopStreaming (fails : Bool)
  | getFrame (capture : Except IRDeviceError (RawFrame × Timestamp)) (now : Timestamp)

/-- How a call ends. `nullDevice` is a call through a null `ir_device_`; `noCallback` is a
wait for a callback that was never registered. -/
inductive Answer where
  | done
  | mockFrame (rows cols value : Nat) (timestamp : Timestamp)
  | frame (picture : RawFrame) (timestamp : Timestamp)
  | threw (e : Exception)
  | nullDevice
  | noCallback
deriving DecidableEq, Repr

/-- `get_temp_range_decimal()` of both implementations. -/
def tempRangeDecimal : Nat := 1

/-- `start_streaming()`, `stop_streaming()` and `get_frame_monotonic()` of the mock. -/
def callMock (streaming_ : Bool) : ImplCall → Impl × Answer
  | .startStreaming _ => (.mock true, .done)
  | .stopStreaming _ => (.mock false, .done)
  | .getFrame _ now =>
      if streaming_ then
        (.mock streaming_, .mockFrame 382 288 ((1800 + 100) * 10 ^ tempRangeDecimal) now)
      else
        (.mock streaming_, .threw ⟨.runtimeError, ascii "IRIMAGER_STREAMOFF: Not streaming"⟩)

/-- The same of the real implementation, with a device. The hand-over of the frame is
`IRImagerRealImpl`; here only whether there is a callback matters. -/
def callReal (irImager_ : EvoIRImager) : ImplCall → Answer
  | .startStreaming fails =>
      if fails then
        .threw ⟨.runtimeError,
          ascii "Error occurred in starting stream. You may need to reconnect the camera."⟩
      else .done
  | .stopStreaming fails =>
      if fails then .threw ⟨.runtimeError, ascii "Error occurred in stopping stream."⟩ else .done
  | .getFrame (.error deviceError) _ => .threw (irDeviceException deviceError)
  | .getFrame (.ok (picture, timestamp)) _ =>
      if irImager_.onThermalFrame then .frame picture timestamp else .noCallback

/-- A call on an implementation. -/
def Impl.call (impl : Impl) (c : ImplCall) : Impl × Answer :=
  match impl with
  | mock streaming_ => callMock streaming_ c
  -- Each of the three functions starts with `ir_device_->`.
  | real _ none _ => (impl, .nullDevice)
  | real _ (some _) irImager_ => (impl, callReal irImager_ c)

/-- A sequence of calls: the implementation after it, and all answers. -/
def Impl.calls (impl : Impl) : List ImplCall → Impl × List Answer
  | [] => (impl, [])
  | c :: cs =>
      let (impl, answer) := impl.call c
      let (impl, answers) := impl.calls cs
      (impl, answer :: answers)

end NqmIrimager
