import NqmIrimager.IRImager

/-!
# `NqmIrimager.Proofs.IRImagerCopies`: which constructed objects are usable

An implementation is `Usable` when it is the mock, or a real one with a device, an
initialised `ir_imager_` and the callback. A usable one never hits a null device and never
waits for a missing callback, whatever is called on it (`calls_of_usable`).

The constructors from a path and the move constructor give usable objects. The copy
constructor of the build that is not mocked does not: it copies `ir_device_` at most, and
never initialises `ir_imager_`. So an object is usable if and only if its chain has no
copy (`usable_iff_noCopy`).
-/

set_option autoImplicit false

namespace NqmIrimager

/-- The implementation has all its parts. -/
def Impl.Usable : Impl → Prop
  | mock _ => True
  | real _ irDevice_ irImager_ =>
      irDevice_.isSome ∧ irImager_.initialised.isSome ∧ irImager_.onThermalFrame = true

/-- The answers that a missing part leads to. -/
def Answer.Faulty (a : Answer) : Prop := a = .nullDevice ∨ a = .noCallback

/-- Every copy in the chain has the kind of its original. -/
def Chain.CopiesKeepKind (build : Build) : Chain → Prop
  | path _ _ => True
  | mockPath _ => True
  | copy other =>
      other.CopiesKeepKind build ∧
        ∀ impl, other.impl build = .ok impl → (copyImpl build impl).kind = impl.kind
  | move other => other.CopiesKeepKind build

/-- No constructor in the chain is the copy constructor. -/
def Chain.NoCopy : Chain → Prop
  | path _ _ => True
  | mockPath _ => True
  | copy _ => False
  | move other => other.NoCopy

/-! ### Calls on a usable implementation -/

/-- One call on a usable implementation is not faulty, and leaves it usable and of its
kind. -/
theorem call_of_usable {impl : Impl} (h : impl.Usable) (c : ImplCall) :
    (impl.call c).1.Usable ∧ (impl.call c).1.kind = impl.kind ∧ ¬ (impl.call c).2.Faulty := by
  cases impl with
  | mock streaming_ =>
      cases c with
      | startStreaming fails => exact ⟨trivial, rfl, by simp [Impl.call, callMock, Answer.Faulty]⟩
      | stopStreaming fails => exact ⟨trivial, rfl, by simp [Impl.call, callMock, Answer.Faulty]⟩
      | getFrame capture now =>
          cases streaming_ with
          | true => exact ⟨trivial, rfl, by simp [Impl.call, callMock, Answer.Faulty]⟩
          -- Not streaming: the call throws, which is no fault.
          | false => exact ⟨trivial, rfl, by simp [Impl.call, callMock, Answer.Faulty]⟩
  | real streaming_ irDevice_ irImager_ =>
      cases irDevice_ with
      | none => exact absurd h.1 (by decide)
      | some irDevice =>
          -- A call on a real implementation changes none of its parts.
          refine ⟨h, rfl, ?_⟩
          show ¬ (callReal irImager_ c).Faulty
          cases c with
          | startStreaming fails => cases fails <;> simp [callReal, Answer.Faulty]
          | stopStreaming fails => cases fails <;> simp [callReal, Answer.Faulty]
          | getFrame capture now =>
              cases capture with
              | error deviceError => simp [callReal, Answer.Faulty]
              | ok frame => simp [callReal, h.2.2, Answer.Faulty]

/-- No sequence of calls on a usable implementation has a faulty answer. -/
theorem calls_of_usable {impl : Impl} (h : impl.Usable) (cs : List ImplCall) :
    (impl.calls cs).1.kind = impl.kind ∧ ∀ a ∈ (impl.calls cs).2, ¬ a.Faulty := by
  -- By induction on the calls; what one call leaves is usable again.
  induction cs generalizing impl with
  | nil => exact ⟨rfl, by simp [Impl.calls]⟩
  | cons c cs ih =>
      obtain ⟨husable, hkind, hanswer⟩ := call_of_usable h c
      obtain ⟨hkind', hanswers⟩ := ih husable
      constructor
      · exact hkind'.trans hkind
      · intro a ha
        rcases List.mem_cons.mp ha with rfl | ha
        · exact hanswer
        · exact hanswers a ha

/-! ### Constructors -/

/-- The constructor from a file gives a usable mock. -/
theorem usable_mockImpl {file : XmlFile} {impl : Impl} (h : mockImpl file = .ok impl) :
    impl.Usable := by
  unfold mockImpl at h
  split at h
  · cases h
  · cases h
    trivial

/-- The constructor from a file gives a usable device. -/
theorem usable_realImpl {file : XmlFile} {sdk : SdkAnswers} {impl : Impl}
    (h : realImpl file sdk = .ok impl) : impl.Usable := by
  unfold realImpl at h
  split at h
  · cases h
  · split at h
    · cases h
    · cases h
      exact ⟨rfl, rfl, rfl⟩

/-- A copy in the build that is not mocked has an `ir_imager_` that was never
initialised. -/
theorem not_usable_copyToReal (other : Impl) : ¬ (copyToReal other).Usable := by
  cases other with
  | mock streaming_ =>
      rintro ⟨hdevice, -⟩
      cases hdevice
  | real streaming_ irDevice_ irImager_ =>
      rintro ⟨-, hinit, -⟩
      cases hinit

/-- Constructors without a copy give a usable implementation. -/
theorem usable_of_noCopy {chain : Chain} {impl : Impl} (h : chain.impl .notMocked = .ok impl)
    (hchain : chain.NoCopy) : impl.Usable := by
  induction chain with
  | path file sdk => exact usable_realImpl h
  | mockPath file => exact usable_mockImpl h
  | copy other => exact absurd hchain id
  | move other ih => exact ih h hchain

/-- A chain with a copy ends in an implementation that is not usable. -/
theorem noCopy_of_usable {chain : Chain} {impl : Impl} (h : chain.impl .notMocked = .ok impl)
    (husable : impl.Usable) : chain.NoCopy := by
  induction chain with
  | path file sdk => trivial
  | mockPath file => trivial
  | copy other =>
      unfold Chain.impl at h
      split at h
      · cases h
      · cases h
        exact absurd husable (not_usable_copyToReal _)
  | move other ih => exact ih h

/-- Without a copy there is no kind to keep. -/
theorem copiesKeepKind_of_noCopy (build : Build) {chain : Chain} (h : chain.NoCopy) :
    chain.CopiesKeepKind build := by
  induction chain with
  | path file sdk => trivial
  | mockPath file => trivial
  | copy other => exact absurd h id
  | move other ih => exact ih h

/-- In the build that is not mocked, an object built by a chain of constructors is usable,
answers every sequence of calls without a fault, and has copies of the right kind only, if
and only if the chain has no copy. -/
theorem usable_iff_noCopy (chain : Chain) (impl : Impl)
    (h : chain.impl .notMocked = .ok impl) :
    (impl.Usable ∧ (∀ cs a, a ∈ (impl.calls cs).2 → ¬ a.Faulty) ∧
      chain.CopiesKeepKind .notMocked) ↔ chain.NoCopy := by
  constructor
  · rintro ⟨husable, -, -⟩
    exact noCopy_of_usable h husable
  · intro hchain
    have husable := usable_of_noCopy h hchain
    exact ⟨husable, fun cs a ha => (calls_of_usable husable cs).2 a ha,
      copiesKeepKind_of_noCopy .notMocked hchain⟩

/-- An XML file and a camera. -/
def someFile : XmlFile where
  path := ascii "camera.xml"
  contents := .ok (ascii "<?xml version=\"1.0\"?>")

/-- An SDK that finds the camera. -/
def someSdk : SdkAnswers where
  readXMLCFails := true
  irCreateDevice := some ⟨80, 382, 288, true⟩

/-- A moved object. -/
theorem usable_iff_noCopy_move :
    ∃ impl, (Chain.move (.path someFile someSdk)).impl .notMocked = .ok impl ∧
      ((impl.Usable ∧ (∀ cs a, a ∈ (impl.calls cs).2 → ¬ a.Faulty) ∧
        (Chain.move (.path someFile someSdk)).CopiesKeepKind .notMocked) ↔
          (Chain.move (.path someFile someSdk)).NoCopy) :=
  ⟨_, rfl, usable_iff_noCopy (.move (.path someFile someSdk)) _ rfl⟩

/-- A copy of a mock is a real implementation without a device: the first call goes through
a null pointer. A copy of a real one waits for a callback that was never registered. -/
theorem copies_not_usable :
    (∃ impl, (Chain.copy (.mockPath someFile)).impl .notMocked = .ok impl ∧
      ¬ impl.Usable ∧ impl.kind = .real ∧
      (impl.call (.startStreaming false)).2 = .nullDevice) ∧
    ∃ impl, (Chain.copy (.path someFile someSdk)).impl .notMocked = .ok impl ∧
      ¬ impl.Usable ∧ (impl.call (.getFrame (.ok (7, 70)) 0)).2 = .noCallback := by
  refine ⟨⟨_, rfl, ?_, rfl, rfl⟩, ⟨_, rfl, ?_, rfl⟩⟩
  · rintro ⟨hdevice, -⟩
    cases hdevice
  · rintro ⟨-, hinit, -⟩
    cases hinit

/-- In the mocked build every chain that returns gives a mock, copies included. -/
theorem mock_of_mocked {chain : Chain} {impl : Impl} (h : chain.impl .mocked = .ok impl) :
    impl.kind = .mock := by
  induction chain generalizing impl with
  | path file sdk =>
      simp only [Chain.impl, defaultImpl, mockImpl] at h
      split at h
      · cases h
      · cases h
        rfl
  | mockPath file =>
      simp only [Chain.impl, mockImpl] at h
      split at h
      · cases h
      · cases h
        rfl
  | copy other ih =>
      unfold Chain.impl at h
      split at h
      · cases h
      · cases h
        rfl
  | move other ih => exact ih h

end NqmIrimager
