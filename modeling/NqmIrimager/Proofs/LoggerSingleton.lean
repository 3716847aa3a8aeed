import NqmIrimager.Proofs.LoggerAccount

/-!
# `NqmIrimager.Proofs.LoggerSingleton`: at most one `Logger`

What the account of a reachable state says about the calls of `Logger` and
`LoggerContextManager`, in any interleaving of any number of threads:

* `test_step`: a construction that holds the mutex is rejected exactly when an `impl` is
  live.
* `start_running`: `start()` of a manager that has a `Logger` changes nothing.
* `failed_untouched`: no step of a construction that is rejected or fails touches the live
  `impl` or a manager. The manager it was for can still be running then, started by another
  thread in the meantime (`rejected_start_running`).
* `accepted_after_end`: when a destructor has ended the `impl`, the next construction that
  makes its test passes it.
-/

set_option autoImplicit false

namespace NqmIrimager

open StepRun

/-- The Python thread that takes the step. -/
def Label.thread : Label → Option Nat
  | acquireGil t | lockMutex t | preempt t | act t _ => some t
  | readerMessage _ | readerAcquires _ | readerPreempt _ | readerReturns _ | readerEnds _ _ => none

namespace Place

/-- The thread is in a constructor call. -/
def inConstructor : Place → Bool
  | ctorEnter _ | ctorNoGil _ | ctorTest _ | implEnter _ | implCtor _ _ | writerCtor _ _
  | writerNoGil _ _ | writerMessage _ _ | unwind _ _ _ | unwindStop _ _ _ | unwindJoin _ _ _
  | unwound _ _ _ | constructed _ _ | ctorUnlock _ _ | ctorUnlocked _ _ | ctorExit _ _ => true
  | outside _ | dtorEnter _ | dtorNoGil _ | dtorLocked _ | implDrop _ | dtorWriter _
  | writerJoin _ | dtorReader _ | dtorStop _ | dtorJoin _ | dtorReset _ | dtorUnlock
  | dtorUnlocked => false

/-- The constructor call is about to return its `Logger`. -/
def returns : Place → Bool
  | ctorUnlock _ (.ok _) | ctorUnlocked _ (.ok _) | ctorExit _ (.ok _) => true
  | _ => false

end Place

namespace LoggerThreads

/-- Every `Logger` stays where it is, and has the same `impl` with the same reader. -/
structure Untouched (s s' : LoggerThreads) : Prop where
  loggers : s'.loggers = s.loggers
  singleton : s'.singleton_ = s.singleton_
  live : ∀ o i, (o, i) ∈ s.loggers → i ∈ s'.impls ∧ s'.readers i = s.readers i

/-- The step is the test of a construction. -/
def Tests (s : LoggerThreads) (l : Label) : Prop :=
  ∃ t target c, s.threads t = .running (.ctorTest target) ∧ l = .act t (.next c)

section
variable {s s' : LoggerThreads} {t : Nat} {p q : Place} {a : Account}

/-! ### The test -/

/-- At the test, `singleton_` is expired exactly when there is no `impl`. -/
theorem Sound.impls_eq_nil_iff (hs : s.Sound) {target : Target}
    (hp : s.threads t = .running (.ctorTest target)) : s.impls = [] ↔ s.useCount = 0 := by
  obtain ⟨a, ha⟩ := hs.agrees
  constructor
  · intro himpls
    rw [ha.impls] at himpls
    rw [ha.useCount_eq_zero_iff]
    cases a <;> first | rfl | cases himpls
  · intro hcount
    rw [ha.impls, ha.idle_of_test hs.locked hp hcount]
    rfl

/-- A construction is rejected exactly when an `impl` is live while it holds the mutex. -/
theorem Sound.test_step (hs : s.Sound) {target : Target} (c : Choice)
    (hp : s.threads t = .running (.ctorTest target)) :
    s.step (.act t (.next c)) = some (s.enter t
      (if s.impls = [] then .implEnter target
       else .ctorUnlock target (.error onlySingleInstance))) := by
  simp only [step, hp, perform, advance]
  by_cases himpls : s.impls = []
  · simp [himpls, (hs.impls_eq_nil_iff hp).mp himpls]
  · simp [himpls, (hs.impls_eq_nil_iff hp).not.mp himpls]

/-! ### `start()` of a running manager -/

/-- A thread that stays where it is changes nothing. -/
theorem Locked.enter_self (hs : s.Locked) (hp : s.threads t = .running p) : s.enter t p = s := by
  have hgil : s.gil = some (.python t) ↔ p.gil = true := by
    rw [hs.gilPython t, hp]
    rfl
  have hmutex : s.singletonMutex_ = some t ↔ p.mutex = true := by
    rw [hs.mutex t, hp]
    rfl
  have hrelease : s.release t p = s := by
    simp [release, hgil, hmutex]
  simp [LoggerThreads.enter, hrelease, hgil, hmutex, setThread, ← hp]

/-- `start()` does nothing when the manager has a `Logger`. -/
theorem Sound.start_running (hs : s.Sound) {m : Nat} {i : ImplId}
    (hp : s.threads t = .running (.outside true)) (hm : s.loggerOf (.manager m) = some i) :
    s.step (.act t (.start m)) = some s := by
  simp only [step, hp, perform, hm, Option.isSome_some, if_true, Option.map_some]
  rw [hs.locked.enter_self hp]

/-! ### A construction that is rejected or fails -/

/-- A step that leaves the `Logger`s, the `impl`s and their readers. -/
theorem Untouched.of_eq (hs : s.Agrees a) (himpls : s'.impls = s.impls)
    (hloggers : s'.loggers = s.loggers) (hsingleton : s'.singleton_ = s.singleton_)
    (hreaders : s'.readers = s.readers) : s.Untouched s' where
  loggers := hloggers
  singleton := hsingleton
  live := by
    intro o i hmem
    rw [hreaders, himpls, hs.impls]
    rw [hs.loggers] at hmem
    cases a with
    | live o' i' =>
        simp only [Account.loggers, List.mem_singleton, Prod.mk.injEq] at hmem
        simp [Account.impls, hmem.2]
    | idle | building | ending => cases hmem

/-- A step at a time when no `Logger` has an `impl`. -/
theorem Untouched.of_no_logger (hnone : s.loggers = []) (hloggers : s'.loggers = s.loggers)
    (hsingleton : s'.singleton_ = s.singleton_) : s.Untouched s' where
  loggers := hloggers
  singleton := hsingleton
  live := by
    intro o i hmem
    rw [hnone] at hmem
    cases hmem

/-- A thread in a constructor call touches no live `impl` and no manager, until the call has
its own `impl` ready or ends. -/
theorem Sound.untouched (hs : s.Sound) (hp : s.threads t = .running p)
    (hcon : p.inConstructor = true) (h : Effect s t p s' q) (hreturns : q.returns = false)
    (hexit : ∀ target i, p ≠ .ctorExit target (.ok i)) : s.Untouched s' := by
  obtain ⟨a, ha⟩ := hs.agrees
  -- While an `impl` is made or ended, no `Logger` has one.
  have hnone : ∀ b, p.account t = some b → b.loggers = [] → s.loggers = [] := by
    intro b hb hloggers
    rw [ha.loggers, ha.account_eq hp hb, hloggers]
  cases h with
  | quiet himpls hloggers hsingleton _ hreaders =>
      cases hreaders with
      | inl hreaders => exact .of_eq ha himpls hloggers hsingleton hreaders
      | inr haccount =>
          obtain ⟨i, hi | hi⟩ := haccount
          · exact .of_no_logger (hnone _ hi rfl) hloggers hsingleton
          · exact .of_no_logger (hnone _ hi rfl) hloggers hsingleton
  | accept target _ _ hs' _ =>
      subst hs'
      exact .of_eq ha rfl rfl rfl rfl
  | build target hbuild _ hloggers hsingleton _ =>
      subst hbuild
      exact .of_no_logger (hnone _ rfl rfl) hloggers hsingleton
  | fail target i e hfail _ hloggers hsingleton _ =>
      exact .of_no_logger (hnone _ hfail rfl) hloggers hsingleton
  | publish target i _ _ _ _ hq =>
      subst hq
      cases hreturns
  | assign target i hassign _ => exact absurd hassign (hexit target i)
  | reset target i hout _ | drop i hout _ _ _ | finish i hout _ _ _ =>
      subst hout
      cases hcon

/-- The same for any step of that thread. -/
theorem Sound.step_untouched (hs : s.Sound) {l : Label} (h : s.step l = some s')
    (hl : l.thread = some t) (hcon : (s.threads t).place.inConstructor = true)
    (hreturns : (s'.threads t).place.returns = false)
    (hexit : ∀ target i, (s.threads t).place ≠ .ctorExit target (.ok i)) : s.Untouched s' := by
  obtain ⟨a, ha⟩ := hs.agrees
  cases steps_of_step h with
  | acquireGil | lockMutex | preempt => exact .of_eq ha rfl rfl rfl rfl
  | readerMessage | readerAcquires | readerPreempt | readerReturns | readerEnds => cases hl
  | act hp hcall =>
      cases hl
      rw [hp] at hcon hexit
      rw [enter_place] at hreturns
      have huntouched := hs.untouched hp hcon (perform_effect hcall) hreturns hexit
      exact ⟨huntouched.loggers, huntouched.singleton, huntouched.live⟩

/-- A constructor call with its `impl` ready returns it. -/
theorem perform_returns {call : Call} (h : s.perform t p call = some (s', q))
    (hp : p.returns = true) (hq : q.inConstructor = true) : q.returns = true := by
  cases p
  case ctorUnlock target result | ctorUnlocked target result =>
    cases result with
    | error e => cases hp
    | ok i =>
        cases call with
        | next c =>
            cases h
            rfl
        | _ => cases h
  case ctorExit target result =>
    cases result with
    | error e => cases hp
    | ok i =>
        cases call with
        | next c =>
            simp only [perform, advance, assign, Option.some.injEq] at h
            split at h
            all_goals
              cases h
              cases hq
        | _ => cases h
  all_goals cases hp

/-- A constructor call that is about to return its `Logger` stays so while it is in the
constructor. -/
theorem step_returns {l : Label} (h : s.step l = some s')
    (hreturns : (s.threads t).place.returns = true)
    (hcon : (s'.threads t).place.inConstructor = true) : (s'.threads t).place.returns = true := by
  cases steps_of_step h with
  | acquireGil hp _ | lockMutex hp _ | preempt hp _ =>
      rw [setThread_place (by rw [hp]; rfl)]
      exact hreturns
  | readerMessage | readerAcquires | readerPreempt | readerReturns | readerEnds => exact hreturns
  | @act u p call next hp hcall =>
      by_cases hu : t = u
      · subst hu
        rw [hp] at hreturns
        rw [enter_place] at hcon ⊢
        exact perform_returns hcall hreturns hcon
      · rw [enter_ne hu, (perform_moved hcall).threads]
        exact hreturns

/-- The thread is in a constructor call before every step. -/
def Constructing (t : Nat) (s : LoggerThreads) (_ : Label) : Prop :=
  (s.threads t).place.inConstructor = true

instance (t : Nat) (s : LoggerThreads) (l : Label) : Decidable (Constructing t s l) :=
  inferInstanceAs (Decidable (_ = true))

/-- No step of the thread touches a `Logger`. -/
def LeavesLoggers (t : Nat) (s : LoggerThreads) (l : Label) : Prop :=
  l.thread = some t → ∀ s', s.step l = some s' → s.Untouched s'

/-- An exit with an exception is not reached with the `impl` ready. -/
theorem run_returns {ls : List Label} (hrun : run step s ls = some s')
    (halong : Along step (Constructing t) s ls)
    (hcon : (s'.threads t).place.inConstructor = true)
    (hreturns : (s.threads t).place.returns = true) : (s'.threads t).place.returns = true := by
  induction ls generalizing s with
  | nil =>
      cases hrun
      exact hreturns
  | cons l ls ih =>
      obtain ⟨s₁, hstep, hrest⟩ := run_cons_eq_some.mp hrun
      rw [along_cons] at halong
      have halong₁ := halong.2 s₁ hstep
      refine ih hrest halong₁ (step_returns hstep hreturns ?_)
      cases ls with
      | nil =>
          cases hrest
          exact hcon
      | cons l' ls => exact (along_cons.mp halong₁).1

/-- The exit of a construction with an exception. -/
theorem step_exit {target : Target} {e : Exception} {c : Choice}
    (hplace : (s.threads t).place = .ctorExit target (.error e))
    (h : s.step (.act t (.next c)) = some s') : (s'.threads t).place = .outside true := by
  cases steps_of_step h with
  | act hp hcall =>
      rw [hp] at hplace
      subst hplace
      cases hcall
      exact enter_place

/-- A construction that ends with an exception has not touched a `Logger`. -/
theorem Sound.failed_untouched (hs : s.Sound) {ls : List Label} {target : Target} {e : Exception}
    (c : Choice) (hrun : run step s ls = some s') (halong : Along step (Constructing t) s ls)
    (hend : (s'.threads t).place = .ctorExit target (.error e)) :
    Along step (LeavesLoggers t) s (ls ++ [.act t (.next c)]) := by
  have hcon' : (s'.threads t).place.inConstructor = true := by
    rw [hend]
    rfl
  -- The `impl` was never ready, or the call would not end with an exception.
  have hnot : ∀ s₁ ls₁, run step s₁ ls₁ = some s' → Along step (Constructing t) s₁ ls₁ →
      (s₁.threads t).place.returns = false := by
    intro s₁ ls₁ hrun₁ halong₁
    by_contra hreturns
    have hreturns' := run_returns hrun₁ halong₁ hcon' (by simpa using hreturns)
    rw [hend] at hreturns'
    cases hreturns'
  induction ls generalizing s with
  | nil =>
      cases hrun
      rw [List.nil_append, along_cons]
      refine ⟨?_, fun _ _ => trivial⟩
      intro hl s₁ hstep
      apply hs.step_untouched hstep hl hcon'
      · rw [step_exit hend hstep]
        rfl
      · intro target' i hplace
        rw [hend] at hplace
        cases hplace
  | cons l ls ih =>
      obtain ⟨s₁, hstep, hrest⟩ := run_cons_eq_some.mp hrun
      have halong₁ := (along_cons.mp halong).2 s₁ hstep
      rw [List.cons_append, along_cons]
      constructor
      · intro hl s₂ hstep₂
        have heq : s₁ = s₂ := Option.some.inj (hstep.symm.trans hstep₂)
        subst heq
        apply hs.step_untouched hstep hl (along_cons.mp halong).1 (hnot s₁ ls hrest halong₁)
        intro target' i hplace
        have := hnot s (l :: ls) hrun halong
        rw [hplace] at this
        cases this
      · intro s₂ hstep₂
        have heq : s₁ = s₂ := Option.some.inj (hstep.symm.trans hstep₂)
        subst heq
        exact ih (step_sound l s₁ hs hstep) hrest halong₁

/-! ### After a destructor -/

/-- No `impl` is live and no thread is about to make one. -/
structure Vacant (s : LoggerThreads) : Prop where
  impls : s.impls = []
  loggers : s.loggers = []
  places : ∀ t target, (s.threads t).place ≠ .implEnter target

/-- Where no `impl` is live a thread makes none, unless it makes its test. -/
theorem Vacant.effect (hs : s.Vacant) (hsound : s.Sound) (hp : s.threads t = .running p)
    (h : Effect s t p s' q) (htest : ∀ target, p ≠ .ctorTest target) :
    s'.impls = [] ∧ s'.loggers = [] ∧ ∀ target, q ≠ .implEnter target := by
  obtain ⟨a, ha⟩ := hsound.agrees
  have hnoEnter : ∀ target, p ≠ .implEnter target := by
    intro target heq
    apply hs.places t target
    rw [hp]
    exact heq
  have haccount : ∀ b, p.account t = some b → b = .idle := by
    intro b hb
    have himpls := ha.impls
    rw [hs.impls, ha.account_eq hp hb] at himpls
    cases b <;> first | rfl | cases himpls
  cases h with
  | quiet himpls hloggers _ hsame _ =>
      refine ⟨himpls.trans hs.impls, hloggers.trans hs.loggers, ?_⟩
      intro target hq
      rw [hq] at hsame
      cases account_thread hsame.symm with
      | inl hthread => cases hthread
      | inr hidle =>
          obtain ⟨_, target', heq⟩ := hidle
          exact hnoEnter target' heq
  | accept target heq _ _ _ => exact absurd heq (htest target)
  | build target heq _ _ _ _ => exact absurd heq (hnoEnter target)
  | fail target i e _ himpls hloggers _ hq =>
      rw [himpls, hs.impls, hloggers, hq]
      exact ⟨rfl, hs.loggers, fun _ h => by cases h⟩
  | publish target i heq _ _ _ _ | assign target i heq _ =>
      cases haccount _ (by rw [heq]; rfl)
  | reset target i heq h =>
      have hnone : s.loggerOf (target.owner i) = none := by
        rw [loggerOf, hs.loggers]
        rfl
      rw [LoggerThreads.reset, hnone] at h
      obtain ⟨rfl, rfl⟩ := Prod.mk.inj h
      exact ⟨hs.impls, hs.loggers, fun _ h => by cases h⟩
  | drop i heq himpls hloggers hq =>
      rw [himpls, hloggers, hs.loggers, hq]
      refine ⟨hs.impls, rfl, ?_⟩
      intro target
      split <;> simp
  | finish i heq himpls hloggers hq =>
      rw [himpls, hs.impls, hloggers, hq]
      exact ⟨rfl, hs.loggers, fun _ h => by cases h⟩

/-- No step but a test leads out of `Vacant`. -/
theorem step_vacant {l : Label} (hs : s.Vacant) (hsound : s.Sound) (h : s.step l = some s')
    (hl : ¬ s.Tests l) : s'.Vacant := by
  cases steps_of_step h with
  | acquireGil hp _ | lockMutex hp _ | preempt hp _ =>
      exact ⟨hs.impls, hs.loggers, fun u target => by
        rw [setThread_place (by rw [hp]; rfl)]
        exact hs.places u target⟩
  | readerMessage | readerAcquires | readerPreempt | readerReturns | readerEnds =>
      exact ⟨hs.impls, hs.loggers, hs.places⟩
  | @act u p call next hp hcall =>
      have htest : ∀ target, p ≠ .ctorTest target := by
        intro target heq
        subst heq
        cases call with
        | next c => exact hl ⟨u, target, c, hp, rfl⟩
        | _ => cases hcall
      obtain ⟨himpls, hloggers, hplaces⟩ := hs.effect hsound hp (perform_effect hcall) htest
      refine ⟨himpls, hloggers, ?_⟩
      intro v target
      by_cases hv : v = u
      · subst hv
        rw [enter_place]
        exact hplaces target
      · rw [enter_ne hv, (perform_moved hcall).threads]
        exact hs.places v target

/-- The end of `~impl` leaves no `impl`. -/
theorem Sound.vacant_of_end (hs : s.Sound) {i : ImplId} {c : Choice}
    (hp : s.threads t = .running (.dtorReset i)) (h : s.step (.act t (.next c)) = some s') :
    s'.Vacant := by
  obtain ⟨a, ha⟩ := hs.agrees
  have haccount : a = .ending t i := ha.account_eq hp rfl
  subst haccount
  cases steps_of_step h with
  | @act _ p _ next hp' hcall =>
      rw [hp] at hp'
      cases hp'
      cases hcall
      constructor
      · rw [enter_impls, ha.impls]
        simp [Account.impls]
      · exact ha.loggers
      · intro u target hplace
        by_cases hu : u = t
        · subst hu
          rw [enter_place] at hplace
          cases hplace
        · -- Another thread at the start of a construction would have the mutex too.
          rw [enter_ne hu] at hplace
          exact hu (hs.locked.mutex_unique hp rfl (by rw [hplace]; rfl) (by rw [hplace]; rfl))

/-- After a destructor has ended the `impl`, the next construction passes its test. -/
theorem Sound.accepted_after_end (hs : s.Sound) {i : ImplId} {c : Choice} {s₁ s₂ : LoggerThreads}
    {ls : List Label} {u : Nat} {target : Target} (c' : Choice)
    (hp : s.threads t = .running (.dtorReset i)) (h : s.step (.act t (.next c)) = some s₁)
    (hrun : run step s₁ ls = some s₂) (hnext : Along step (fun s l => ¬ s.Tests l) s₁ ls)
    (hu : s₂.threads u = .running (.ctorTest target)) :
    s₂.step (.act u (.next c')) = some (s₂.enter u (.implEnter target)) := by
  have hstep : ∀ (s : LoggerThreads) (l : Label) (s' : LoggerThreads), (s.Vacant ∧ s.Sound) →
      ¬ s.Tests l → s.step l = some s' → s'.Vacant ∧ s'.Sound := by
    intro s l s' hinv hl hstep
    exact ⟨step_vacant hinv.1 hinv.2 hstep hl, step_sound l s' hinv.2 hstep⟩
  have h₁ : s₁.Vacant ∧ s₁.Sound := ⟨hs.vacant_of_end hp h, step_sound _ _ hs h⟩
  have h₂ := run_invariant_along hstep h₁ hnext hrun
  rw [h₂.2.test_step c' hu, if_pos h₂.1.impls]

end

/-- In every interleaving at most one `impl` is live, and a construction is rejected exactly
when one is live at its test. A construction that is rejected or fails touches neither the
live `impl` nor any manager, `start()` of a running manager does nothing, and after a
destructor the next construction is not rejected. -/
theorem one_impl {s : LoggerThreads} (h : Reachable step initial s) :
    s.impls.length ≤ 1 ∧
    (∀ t target c, s.threads t = .running (.ctorTest target) →
      s.step (.act t (.next c)) = some (s.enter t
        (if s.impls = [] then .implEnter target
         else .ctorUnlock target (.error onlySingleInstance)))) ∧
    (∀ t target target' e c ls s', (s.threads t).place = .ctorEnter target →
      run step s ls = some s' → Along step (Constructing t) s ls →
      (s'.threads t).place = .ctorExit target' (.error e) →
      Along step (LeavesLoggers t) s (ls ++ [.act t (.next c)])) ∧
    (∀ t m i, s.threads t = .running (.outside true) → s.loggerOf (.manager m) = some i →
      s.step (.act t (.start m)) = some s) ∧
    (∀ t i c s₁ ls s₂ u target c', s.threads t = .running (.dtorReset i) →
      s.step (.act t (.next c)) = some s₁ → run step s₁ ls = some s₂ →
      Along step (fun s l => ¬ s.Tests l) s₁ ls → s₂.threads u = .running (.ctorTest target) →
      s₂.step (.act u (.next c')) = some (s₂.enter u (.implEnter target))) := by
  have hs := reachable_sound h
  refine ⟨?_, ?_, ?_, ?_, ?_⟩
  · obtain ⟨a, ha⟩ := hs.agrees
    rw [ha.impls]
    exact a.length_impls_le
  · intro t target c hp
    exact hs.test_step c hp
  · intro t target target' e c ls s' _ hrun halong hend
    exact hs.failed_untouched c hrun halong hend
  · intro t m i hp hm
    exact hs.start_running hp hm
  · intro t i c s₁ ls s₂ u target c' hp hstep hrun hnext hu
    exact hs.accepted_after_end c' hp hstep hrun hnext hu

/-- Threads 0 and 1 both find that manager 0 has no `Logger`. -/
def bothStart : List Label :=
  [.act 0 .reacquire, .acquireGil 0, .act 0 (.start 0)] ++ goOn 0 1 ++
  [.act 1 .reacquire, .acquireGil 1, .act 1 (.start 0)]

/-- Thread 0 makes one for it, and thread 1 is rejected. -/
def firstWins : List Label :=
  goOn 1 1 ++ goOn 0 1 ++ [.lockMutex 0] ++ goOn 0 1 ++ [.acquireGil 0] ++ goOn 0 6 ++
  [.acquireGil 0] ++ goOn 0 1 ++ [.act 0 .allowThreads] ++ goOn 1 1 ++ [.lockMutex 1] ++
  goOn 1 3 ++ [.acquireGil 1]

/-- The rejected call of thread 1 touches no `Logger` on its way out. -/
theorem one_impl_both_start :
    Along step (LeavesLoggers 1) (after bothStart) (firstWins ++ [.act 1 (.next .done)]) :=
  (one_impl ⟨bothStart, rfl⟩).2.2.1 1 (.manager 0) (.manager 0) onlySingleInstance .done firstWins
    (after (bothStart ++ firstWins)) rfl rfl (by decide +kernel) rfl

/-- When `start()` throws, its manager can have a `Logger`: that of another thread. -/
theorem rejected_start_running :
    ¬ ∀ s s' t m e, Reachable step initial s →
      s.threads t = .running (.ctorExit (.manager m) (.error e)) →
      s.step (.act t (.next .done)) = some s' → s'.loggerOf (.manager m) = none := by
  intro h
  have hnone := h (after (bothStart ++ firstWins)) (after (bothStart ++ firstWins ++ goOn 1 1)) 1 0
    onlySingleInstance ⟨bothStart ++ firstWins, rfl⟩ rfl rfl
  revert hnone
  decide +kernel

end LoggerThreads
end NqmIrimager
