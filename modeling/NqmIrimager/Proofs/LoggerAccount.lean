import NqmIrimager.Proofs.LoggerLocks

/-!
# `NqmIrimager.Proofs.LoggerAccount`: who has the `Logger::impl`

`Account` is what the singleton is for, without threads and locks: there is no `impl`, or
there is one, and one party has it. A constructor call makes it, a `Logger` has it, a
destructor call ends it. `Agrees s a` says that the state `s` shows the account `a`: the
`impl` and the `Logger` that exist are those of `a`, and a thread is inside the
construction or the destruction of an `impl` exactly when `a` says so.

Every step of every thread keeps this up with some next account (`step_agrees`), so a run
of the code is a run of the account (`run_account`). The account changes while the thread holds `singleton_mutex_`, or when the `Logger` goes from
one owner to another, which no other thread has a part in.
-/

set_option autoImplicit false

namespace NqmIrimager

open StepRun

/-- The thread in whose constructor or destructor call a `Logger` is. -/
def Owner.thread : Owner → Option Nat
  | constructor t | destructor t => some t
  | manager _ | object _ => none

/-- A manager or an object is in no call. -/
@[simp] theorem Target.thread_owner (target : Target) (i : ImplId) :
    (target.owner i).thread = none := by
  cases target <;> rfl

/-- Who has the one `Logger::impl`. -/
inductive Account where
  | idle
  | building (t : Nat) (i : ImplId)
  | live (o : Owner) (i : ImplId)
  | ending (t : Nat) (i : ImplId)
deriving DecidableEq, Repr

namespace Account

/-- The `impl` that exists. -/
def impls : Account → List ImplId
  | idle => []
  | building _ i | live _ i | ending _ i => [i]

/-- The `Logger` that has it. -/
def loggers : Account → List (Owner × ImplId)
  | live o i => [(o, i)]
  | idle | building _ _ | ending _ _ => []

/-- The thread that is inside a constructor or a destructor with the `impl`. -/
def thread : Account → Option Nat
  | idle => none
  | building t _ | ending t _ => some t
  | live o _ => o.thread

/-- What can happen to the `impl`. -/
inductive Next : Account → Account → Prop where
  | build (t : Nat) (i : ImplId) : Next idle (building t i)
  | fail (t : Nat) (i : ImplId) : Next (building t i) idle
  | publish (t : Nat) (i : ImplId) : Next (building t i) (live (.constructor t) i)
  | assign (t : Nat) {o : Owner} (i : ImplId) (ho : o.thread = none) :
      Next (live (.constructor t) i) (live o i)
  | reset (t : Nat) {o : Owner} (i : ImplId) (ho : o.thread = none) :
      Next (live o i) (live (.destructor t) i)
  | drop (t : Nat) (i : ImplId) : Next (live (.destructor t) i) (ending t i)
  | finish (t : Nat) (i : ImplId) : Next (ending t i) idle

/-- There is at most one `impl`. -/
theorem length_impls_le (a : Account) : a.impls.length ≤ 1 := by
  cases a <;> simp [impls]

end Account

/-- The account a thread at the place can count on. -/
def Place.account (t : Nat) : Place → Option Account
  | implEnter _ => some .idle
  | implCtor _ i | writerCtor _ i | writerNoGil _ i | writerMessage _ i | unwind _ i _
  | unwindStop _ i _ | unwindJoin _ i _ | unwound _ i _ | constructed _ i => some (.building t i)
  | ctorUnlock _ (.ok i) | ctorUnlocked _ (.ok i) | ctorExit _ (.ok i) =>
      some (.live (.constructor t) i)
  | dtorEnter i | dtorNoGil i | dtorLocked i | implDrop i => some (.live (.destructor t) i)
  | dtorWriter i | writerJoin i | dtorReader i | dtorStop i | dtorJoin i | dtorReset i =>
      some (.ending t i)
  | outside _ | ctorEnter _ | ctorNoGil _ | ctorTest _ | ctorUnlock _ (.error _)
  | ctorUnlocked _ (.error _) | ctorExit _ (.error _) | dtorUnlock | dtorUnlocked => none

namespace LoggerThreads

/-- The state shows the account. -/
structure Agrees (s : LoggerThreads) (a : Account) : Prop where
  impls : s.impls = a.impls
  loggers : s.loggers = a.loggers
  singleton : ∀ o i, a = .live o i → s.singleton_ = some i
  places : ∀ t b, (s.threads t).place.account t = some b → b = a
  thread : ∀ t, a.thread = some t → (s.threads t).place.account t = some a

/-- At the start there is none. -/
theorem agrees_initial : Agrees initial .idle where
  impls := rfl
  loggers := rfl
  singleton := fun _ _ h => by cases h
  places := fun _ _ h => by cases h
  thread := fun _ h => by cases h

/-- A place counts on an account of its own thread, or on there being no `impl`. -/
theorem account_thread {p : Place} {t : Nat} {b : Account} (h : p.account t = some b) :
    b.thread = some t ∨ b = .idle ∧ ∃ target, p = .implEnter target := by
  cases p
  case implEnter target =>
    cases h
    exact .inr ⟨rfl, target, rfl⟩
  case ctorUnlock target result | ctorUnlocked target result | ctorExit target result =>
    cases result with
    | error e => cases h
    | ok i =>
        cases h
        exact .inl rfl
  all_goals
    cases h
    try exact .inl rfl

/-- What thread `t` does at the place `p` to the objects, and the place `q` it goes on to. -/
inductive Effect (s : LoggerThreads) (t : Nat) (p : Place) (s' : LoggerThreads) (q : Place) :
    Prop where
  | quiet (himpls : s'.impls = s.impls) (hloggers : s'.loggers = s.loggers)
      (hsingleton : s'.singleton_ = s.singleton_) (haccount : q.account t = p.account t)
      (hreaders : s'.readers = s.readers ∨
        ∃ i, p.account t = some (.building t i) ∨ p.account t = some (.ending t i))
  | accept (target : Target) (hp : p = .ctorTest target) (hcount : s.useCount = 0) (hs' : s' = s)
      (hq : q = .implEnter target)
  | build (target : Target) (hp : p = .implEnter target)
      (himpls : s'.impls = s.impls ++ [s.nextImpl]) (hloggers : s'.loggers = s.loggers)
      (hsingleton : s'.singleton_ = s.singleton_) (hq : q = .implCtor target s.nextImpl)
  | fail (target : Target) (i : ImplId) (e : Exception)
      (hp : p.account t = some (.building t i)) (himpls : s'.impls = s.impls.erase i)
      (hloggers : s'.loggers = s.loggers) (hsingleton : s'.singleton_ = s.singleton_)
      (hq : q = .ctorUnlock target (.error e))
  | publish (target : Target) (i : ImplId) (hp : p = .constructed target i)
      (himpls : s'.impls = s.impls) (hloggers : s'.loggers = s.loggers ++ [(.constructor t, i)])
      (hsingleton : s'.singleton_ = some i) (hq : q = .ctorUnlock target (.ok i))
  | assign (target : Target) (i : ImplId) (hp : p = .ctorExit target (.ok i))
      (h : (s', q) = s.assign t target i)
  | reset (target : Target) (i : ImplId) (hp : p = .outside true)
      (h : (s', q) = s.reset t (target.owner i))
  | drop (i : ImplId) (hp : p = .implDrop i) (himpls : s'.impls = s.impls)
      (hloggers : s'.loggers = s.loggers.erase (.destructor t, i))
      (hq : q = if s'.loggers.any fun l => l.2 = i then .dtorUnlock else .dtorWriter i)
  | finish (i : ImplId) (hp : p = .dtorReset i) (himpls : s'.impls = s.impls.erase i)
      (hloggers : s'.loggers = s.loggers) (hq : q = .dtorUnlock)

section
variable {s s' : LoggerThreads} {t : Nat} {p q : Place}

/-- Inside the constructors and destructors a thread has one of these effects. -/
theorem advance_effect {c : Choice} (h : s.advance t c p = some (s', q)) :
    Effect s t p s' q := by
  cases p
  case outside => cases h
  case ctorTest target =>
    simp only [advance] at h
    split at h
    case isTrue =>
      cases h
      exact .quiet rfl rfl rfl rfl (.inl rfl)
    case isFalse hcount =>
      cases h
      exact .accept target rfl (by simpa using hcount) rfl rfl
  case implEnter target =>
    cases h
    exact .build target rfl rfl rfl rfl rfl
  case implCtor target i =>
    cases c with
    | fails e =>
        cases h
        exact .fail target i e rfl rfl rfl rfl rfl
    | done | releases | message =>
        cases h
        exact .quiet rfl rfl rfl rfl (.inr ⟨i, .inl rfl⟩)
  case unwindStop target i e =>
    cases h
    exact .quiet rfl rfl rfl rfl (.inr ⟨i, .inl rfl⟩)
  case dtorStop i =>
    cases h
    exact .quiet rfl rfl rfl rfl (.inr ⟨i, .inr rfl⟩)
  case unwound target i e =>
    cases h
    exact .fail target i e rfl rfl rfl rfl rfl
  case constructed target i =>
    cases h
    exact .publish target i rfl rfl rfl rfl rfl
  case ctorUnlock target result | ctorUnlocked target result =>
    cases h
    cases result <;> exact .quiet rfl rfl rfl rfl (.inl rfl)
  case ctorExit target result =>
    cases result with
    | error e =>
        cases h
        exact .quiet rfl rfl rfl rfl (.inl rfl)
    | ok i => exact .assign target i rfl (Option.some.inj h).symm
  case implDrop i =>
    simp only [advance] at h
    split at h
    case isTrue hany =>
      cases h
      exact .drop i rfl rfl rfl (if_pos hany).symm
    case isFalse hany =>
      cases h
      exact .drop i rfl rfl rfl (if_neg hany).symm
  case dtorReset i =>
    cases h
    exact .finish i rfl rfl rfl rfl
  case writerCtor | writerNoGil | dtorWriter | unwindJoin | dtorJoin =>
    simp only [advance] at h
    split at h
    all_goals
      cases h
      try exact .quiet rfl rfl rfl rfl (.inl rfl)
  all_goals
    cases h
    exact .quiet rfl rfl rfl rfl (.inl rfl)

/-- A call from Python has one of these effects, too. -/
theorem perform_effect {call : Call} (h : s.perform t p call = some (s', q)) :
    Effect s t p s' q := by
  cases call with
  | next c => exact advance_effect h
  | stop m =>
      simp only [perform] at h
      split at h
      · exact .reset (.manager m) 0 rfl (Option.some.inj h).symm
      · cases h
  | delete i =>
      simp only [perform] at h
      split at h
      · exact .reset .object i rfl (Option.some.inj h).symm
      · cases h
  | start m =>
      simp only [perform] at h
      split at h
      · split at h
        all_goals
          cases h
          exact .quiet rfl rfl rfl rfl (.inl rfl)
      · cases h
  | allowThreads | reacquire | newLogger =>
      simp only [perform] at h
      split at h
      · cases h
        exact .quiet rfl rfl rfl rfl (.inl rfl)
      · cases h

end

/-! ### Every step moves the account -/

section
variable {s s' : LoggerThreads} {t : Nat} {p q : Place} {a a' : Account}

/-- The thread that moves the account is the only one with a part in it. -/
theorem Agrees.alone (hs : s.Agrees a) (hlocked : s.Locked)
    (ht : a.thread = some t ∨
      a.thread = none ∧ (a = .idle → ∃ target, s.threads t = .running (.implEnter target)))
    (u : Nat) (hu : u ≠ t) : (s.threads u).place.account u = none := by
  rw [Option.eq_none_iff_forall_ne_some]
  intro b hb
  have hba : b = a := hs.places u b hb
  subst hba
  cases account_thread hb with
  | inl hthread =>
      cases ht with
      | inl ht => exact hu (Option.some.inj (hthread.symm.trans ht))
      | inr ht => simp [hthread] at ht
  | inr hidle =>
      obtain ⟨rfl, target, hplace⟩ := hidle
      cases ht with
      | inl ht => cases ht
      | inr ht =>
          -- Both threads would be at the start of a construction, with the mutex.
          obtain ⟨target', hrun⟩ := ht.2 rfl
          exact hu (hlocked.mutex_unique hrun rfl (by rw [hplace]; rfl) (by rw [hplace]; rfl))

/-- A thread moves on and the account stays. -/
theorem Agrees.stay (hs : s.Agrees a) (hthreads : s'.threads = s.threads)
    (himpls : s'.impls = s.impls)
    (hloggers : s'.loggers = s.loggers) (hsingleton : s'.singleton_ = s.singleton_)
    (hq : ∀ b, q.account t = some b → b = a)
    (hthread : a.thread = some t → q.account t = some a) : (s'.enter t q).Agrees a where
  impls := himpls.trans hs.impls
  loggers := hloggers.trans hs.loggers
  singleton := by
    intro o i ha
    rw [enter_singleton, hsingleton]
    exact hs.singleton o i ha
  places := by
    intro u b hb
    by_cases hu : u = t
    · subst hu
      rw [enter_place] at hb
      exact hq b hb
    · rw [enter_ne hu, hthreads] at hb
      exact hs.places u b hb
  thread := by
    intro u ha
    by_cases hu : u = t
    · subst hu
      rw [enter_place]
      exact hthread ha
    · rw [enter_ne hu, hthreads]
      exact hs.thread u ha

/-- A thread moves on and the account moves with it. -/
theorem Agrees.change (halone : ∀ u, u ≠ t → (s.threads u).place.account u = none)
    (hthreads : s'.threads = s.threads) (himpls : s'.impls = a'.impls)
    (hloggers : s'.loggers = a'.loggers)
    (hsingleton : ∀ o i, a' = .live o i → s'.singleton_ = some i)
    (ha' : a'.thread = none ∨ a'.thread = some t)
    (hq : q.account t = a'.thread.map fun _ => a') : (s'.enter t q).Agrees a' where
  impls := himpls
  loggers := hloggers
  singleton := hsingleton
  places := by
    intro u b hb
    by_cases hu : u = t
    · subst hu
      rw [enter_place, hq, Option.map_eq_some_iff] at hb
      obtain ⟨_, _, rfl⟩ := hb
      rfl
    · rw [enter_ne hu, hthreads, halone u hu] at hb
      cases hb
  thread := by
    intro u hu
    cases ha' with
    | inl hnone =>
        rw [hnone] at hu
        cases hu
    | inr hsome =>
        have hut : t = u := Option.some.inj (hsome.symm.trans hu)
        subst hut
        rw [enter_place, hq, hsome]
        rfl

/-- `use_count()` counts the `Logger` of the account. -/
theorem Agrees.useCount_eq_zero_iff (hs : s.Agrees a) :
    s.useCount = 0 ↔ a.loggers = [] := by
  cases a with
  | live o i =>
      have hi := hs.singleton o i rfl
      simp [useCount, hi, hs.loggers, Account.loggers]
  | idle | building | ending =>
      simp only [useCount, hs.loggers, Account.loggers]
      cases s.singleton_ <;> simp

/-- A thread at its place inside a constructor or a destructor says what the account is. -/
theorem Agrees.account_eq (hs : s.Agrees a) (hp : s.threads t = .running p) {b : Account}
    (hb : p.account t = some b) : a = b := by
  refine (hs.places t b ?_).symm
  rw [hp]
  exact hb

/-- An owner has a `Logger` when the account says so. -/
theorem Agrees.loggerOf_eq_some_iff (hs : s.Agrees a) {o : Owner} {i : ImplId} :
    s.loggerOf o = some i ↔ a = .live o i := by
  cases a with
  | live o' i' =>
      simp only [loggerOf, hs.loggers, Account.loggers, List.lookup_cons, List.lookup_nil]
      by_cases h : o = o'
      · simp [h, eq_comm]
      · have hbeq : (o == o') = false := beq_false_of_ne h
        simp [hbeq, Ne.symm h]
  | idle | building | ending => simp [loggerOf, hs.loggers, Account.loggers]

/-- A new owner takes the `Logger` with its `impl`. -/
@[simp] theorem reown_loggers (o o' : Owner) :
    (s.reown o o').loggers = s.loggers.map fun l => if l.1 = o then (o', l.2) else l := rfl

/-- The owner a `Logger` is made for has no other one. -/
theorem Agrees.assign_eq {i : ImplId} (hs : s.Agrees (.live (.constructor t) i))
    {target : Target} :
    s.assign t target i = (s.reown (.constructor t) (target.owner i), .outside true) := by
  have hnone : s.loggerOf (target.owner i) = none := by
    rw [Option.eq_none_iff_forall_ne_some]
    intro j hj
    have hthread := congrArg Account.thread (hs.loggerOf_eq_some_iff.mp hj)
    simp only [Account.thread, Target.thread_owner] at hthread
    cases hthread
  rw [assign, hnone]

/-- The constructor call hands its `Logger` over. -/
theorem Agrees.assigned {i : ImplId} {target : Target} (hs : s.Agrees (.live (.constructor t) i))
    (hlocked : s.Locked) :
    ((s.reown (.constructor t) (target.owner i)).enter t (.outside true)).Agrees
      (.live (target.owner i) i) := by
  have howner := target.thread_owner i
  refine Agrees.change (hs.alone hlocked (.inl rfl)) rfl hs.impls ?_ ?_ ?_ ?_
  · rw [reown_loggers, hs.loggers]
    simp [Account.loggers]
  · intro o j h
    cases h
    exact hs.singleton _ i rfl
  · exact .inl howner
  · simp [Account.thread, Place.account]

/-- A destructor call takes the `Logger` of a manager or of a Python object. -/
theorem Agrees.taken {o : Owner} {i : ImplId} (hs : s.Agrees (.live o i)) (hlocked : s.Locked)
    (ho : o.thread = none) :
    ((s.reown o (.destructor t)).enter t (.dtorEnter i)).Agrees (.live (.destructor t) i) := by
  refine Agrees.change (hs.alone hlocked (.inr ⟨ho, fun h => by cases h⟩)) rfl hs.impls ?_ ?_ ?_ ?_
  · rw [reown_loggers, hs.loggers]
    simp [Account.loggers]
  · intro o' j h
    cases h
    exact hs.singleton _ i rfl
  · exact .inr rfl
  · rfl

/-- An `impl` is made and ended under the mutex. -/
theorem mutex_of_account {i : ImplId}
    (h : p.account t = some (.building t i) ∨ p.account t = some (.ending t i)) :
    p.mutex = true ∧ p.locks = false := by
  cases p
  case ctorUnlock target result | ctorUnlocked target result | ctorExit target result =>
    cases result <;> simp [Place.account] at h
  all_goals simp_all [Place.account, Place.mutex, Place.locks]

/-- While a thread tests `use_count()` no other one makes or ends an `impl`, so there is none
exactly when no `Logger` has one. -/
theorem Agrees.idle_of_test (hs : s.Agrees a) (hlocked : s.Locked) {target : Target}
    (hp : s.threads t = .running (.ctorTest target)) (hcount : s.useCount = 0) : a = .idle := by
  have hloggers := hs.useCount_eq_zero_iff.mp hcount
  -- A thread inside the construction or the destruction would have the mutex too.
  have hnot : ∀ u i, a.thread = some u → a = .building u i ∨ a = .ending u i → False := by
    intro u i hu ha
    have haccount := hs.thread u hu
    have hmutex := mutex_of_account (t := u) (i := i) (p := (s.threads u).place) (by
      cases ha with
      | inl ha => exact .inl (ha ▸ haccount)
      | inr ha => exact .inr (ha ▸ haccount))
    have hut := hlocked.mutex_unique hp rfl hmutex.1 hmutex.2
    subst hut
    rw [hp] at haccount
    cases haccount
  cases a with
  | idle => rfl
  | live o i => cases hloggers
  | building u i => exact (hnot u i rfl (.inl rfl)).elim
  | ending u i => exact (hnot u i rfl (.inr rfl)).elim

/-- What a thread does to the objects moves the account, or leaves it. -/
theorem Agrees.effect (hs : s.Agrees a) (hlocked : s.Locked) (hp : s.threads t = .running p)
    (hthreads : s'.threads = s.threads) (h : Effect s t p s' q) :
    ∃ a', (s'.enter t q).Agrees a' ∧ (a' = a ∨ a.Next a') := by
  have hplaces : ∀ b, p.account t = some b → b = a := fun b hb => (hs.account_eq hp hb).symm
  have hthread : a.thread = some t → p.account t = some a := fun ha => by
    simpa [hp, Thread.place] using hs.thread t ha
  cases h with
  | quiet himpls hloggers hsingleton haccount _ =>
      rw [← haccount] at hplaces hthread
      exact ⟨a, hs.stay hthreads himpls hloggers hsingleton hplaces hthread, .inl rfl⟩
  | accept target htest hcount hs' hq =>
      subst hs' htest hq
      have ha : a = .idle := hs.idle_of_test hlocked hp hcount
      subst ha
      refine ⟨.idle, hs.stay rfl rfl rfl rfl ?_ ?_, .inl rfl⟩
      · intro b hb
        exact (Option.some.inj hb).symm
      · intro h
        cases h
  | build target hbuild himpls hloggers _ hq =>
      subst hbuild hq
      have ha : a = .idle := hs.account_eq hp rfl
      subst ha
      refine ⟨.building t s.nextImpl, ?_, .inr (.build ..)⟩
      exact Agrees.change (hs.alone hlocked (.inr ⟨rfl, fun _ => ⟨target, hp⟩⟩)) hthreads
        (by rw [himpls, hs.impls]; rfl) (by rw [hloggers, hs.loggers]; rfl)
        (fun _ _ h => by cases h) (.inr rfl) rfl
  | fail target i e hfail himpls hloggers _ hq =>
      subst hq
      have ha : a = .building t i := hs.account_eq hp hfail
      subst ha
      refine ⟨.idle, ?_, .inr (.fail ..)⟩
      exact Agrees.change (hs.alone hlocked (.inl rfl)) hthreads
        (by rw [himpls, hs.impls]; simp [Account.impls]) (by rw [hloggers, hs.loggers]; rfl)
        (fun _ _ h => by cases h) (.inl rfl) rfl
  | publish target i hpublish himpls hloggers hsingleton hq =>
      subst hpublish hq
      have ha : a = .building t i := hs.account_eq hp rfl
      subst ha
      refine ⟨.live (.constructor t) i, ?_, .inr (.publish ..)⟩
      exact Agrees.change (hs.alone hlocked (.inl rfl)) hthreads
        (by rw [himpls, hs.impls]; rfl) (by rw [hloggers, hs.loggers]; rfl)
        (by rintro o j ⟨⟩; exact hsingleton) (.inr rfl) rfl
  | assign target i hassign h =>
      subst hassign
      have ha : a = .live (.constructor t) i := hs.account_eq hp rfl
      subst ha
      rw [hs.assign_eq, Prod.mk.injEq] at h
      obtain ⟨rfl, rfl⟩ := h
      exact ⟨_, hs.assigned hlocked, .inr (.assign t i (target.thread_owner i))⟩
  | reset target i hreset h =>
      subst hreset
      rw [LoggerThreads.reset] at h
      split at h
      case h_1 =>
        obtain ⟨rfl, rfl⟩ := Prod.mk.inj h
        exact ⟨a, hs.stay rfl rfl rfl rfl hplaces hthread, .inl rfl⟩
      case h_2 j hj =>
        obtain ⟨rfl, rfl⟩ := Prod.mk.inj h
        have ha : a = .live (target.owner i) j := hs.loggerOf_eq_some_iff.mp hj
        subst ha
        have howner := target.thread_owner i
        exact ⟨_, hs.taken hlocked howner, .inr (.reset t j howner)⟩
  | drop i hdrop himpls hloggers hq =>
      subst hdrop
      have ha : a = .live (.destructor t) i := hs.account_eq hp rfl
      subst ha
      -- No other `Logger` has the `impl`.
      have hempty : s'.loggers = [] := by
        rw [hloggers, hs.loggers]
        simp [Account.loggers]
      rw [hempty] at hq
      subst hq
      refine ⟨.ending t i, ?_, .inr (.drop ..)⟩
      exact Agrees.change (hs.alone hlocked (.inl rfl)) hthreads
        (by rw [himpls, hs.impls]; rfl) hempty
        (fun _ _ h => by cases h) (.inr rfl) rfl
  | finish i hfinish himpls hloggers hq =>
      subst hfinish hq
      have ha : a = .ending t i := hs.account_eq hp rfl
      subst ha
      refine ⟨.idle, ?_, .inr (.finish ..)⟩
      exact Agrees.change (hs.alone hlocked (.inl rfl)) hthreads
        (by rw [himpls, hs.impls]; simp [Account.impls]) (by rw [hloggers, hs.loggers]; rfl)
        (fun _ _ h => by cases h) (.inl rfl) rfl

/-- Waiting for a lock, taking it and being preempted leave the objects and the places. -/
theorem Agrees.of_places (hs : s.Agrees a) (himpls : s'.impls = s.impls)
    (hloggers : s'.loggers = s.loggers) (hsingleton : s'.singleton_ = s.singleton_)
    (hplaces : ∀ u, (s'.threads u).place = (s.threads u).place) : s'.Agrees a where
  impls := himpls.trans hs.impls
  loggers := hloggers.trans hs.loggers
  singleton := by
    rw [hsingleton]
    exact hs.singleton
  places := by
    intro u b hb
    rw [hplaces] at hb
    exact hs.places u b hb
  thread := by
    intro u ha
    rw [hplaces]
    exact hs.thread u ha

/-- Each step of the code is a step of the account, or none. -/
theorem step_agrees {l : Label} (hs : s.Agrees a) (hlocked : s.Locked) (h : s.step l = some s') :
    ∃ a', s'.Agrees a' ∧ (a' = a ∨ a.Next a') := by
  cases steps_of_step h with
  | acquireGil hp _ | lockMutex hp _ | preempt hp _ =>
      exact ⟨a, hs.of_places rfl rfl rfl (setThread_place (by rw [hp]; rfl)), .inl rfl⟩
  | readerMessage | readerAcquires | readerPreempt | readerReturns | readerEnds =>
      exact ⟨a, hs.of_places rfl rfl rfl (fun _ => rfl), .inl rfl⟩
  | act hp hcall =>
      exact hs.effect hlocked hp (perform_moved hcall).threads (perform_effect hcall)

end

/-- What holds in every reachable state. -/
structure Sound (s : LoggerThreads) : Prop where
  locked : s.Locked
  unstarted : s.Unstarted
  agrees : ∃ a, s.Agrees a

/-- Every step keeps the locks and the account in order. -/
theorem step_sound {s : LoggerThreads} (l : Label) (s' : LoggerThreads) (hs : s.Sound)
    (h : s.step l = some s') : s'.Sound where
  locked := step_locked hs.locked hs.unstarted h
  unstarted := step_unstarted hs.unstarted hs.locked h
  agrees := by
    obtain ⟨a, ha⟩ := hs.agrees
    obtain ⟨a', ha', _⟩ := step_agrees ha hs.locked h
    exact ⟨a', ha'⟩

/-- They are in order in every reachable state. -/
theorem reachable_sound {s : LoggerThreads} (h : Reachable step initial s) : s.Sound :=
  h.invariant ⟨locked_initial, unstarted_initial, .idle, agrees_initial⟩ fun _ l s' hs hstep =>
    step_sound l s' hs hstep

/-- A run of the code, in any interleaving, is a run of the account. -/
theorem run_account {s s' : LoggerThreads} {a : Account} {ls : List Label} (hs : s.Sound)
    (ha : s.Agrees a) (hrun : run step s ls = some s') :
    ∃ a', s'.Agrees a' ∧ Relation.ReflTransGen Account.Next a a' := by
  induction ls generalizing s a with
  | nil =>
      cases hrun
      exact ⟨a, ha, .refl⟩
  | cons l ls ih =>
      obtain ⟨s₁, hstep, hrest⟩ := run_cons_eq_some.mp hrun
      obtain ⟨a₁, ha₁, hnext⟩ := step_agrees ha hs.locked hstep
      obtain ⟨a', ha', hsteps⟩ := ih (step_sound l s₁ hs hstep) ha₁ hrest
      refine ⟨a', ha', ?_⟩
      cases hnext with
      | inl heq => exact heq ▸ hsteps
      | inr hnext => exact .head hnext hsteps

end LoggerThreads
end NqmIrimager
