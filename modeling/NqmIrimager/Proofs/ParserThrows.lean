import NqmIrimager.Proofs.ParserBounds
import NqmIrimager.Proofs.RingExact

/-!
# `NqmIrimager.Proofs.ParserThrows`: what a throwing callback sees

The `try` block of `try_parse` covers the parsing of a line and the callback call for it,
and the handler calls the callback again. So a throw of the callback is taken for a line
that does not parse: the callback is called a second time for the line, and what this
call throws leaves `push_data`.

`oncePerLine_iff` says when none of this happens, for any callback and any data that
fits: exactly when the callback returns each time it is called with the deliveries of the
lines of the contents with the data behind them, in order. In two states of a buffer that
the push fills, the lines are other ones (`linesPushed`). `linesTaken` is what the loop does,
and `linesTaken_insert` connects the two.
-/

set_option autoImplicit false

namespace NqmIrimager
namespace IRLoggerParser

open Framing StringRingBuffer

variable {N : Nat} {σ : Type} {callback : LoggingCallback σ}

/-! ### The law -/

/-- The calls at the start of a list of events, up to the next event of another kind. -/
def firstCalls : List Event → List (LogLevel × Bytes)
  | .invoked level text :: es => (level, text) :: firstCalls es
  | _ => []

/-- The removed lines of a list of events, each with the calls that follow it. -/
def turns : List Event → List (Bytes × List (LogLevel × Bytes))
  | [] => []
  | .removed line :: es => (line, firstCalls es) :: turns es
  | .dumped _ :: es => turns es
  | .invoked _ _ :: es => turns es

/-- The call `o` made on `p` returned; since then each removed line had at most one
callback call, and a warning about a failed parse came only for a line that
`parse_line` rejects. -/
def OncePerLine (p : IRLoggerParser N σ) (o : Outcome (IRLoggerParser N σ) Unit) : Prop :=
  ∃ p' es, o = .returned () p' ∧ p'.trace = p.trace ++ es ∧
    ∀ t ∈ turns es, t.2.length ≤ 1 ∧
      ∀ c ∈ t.2, ascii "Failed to parse IRLogger line" <+: c.2 → ∃ e, parseLine t.1 = .error e

/-- Events before it do not change a turn. -/
theorem mem_turns_append {t : Bytes × List (LogLevel × Bytes)} (es : List Event)
    {es' : List Event} (h : t ∈ turns es') : t ∈ turns (es ++ es') := by
  induction es with
  | nil => exact h
  | cons e es ih =>
      cases e with
      | removed line => exact List.mem_cons_of_mem _ ih
      | dumped contents => exact ih
      | invoked level text => exact ih

/-- The events of delivered lines are a turn for each line, with its one delivery. -/
theorem turns_lineEvents (ls : List Bytes) :
    turns (ls.flatMap lineEvents) = ls.map fun l => (l, [delivery l]) := by
  induction ls with
  | nil => rfl
  | cons l ls ih =>
      rw [List.flatMap_cons, List.map_cons, ← ih]
      -- The calls of `l` end at the next removed line, or with the list.
      cases ls <;> rfl

/-- The text of a parsed line starts with its location in brackets. -/
theorem parseLine_text {line : Bytes} {m : LogLevel × Bytes} (h : parseLine line = .ok m) :
    ∃ text, m.2 = ascii "[" ++ text := by
  unfold parseLine at h
  split at h
  · cases h
  · simp only at h
    split at h
    · cases h
    · cases h
      exact ⟨_, List.append_assoc _ _ _⟩

/-- A delivery that looks like a warning about a failed parse is one. -/
theorem rejected_of_delivery {line : Bytes}
    (h : ascii "Failed to parse IRLogger line" <+: (delivery line).2) :
    ∃ e, parseLine line = .error e := by
  unfold delivery at h
  cases hline : parseLine line with
  | error e => exact ⟨e, rfl⟩
  | ok m =>
      rw [hline] at h
      obtain ⟨text, htext⟩ := parseLine_text hline
      obtain ⟨rest, hrest⟩ := h
      simp only [htext] at hrest
      -- `F` against `[`.
      exact absurd (congrArg List.head? hrest) (by simp [ascii])

/-! ### The lines the loop takes out -/

/-- The lines `while (try_parse());` takes out of a buffer. -/
def linesTaken (b : StringRingBuffer N) : List Bytes :=
  match b.peek.findIdx? (· == newline) with
  | none => []
  | some index =>
      b.peek.take index ::
        match _h : b.discard (index + 1) with
        | .returned _ b' => linesTaken b'
        | .threw _ _ => []
termination_by b.size_
decreasing_by
  have := size_of_discard _h
  omega

/-- Without a newline in sight no line is taken. -/
theorem linesTaken_end {b : StringRingBuffer N}
    (h : b.peek.findIdx? (· == newline) = none) : linesTaken b = [] := by
  rw [linesTaken]
  split
  · rfl
  · rename_i hidx
    cases h.symm.trans hidx

/-- The first line in sight is taken, and then the lines of the buffer without it. -/
theorem linesTaken_next {b b' : StringRingBuffer N} {index : Nat}
    (h : b.peek.findIdx? (· == newline) = some index)
    (hdiscard : b.discard (index + 1) = .returned () b') :
    linesTaken b = b.peek.take index :: linesTaken b' := by
  rw [linesTaken]
  split
  all_goals
    rename_i heq
    cases h.symm.trans heq
  congr 1
  split
  all_goals
    rename_i heq
    cases hdiscard.symm.trans heq
  rfl

/-- They are the complete lines of the contents, in a buffer that shows its contents and
whose first discard does not lose the front. -/
theorem linesTaken_eq_lines (b : StringRingBuffer N) (hpeek : Readable b)
    (hfront : ¬ b.LosesFront (b.contents.idxOf newline + 1)) :
    linesTaken b = lines newline b.contents := by
  -- By induction on what the buffer holds; a removed line leaves a buffer with room.
  induction hn : b.size_ using Nat.strongRecOn generalizing b with
  | _ n ih =>
      subst hn
      rcases first_line b.contents with hnone | ⟨l, r, hcontents, hl, hlen⟩
      · rw [linesTaken_end (by rw [hpeek.peek_eq, findIdx?_of_not_mem hnone]), lines,
          cutFrom_of_not_mem [] hnone]
      · have hsize : b.size_ = l.length + 1 + r.length := by
          rw [← length_contents, hcontents]
          simp only [List.length_append, List.length_cons]
          omega
        rw [← hlen] at hfront
        obtain ⟨b', hdiscard, -, hsize', hrest⟩ :=
          b.discard_spec (show l.length + 1 ≤ b.size_ by omega) hfront
        have hidx : b.peek.findIdx? (· == newline) = some l.length := by
          rw [hpeek.peek_eq, hcontents, findIdx?_line hl]
        have hr : b'.contents = r := by
          rw [hrest, hcontents, show l ++ newline :: r = (l ++ [newline]) ++ r by simp]
          exact List.drop_left' (by simp)
        have hroom : b'.size_ < N := by
          have := b.size_le
          omega
        rw [linesTaken_next hidx hdiscard,
          ih _ (by omega) b' (readable_of_room hroom) (fun h => by have := h.1; omega) rfl,
          hpeek.peek_eq, hcontents, List.take_left, hr]
        rw [lines, lines, cutFrom_line [] r hl, List.nil_append]

/-- Where the first discard loses the front, the lines after the first one are those of the bytes
at the start of the array. -/
theorem linesTaken_of_losesFront (b : StringRingBuffer N) {l r : Bytes}
    (hcontents : b.contents = l ++ newline :: r) (hl : newline ∉ l)
    (hfront : b.LosesFront (l.length + 1)) :
    linesTaken b
      = l :: lines newline ((b.contents.drop (N - b.begin_)).take (N - (l.length + 1))) := by
  have hpeek : Readable b := by
    rintro ⟨hbegin, -⟩
    have := hfront.2.1
    omega
  have hidx : b.peek.findIdx? (· == newline) = some l.length := by
    rw [hpeek.peek_eq, hcontents, findIdx?_line hl]
  obtain ⟨b', hdiscard, hrest⟩ := b.discard_of_losesFront hfront
  have hroom : b'.size_ < N := by
    have hsize := size_of_discard hdiscard
    have hfull := hfront.1
    omega
  have hline : b.peek.take l.length = l := by
    rw [hpeek.peek_eq, hcontents, List.take_left]
  rw [linesTaken_next hidx hdiscard, hline, ← b.read_of_losesFront hfront, ← hrest]
  rw [linesTaken_eq_lines b' (readable_of_room hroom) (fun h => by have := h.1; omega)]

/-- The complete lines that a push of `data` takes out, told by the state before it: the lines of
the contents with `data` behind them, unless the push fills the buffer. A full buffer shows
nothing when `begin_` is the array end. And when the first line of a full buffer ends past the
array end with bytes behind it, its discard leaves the bytes at the start of the array, so the
other lines are theirs. -/
def linesPushed (b : StringRingBuffer N) (data : Bytes) : List Bytes :=
  let stored := b.contents ++ data
  let line := stored.idxOf newline
  if stored.length = N ∧ b.begin_ = N then []
  else if stored.length = N ∧ N < b.begin_ + (line + 1) ∧ line + 1 < N then
    stored.take line :: lines newline ((stored.drop (N - b.begin_)).take (N - (line + 1)))
  else lines newline stored

/-- They are the lines the loop takes out after the insert. -/
theorem linesTaken_insert {b b' : StringRingBuffer N} {data : Bytes}
    (hfits : b.size_ + data.length ≤ N) (hinsert : b.insert data = .returned () b') :
    linesTaken b' = linesPushed b data := by
  obtain ⟨b₁, hrun, hbegin, hsize, hcontents⟩ := b.insert_spec data hfits
  rw [hinsert] at hrun
  cases hrun
  have hlength : b'.contents.length = b'.size_ := b'.length_contents
  unfold linesPushed
  simp only [← hcontents, ← hbegin, hlength]
  by_cases hhidden : b'.size_ = N ∧ b'.begin_ = N
  · rw [if_pos hhidden]
    refine linesTaken_end ?_
    rw [b'.peek_of_end_full hhidden.2 hhidden.1]
    rfl
  · rw [if_neg hhidden]
    have hpeek : Readable b' := fun h => hhidden ⟨h.2, h.1⟩
    split
    · -- The first line of a full buffer ends past the array end.
      rename_i hloses
      obtain ⟨hfull, hpast, hless⟩ := hloses
      have hfront : b'.LosesFront (b'.contents.idxOf newline + 1) := by
        have := b'.begin_le
        have : b'.begin_ ≠ N := fun h => hhidden ⟨hfull, h⟩
        exact ⟨hfull, by omega, hpast, hless⟩
      rcases first_line b'.contents with hnone | ⟨l, r, hline, hl, hlen⟩
      · rw [List.idxOf_eq_length hnone, hlength] at hless
        omega
      · rw [← hlen] at hfront ⊢
        rw [linesTaken_of_losesFront b' hline hl hfront]
        congr 1
        rw [hline, List.take_left]
    · rename_i hkeeps
      exact linesTaken_eq_lines b' hpeek fun h => hkeeps ⟨h.1, h.2.2.1, h.2.2.2⟩

/-! ### When the callback returns, and when it throws -/

/-- The callback returns each time it is called with the deliveries of the lines, in
order. -/
def ReturnsOn (callback : LoggingCallback σ) : σ → List Bytes → Prop
  | _, [] => True
  | w, l :: ls =>
      ∃ w', callback (delivery l).1 (delivery l).2 w = .returned () w' ∧ ReturnsOn callback w' ls

/-- A delivery whose callback call throws is a throw, or a second call: the handler
answers with a call of its own. -/
theorem deliver_of_threw {p : IRLoggerParser N σ} {line : Bytes} {e : Exception} {w : σ}
    (h : callback (delivery line).1 (delivery line).2 p.world = .threw e w) :
    (∃ e' p', deliver callback p line = .threw e' p') ∨
      ∃ p' level text level' text', deliver callback p line = .returned () p' ∧
        p'.trace = p.trace ++ [.invoked level text, .invoked level' text'] := by
  cases hline : parseLine line with
  | error e' =>
      -- The call that throws is the handler's own.
      rw [delivery_of_error hline] at h
      refine Or.inl ⟨e, { p.note (.invoked .warn (failedToParse e' line)) with world := w }, ?_⟩
      simp only [deliver, hline, loggingCallback, h]
  | ok m =>
      rw [delivery_of_ok hline] at h
      have hanswer : deliver callback p line
          = loggingCallback callback { p.note (.invoked m.1 m.2) with world := w } .warn
              (failedToParse e line) := by
        simp only [deliver, hline, loggingCallback, h]
      rw [hanswer, loggingCallback]
      cases callback .warn (failedToParse e line) w with
      | returned u w' => exact Or.inr ⟨_, _, _, _, _, rfl, List.append_assoc _ _ _⟩
      | threw e' w' => exact Or.inl ⟨e', _, rfl⟩

/-! ### The loop -/

/-- Where the callback returns on every line, the loop delivers each line once. -/
theorem parseLines_of_returnsOn (p : IRLoggerParser N σ)
    (h : ReturnsOn callback p.world (linesTaken p.buffer_)) :
    ∃ p', parseLines callback p = .returned () p' ∧
      p'.trace = p.trace ++ (linesTaken p.buffer_).flatMap lineEvents := by
  induction hn : p.buffer_.size_ using Nat.strongRecOn generalizing p with
  | _ n ih =>
      subst hn
      rcases tryParse_cases callback p with ⟨hidx, hrun⟩ | ⟨index, b, hidx, -, hdiscard, -, hrun⟩
      · refine ⟨p, parseLines_end hrun, ?_⟩
        rw [linesTaken_end hidx]
        simp
      · rw [linesTaken_next hidx hdiscard] at h ⊢
        obtain ⟨w, hcall, hrest⟩ := h
        let p₁ := note { p with buffer_ := b } (.removed (p.buffer_.peek.take index))
        have hdeliver : deliver callback p₁ (p.buffer_.peek.take index) = _ :=
          deliver_of_returned hcall
        rw [hdeliver, Outcome.bind_returned] at hrun
        obtain ⟨p', hloop, htrace⟩ := ih _ (tryParse_size_lt hrun) _ hrest rfl
        refine ⟨p', (parseLines_next hrun).trans hloop, ?_⟩
        rw [htrace, List.flatMap_cons, ← List.append_assoc]
        congr 1
        exact List.append_assoc _ _ _

/-- A delivery writes events down and takes none back. -/
theorem deliver_appends {p p' : IRLoggerParser N σ} {line : Bytes}
    (h : deliver callback p line = .returned () p') : ∃ es, p'.trace = p.trace ++ es := by
  cases hcall : callback (delivery line).1 (delivery line).2 p.world with
  | returned u w =>
      rw [deliver_of_returned hcall] at h
      cases h
      exact ⟨_, rfl⟩
  | threw e w =>
      rcases deliver_of_threw hcall with ⟨e', p₁, hrun⟩ | ⟨p₁, _, _, _, _, hrun, htrace⟩
      · rw [hrun] at h
        cases h
      · rw [hrun] at h
        cases h
        exact ⟨_, htrace⟩

/-- What a loop that returned did: nothing, or a first line was delivered and the loop went
on. -/
theorem parseLines_returned_cases {p p' : IRLoggerParser N σ}
    (h : parseLines callback p = .returned () p') :
    (linesTaken p.buffer_ = [] ∧ p' = p) ∨
      ∃ line b p₁, linesTaken p.buffer_ = line :: linesTaken b ∧ b.size_ < p.buffer_.size_ ∧
        deliver callback (note { p with buffer_ := b } (.removed line)) line = .returned () p₁ ∧
        p₁.buffer_ = b ∧ parseLines callback p₁ = .returned () p' := by
  rcases tryParse_cases callback p with ⟨hidx, hrun⟩ | ⟨index, b, hidx, hle, hdiscard, hsize, hrun⟩
  · rw [parseLines_end hrun] at h
    cases h
    exact Or.inl ⟨linesTaken_end hidx, rfl⟩
  · refine Or.inr ⟨p.buffer_.peek.take index, b, ?_⟩
    have hbuffer := deliver_buffer callback
      (note { p with buffer_ := b } (.removed (p.buffer_.peek.take index)))
      (p.buffer_.peek.take index)
    cases hdeliver : deliver callback
        (note { p with buffer_ := b } (.removed (p.buffer_.peek.take index)))
        (p.buffer_.peek.take index) with
    | returned u p₁ =>
        rw [hdeliver] at hrun hbuffer
        rw [parseLines_next hrun] at h
        exact ⟨p₁, linesTaken_next hidx hdiscard, by omega, rfl, hbuffer, h⟩
    | threw e p₁ =>
        -- The throw leaves the loop.
        rw [hdeliver, Outcome.bind_threw] at hrun
        rw [parseLines] at h
        split at h
        all_goals
          rename_i heq
          cases hrun.symm.trans heq
        cases h

/-- The loop takes no event back either. -/
theorem parseLines_appends (p : IRLoggerParser N σ) {p' : IRLoggerParser N σ}
    (h : parseLines callback p = .returned () p') : ∃ es, p'.trace = p.trace ++ es := by
  induction hn : p.buffer_.size_ using Nat.strongRecOn generalizing p with
  | _ n ih =>
      subst hn
      rcases parseLines_returned_cases h with ⟨-, rfl⟩ | ⟨line, b, p₁, -, hlt, hdeliver, rfl, hloop⟩
      · exact ⟨[], (List.append_nil _).symm⟩
      · obtain ⟨es, hes⟩ := deliver_appends hdeliver
        obtain ⟨es', hes'⟩ := ih _ hlt p₁ hloop rfl
        refine ⟨.removed line :: (es ++ es'), ?_⟩
        rw [hes', hes]
        simp [note]

/-- Where the callback throws on a line, a loop that returns all the same made two calls
for that line. -/
theorem parseLines_of_not_returnsOn (p : IRLoggerParser N σ)
    (h : ¬ ReturnsOn callback p.world (linesTaken p.buffer_)) {p' : IRLoggerParser N σ}
    (hrun : parseLines callback p = .returned () p') :
    ∃ pre line level text level' text' post,
      p'.trace = p.trace ++
        (pre ++ .removed line :: .invoked level text :: .invoked level' text' :: post) := by
  induction hn : p.buffer_.size_ using Nat.strongRecOn generalizing p with
  | _ n ih =>
      subst hn
      rcases parseLines_returned_cases hrun with
        ⟨hnone, -⟩ | ⟨line, b, p₁, hnext, hlt, hdeliver, rfl, hloop⟩
      · rw [hnone] at h
        exact absurd trivial h
      · rw [hnext] at h
        let p₀ := note { p with buffer_ := p₁.buffer_ } (.removed line)
        cases hcall : callback (delivery line).1 (delivery line).2 p.world with
        | returned u w =>
            -- This line is delivered, so a later one is not.
            have hone : deliver callback p₀ line = _ := deliver_of_returned hcall
            rw [hdeliver] at hone
            simp only [Outcome.returned.injEq, true_and] at hone
            have hrest : ¬ ReturnsOn callback p₁.world (linesTaken p₁.buffer_) := by
              intro hreturns
              refine h ⟨w, hcall, ?_⟩
              rwa [hone] at hreturns
            obtain ⟨pre, line', level, text, level', text', post, htrace⟩ :=
              ih _ hlt p₁ hrest hloop rfl
            have htrace₁ : p₁.trace = p.trace ++ lineEvents line := by
              rw [hone]
              exact List.append_assoc _ _ _
            refine ⟨lineEvents line ++ pre, line', level, text, level', text', post, ?_⟩
            rw [htrace, htrace₁, List.append_assoc, List.append_assoc]
        | threw e w =>
            rcases deliver_of_threw (show callback _ _ p₀.world = _ from hcall) with
              ⟨e', p₂, hthrew⟩ | ⟨p₂, level, text, level', text', htwo, htrace⟩
            · cases hdeliver.symm.trans hthrew
            · cases hdeliver.symm.trans htwo
              obtain ⟨es, hes⟩ := parseLines_appends p₁ hloop
              refine ⟨[], line, level, text, level', text', es, ?_⟩
              rw [hes, htrace]
              simp [p₀, note]

/-! ### A push that fits -/

variable [NeZero N]

/-- A push that fits is an insert and the loop, for any callback. -/
theorem pushData_of_fits (callback : LoggingCallback σ) {p : IRLoggerParser N σ} {data : Bytes}
    {b : StringRingBuffer N} (hfits : p.buffer_.size + data.length ≤ N)
    (hinsert : p.buffer_.insert data = .returned () b) :
    pushData callback p data = parseLines callback { p with buffer_ := b } := by
  have hbody : pushBody callback p data
      = (parseLines callback { p with buffer_ := b }).bind fun _ p => .returned none p := by
    rw [pushBody, if_pos hfits, onBuffer_insert hinsert, Outcome.bind_returned]
  cases hloop : parseLines callback { p with buffer_ := b } with
  | returned u p' =>
      rw [hloop, Outcome.bind_returned] at hbody
      exact pushData_end hbody
  | threw e p' =>
      rw [hloop, Outcome.bind_threw] at hbody
      rw [pushData]
      split
      all_goals
        rename_i heq
        cases hbody.symm.trans heq
      rfl

/-- The law of a push whose insert leaves `b`. -/
theorem oncePerLine_of_insert (callback : LoggingCallback σ) {p : IRLoggerParser N σ}
    {data : Bytes} {b : StringRingBuffer N} (hfits : p.buffer_.size + data.length ≤ N)
    (hinsert : p.buffer_.insert data = .returned () b) :
    OncePerLine p (pushData callback p data) ↔ ReturnsOn callback p.world (linesTaken b) := by
  rw [pushData_of_fits callback hfits hinsert]
  constructor
  · rintro ⟨p', es, hrun, htrace, hturns⟩
    by_contra hthrows
    obtain ⟨pre, line, level, text, level', text', post, htwo⟩ :=
      parseLines_of_not_returnsOn { p with buffer_ := b } hthrows hrun
    have hes : es = _ := List.append_cancel_left (htrace.symm.trans htwo)
    -- The line with two calls is a turn.
    have hturn : (line, firstCalls (.invoked level text :: .invoked level' text' :: post))
        ∈ turns es := by
      rw [hes]
      exact mem_turns_append pre List.mem_cons_self
    have hone := (hturns _ hturn).1
    simp [firstCalls] at hone
  · intro hreturns
    obtain ⟨p', hloop, htrace⟩ := parseLines_of_returnsOn { p with buffer_ := b } hreturns
    refine ⟨p', _, hloop, htrace, ?_⟩
    intro t ht
    rw [turns_lineEvents] at ht
    obtain ⟨line, -, rfl⟩ := List.mem_map.mp ht
    refine ⟨Nat.le_refl 1, ?_⟩
    intro c hc hwarning
    rw [List.mem_singleton.mp hc] at hwarning
    exact rejected_of_delivery hwarning

/-- A push that fits calls the callback once for each line it takes out, and returns,
exactly when the callback returns each time it is called for these lines in order. -/
theorem oncePerLine_iff (callback : LoggingCallback σ) (p : IRLoggerParser N σ) (data : Bytes)
    (hfits : p.buffer_.size + data.length ≤ N) :
    OncePerLine p (pushData callback p data) ↔
      ReturnsOn callback p.world (linesPushed p.buffer_ data) := by
  obtain ⟨b, hinsert, -⟩ := p.buffer_.insert_spec data hfits
  rw [oncePerLine_of_insert callback hfits hinsert, linesTaken_insert hfits hinsert]

/-- Two lines into a new parser that records what it is called with. -/
theorem oncePerLine_iff_record :
    let p : IRLoggerParser 4 (List (LogLevel × Bytes)) := fresh (Vector.replicate 4 0) []
    OncePerLine p (pushData record p [10, 97, 10]) ↔ ReturnsOn record [] [[], [97]] :=
  oncePerLine_iff record (fresh (Vector.replicate 4 0) []) [10, 97, 10] (by decide)

/-- The callback that throws at its first call, and keeps every message. -/
def throwsFirst : LoggingCallback (List (LogLevel × Bytes)) :=
  fun level text s =>
    if s = [] then .threw ⟨.runtimeError, []⟩ (s ++ [(level, text)])
    else .returned () (s ++ [(level, text)])

/-- A line that parses, and a callback that throws when it gets it. -/
theorem delivered_twice_source :
    parseLine (ascii "INFO [a] @ 1s :b") = .ok (.info, ascii "[a] b") ∧
      ¬ OncePerLine (fresh (Vector.replicate stringBufferSize 0) [])
        (pushData throwsFirst (fresh (Vector.replicate stringBufferSize 0) [])
          (ascii "INFO [a] @ 1s :b\n")) := by
  have hparse : parseLine (ascii "INFO [a] @ 1s :b") = .ok (.info, ascii "[a] b") := by
    decide +kernel
  refine ⟨hparse, ?_⟩
  let p : IRLoggerParser stringBufferSize (List (LogLevel × Bytes)) :=
    fresh (Vector.replicate stringBufferSize 0) []
  have hlength : (ascii "INFO [a] @ 1s :b\n").length = 17 := by decide
  have hsize : p.buffer_.size_ = 0 := rfl
  have hcapacity : 17 < stringBufferSize := by decide
  obtain ⟨b, hinsert, -, hsize', hcontents⟩ :=
    p.buffer_.insert_spec (ascii "INFO [a] @ 1s :b\n") (by omega)
  rw [oncePerLine_of_insert throwsFirst (by rw [size]; omega) hinsert]
  have hroom : b.size_ < stringBufferSize := by omega
  have hline : b.contents = ascii "INFO [a] @ 1s :b" ++ newline :: [] := by
    rw [hcontents]
    decide +kernel
  rw [linesTaken_eq_lines b (readable_of_room hroom) (fun h => by have := h.1; omega), hline,
    lines, cutFrom_line [] [] (by decide)]
  rintro ⟨w, hcall, -⟩
  cases hcall

end IRLoggerParser
end NqmIrimager
