import NqmIrimager.IRLoggerParser

/-!
# `NqmIrimager.Proofs.LineGrammar`: the language of `parse_line`

`LogLine` is a line of the IRLogger format in its parts, with what each part may hold as
fields. `LogLine.text` writes the line.

`parseLine_grammar` connects the two directions. Every written line is accepted with the
level of its name and the message behind its location, every accepted line is a written
one, and a line is written in one way only. So the parser forgets the time, and nothing
else.

Why in one way: each part ends at the first byte its class leaves out. That byte starts
the literal that follows, so the parts can be read off from the left.
-/

set_option autoImplicit false

namespace NqmIrimager

open Pattern

/-! ### The format -/

/-- The level names of the format. -/
inductive LevelName where
  | debug
  | info
  | warning
  | error
deriving DecidableEq, Repr

/-- How the name is written. -/
def LevelName.text : LevelName → Bytes
  | .debug => ascii "DEBUG"
  | .info => ascii "INFO"
  | .warning => ascii "WARNING"
  | .error => ascii "ERROR"

/-- The level the name stands for. -/
def LevelName.level : LevelName → LogLevel
  | .debug => .debug
  | .info => .info
  | .warning => .warn
  | .error => .error

/-- A line of the format. -/
structure LogLine where
  name : LevelName
  location : Bytes
  time : Bytes
  message : Bytes
  location_class : ∀ c ∈ location, isLocation c = true
  time_ne_nil : time ≠ []
  time_class : ∀ c ∈ time, isTime c = true
  message_class : ∀ c ∈ message, isAny c = true

namespace LogLine

/-- The line as it is written. -/
def text (g : LogLine) : Bytes :=
  g.name.text ++ ascii " [" ++ g.location ++ ascii "] @ " ++ g.time ++ ascii "s :" ++ g.message

/-- What `parse_line` returns for the line. -/
def parsed (g : LogLine) : LogLevel × Bytes :=
  (g.name.level, ascii "[" ++ g.location ++ ascii "] " ++ g.message)

end LogLine

/-! ### The level names -/

/-- The name of a level is parsed to it. -/
theorem parseIrLoggerLogLevel_text (n : LevelName) :
    parseIrLoggerLogLevel n.text = some n.level := by
  cases n <;> decide

/-- What is parsed to a level is one of the names. -/
theorem levelName_of_parse {name : Bytes} {level : LogLevel}
    (h : parseIrLoggerLogLevel name = some level) : ∃ n : LevelName, n.text = name := by
  unfold parseIrLoggerLogLevel at h
  split at h
  · rename_i hname
    exact ⟨.debug, hname.symm⟩
  · split at h
    · rename_i hname
      exact ⟨.info, hname.symm⟩
    · split at h
      · rename_i hname
        exact ⟨.warning, hname.symm⟩
      · split at h
        · rename_i hname
          exact ⟨.error, hname.symm⟩
        · cases h

/-- The names are words, as the pattern wants them. -/
theorem LevelName.text_class (n : LevelName) : n.text ≠ [] ∧ ∀ c ∈ n.text, isWord c = true := by
  cases n <;> decide +kernel

/-- No two names stand for one level. -/
theorem LevelName.level_injective {n n' : LevelName} (h : n.level = n'.level) : n = n' := by
  cases n <;> cases n' <;> first | rfl | cases h

/-! ### The pattern -/

/-- The parts of a line the pattern matches, the level name still any word. -/
structure Parts (line name location time message : Bytes) : Prop where
  join : line = name ++ ascii " [" ++ location ++ ascii "] @ " ++ time ++ ascii "s :" ++ message
  name_ne_nil : name ≠ []
  name_class : ∀ c ∈ name, isWord c = true
  location_class : ∀ c ∈ location, isLocation c = true
  time_ne_nil : time ≠ []
  time_class : ∀ c ∈ time, isTime c = true
  message_class : ∀ c ∈ message, isAny c = true

/-- What it means that the pattern matches: the groups are the name, the location, the
time with its `s`, and the message. -/
theorem matches_lineRegex_iff {line : Bytes} {groups : List Bytes} :
    Matches lineRegex line groups ↔ ∃ name location time message,
      Parts line name location time message ∧
        groups = [name, location, time ++ ascii "s", message] := by
  simp only [lineRegex, concat, matches_group_seq_iff, matches_literal_seq_iff,
    matches_seq_literal_iff, matches_some_iff]
  constructor
  · rintro ⟨name, _, _, _, rfl, rfl, ⟨hname, hnameClass, rfl⟩, _, rfl,
      location, _, _, _, rfl, rfl, ⟨hlocation, rfl⟩, _, rfl,
      _, _, _, _, rfl, rfl, ⟨time, rfl, htime, htimeClass, rfl⟩, _, rfl,
      message, _, _, _, rfl, rfl, ⟨hmessage, rfl⟩, rfl, rfl⟩
    refine ⟨name, location, time, message, ?_, rfl⟩
    refine ⟨?_, hname, hnameClass, hlocation, htime, htimeClass, hmessage⟩
    -- `s` ends the third group and starts the last literal of the format.
    show _ = name ++ ascii " [" ++ location ++ ascii "] @ " ++ time ++ (ascii "s" ++ ascii " :")
      ++ message
    simp only [List.append_assoc, List.append_nil]
  · rintro ⟨name, location, time, message, h, rfl⟩
    refine ⟨name, _, [], _, ?_, rfl, ⟨h.name_ne_nil, h.name_class, rfl⟩, _, rfl,
      location, _, [], _, rfl, rfl, ⟨h.location_class, rfl⟩, _, rfl,
      time ++ ascii "s", _, [], _, rfl, rfl, ⟨time, rfl, h.time_ne_nil, h.time_class, rfl⟩, _, rfl,
      message, [], [], [], (List.append_nil _).symm, rfl, ⟨h.message_class, rfl⟩, rfl, rfl⟩
    rw [h.join, show ascii "s :" = ascii "s" ++ ascii " :" from rfl]
    simp only [List.append_assoc]

/-- A line has one set of parts. Each part ends where its class does: the name at the
space, the location at `]`, the time at `s`. -/
theorem Parts.unique {line name location time message name' location' time' message' : Bytes}
    (h : Parts line name location time message)
    (h' : Parts line name' location' time' message') :
    name = name' ∧ location = location' ∧ time = time' ∧ message = message' := by
  have hjoin := h.join.symm.trans h'.join
  rw [show ascii " [" = 32 :: ascii "[" from rfl, show ascii "] @ " = 93 :: ascii " @ " from rfl,
    show ascii "s :" = 115 :: ascii " :" from rfl] at hjoin
  simp only [List.append_assoc, List.cons_append] at hjoin
  obtain ⟨hname, hrest⟩ := split_unique (by decide) h.name_class h'.name_class hjoin
  have hrest := List.append_cancel_left hrest
  obtain ⟨hlocation, hrest⟩ :=
    split_unique (by decide) h.location_class h'.location_class hrest
  have hrest := List.append_cancel_left hrest
  obtain ⟨htime, hrest⟩ := split_unique (by decide) h.time_class h'.time_class hrest
  exact ⟨hname, hlocation, htime, List.append_cancel_left hrest⟩

/-- The groups of `parse_line`'s match. -/
theorem fullMatch_lineRegex_iff {line : Bytes} {groups : List Bytes} :
    lineRegex.fullMatch line = some groups ↔ ∃ name location time message,
      Parts line name location time message ∧
        groups = [name, location, time ++ ascii "s", message] := by
  rw [← matches_lineRegex_iff]
  apply fullMatch_eq_some_iff
  intro g g' hg hg'
  obtain ⟨name, location, time, message, h, rfl⟩ := matches_lineRegex_iff.mp hg
  obtain ⟨name', location', time', message', h', rfl⟩ := matches_lineRegex_iff.mp hg'
  obtain ⟨rfl, rfl, rfl, rfl⟩ := h.unique h'
  rfl

/-! ### The parser and the format -/

/-- The text of a line has the parts the pattern asks for. -/
theorem LogLine.parts (g : LogLine) : Parts g.text g.name.text g.location g.time g.message where
  join := rfl
  name_ne_nil := g.name.text_class.1
  name_class := g.name.text_class.2
  location_class := g.location_class
  time_ne_nil := g.time_ne_nil
  time_class := g.time_class
  message_class := g.message_class

/-- A written line is accepted. -/
theorem parseLine_text_eq (g : LogLine) : parseLine g.text = .ok g.parsed := by
  have hmatch := fullMatch_lineRegex_iff.mpr ⟨_, _, _, _, g.parts, rfl⟩
  simp only [parseLine, hmatch, List.getD_cons_zero, List.getD_cons_succ,
    parseIrLoggerLogLevel_text]
  rfl

/-- A written line is one line. -/
theorem LogLine.newline_notMem (g : LogLine) : newline ∉ g.text := by
  have hname : newline ∉ g.name.text := by cases g.name <;> decide
  have hlocation : newline ∉ g.location := fun h => absurd (g.location_class _ h) (by decide)
  have htime : newline ∉ g.time := fun h => absurd (g.time_class _ h) (by decide)
  have hmessage : newline ∉ g.message := fun h => absurd (g.message_class _ h) (by decide)
  have hopen : newline ∉ ascii " [" := by decide
  have hat : newline ∉ ascii "] @ " := by decide
  have hcolon : newline ∉ ascii "s :" := by decide
  simp only [LogLine.text, List.mem_append, hname, hlocation, htime, hmessage, hopen, hat, hcolon,
    or_self, not_false_eq_true]

/-- A line is accepted and written, or not written and rejected. -/
theorem parseLine_cases (line : Bytes) :
    (∃ g : LogLine, g.text = line) ∨ ∃ what, parseLine line = .error ⟨.logicError, what⟩ := by
  cases hmatch : lineRegex.fullMatch line with
  | none => exact Or.inr ⟨ascii "Failed to match regex.", by simp only [parseLine, hmatch]⟩
  | some groups =>
      obtain ⟨name, location, time, message, h, rfl⟩ := fullMatch_lineRegex_iff.mp hmatch
      cases hlevel : parseIrLoggerLogLevel name with
      | none =>
          refine Or.inr ⟨ascii "Failed to parse IRLogger log level value.", ?_⟩
          simp only [parseLine, hmatch, List.getD_cons_zero, hlevel]
      | some level =>
          obtain ⟨n, rfl⟩ := levelName_of_parse hlevel
          exact Or.inl ⟨⟨n, location, time, message, h.location_class, h.time_ne_nil, h.time_class,
            h.message_class⟩, h.join.symm⟩

/-- No two names have the same text. -/
theorem LevelName.text_injective {n n' : LevelName} (h : n.text = n'.text) : n = n' := by
  have hlevel := parseIrLoggerLogLevel_text n
  rw [h, parseIrLoggerLogLevel_text] at hlevel
  exact LevelName.level_injective (Option.some.inj hlevel).symm

/-- A line is written in one way. -/
theorem LogLine.text_injective {g g' : LogLine} (h : g.text = g'.text) : g = g' := by
  obtain ⟨hname, hlocation, htime, hmessage⟩ := g.parts.unique (h ▸ g'.parts)
  cases g
  cases g'
  cases LevelName.text_injective hname
  cases hlocation
  cases htime
  cases hmessage
  rfl

/-- The result determines the level name, the location and the message: the location ends
at the first `]`. -/
theorem LogLine.parsed_eq_iff {g g' : LogLine} :
    g.parsed = g'.parsed ↔ g.name = g'.name ∧ g.location = g'.location ∧ g.message = g'.message := by
  constructor
  · intro h
    have hlevel : g.name.level = g'.name.level := congrArg Prod.fst h
    have htext : ascii "[" ++ g.location ++ ascii "] " ++ g.message
        = ascii "[" ++ g'.location ++ ascii "] " ++ g'.message := congrArg Prod.snd h
    rw [show ascii "] " = 93 :: ascii " " from rfl] at htext
    simp only [List.append_assoc, List.cons_append] at htext
    obtain ⟨hlocation, hrest⟩ := split_unique (by decide) g.location_class g'.location_class
      (List.append_cancel_left htext)
    exact ⟨LevelName.level_injective hlevel, hlocation, List.append_cancel_left hrest⟩
  · rintro ⟨hname, hlocation, hmessage⟩
    rw [parsed, parsed, hname, hlocation, hmessage]

/-- `parse_line` accepts the written lines, answers them with their level, location and
message, and throws `std::logic_error` for every other line. A line is written in one way,
and two of them give one result exactly when they differ at most in the time. -/
theorem parseLine_grammar :
    (∀ line, (∃ m, parseLine line = .ok m) ↔ ∃ g : LogLine, g.text = line) ∧
      (∀ line, (∀ g : LogLine, g.text ≠ line) →
        ∃ what, parseLine line = .error ⟨.logicError, what⟩) ∧
      (∀ g g' : LogLine, g.text = g'.text → g = g') ∧
      (∀ g : LogLine, parseLine g.text
        = .ok (g.name.level, ascii "[" ++ g.location ++ ascii "] " ++ g.message)) ∧
      ∀ g g' : LogLine, parseLine g.text = parseLine g'.text ↔
        g.name = g'.name ∧ g.location = g'.location ∧ g.message = g'.message := by
  refine ⟨?_, ?_, fun g g' => LogLine.text_injective, parseLine_text_eq, ?_⟩
  · intro line
    constructor
    · rintro ⟨m, hm⟩
      rcases parseLine_cases line with hwritten | ⟨what, hwhat⟩
      · exact hwritten
      · rw [hwhat] at hm
        cases hm
    · rintro ⟨g, rfl⟩
      exact ⟨g.parsed, parseLine_text_eq g⟩
  · intro line hline
    rcases parseLine_cases line with ⟨g, hg⟩ | hrejected
    · exact absurd hg (hline g)
    · exact hrejected
  · intro g g'
    rw [parseLine_text_eq, parseLine_text_eq, ← LogLine.parsed_eq_iff]
    constructor
    · exact fun h => Except.ok.inj h
    · exact fun h => congrArg Except.ok h

end NqmIrimager
