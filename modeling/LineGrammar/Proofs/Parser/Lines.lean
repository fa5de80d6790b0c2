import LineGrammar.Proofs.Parser.Step
import Mathlib.Data.List.Induction

/-!
How a parse makes the lines of a buffer known. A reader of the events who only
keeps in mind in which line he is, and whether that line has begun, is never
surprised: a line begins before anything is matched in it, it may begin again as
long as nothing has been consumed, it ends once, at its end, and then the next
line comes. So each line ends once and in order, and it has begun before, but
after the line above it had ended.
-/

namespace LineGrammar

def Event.lineEnded? : Event → Option Position
  | .lineEnded position => some position
  | _ => none

def Event.place? : Event → Option Position
  | .matched _ _ found => some found.start
  | .lineBegun position => some position
  | .lineEnded position => some position
  | _ => none

def Buffer.lineEnd (buffer : Buffer) (index : Nat) : Position :=
  ⟨index, Text.byteLength (buffer.textAt index)⟩

theorem Buffer.lineEnd_of_line {buffer : Buffer} {index : Nat} {line : Line}
    (found : buffer.line? index = some line) : buffer.lineEnd index = ⟨index, line.length⟩ := by
  rw [lineEnd, textAt, found]
  rfl

theorem Buffer.map_lineEnd (buffer : Buffer) :
    (List.range buffer.size).map buffer.lineEnd =
      buffer.lines.toList.mapIdx fun index line => ⟨index, line.length⟩ := by
  apply List.ext_getElem
  · simp [size]
  · intro index inside _
    have bound : index < buffer.lines.size := by simpa [size] using inside
    have found : buffer.line? index = some buffer.lines[index] := Array.getElem?_eq_getElem bound
    simp [lineEnd_of_line found]

/-- What a reader of events has in mind: in which line he is, and whether it has begun. -/
structure Reading where
  line : Nat
  begun : Bool
  deriving DecidableEq, Repr

namespace Reading

def step (buffer : Buffer) (reading : Reading) : Event → Option Reading
  | .lineBegun position =>
      if position = ⟨reading.line, 0⟩ then some { reading with begun := true } else none
  | .lineEnded position =>
      if reading.begun = true ∧ position = buffer.lineEnd reading.line then
        some ⟨reading.line + 1, false⟩
      else none
  | .matched _ _ found =>
      if reading.begun = true ∧ found.start.line = reading.line then some reading else none
  | .saved .. | .opened .. | .closed .. | .swapped .. => some reading

def run (buffer : Buffer) (reading : Reading) (events : List Event) : Option Reading :=
  events.foldlM (step buffer) reading

def start : Reading := ⟨0, false⟩

/-- Whether a reader has come by the beginning of a line. -/
def Past (reading : Reading) (index : Nat) : Prop :=
  index < reading.line ∨ index = reading.line ∧ reading.begun = true

variable {buffer : Buffer} {early late : Reading} {events before after : List Event} {event : Event}

theorem step_cases (read : early.step buffer event = some late) :
    (event = .lineBegun ⟨early.line, 0⟩ ∧ late = ⟨early.line, true⟩) ∨
    (event = .lineEnded (buffer.lineEnd early.line) ∧ early.begun = true ∧
      late = ⟨early.line + 1, false⟩) ∨
    ((∀ position ∈ event.place?, early.begun = true ∧ position.line = early.line) ∧
      event.lineEnded? = none ∧ late = early) := by
  cases event with
  | lineBegun position =>
      obtain ⟨rfl, same⟩ := Option.ite_none_right_eq_some.mp read
      exact .inl ⟨rfl, (Option.some.inj same).symm⟩
  | lineEnded position =>
      obtain ⟨⟨begun, rfl⟩, same⟩ := Option.ite_none_right_eq_some.mp read
      exact .inr (.inl ⟨rfl, begun, (Option.some.inj same).symm⟩)
  | matched scope rule found =>
      obtain ⟨⟨begun, line⟩, same⟩ := Option.ite_none_right_eq_some.mp read
      refine .inr (.inr ⟨?_, rfl, (Option.some.inj same).symm⟩)
      rintro position ⟨rfl⟩
      exact ⟨begun, line⟩
  | _ =>
      refine .inr (.inr ⟨?_, rfl, (Option.some.inj read).symm⟩)
      intro position named
      cases named

theorem step_mono (read : early.step buffer event = some late) :
    early.line ≤ late.line ∧ ∀ index, early.Past index → late.Past index := by
  rcases step_cases read with ⟨_, rfl⟩ | ⟨_, begun, rfl⟩ | ⟨_, _, rfl⟩
  · refine ⟨Nat.le_refl _, ?_⟩
    rintro index (above | ⟨here, _⟩)
    · exact .inl above
    · exact .inr ⟨here, rfl⟩
  · refine ⟨Nat.le_succ _, ?_⟩
    rintro index (above | ⟨here, _⟩)
    · exact .inl (Nat.lt_succ_of_lt above)
    · exact .inl (by simp only; omega)
  · exact ⟨Nat.le_refl _, fun _ past => past⟩

theorem step_place (read : early.step buffer event = some late) {position : Position}
    (named : event.place? = some position) :
    early.line = position.line ∧ late.Past position.line := by
  rcases step_cases read with ⟨rfl, rfl⟩ | ⟨rfl, begun, rfl⟩ | ⟨within, _, rfl⟩
  · cases named
    exact ⟨rfl, .inr ⟨rfl, rfl⟩⟩
  · cases named
    exact ⟨rfl, .inl (Nat.lt_succ_self _)⟩
  · obtain ⟨begun, line⟩ := within position named
    exact ⟨line.symm, .inr ⟨line, begun⟩⟩

theorem run_append (buffer : Buffer) (reading : Reading) (before after : List Event) :
    run buffer reading (before ++ after) =
      (run buffer reading before).bind (run buffer · after) := by
  unfold run
  rw [List.foldlM_append]
  rfl

theorem run_cons (buffer : Buffer) (reading : Reading) (event : Event) (after : List Event) :
    run buffer reading (event :: after) =
      (reading.step buffer event).bind (run buffer · after) := by
  unfold run
  rw [List.foldlM_cons]
  rfl

theorem run_concat (buffer : Buffer) (reading : Reading) (before : List Event) (event : Event) :
    run buffer reading (before ++ [event]) =
      (run buffer reading before).bind (step buffer · event) := by
  rw [run_append]
  congr 1
  funext middle
  rw [run_cons]
  exact Option.bind_fun_some _

theorem run_split (read : run buffer early (before ++ event :: after) = some late) :
    ∃ here there, run buffer early before = some here ∧ here.step buffer event = some there ∧
      run buffer there after = some late := by
  rw [run_append] at read
  obtain ⟨here, first, rest⟩ := Option.bind_eq_some_iff.mp read
  rw [run_cons] at rest
  obtain ⟨there, second, third⟩ := Option.bind_eq_some_iff.mp rest
  exact ⟨here, there, first, second, third⟩

theorem run_mono (read : run buffer early events = some late) :
    early.line ≤ late.line ∧ ∀ index, early.Past index → late.Past index := by
  induction events generalizing early with
  | nil =>
      cases read
      exact ⟨Nat.le_refl _, fun _ past => past⟩
  | cons event later induction =>
      rw [run_cons] at read
      obtain ⟨middle, first, rest⟩ := Option.bind_eq_some_iff.mp read
      obtain ⟨line, past⟩ := step_mono first
      obtain ⟨line', past'⟩ := induction rest
      exact ⟨Nat.le_trans line line', fun index here => past' index (past index here)⟩

/-- Whatever is read between two times happens in a line between those. -/
theorem run_place (read : run buffer early events = some late) (member : event ∈ events)
    {position : Position} (named : event.place? = some position) :
    early.line ≤ position.line ∧ late.Past position.line := by
  obtain ⟨before, after, rfl⟩ := List.append_of_mem member
  obtain ⟨here, there, first, second, third⟩ := run_split read
  obtain ⟨line, past⟩ := step_place second named
  constructor
  · rw [← line]
    exact (run_mono first).1
  · exact (run_mono third).2 position.line past

theorem ended_eq (read : run buffer start events = some late) :
    events.filterMap Event.lineEnded? = (List.range late.line).map buffer.lineEnd := by
  induction events using List.reverseRecOn generalizing late with
  | nil =>
      cases read
      rfl
  | append_singleton before event induction =>
      rw [run_concat] at read
      obtain ⟨middle, first, last⟩ := Option.bind_eq_some_iff.mp read
      rw [List.filterMap_append, induction first]
      rcases step_cases last with ⟨rfl, rfl⟩ | ⟨rfl, _, rfl⟩ | ⟨_, silent, rfl⟩
      · simp [Event.lineEnded?]
      · rw [List.range_succ, List.map_append]
        rfl
      · simp [silent]

/-- A line that the reader has come by has begun for the first time when the
reader had come to it but not by it. -/
theorem first_begun (read : run buffer start events = some late) {index : Nat}
    (past : late.Past index) :
    ∃ before after, events = before ++ .lineBegun ⟨index, 0⟩ :: after ∧
      run buffer start before = some ⟨index, false⟩ := by
  induction events using List.reverseRecOn generalizing late with
  | nil =>
      cases read
      rcases past with above | ⟨_, begun⟩
      · cases above
      · cases begun
  | append_singleton before event induction =>
      rw [run_concat] at read
      obtain ⟨middle, first, last⟩ := Option.bind_eq_some_iff.mp read
      by_cases already : middle.Past index
      · obtain ⟨front, back, parts, reached⟩ := induction first already
        refine ⟨front, back ++ [event], ?_, reached⟩
        rw [parts, List.append_assoc, List.cons_append]
      · rcases step_cases last with ⟨rfl, rfl⟩ | ⟨_, begun, rfl⟩ | ⟨_, _, rfl⟩
        · obtain ⟨line, begun⟩ := middle
          rcases past with above | ⟨rfl, _⟩
          · exact absurd (.inl above) already
          · have fresh : begun = false := by
              cases begun with
              | false => rfl
              | true => exact absurd (.inr ⟨rfl, rfl⟩) already
            rw [fresh] at first
            exact ⟨before, [], rfl, first⟩
        · apply absurd _ already
          rcases past with above | ⟨_, none⟩
          · rcases Nat.lt_succ_iff_lt_or_eq.mp above with less | same
            · exact .inl less
            · exact .inr ⟨same, begun⟩
          · cases none
        · exact absurd past already

end Reading

namespace Session

/-- Whether a reader of all events so far is in the line of the cursor, and has
come by its beginning unless the cursor stands there. -/
structure Followed (buffer : Buffer) (session : Session) : Prop where
  inBuffer : session.cursor.buffer = buffer
  valid : session.cursor.Valid
  read : ∃ begun, Reading.run buffer .start session.events.toList =
      some ⟨session.cursor.position.line, begun⟩ ∧
    (begun = false → session.cursor.position.column = 0)

variable {grammar : Grammar} {buffer : Buffer} {session before after : Session}
  {reading next : Reading} {may : Match → Prop} {sets : Bool → Prop}

theorem publish_read (read : Reading.run buffer .start session.events.toList = some reading)
    {event : Event} (fits : reading.step buffer event = some next) :
    Reading.run buffer .start (session.publish event).events.toList = some next := by
  rw [publish, Array.toList_push, Reading.run_concat, read]
  exact fits

theorem Changes.read (changes : Changes may sets before after)
    (read : Reading.run buffer .start before.events.toList = some reading) :
    Reading.run buffer .start after.events.toList = some reading := by
  apply changes.keep (fun session =>
    Reading.run buffer .start session.events.toList = some reading) _ read
  intro session next change read
  cases change with
  | save found allowed fresh => exact publish_read read rfl
  | openScope scope depth known => exact publish_read read rfl
  | closeScope => exact publish_read read rfl
  | swapScope scope known => exact publish_read read rfl
  | _ => exact read

theorem Followed.announceStart (followed : session.Followed buffer)
    (inside : session.cursor.atEnd = false) :
    Reading.run buffer .start session.announceStart.events.toList =
      some ⟨session.cursor.position.line, true⟩ := by
  obtain ⟨begun, read, fresh⟩ := followed.read
  unfold Session.announceStart
  split
  · rename_i atStart
    have column : session.cursor.position.column = 0 := by
      simpa [Cursor.atLineStart, inside] using atStart
    apply publish_read read
    rw [Reading.step, if_pos]
    rw [← column]
  · rename_i within
    cases begun with
    | true => exact read
    | false => simp [Cursor.atLineStart, inside, fresh rfl] at within

theorem followed_endLine (inBuffer : session.cursor.buffer = buffer) (valid : session.cursor.Valid)
    (read : Reading.run buffer .start session.events.toList =
      some ⟨session.cursor.position.line, true⟩) : session.endLine.Followed buffer := by
  unfold endLine
  split
  · rename_i ended
    obtain ⟨column, inside⟩ := valid.column_of_atLineEnd ended
    have next := Cursor.nextLine_position inside
    refine ⟨inBuffer, valid.onward_nextLine.valid, false, ?_, ?_⟩
    · change Reading.run _ _ _ = some ⟨session.cursor.nextLine.position.line, false⟩
      rw [next]
      apply publish_read read
      rw [Reading.step, if_pos]
      constructor
      · rfl
      · rw [Buffer.lineEnd, ← inBuffer]
        exact congrArg (Position.mk _) column
    · intro _
      exact congrArg Position.column next
  · exact ⟨inBuffer, valid, true, read, by simp⟩

theorem Step.followed (step : Step grammar sets before after)
    (inside : before.cursor.atEnd = false) (followed : before.Followed buffer) :
    after.Followed buffer := by
  have cursor := announceStart_cursor before
  have announced := followed.announceStart inside
  cases step with
  | skipped notes known refused relaxed =>
      unfold skipChar
      split
      · apply followed_endLine
        · rw [cursor, followed.inBuffer]
        · rw [cursor]
          exact followed.valid
        · rw [cursor]
          exact announced
      · rename_i ahead
        have within : before.cursor.atLineEnd = false := by
          rw [Bool.not_eq_true] at ahead
          exact cursor ▸ ahead
        obtain ⟨char, later, rest⟩ := followed.valid.char_ahead inside within
        obtain ⟨leads, place⟩ := followed.valid.advance_one rest
        apply followed_endLine
        · rw [cursor, leads.buffer, followed.inBuffer]
        · rw [cursor]
          exact leads.valid
        · rw [cursor, place]
          exact announced
  | @matched scope earlier later rule found last known listed accepted changes recorded =>
      have covers := rule.expr.covers_of_attempt followed.valid (Rule.attempt_of_match? accepted)
      have behind : last.cursor = (rule.expr.attempt before.cursor).cursor := changes.cursor_eq
      have leads : before.cursor.LeadsTo last.cursor := behind ▸ covers.leads
      apply followed_endLine
      · exact leads.buffer.trans followed.inBuffer
      · exact leads.valid
      · change Reading.run _ _ _ = some ⟨last.cursor.position.line, true⟩
        rw [leads.line]
        apply publish_read (changes.read announced)
        rw [Reading.step, if_pos]
        refine ⟨rfl, ?_⟩
        rw [rule.start_dress, covers.start]

end Session

theorem Parser.Visits.followed {parser : Parser} {buffer : Buffer} {session : Session}
    {sets : Bool → Prop} (visits : parser.Visits buffer session)
    (still : parser.grammar.Every (Rule.Still sets)) : session.Followed buffer := by
  apply visits.keep
  · intro entered entering
    have changes := Session.changes_of_enter (fun _ => True) (fun _ => True) entering
    have cursor : entered.cursor = ⟨buffer, .origin⟩ := changes.cursor_eq
    refine ⟨?_, ?_, false, ?_, ?_⟩
    · rw [cursor]
    · rw [cursor]
      exact Cursor.origin_valid buffer
    · rw [cursor]
      exact changes.read rfl
    · intro _
      rw [cursor]
      rfl
  · rintro before after _ ⟨inside, made⟩ followed
    exact (Session.round_step still followed.valid made).followed inside followed

/-- A parse that succeeds and whose callbacks do not move the cursor makes known
that each line ends, once and in order. Before that, but after the line above has
ended, it makes known that the line begins, and only then what it matches there. -/
theorem Parser.lines_begin_and_end_in_order (builder : Builder) (grammar : Grammar)
    (built : builder.build = .ok grammar)
    (confined : builder.Every (Entry.Confined fun mnemonic _ => mnemonic.KeepsPlace))
    (config : Config) (buffer : Buffer) (tree : Tree)
    (parsed : (Parser.parseBuffer ⟨grammar, config⟩ buffer).result = .ok tree) :
    let events := (Parser.parseBuffer ⟨grammar, config⟩ buffer).events.toList
    (events.filterMap Event.lineEnded? =
      buffer.lines.toList.mapIdx fun index line => ⟨index, line.length⟩) ∧
    ∀ index line, buffer.line? index = some line →
      (∃ before after, events = before ++ .lineBegun ⟨index, 0⟩ :: after ∧
        (∀ column, .lineBegun ⟨index, column⟩ ∉ before) ∧
        (∀ previous above, index = previous + 1 → buffer.line? previous = some above →
          .lineEnded ⟨previous, above.length⟩ ∈ before) ∧
        ∀ scope rule found, .matched scope rule found ∈ before → found.start.line ≠ index) ∧
      ∀ before after position, events = before ++ .lineEnded ⟨index, line.length⟩ :: after →
        .lineBegun position ∈ after → position.line ≠ index := by
  intro events
  have still : grammar.Every (Rule.Still fun _ => True) := by
    apply Builder.still_of_build confined built
    · intro mnemonic _ keeps
      exact keeps
    · trivial
    · intro _ _
      trivial
  obtain ⟨final, visits, ended, _, told⟩ := visits_of_parseBuffer parsed
  have followed := visits.followed still
  obtain ⟨begun, read, _⟩ := followed.read
  have place : final.cursor.position.line = buffer.size := by
    rw [followed.valid.atEnd_eq ended, followed.inBuffer]
    rfl
  rw [place, ← told] at read
  have read : Reading.run buffer .start events = some ⟨buffer.size, begun⟩ := read
  refine ⟨(Reading.ended_eq read).trans buffer.map_lineEnd, ?_⟩
  intro index line found
  have bound : index < buffer.size := (Array.getElem?_eq_some_iff.mp found).1
  constructor
  · obtain ⟨before, after, parts, reached⟩ := Reading.first_begun read (.inl bound)
    -- The reader who has come to the line but not by its beginning knows what was before.
    have notPast : ¬(⟨index, false⟩ : Reading).Past index := by simp [Reading.Past]
    refine ⟨before, after, parts, ?_, ?_, ?_⟩
    · intro column member
      exact notPast (Reading.run_place reached member rfl).2
    · intro previous above next aboveFound
      have listed : buffer.lineEnd previous ∈ before.filterMap Event.lineEnded? := by
        rw [Reading.ended_eq reached]
        apply List.mem_map_of_mem
        rw [List.mem_range]
        simp only
        omega
      rw [Buffer.lineEnd_of_line aboveFound] at listed
      obtain ⟨event, member, same⟩ := List.mem_filterMap.mp listed
      cases event with
      | lineEnded position =>
          cases same
          exact member
      | _ => cases same
    · intro scope rule matched member same
      apply notPast
      have past := (Reading.run_place reached member rfl).2
      rwa [same] at past
  · intro before after position parts member same
    rw [parts] at read
    obtain ⟨here, there, _, last, rest⟩ := Reading.run_split read
    have later := (Reading.run_place rest member rfl).1
    rcases Reading.step_cases last with ⟨other, _⟩ | ⟨ends, _, rfl⟩ | ⟨_, silent, _⟩
    · cases other
    · have above : index = here.line := congrArg Position.line (Event.lineEnded.inj ends)
      simp only at later
      omega
    · cases silent

/-- A scope that is opened at the start of a line makes the line begin twice; an
empty line begins and ends as well. -/
theorem Parser.opened_line_begins_twice :
    let body := Expr.leaf none "[a-z]*" (Regex.compile? "[a-z]*" false)
    let builder := ({} : Builder)
      |>.scope "main" [RuleSpec.always.instruct "open" [.text "body"]]
      |>.scope "body" [⟨.given body, [⟨"close", []⟩]⟩]
    let grammar : Grammar :=
      ⟨[⟨"main", [{ Rule.always with callbacks := [.perform (.openScope "body")] }], false⟩,
        ⟨"body", [{ expr := body, callbacks := [.perform (.closeScopes 1)] }], false⟩]⟩
    let buffer := Buffer.ofLines ["ab", ""]
    let tree : Tree := ⟨#[⟨"main", none, 0, #[.scope 1, .scope 2], []⟩,
      ⟨"body", some 0, 1, #[], []⟩, ⟨"body", some 0, 1, #[], []⟩]⟩
    let config : Config := { recordAll := false }
    builder.build = .ok grammar ∧
      (Parser.parseBuffer ⟨grammar, config⟩ buffer).result = .ok tree ∧
      ((Parser.parseBuffer ⟨grammar, config⟩ buffer).events.toList.filter fun event =>
          event.place?.isSome && event.matched?.isNone) =
        [.lineBegun ⟨0, 0⟩, .lineBegun ⟨0, 0⟩, .lineEnded ⟨0, 2⟩, .lineBegun ⟨1, 0⟩,
          .lineEnded ⟨1, 0⟩] ∧
      ∃ before after, (Parser.parseBuffer ⟨grammar, config⟩ buffer).events.toList =
          before ++ .lineBegun ⟨1, 0⟩ :: after ∧
        .lineEnded ⟨0, 2⟩ ∈ before := by
  intro body builder grammar buffer tree config
  have built : builder.build = .ok grammar := rfl
  have confined : builder.Every (Entry.Confined fun mnemonic _ => mnemonic.KeepsPlace) := by
    decide +kernel
  have parsed : (Parser.parseBuffer ⟨grammar, config⟩ buffer).result = .ok tree := by
    decide +kernel
  have lines := lines_begin_and_end_in_order builder grammar built confined config buffer tree
    parsed
  have first : buffer.line? 0 = some ⟨['a', 'b'], 0, 0, .none, false⟩ := by decide
  have second : buffer.line? 1 = some ⟨[], 1, 2, .none, true⟩ := by decide
  obtain ⟨⟨before, after, parts, _, above, _⟩, _⟩ := lines.2 1 _ second
  refine ⟨built, parsed, by decide +kernel, before, after, parts, ?_⟩
  exact above 0 _ rfl first

end LineGrammar
