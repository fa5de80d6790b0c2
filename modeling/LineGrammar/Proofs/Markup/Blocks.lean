import LineGrammar.Proofs.Buffer.Plain
import LineGrammar.Proofs.Expr.Leaf
import LineGrammar.Proofs.Markup.Places
import LineGrammar.Proofs.Parser.Endings
import LineGrammar.Proofs.Parser.Turns

/-!
Every text is a text of blocks. A rule passes over some of the text, or leads to
the end of a line, or leaves a block for the main scope, where the next round
does pass over something. The contents of a quote are shorter than the text they
come from, so that quotes in quotes come to an end.
-/

namespace LineGrammar.Markup.Blocks

namespace Place

/-- The steps in place that are left: a block can be left. -/
def steps : Place → Nat
  | .main => 0
  | _ => 1

theorem steps_le (place : Place) : place.steps ≤ 1 := by
  cases place <;> simp [steps]

/-- Whether the contents of quoted lines, at least one in a quote, are lines, and
together with what is left no longer than the text. -/
structure Fits (place : Place) (cursor : Cursor) : Prop where
  valid : cursor.Valid
  plain : cursor.buffer.Plain
  begun : place ≠ .quote []
  single : ∀ text ∈ place.texts, '\n' ∉ text.toList
  room : Buffer.rawCount place.texts + cursor.remaining ≤ cursor.buffer.charCount

variable {place next : Place} {cursor after : Cursor}

theorem Fits.onward (fits : place.Fits cursor) (onward : cursor.Onward after) :
    place.Fits after := by
  have least := onward.remaining_le
  have room := fits.room
  refine ⟨onward.valid, ?_, fits.begun, fits.single, ?_⟩
  · rw [onward.buffer]
    exact fits.plain
  · rw [onward.buffer]
    omega

theorem Fits.of_unquoted (fits : place.Fits cursor) (unquoted : next.isQuote = false) :
    next.Fits cursor := by
  have empty : next.texts = [] := by
    cases next with
    | quote texts => cases unquoted
    | _ => rfl
  refine ⟨fits.valid, fits.plain, ?_, ?_, ?_⟩
  · rintro rfl
    cases unquoted
  · simp [empty]
  · have most := cursor.remaining_le_charCount
    rw [empty, Buffer.rawCount]
    omega

theorem Fits.append {line : List Char} (fits : place.Fits cursor) (onward : cursor.Onward after)
    (inside : ∀ char ∈ line, char ∈ cursor.rest)
    (passed : after.remaining + (line.length + 1) ≤ cursor.remaining) :
    Fits (.quote (place.texts ++ [String.ofList line])) after := by
  have room := fits.room
  have single : '\n' ∉ line := fun member => Cursor.plain_rest fits.plain (inside _ member)
  refine ⟨onward.valid, (fits.onward onward).plain, by simp, ?_, ?_⟩
  · intro text member
    rcases List.mem_append.mp member with earlier | last
    · exact fits.single text earlier
    · rw [List.mem_singleton.mp last, String.toList_ofList]
      exact single
  · have count : Buffer.rawCount [String.ofList line] = line.length + 1 := by
      simp [Buffer.rawCount]
    rw [onward.buffer, Place.texts, Buffer.rawCount_append, count]
    omega

end Place

variable {parse : Cursor → Outcome} {place : Place} {session : Session}

/-- What the callbacks of a rule lead to: a place from which the parse goes on,
with some of the text passed over, or at the end of a line, or with fewer steps in
place. -/
def Leads (parse : Cursor → Outcome) (place : Place) (before : Cursor) (after : Session) : Prop :=
  ∃ next, Stands parse after.cursor next after ∧ next.Fits after.cursor ∧
    before.Onward after.cursor ∧
    (after.cursor.remaining < before.remaining ∨ after.cursor.atLineEnd = true ∨
      next.steps < place.steps)

theorem leads_of_stands {before cursor : Cursor} {next : Place} {after : Session}
    (stands : Stands parse cursor next after) (fits : next.Fits cursor)
    (onward : before.Onward cursor)
    (gains : cursor.remaining < before.remaining ∨ cursor.atLineEnd = true ∨
      next.steps < place.steps) : Leads parse place before after := by
  cases stands.cursor
  exact ⟨next, stands, fits, onward, gains⟩

theorem leads_enduring (before : Cursor) : Session.Enduring (Leads parse place before) := by
  constructor
  · rintro session ⟨next, stands, _⟩
    exact stands.sound
  · rintro session after ⟨next, stands, fits, onward, gains⟩ same
    exact leads_of_stands (stands.unmoved same) fits onward gains

theorem serves_of_consumes {rule : Rule} (consuming : rule.expr.consumes = true)
    (stands : Stands parse session.cursor place session) (fits : place.Fits session.cursor)
    (calls : ∀ found behind, Stands parse behind.cursor place behind →
      Action.Succeeds (Rule.runCallbacks found rule.callbacks behind) fun after =>
        ∃ next, Stands parse behind.cursor next after ∧ next.isQuote = false) :
    rule.Serves session (Leads parse place session.cursor) := by
  intro found accepted behind cursor context
  have outcome := Rule.attempt_of_match? accepted
  have less := Expr.remaining_lt_of_consumes consuming fits.valid outcome
  have onward := (rule.expr.covers_of_attempt fits.valid outcome).leads.to_onward fits.valid
  rw [← cursor] at less onward
  apply (calls (rule.dress found) behind (stands.moved context)).imp
  rintro after ⟨next, stands, unquoted⟩
  exact leads_of_stands stands ((fits.onward onward).of_unquoted unquoted) onward (.inl less)

theorem serves_of_saving {rule : Rule} (consuming : rule.expr.consumes = true)
    (saving : rule.callbacks = [.save]) (unquoted : place.isQuote = false)
    (stands : Stands parse session.cursor place session) (fits : place.Fits session.cursor) :
    rule.Serves session (Leads parse place session.cursor) := by
  apply serves_of_consumes consuming stands fits
  intro found behind stands
  rw [saving]
  apply Rule.succeeds_one
  exact (stands.saves found).imp fun _ saved => ⟨place, saved, unquoted⟩

theorem serves_of_leaving {rule : Rule} (anywhere : rule.expr = .always) (inside : place ≠ .main)
    (stands : Stands parse session.cursor place session) (fits : place.Fits session.cursor)
    (calls : ∀ found behind, Stands parse behind.cursor place behind →
      Action.Succeeds (Rule.runCallbacks found rule.callbacks behind)
        (Stands parse behind.cursor .main)) :
    rule.Serves session (Leads parse place session.cursor) := by
  intro found accepted behind cursor context
  rw [anywhere, Expr.cursor_of_always fits.valid] at cursor
  apply (calls (rule.dress found) behind (stands.moved context)).imp
  intro after stands
  have fewer : Place.main.steps < place.steps := by
    cases place with
    | main => exact absurd rfl inside
    | _ => exact Nat.zero_lt_one
  rw [cursor] at stands
  exact leads_of_stands stands (fits.of_unquoted rfl) fits.valid.onward_self (.inr (.inr fewer))

/-- The only group of a quoted line stands behind the mark and a space. -/
theorem compile_quoted : ∃ regex lead body,
    Regex.compile? "^>\\s?(.*)" false = some regex ∧ lead.consumes = true ∧ regex.groups = 1 ∧
      @Regex.Program.run Regex.Captures regex.program =
        Regex.Program.run (.seq lead (.group 1 body)) :=
  ⟨_, .seq (.look .textStart) (.seq (.chars (.single '>'))
    (.branch 0 (.seq (.chars (.named .white)) .empty) .empty)), _, rfl, rfl, rfl, rfl⟩

theorem serves_quoted {callbacks : List Callback}
    (stands : Stands parse session.cursor place session) (fits : place.Fits session.cursor)
    (calls : ∀ found behind, Stands parse behind.cursor place behind →
      Action.Succeeds (Rule.runCallbacks found callbacks behind)
        (Stands parse behind.cursor (.quote (place.texts ++ [groupText found 1])))) :
    (quoted callbacks).Serves session (Leads parse place session.cursor) := by
  intro found accepted behind cursor context
  have outcome := Rule.attempt_of_match? accepted
  have onward := ((quoted callbacks).expr.covers_of_attempt fits.valid outcome).leads.to_onward
    fits.valid
  obtain ⟨regex, lead, body, isRegex, consuming, only, ending⟩ := compile_quoted
  have expr : (quoted callbacks).expr = .leaf none "^>\\s?(.*)" (some regex) := by
    rw [← isRegex]
    rfl
  rw [expr] at outcome cursor onward
  obtain ⟨extent, line, isFound, inside, passed⟩ :=
    Expr.leaf_group_last fits.valid consuming only ending outcome
  rw [← cursor] at onward passed
  have contents : groupText ((quoted callbacks).dress found) 1 = String.ofList line := by
    rw [isFound]
    rfl
  apply (calls ((quoted callbacks).dress found) behind (stands.moved context)).imp
  intro after stands
  rw [contents] at stands
  have less : behind.cursor.remaining < session.cursor.remaining := by omega
  exact leads_of_stands stands (fits.append onward inside passed) onward (.inl less)

theorem line_matches {cursor : Cursor} (fits : place.Fits cursor) (inside : cursor.atEnd = false) :
    (∃ found, ((pattern ".*").attempt cursor).result = .ok found) ∧
      ((pattern ".*").attempt cursor).cursor.atLineEnd = true := by
  obtain ⟨regex, isRegex, loop⟩ : ∃ regex, Regex.compile? ".*" false = some regex ∧
      regex.program = .star 0 true (.chars (.complement (.single '\n'))) := ⟨_, rfl, rfl⟩
  obtain ⟨line, found⟩ := Cursor.line_of_atEnd inside
  rw [pattern, isRegex]
  apply Expr.leaf_take_all fits.valid found loop
  intro char member
  have other : char ≠ '\n' := by
    rintro rfl
    exact Cursor.plain_rest fits.plain member
  simp only [Regex.CharClass.contains, Regex.CharClass.single, Bool.not_eq_true',
    Bool.and_eq_false_iff, decide_eq_false_iff_not]
  by_contra neither
  rw [not_or, not_not, not_not] at neither
  exact other (Char.le_antisymm neither.2 neither.1)

/-- Whether lines that hold less than a buffer are parsed. -/
def Parses (parse : Cursor → Outcome) (buffer : Buffer) : Prop :=
  ∀ lines, (∀ line ∈ lines, '\n' ∉ line.toList) →
    (Buffer.ofLines lines).charCount < buffer.charCount →
    ∃ tree, (parse ⟨.ofLines lines, .origin⟩).result = .ok tree

/-- The contents of a quote hold less than the text around it, as long as some of
that is left. -/
theorem Place.Fits.less_quoted {texts : List String} {cursor : Cursor}
    (fits : (Place.quote texts).Fits cursor) (inside : cursor.atEnd = false) :
    (Buffer.ofLines texts).charCount < cursor.buffer.charCount := by
  have most := @Buffer.charCount_ofLines_le texts fits.single
  have room := fits.room
  have some := Cursor.remaining_pos inside
  rw [Place.texts] at room
  omega

theorem Place.Fits.quote_parses {texts : List String} {cursor : Cursor}
    (fits : (Place.quote texts).Fits cursor) (inside : cursor.atEnd = false)
    (parses : Parses parse cursor.buffer) :
    ∃ tree, (parse ⟨.ofLines texts, .origin⟩).result = .ok tree :=
  parses texts fits.single (fits.less_quoted inside)

theorem main_serves (stands : Stands parse session.cursor .main session)
    (fits : Place.main.Fits session.cursor) :
    ∀ rule ∈ mainScope.rules, rule.Serves session (Leads parse .main session.cursor) := by
  intro rule member
  simp only [mainScope, List.mem_cons, List.not_mem_nil, or_false] at member
  rcases member with rfl | rfl | rfl | rfl | rfl | rfl
  -- Headings and rules.
  · exact serves_of_saving (by decide +kernel) rfl rfl stands fits
  · exact serves_of_saving (by decide +kernel) rfl rfl stands fits
  -- Fenced code.
  · apply serves_of_consumes (by decide +kernel) stands fits
    intro found behind stands
    apply Rule.succeeds_cons
    apply (stands.opens rfl .code rfl rfl fun _ _ => trivial).imp
    intro opened stands
    apply Rule.succeeds_one
    exact (stands.keepsLanguage found).imp fun _ kept => ⟨.code, kept, rfl⟩
  -- Quotes.
  · apply serves_quoted stands fits
    intro found behind stands
    apply Rule.succeeds_cons
    apply (stands.opens rfl (.quote []) rfl rfl fun _ fresh => ⟨fresh _, fresh _⟩).imp
    intro opened stands
    apply Rule.succeeds_one
    exact stands.quotes found
  -- Lists.
  · apply serves_of_consumes (by decide +kernel) stands fits
    intro found behind stands
    apply Rule.succeeds_one
    apply (@Stands.opensList parse _ behind 0 stands (markerIndent found) (by simp)).imp
    intro after stands
    exact ⟨.list 0, stands, rfl⟩
  -- Paragraphs.
  · apply serves_of_consumes (by decide +kernel) stands fits
    intro found behind stands
    apply Rule.succeeds_cons
    apply (stands.opens rfl .para rfl rfl fun _ _ => trivial).imp
    intro opened stands
    apply Rule.succeeds_one
    exact (stands.saves found).imp fun _ saved => ⟨.para, saved, rfl⟩

theorem para_serves (stands : Stands parse session.cursor .para session)
    (fits : Place.para.Fits session.cursor) :
    ∀ rule ∈ paraScope.rules, rule.Serves session (Leads parse .para session.cursor) := by
  intro rule member
  simp only [paraScope, List.mem_cons, List.not_mem_nil, or_false] at member
  rcases member with rfl | rfl | rfl
  · apply serves_of_leaving rfl (by simp) stands fits
    intro found behind stands
    apply Rule.succeeds_one
    apply Script.succeeds_act
    apply (@Stands.closes _ _ _ _ "para" 0 stands rfl rfl).imp
    intro after stands
    exact ⟨after, rfl, stands⟩
  · exact serves_of_saving (by decide +kernel) rfl rfl stands fits
  · apply serves_of_leaving rfl (by simp) stands fits
    intro found behind stands
    apply Rule.succeeds_one
    exact @Stands.closes _ _ _ _ "para" 0 stands rfl rfl

theorem code_serves (stands : Stands parse session.cursor .code session)
    (fits : Place.code.Fits session.cursor) (inside : session.cursor.atEnd = false) :
    ∀ rule ∈ codeScope.rules, rule.Serves session (Leads parse .code session.cursor) := by
  intro rule member
  simp only [codeScope, List.mem_cons, List.not_mem_nil, or_false] at member
  rcases member with rfl | rfl
  · apply serves_of_consumes (by decide +kernel) stands fits
    intro found behind stands
    apply Rule.succeeds_one
    exact (@Stands.closes _ _ _ _ "code" 0 stands rfl rfl).imp fun _ closed =>
      ⟨.main, closed, rfl⟩
  -- A line of code may be empty, but its end is passed over.
  · intro found accepted behind cursor context
    have outcome := Rule.attempt_of_match? accepted
    have onward := (Expr.covers_of_attempt fits.valid outcome).leads.to_onward fits.valid
    have ended := (line_matches fits inside).2
    rw [← cursor] at onward
    apply Rule.succeeds_one
    apply ((stands.moved context).saves _).imp
    intro after stands
    apply leads_of_stands stands (fits.onward onward) onward (.inr (.inl _))
    rw [cursor]
    exact ended

theorem quote_serves {texts : List String}
    (stands : Stands parse session.cursor (.quote texts) session)
    (fits : (Place.quote texts).Fits session.cursor) (inside : session.cursor.atEnd = false)
    (parses : Parses parse session.cursor.buffer) :
    ∀ rule ∈ quoteScope.rules,
      rule.Serves session (Leads parse (.quote texts) session.cursor) := by
  intro rule member
  simp only [quoteScope, List.mem_cons, List.not_mem_nil, or_false] at member
  rcases member with rfl | rfl
  · apply serves_quoted stands fits
    intro found behind stands
    apply Rule.succeeds_one
    exact stands.quotes found
  · obtain ⟨tree, parsed⟩ := fits.quote_parses inside parses
    apply serves_of_leaving rfl (by simp) stands fits
    intro found behind stands
    apply Rule.succeeds_one
    exact stands.endsQuote (fun none => fits.begun (none ▸ rfl)) fits.single parsed

theorem list_serves {outer : Nat} (stands : Stands parse session.cursor (.list outer) session)
    (fits : (Place.list outer).Fits session.cursor) :
    ∀ rule ∈ listScope.rules,
      rule.Serves session (Leads parse (.list outer) session.cursor) := by
  intro rule member
  simp only [listScope, List.mem_cons, List.not_mem_nil, or_false] at member
  rcases member with rfl | rfl | rfl
  · apply serves_of_consumes (by decide +kernel) stands fits
    intro found behind stands
    apply Rule.succeeds_one
    apply (stands.marks found).imp
    rintro after ⟨count, stands⟩
    exact ⟨.list count, stands, rfl⟩
  · apply serves_of_consumes (by decide +kernel) stands fits
    intro found behind stands
    exact ⟨behind, rfl, .list outer, stands, rfl⟩
  · apply serves_of_leaving rfl (by simp) stands fits
    intro found behind stands
    apply Rule.succeeds_one
    exact stands.closesLists

/-- Before the end of the buffer, every rule that matches leads on. -/
theorem serves (stands : Stands parse session.cursor place session)
    (fits : place.Fits session.cursor) (inside : session.cursor.atEnd = false)
    (parses : Parses parse session.cursor.buffer) :
    ∀ rule ∈ place.scope.rules, rule.Serves session (Leads parse place session.cursor) := by
  cases place with
  | main => exact main_serves stands fits
  | para => exact para_serves stands fits
  | code => exact code_serves stands fits inside
  | quote texts => exact quote_serves stands fits inside parses
  | list outer => exact list_serves stands fits

theorem matches_of_strict (stands : Stands parse session.cursor place session)
    (fits : place.Fits session.cursor) (inside : session.cursor.atEnd = false)
    (strict : session.context.isStrict session.context.scopeName = true) :
    ∃ rule ∈ place.scope.rules, rule.match? session.cursor session.context ≠ none := by
  rw [stands.isStrict] at strict
  cases place with
  | code =>
      obtain ⟨found, outcome⟩ := (line_matches fits inside).1
      refine ⟨_, List.mem_cons_of_mem _ (List.mem_singleton.mpr rfl), ?_⟩
      simp [Rule.match?, outcome]
  | _ => cases strict

theorem turn (stands : Stands parse session.cursor place session)
    (fits : place.Fits session.cursor) (inside : session.cursor.atEnd = false)
    (parses : Parses parse session.cursor.buffer) :
    ∃ next after, Session.round compiled session = .ok () after ∧
      Stands parse after.cursor next after ∧ next.Fits after.cursor ∧
      session.cursor.Onward after.cursor ∧
      (after.cursor.remaining < session.cursor.remaining ∨ next.steps < place.steps) := by
  have served := Session.round_of_serves (leads_enduring session.cursor) fits.valid inside
    stands.known (serves stands fits inside parses) (matches_of_strict stands fits inside)
  rcases served with ⟨after, skipped, same, onward, less⟩ |
    ⟨last, made, next, stands', fits', onward, gains⟩
  · exact ⟨place, after, skipped, stands.moved same, fits.onward onward, onward, .inl less⟩
  · have further := (Session.endLine_along Cursor.way_onward fits'.valid).cursor
    refine ⟨next, last.endLine, made, stands'.moved (Session.endLine_context last),
      fits'.onward further, onward.trans further, ?_⟩
    rcases gains with less | ended | fewer
    · exact .inl (Nat.lt_of_le_of_lt further.remaining_le less)
    · have less := Session.endLine_remaining_lt fits'.valid ended
      exact .inl (Nat.lt_of_lt_of_le less onward.remaining_le)
    · exact .inr fewer

def Standing (parse : Cursor → Outcome) (buffer : Buffer) (steps : Nat) (session : Session) :
    Prop :=
  session.cursor.buffer = buffer ∧ ∃ place, place.steps = steps ∧
    Stands parse session.cursor place session ∧ place.Fits session.cursor

theorem advancing {buffer : Buffer} (parses : Parses parse buffer) :
    Session.Advancing compiled 1 (Standing parse buffer) := by
  constructor
  · rintro _ session ⟨_, place, rfl, stands, _⟩
    have limit : (compiled.setting {} parse).config.maxStall = 1000 := rfl
    refine ⟨place.steps_le, ?_⟩
    rw [stands.setting, limit]
    decide
  · rintro _ session ⟨rfl, place, rfl, stands, fits⟩ inside
    obtain ⟨next, after, made, stands', fits', onward, gains⟩ := turn stands fits inside parses
    exact ⟨next.steps, after, made, ⟨onward.buffer, next, rfl, stands', fits'⟩, onward, gains⟩

theorem standing_opening {buffer : Buffer} (plain : buffer.Plain) (extra depth : Nat) :
    Standing (compiled.drive {} extra depth) buffer 0
      (compiled.opening {} extra depth ⟨buffer, .origin⟩) := by
  have sound := @Session.begin_sound
    (compiled.setting {} (compiled.drive {} extra depth)) rfl ⟨buffer, .origin⟩
  have most := Cursor.remaining_le_charCount ⟨buffer, .origin⟩
  have fits : Place.main.Fits ⟨buffer, .origin⟩ :=
    ⟨Cursor.origin_valid buffer, plain, by simp, by simp [Place.texts],
      by simpa [Place.texts, Buffer.rawCount] using most⟩
  refine ⟨rfl, .main, rfl, ⟨⟨rfl, rfl, rfl, sound, rfl⟩, trivial, ?_⟩, fits⟩
  intro id bound other
  exact absurd (Nat.lt_one_iff.mp bound) other

/-- As many levels as there are characters, and one more, are enough for the parse
of a buffer. -/
theorem drive_parses {buffer : Buffer} (plain : buffer.Plain) (extra : Nat) {depth : Nat}
    (enough : buffer.charCount < depth) :
    ∃ tree, (compiled.drive {} extra depth ⟨buffer, .origin⟩).result = .ok tree := by
  induction depth generalizing buffer with
  | zero => omega
  | succ depth induction =>
      -- What is quoted holds less, so the levels that are left are enough for it.
      have parses : Parses (compiled.drive {} extra depth) buffer := by
        intro lines single less
        exact induction (Buffer.plain_ofLines single) (by omega)
      apply (advancing parses).drive_ok _ rfl rfl (standing_opening plain extra depth)
      rintro _ final ⟨_, _, _, stands, _⟩
      rw [stands.setting]
      rfl

theorem source_parses {source : Source} {buffer : Buffer} (loaded : source.load = .ok buffer)
    (plain : buffer.Plain) :
    ∃ outcome tree, (Parser.new compiled).parseSource source = .ok outcome ∧
      outcome.result = .ok tree := by
  obtain ⟨outcome, parsed, result, _⟩ := (Parser.new compiled).parseSource_of_load loaded
  obtain ⟨tree, done⟩ := drive_parses plain (Budget.ample buffer).extra
    (Nat.lt_add_of_pos_right (by decide : 0 < 0x10000))
  exact ⟨outcome, tree, parsed, result.trans done⟩

theorem standing_of_reaches {buffer : Buffer} (plain : buffer.Plain) {extra depth : Nat}
    (enough : buffer.charCount ≤ depth)
    (reaches : Session.Reaches compiled (compiled.opening {} extra depth ⟨buffer, .origin⟩)
      session) :
    Parses (compiled.drive {} extra depth) buffer ∧
      ∃ steps, Standing (compiled.drive {} extra depth) buffer steps session := by
  have parses : Parses (compiled.drive {} extra depth) buffer := by
    intro lines single less
    exact drive_parses (Buffer.plain_ofLines single) extra (by omega)
  exact ⟨parses, (advancing parses).reaches (standing_opening plain extra depth) reaches⟩

theorem quote_parses {buffer : Buffer} (plain : buffer.Plain) {extra depth : Nat}
    (enough : buffer.charCount ≤ depth)
    (reaches : Session.Reaches compiled (compiled.opening {} extra depth ⟨buffer, .origin⟩) session)
    (inside : session.cursor.atEnd = false) (isQuote : session.context.scopeName = "quote") :
    (∀ line ∈ quotedLines session.context, '\n' ∉ line.toList) ∧
      (Buffer.ofLines (quotedLines session.context)).charCount < buffer.charCount ∧
      ∃ tree, (session.context.setting.nested (quotedLines session.context)).result = .ok tree := by
  obtain ⟨parses, _, rfl, place, _, stands, fits⟩ := standing_of_reaches plain enough reaches
  rw [stands.scopeName] at isQuote
  cases place with
  | quote texts =>
      rw [stands.quotedLines_eq, stands.setting]
      exact ⟨fits.single, fits.less_quoted inside, fits.quote_parses inside parses⟩
  | _ => exact absurd isQuote (by simp [Place.scope, mainScope, paraScope, codeScope, listScope])

/-- The grammar of blocks is built, and parses with it do not fail. Lines without
line feeds are parsed, and every text is. No parse needs rounds to spare, nor more
levels of parses inside parses than its buffer has characters: wherever the rules
of a quote are tried, the quoted lines make a smaller buffer, and their parse
succeeds as well. -/
theorem every_text_parses :
    ∃ built, grammar = .ok built ∧
      (∀ lines : List String, (∀ line ∈ lines, '\n' ∉ line.toList) →
        ∃ outcome tree, (Parser.new built).parseSource (.lines lines) = .ok outcome ∧
          outcome.result = .ok tree) ∧
      (∀ text : String, ∃ outcome tree, (Parser.new built).parseSource (.text text) = .ok outcome ∧
        outcome.result = .ok tree) ∧
      ∀ (buffer : Buffer) (extra depth : Nat), (∀ line ∈ buffer.lines, '\n' ∉ line.text) →
        buffer.charCount ≤ depth →
        (∃ tree, (built.drive {} extra (depth + 1) ⟨buffer, .origin⟩).result = .ok tree) ∧
        ∀ session, Session.Reaches built (built.opening {} extra depth ⟨buffer, .origin⟩) session →
          session.cursor.atEnd = false → session.context.scopeName = "quote" →
          (∀ line ∈ quotedLines session.context, '\n' ∉ line.toList) ∧
          (Buffer.ofLines (quotedLines session.context)).charCount < buffer.charCount ∧
          ∃ tree, (session.context.setting.nested (quotedLines session.context)).result =
            .ok tree := by
  refine ⟨compiled, grammar_eq, ?_, ?_, ?_⟩
  · intro lines single
    exact source_parses rfl (Buffer.plain_ofLines single)
  · intro text
    exact source_parses rfl (Buffer.plain_ofText text)
  · intro buffer extra depth plain enough
    refine ⟨drive_parses plain extra (Nat.lt_succ_of_le enough), ?_⟩
    intro session reaches inside isQuote
    exact quote_parses plain enough reaches inside isQuote

def quoteInQuote : Session := compiled.opening {} 0 8 ⟨.ofLines ["> > a", "b"], .origin⟩

/-- After the first round the outer quote is open, with a quote for its contents. -/
theorem quote_in_quote_parses :
    ∃ built, grammar = .ok built ∧
      (∀ line ∈ ["> > a", "b"], '\n' ∉ line.toList) ∧
      (∃ outcome tree, (Parser.new built).parseSource (.lines ["> > a", "b"]) = .ok outcome ∧
        outcome.result = .ok tree) ∧
      ∃ session, Session.Reaches built
          (built.opening {} 0 8 ⟨.ofLines ["> > a", "b"], .origin⟩) session ∧
        quotedLines session.context = ["> a"] ∧
        ∃ tree, (session.context.setting.nested ["> a"]).result = .ok tree := by
  obtain ⟨built, isBuilt, lines, _, nested⟩ := every_text_parses
  have single : ∀ line ∈ ["> > a", "b"], '\n' ∉ line.toList := by decide
  refine ⟨built, isBuilt, single, lines _ single, ?_⟩
  rw [grammar_eq] at isBuilt
  cases isBuilt
  have inside : (Action.final (Session.round compiled quoteInQuote)).cursor.atEnd = false := by
    decide +kernel
  have isQuote : (Action.final (Session.round compiled quoteInQuote)).context.scopeName =
      "quote" := by
    decide +kernel
  have contents : quotedLines (Action.final (Session.round compiled quoteInQuote)).context =
      ["> a"] := by
    decide +kernel
  have succeeds : (match Session.round compiled quoteInQuote with
    | .ok _ _ => true
    | .error _ _ => false) = true := by
    decide +kernel
  cases made : Session.round compiled quoteInQuote with
  | error error after =>
      rw [made] at succeeds
      cases succeeds
  | ok value after =>
      rw [made] at inside isQuote contents
      have reaches : Session.Reaches compiled quoteInQuote after :=
        .single ⟨by decide +kernel, made⟩
      obtain ⟨_, _, tree, parsed⟩ := (nested (.ofLines ["> > a", "b"]) 0 8 (by decide)
        (by decide)).2 after reaches inside isQuote
      rw [show quotedLines after.context = ["> a"] from contents] at parsed
      exact ⟨after, reaches, contents, tree, parsed⟩

end LineGrammar.Markup.Blocks
