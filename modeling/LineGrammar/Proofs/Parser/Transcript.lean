import LineGrammar.Proofs.Parser.Coverage

/-!
What a parse in strict scopes saves. Where every scope is strict and every match
with a width is saved, no character is passed over and each match is saved
exactly once, even if its rule saves it as well. So at any time the saved texts
put together are the text that the cursor has passed, and at the end they are
the text of all lines.
-/

namespace LineGrammar

def Match.texts (matched : List Match) : List Char := matched.flatMap fun found => found.text.toList

theorem Match.texts_append (left right : List Match) :
    texts (left ++ right) = texts left ++ texts right := List.flatMap_append

theorem Match.texts_singleton (found : Match) : texts [found] = found.text.toList := by
  simp [texts]

namespace Cursor

/-- The text of the lines up to the cursor, without the line breaks. -/
def passed (cursor : Cursor) : List Char :=
  (cursor.buffer.lines.toList.take cursor.position.line).flatMap Line.text ++ cursor.before

variable {cursor before after : Cursor}

theorem passed_origin (buffer : Buffer) : passed ⟨buffer, .origin⟩ = [] :=
  Text.takeBytes_byteLength_append [] _

theorem LeadsTo.passed_eq (leads : before.LeadsTo after) (valid : before.Valid) :
    after.passed = before.passed ++
      Text.sliceBytes before.position.column after.position.column before.text := by
  have upTo := valid.boundary.takeBytes_eq_append leads.column
  unfold passed Cursor.before
  rw [leads.text, leads.buffer, leads.line, upTo, List.append_assoc]

theorem Valid.passed_nextLine (valid : cursor.Valid) (ended : cursor.atLineEnd = true) :
    cursor.nextLine.passed = cursor.passed := by
  obtain ⟨column, inside⟩ := valid.column_of_atLineEnd ended
  obtain ⟨line, found⟩ := line_of_atEnd inside
  have lookup : cursor.buffer.lines.toList[cursor.position.line]? = some line := by
    simpa [line?, Buffer.line?] using found
  have next := nextLine_position inside
  have whole : cursor.before = line.text := by
    have all := Text.takeBytes_byteLength_append line.text []
    rw [List.append_nil] at all
    rw [Cursor.before, column, text_of_line found, all]
  have nothing : cursor.nextLine.before = [] := by
    have none := Text.takeBytes_byteLength_append [] cursor.nextLine.text
    rw [Cursor.before, next]
    exact none
  have buffer : cursor.nextLine.buffer = cursor.buffer := rfl
  unfold passed
  rw [nothing, whole, next, buffer, List.take_add_one, lookup]
  simp

theorem Valid.passed_of_atEnd (valid : cursor.Valid) (ended : cursor.atEnd = true) :
    cursor.passed = cursor.buffer.lines.toList.flatMap Line.text := by
  have none := atEnd_iff.mp ended
  have place := valid.atEnd_eq ended
  unfold passed
  rw [Cursor.before, text_of_none none, place, bufferEnd,
    List.take_of_length_le (by simp [Buffer.size])]
  simp [Text.takeBytes]

end Cursor

namespace Match.Covers

variable {before after : Cursor} {found : Match}

theorem text_eq (covers : found.Covers before after) (valid : before.Valid) :
    found.text.toList =
      Text.sliceBytes before.position.column after.position.column before.text := by
  rw [covers.placed.text, covers.start, covers.stop, covers.leads.between_eq valid,
    String.toList_ofList]

theorem passed_eq (covers : found.Covers before after) (valid : before.Valid) :
    after.passed = before.passed ++ found.text.toList := by
  rw [covers.text_eq valid]
  exact covers.leads.passed_eq valid

theorem text_of_isEmpty (covers : found.Covers before after) (valid : before.Valid)
    (empty : found.isEmpty = true) : found.text.toList = [] := by
  have same : found.start = found.stop := by simpa [isEmpty] using empty
  rw [covers.start, covers.stop] at same
  rw [covers.text_eq valid, ← same]
  exact valid.boundary.sliceBytes_self

theorem dress {rule : Rule} (covers : found.Covers before after)
    (unedited : rule.transforms = []) : (rule.dress found).Covers before after := by
  constructor
  · exact covers.leads
  · exact (rule.start_dress found).trans covers.start
  · exact (rule.stop_dress found).trans covers.stop
  · constructor
    · rw [Rule.text_dress unedited, Rule.start_dress, Rule.stop_dress]
      exact covers.placed.text
    · rw [Rule.start_dress, Rule.stop_dress]
      exact covers.placed.forward
    · rw [Rule.start_dress, Rule.stop_dress, Rule.children_dress]
      exact covers.placed.ordered

end Match.Covers

namespace Session

variable {grammar : Grammar} {found : Match} {earlier : List Char} {session before after : Session}

/-- How it stands with saving a match: either that has not happened and the match
saved last ends before this one begins, or the match has just been saved. -/
def Saving (found : Match) (earlier : List Char) (session : Session) : Prop :=
  (Match.texts session.savings = earlier ∧
      ∀ other, session.context.lastSave = some other → other.stop ≤ found.start) ∨
    Match.texts session.savings = earlier ++ found.text.toList ∧
      session.context.lastSave = some found

theorem Change.saving (change : Change (· = found) (· = true) before after)
    (saving : before.Saving found earlier) : after.Saving found earlier := by
  rcases change.savings_cases with ⟨savings, lastSave⟩ | ⟨_, rfl, fresh, savings, lastSave⟩
  · unfold Saving
    rw [savings, lastSave]
    exact saving
  · rcases saving with ⟨same, _⟩ | ⟨_, last⟩
    · right
      constructor
      · rw [savings, Match.texts_append, same, Match.texts_singleton]
      · exact lastSave
    · exact absurd last fresh

theorem Changes.saving (changes : Changes (· = found) (· = true) before after)
    (saving : before.Saving found earlier) : after.Saving found earlier :=
  changes.keep (Saving found earlier) (fun _ _ change => change.saving) saving

theorem Changes.strict {may : Match → Prop} (changes : Changes may (· = true) before after)
    (strict : ∀ entry ∈ before.context.overrides, entry.2 = true) :
    ∀ entry ∈ after.context.overrides, entry.2 = true := by
  refine changes.keep (fun session => ∀ entry ∈ session.context.overrides, entry.2 = true) ?_ strict
  intro session next change holds
  cases change with
  | setStrict scope value allowed =>
      intro entry member
      rcases Table.mem_set member with new | old
      · exact new.trans allowed
      · exact holds entry old
  | _ => exact holds

/-- Whether what a session has saved is the text that its cursor has passed, in
scopes that are all strict. -/
structure Transcribed (grammar : Grammar) (session : Session) : Prop where
  valid : session.cursor.Valid
  chronicled : session.Chronicled
  text : Match.texts session.savings = session.cursor.passed
  behind : ∀ found, session.context.lastSave = some found → found.stop ≤ session.cursor.position
  scopes : session.context.setting.scopes = grammar.strictness
  recordAll : session.context.setting.config.recordAll = true
  strict : ∀ entry ∈ session.context.overrides, entry.2 = true

theorem Transcribed.isStrict (transcribed : session.Transcribed grammar) {name : String}
    {scope : Scope} (known : grammar.scope? name = some scope) (strict : scope.strict = true) :
    session.context.isStrict name = true := by
  unfold Context.isStrict
  split
  · rename_i value found
    exact transcribed.strict _ (Table.mem_of_get? found)
  · rw [transcribed.scopes, Grammar.strictness_get? known]
    exact strict

theorem endLine_passed (valid : session.cursor.Valid) :
    session.endLine.cursor.passed = session.cursor.passed := by
  unfold endLine
  split
  · rename_i ended
    exact valid.passed_nextLine ended
  · rfl

theorem position_le_endLine (valid : session.cursor.Valid) :
    session.cursor.position ≤ session.endLine.cursor.position := by
  unfold endLine
  split
  · rename_i ended
    change session.cursor.position ≤ session.cursor.nextLine.position
    rw [Cursor.nextLine_position (valid.column_of_atLineEnd ended).2]
    exact .inl (Nat.lt_succ_self _)
  · exact Position.le_rfl

theorem Transcribed.endLine (transcribed : session.Transcribed grammar) :
    session.endLine.Transcribed grammar := by
  have context := endLine_context session
  constructor
  · exact endLine_valid transcribed.valid
  · apply transcribed.chronicled.of_same
    · rw [context]
    · rw [context]
    · exact endLine_savings session
  · rw [endLine_savings, endLine_passed transcribed.valid]
    exact transcribed.text
  · intro found last
    rw [context] at last
    exact Position.le_trans (transcribed.behind found last) (position_le_endLine transcribed.valid)
  · rw [context]
    exact transcribed.scopes
  · rw [context]
    exact transcribed.recordAll
  · rw [context]
    exact transcribed.strict

/-- Once the callbacks have run and the match has been recorded, what was saved
before is followed by the text of the match. -/
theorem Saving.text_eq {place : Cursor} (saving : session.Saving found earlier)
    (covers : found.Covers place session.cursor) (valid : place.Valid)
    (recorded : found.isEmpty = false → session.context.lastSave = some found) :
    Match.texts session.savings = earlier ++ found.text.toList := by
  rcases saving with ⟨same, behind⟩ | ⟨saved, _⟩
  · -- a match that has not been saved has no width, and then it has no text
    cases empty : found.isEmpty with
    | true => rw [same, covers.text_of_isEmpty valid empty, List.append_nil]
    | false =>
        have back := behind found (recorded empty)
        have width := Position.le_antisymm covers.placed.forward back
        simp [Match.isEmpty, width] at empty
  · exact saved

theorem Saving.behind {place : Cursor} (saving : session.Saving found earlier)
    (covers : found.Covers place session.cursor) (other : Match)
    (last : session.context.lastSave = some other) : other.stop ≤ session.cursor.position := by
  rcases saving with ⟨_, behind⟩ | ⟨_, isLast⟩
  · rw [← covers.stop]
    exact Position.le_trans (behind other last) covers.placed.forward
  · rw [isLast] at last
    cases last
    rw [covers.stop]
    exact Position.le_rfl

theorem Step.transcribed (step : Step grammar (· = true) before after)
    (strict : ∀ scope ∈ grammar.scopes, scope.strict = true)
    (unedited : grammar.Every fun rule => rule.transforms = [])
    (transcribed : before.Transcribed grammar) : after.Transcribed grammar := by
  have context := announceStart_context before
  cases step with
  | skipped notes known _ relaxed =>
      -- No character is passed over in a strict scope.
      rw [transcribed.isStrict known (strict _ (List.mem_of_find?_eq_some known))] at relaxed
      cases relaxed
  | @matched scope earlier later rule found last known listed accepted changes recorded =>
      have inScope : rule ∈ scope.rules := by simp [listed]
      have plain := unedited scope (List.mem_of_find?_eq_some known) rule inScope
      have covers := (rule.expr.covers_of_attempt transcribed.valid
        (Rule.attempt_of_match? accepted)).dress plain
      have behind : last.cursor = (rule.expr.attempt before.cursor).cursor := changes.cursor_eq
      rw [← behind] at covers
      have begun : Saving (rule.dress found) before.cursor.passed
          { before.announceStart with cursor := (rule.expr.attempt before.cursor).cursor } := by
        left
        constructor
        · rw [← transcribed.text]
          exact congrArg Match.texts (announceStart_savings before)
        · intro other isLast
          rw [covers.start]
          exact transcribed.behind other (context ▸ isLast)
      have chronicled : Chronicled
          { before.announceStart with cursor := (rule.expr.attempt before.cursor).cursor } := by
        apply transcribed.chronicled.of_same
        · exact congrArg Context.tree context
        · exact congrArg Context.current context
        · exact announceStart_savings before
      have saving := changes.saving begun
      have setting : last.context.setting = before.context.setting :=
        changes.setting_eq.trans (congrArg Context.setting context)
      have savings : (last.publish (.matched before.context.scopeName earlier.length
          (rule.dress found))).savings = last.savings := filterMap_push_of_none rfl
      apply Transcribed.endLine
      constructor
      · exact covers.leads.valid
      · exact (changes.chronicled chronicled).of_same rfl rfl savings
      · rw [savings, saving.text_eq covers transcribed.valid (recorded transcribed.recordAll)]
        exact (covers.passed_eq transcribed.valid).symm
      · exact saving.behind covers
      · exact (congrArg Setting.scopes setting).trans transcribed.scopes
      · exact (congrArg (fun setting => setting.config.recordAll) setting).trans
          transcribed.recordAll
      · apply changes.strict
        intro entry member
        exact transcribed.strict entry (context ▸ member)

end Session

theorem Parser.Visits.transcribed {parser : Parser} {buffer : Buffer} {session : Session}
    (visits : parser.Visits buffer session) (recordAll : parser.config.recordAll = true)
    (still : parser.grammar.Every (Rule.Still (· = true)))
    (strict : ∀ scope ∈ parser.grammar.scopes, scope.strict = true)
    (unedited : parser.grammar.Every fun rule => rule.transforms = []) :
    session.Transcribed parser.grammar := by
  apply visits.keep
  · intro entered entering
    have changes := Session.changes_of_enter (fun _ => False) (· = true) entering
    have cursor : entered.cursor = ⟨buffer, .origin⟩ := changes.cursor_eq
    have setting := changes.setting_eq
    obtain ⟨savings, lastSave⟩ := changes.nothing_saved
    constructor
    · rw [cursor]
      exact Cursor.origin_valid buffer
    · exact changes.chronicled (Tree.chronicle_ofRoot Context.mainScope)
    · rw [savings, cursor]
      exact (Cursor.passed_origin buffer).symm
    · intro found last
      rw [lastSave] at last
      cases last
    · rw [setting]
      rfl
    · rw [setting]
      exact recordAll
    · apply changes.strict
      intro entry member
      cases member
  · intro before after _ made transcribed
    have step := Session.round_step still transcribed.valid made.2
    exact step.transcribed strict unedited transcribed

theorem Builder.strict_of_build {builder : Builder} {grammar : Grammar}
    (built : builder.build = .ok grammar)
    (strict : ∀ named ∈ builder.entries, named.1 ∈ builder.strict) :
    ∀ scope ∈ grammar.scopes, scope.strict = true := by
  intro scope inGrammar
  obtain ⟨named, isNamed, _, marked, _⟩ := scope_of_build built inGrammar
  rw [marked]
  exact List.contains_iff_mem.mpr (strict named isNamed)

/-- If no instruction of a grammar moves the cursor, then a parse that succeeds
has dealt with every line from its start to its end: the matches that were made
known and the single characters that were passed over lie end to end, and a
character was passed over only where no rule of the scope matched and the scope
was not strict. If moreover all scopes are strict, nothing relaxes them or edits
a text, and all matches are recorded, then the texts in the tree put together
are the text of all lines. -/
theorem Parser.lines_are_covered (builder : Builder) (grammar : Grammar)
    (built : builder.build = .ok grammar)
    (confined : builder.Every (Entry.Confined fun mnemonic _ => mnemonic.KeepsPlace))
    (config : Config) (buffer : Buffer) (tree : Tree)
    (parsed : (Parser.parseBuffer ⟨grammar, config⟩ buffer).result = .ok tree) :
    (∃ pieces : List Piece,
      pieces.filterMap Piece.match? =
        (Parser.parseBuffer ⟨grammar, config⟩ buffer).events.toList.filterMap Event.matched? ∧
      (∀ place char, .skipped place char ∈ pieces →
        Parser.PassesOver ⟨grammar, config⟩ buffer place char) ∧
      ∀ index line, buffer.line? index = some line →
        Piece.Contiguous index 0 line.length (Piece.ofLine index pieces) ∧
          ∀ column < line.length, pieces.countP (Piece.holds ⟨index, column⟩) = 1) ∧
    ((∀ named ∈ builder.entries, named.1 ∈ builder.strict) →
      builder.Every (Entry.Confined fun mnemonic _ => mnemonic ≠ .relax) →
      builder.Every Entry.Unedited → config.recordAll = true →
      Match.texts (tree.matchesOf Tree.root) = buffer.lines.toList.flatMap Line.text) := by
  obtain ⟨final, visits, ended, sameTree, events⟩ := visits_of_parseBuffer parsed
  constructor
  · have still : grammar.Every (Rule.Still fun _ => True) := by
      apply Builder.still_of_build confined built
      · intro mnemonic _ keeps
        exact keeps
      · trivial
      · intro _ _
        trivial
    obtain ⟨pieces, covered⟩ := visits.covered still
    refine ⟨pieces, ?_, covered.skips, ?_⟩
    · rw [events]
      exact covered.winners
    · intro index line found
      have place := covered.valid.atEnd_eq ended
      have bound : index < buffer.size := (Array.getElem?_eq_some_iff.mp found).1
      have whole : final.cursor.columnIn index = line.length := by
        rw [Cursor.columnIn, place, covered.inBuffer, Cursor.bufferEnd, if_pos bound,
          Buffer.textAt, found]
        rfl
      have contiguous := covered.cover index
      rw [whole] at contiguous
      refine ⟨contiguous, ?_⟩
      intro column inside
      rw [← Piece.countP_ofLine]
      exact contiguous.countP_eq_one (Nat.zero_le column) inside
  · intro strict unrelaxed unedited recordAll
    have still : grammar.Every (Rule.Still (· = true)) := by
      have both : builder.Every (Entry.Confined fun mnemonic _ =>
          mnemonic.KeepsPlace ∧ mnemonic ≠ .relax) := by
        intro named isNamed entry isEntry
        exact (confined named isNamed entry isEntry).and (unrelaxed named isNamed entry isEntry)
      apply Builder.still_of_build both built
      · intro mnemonic _ keeps
        exact keeps.1
      · rfl
      · intro _ relaxes
        exact absurd rfl relaxes.2
    obtain ⟨_, covered⟩ := visits.covered still
    have transcribed := visits.transcribed recordAll still (Builder.strict_of_build built strict)
      (Builder.unedited_of_build unedited built)
    rw [sameTree, transcribed.chronicled.matchesOf_eq, transcribed.text,
      transcribed.valid.passed_of_atEnd ended, covered.inBuffer]

/-- Words and blanks in a strict scope, where words are saved by their rule and
by the configuration: every match stands in the tree once. -/
theorem Parser.strict_words_are_kept_once :
    let word := Expr.leaf none "[a-z]+" (Regex.compile? "[a-z]+" false)
    let blank := Expr.leaf none " " (Regex.compile? " " false)
    let builder := (({} : Builder).scope "main"
      [⟨.given word, [⟨"save", []⟩]⟩, ⟨.given blank, []⟩]).markStrict "main"
    let grammar : Grammar :=
      ⟨[⟨"main", [{ expr := word, callbacks := [.save] }, { expr := blank }], true⟩]⟩
    let buffer := Buffer.ofLines ["ab c", "d"]
    let saved := fun (start stop : Position) (text source : String) =>
      Element.saved (.leaf ⟨start, stop, none, text⟩ source [])
    let tree : Tree := ⟨#[⟨"main", none, 0,
      #[saved ⟨0, 0⟩ ⟨0, 2⟩ "ab" "[a-z]+", saved ⟨0, 2⟩ ⟨0, 3⟩ " " " ",
        saved ⟨0, 3⟩ ⟨0, 4⟩ "c" "[a-z]+", saved ⟨1, 0⟩ ⟨1, 1⟩ "d" "[a-z]+"], []⟩]⟩
    builder.build = .ok grammar ∧
      (Parser.parseBuffer ⟨grammar, {}⟩ buffer).result = .ok tree ∧
      Match.texts (tree.matchesOf Tree.root) = buffer.lines.toList.flatMap Line.text := by
  intro word blank builder grammar buffer saved tree
  have built : builder.build = .ok grammar := rfl
  have parsed : (Parser.parseBuffer ⟨grammar, {}⟩ buffer).result = .ok tree := by decide +kernel
  have confined : builder.Every (Entry.Confined fun mnemonic _ => mnemonic.KeepsPlace) := by
    decide +kernel
  have covered := lines_are_covered builder grammar built confined {} buffer tree parsed
  refine ⟨built, parsed, covered.2 ?_ ?_ ?_ rfl⟩
  · decide +kernel
  · decide +kernel
  · decide +kernel

end LineGrammar
