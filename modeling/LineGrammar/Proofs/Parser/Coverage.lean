import LineGrammar.Proofs.Parser.Step

/-!
What a parse makes of every line. The matches that are made known and the single
characters that are passed over lie end to end in each line, from its start to
its end, so that every character lies in exactly one of them.
-/

namespace LineGrammar

/-- A piece of a line that a parse has dealt with. -/
inductive Piece where
  | matched (found : Match)
  | skipped (place : Position) (char : Char)

namespace Piece

def start : Piece → Position
  | .matched found => found.start
  | .skipped place _ => place

def stop : Piece → Position
  | .matched found => found.stop
  | .skipped place char => ⟨place.line, place.column + char.utf8Size⟩

def match? : Piece → Option Match
  | .matched found => some found
  | .skipped .. => none

def ofLine (index : Nat) (pieces : List Piece) : List Piece :=
  pieces.filter fun piece => piece.start.line == index

def holds (position : Position) (piece : Piece) : Bool :=
  piece.start.line == position.line && piece.start.column ≤ position.column &&
    position.column < piece.stop.column

/-- Whether pieces of a line lie end to end, from one column to another. -/
def Contiguous (index : Nat) : Nat → Nat → List Piece → Prop
  | start, stop, [] => start = stop
  | start, stop, piece :: later =>
      piece.start = ⟨index, start⟩ ∧ piece.stop.line = index ∧ start ≤ piece.stop.column ∧
        Contiguous index piece.stop.column stop later

variable {index start stop : Nat} {pieces : List Piece}

theorem Contiguous.snoc {piece : Piece} {column : Nat}
    (contiguous : Contiguous index start stop pieces) (begins : piece.start = ⟨index, stop⟩)
    (ends : piece.stop = ⟨index, column⟩) (ordered : stop ≤ column) :
    Contiguous index start column (pieces ++ [piece]) := by
  induction pieces generalizing start with
  | nil =>
      have same : start = stop := contiguous
      rw [same]
      exact ⟨begins, by rw [ends], by rw [ends]; exact ordered, by rw [ends]; rfl⟩
  | cons first later induction =>
      obtain ⟨begins', line, ordered', rest⟩ := contiguous
      exact ⟨begins', line, ordered', induction rest⟩

theorem Contiguous.countP_before (contiguous : Contiguous index start stop pieces) {column : Nat}
    (before : column < start) : pieces.countP (holds ⟨index, column⟩) = 0 := by
  induction pieces generalizing start with
  | nil => rfl
  | cons first later induction =>
      obtain ⟨begins, _, ordered, rest⟩ := contiguous
      have others := induction rest (Nat.lt_of_lt_of_le before ordered)
      have apart : ¬holds ⟨index, column⟩ first = true := by
        simp only [holds, begins, Bool.and_eq_true, decide_eq_true_eq]
        omega
      rw [List.countP_cons_of_neg apart, others]

/-- Every place between the two ends lies in exactly one piece. -/
theorem Contiguous.countP_eq_one (contiguous : Contiguous index start stop pieces) {column : Nat}
    (least : start ≤ column) (most : column < stop) :
    pieces.countP (holds ⟨index, column⟩) = 1 := by
  induction pieces generalizing start with
  | nil =>
      have same : start = stop := contiguous
      omega
  | cons first later induction =>
      obtain ⟨begins, _, _, rest⟩ := contiguous
      by_cases inFirst : column < first.stop.column
      · have here : holds ⟨index, column⟩ first = true := by
          simp only [holds, begins, Bool.and_eq_true, decide_eq_true_eq]
          exact ⟨⟨by simp, least⟩, inFirst⟩
        rw [List.countP_cons_of_pos here, rest.countP_before inFirst]
      · have apart : ¬holds ⟨index, column⟩ first = true := by
          simp only [holds, Bool.and_eq_true, decide_eq_true_eq]
          omega
        rw [List.countP_cons_of_neg apart]
        exact induction rest (Nat.le_of_not_lt inFirst)

theorem countP_ofLine (position : Position) (pieces : List Piece) :
    (ofLine position.line pieces).countP (holds position) = pieces.countP (holds position) := by
  rw [ofLine, List.countP_filter]
  apply List.countP_congr
  intro piece _
  simp only [holds, Bool.and_eq_true]
  constructor
  · exact And.left
  · intro inside
    exact ⟨inside, inside.1.1⟩

end Piece

def Cursor.columnIn (cursor : Cursor) (index : Nat) : Nat :=
  if index < cursor.position.line then Text.byteLength (cursor.buffer.textAt index)
  else if index = cursor.position.line then cursor.position.column
  else 0

/-- Whether pieces cover every line as far as the cursor has come in it. -/
def Piece.Cover (pieces : List Piece) (cursor : Cursor) : Prop :=
  ∀ index, Contiguous index 0 (cursor.columnIn index) (ofLine index pieces)

namespace Piece.Cover

variable {pieces : List Piece} {cursor before after : Cursor}

theorem origin (buffer : Buffer) : Cover [] ⟨buffer, .origin⟩ := by
  intro index
  have start : Cursor.columnIn ⟨buffer, .origin⟩ index = 0 := by
    by_cases first : index = 0 <;> simp [Cursor.columnIn, Position.origin, first]
  rw [start]
  rfl

theorem extend (cover : Cover pieces before) {piece : Piece} (leads : before.LeadsTo after)
    (begins : piece.start = before.position) (ends : piece.stop = after.position) :
    Cover (pieces ++ [piece]) after := by
  intro index
  have earlier := cover index
  by_cases here : index = before.position.line
  · subst here
    have more : ofLine before.position.line (pieces ++ [piece]) =
        ofLine before.position.line pieces ++ [piece] := by
      simp [ofLine, begins]
    have column : before.columnIn before.position.line = before.position.column := by
      simp [Cursor.columnIn]
    have column' : after.columnIn before.position.line = after.position.column := by
      simp [Cursor.columnIn, leads.line]
    rw [column] at earlier
    rw [more, column']
    apply earlier.snoc begins _ leads.column
    rw [ends, ← leads.line]
  · have same : ofLine index (pieces ++ [piece]) = ofLine index pieces := by
      simp [ofLine, begins, Ne.symm here]
    have column : after.columnIn index = before.columnIn index := by
      simp [Cursor.columnIn, leads.line, leads.buffer, here]
    rw [same, column]
    exact earlier

theorem nextLine (cover : Cover pieces cursor) (valid : cursor.Valid)
    (ended : cursor.atLineEnd = true) : Cover pieces cursor.nextLine := by
  intro index
  obtain ⟨column, before⟩ := valid.column_of_atLineEnd ended
  have next := Cursor.nextLine_position before
  have same : cursor.nextLine.columnIn index = cursor.columnIn index := by
    have buffer : cursor.nextLine.buffer = cursor.buffer := rfl
    simp only [Cursor.columnIn, next, buffer]
    by_cases here : index = cursor.position.line
    · subst here
      simp only [Nat.lt_succ_self, if_true, Nat.lt_irrefl, if_false]
      rw [column]
      rfl
    · by_cases earlier : index < cursor.position.line
      · simp [earlier, Nat.lt_succ_of_lt earlier]
      · have later : ¬index < cursor.position.line + 1 := by omega
        simp only [earlier, later, here, if_false]
        split <;> rfl
  rw [same]
  exact cover index

theorem endLine {session : Session} (cover : Cover pieces session.cursor)
    (valid : session.cursor.Valid) : Cover pieces session.endLine.cursor := by
  unfold Session.endLine
  split
  · rename_i ended
    exact cover.nextLine valid ended
  · exact cover

end Piece.Cover

/-- Whether a parse passes over a character at a place: it comes by there in a
scope that is not strict and of which no rule matches. -/
def Parser.PassesOver (parser : Parser) (buffer : Buffer) (place : Position) (char : Char) : Prop :=
  ∃ session scope, parser.Visits buffer session ∧ session.cursor.position = place ∧
    session.cursor.rest.head? = some char ∧
    parser.grammar.scope? session.context.scopeName = some scope ∧
    (∀ rule ∈ scope.rules, rule.match? session.cursor session.context = none) ∧
    session.context.isStrict session.context.scopeName = false

/-- Whether pieces account for all that a parse has done so far. -/
structure Session.Covered (parser : Parser) (buffer : Buffer) (pieces : List Piece)
    (session : Session) : Prop where
  inBuffer : session.cursor.buffer = buffer
  valid : session.cursor.Valid
  winners : pieces.filterMap Piece.match? = session.winners
  cover : Piece.Cover pieces session.cursor
  skips : ∀ place char, .skipped place char ∈ pieces → parser.PassesOver buffer place char

namespace Session

variable {parser : Parser} {buffer : Buffer} {pieces : List Piece} {session before after : Session}
  {sets : Bool → Prop}

theorem Covered.endLine (covered : session.Covered parser buffer pieces) :
    session.endLine.Covered parser buffer pieces where
  inBuffer := (endLine_buffer session).trans covered.inBuffer
  valid := endLine_valid covered.valid
  winners := covered.winners.trans (endLine_winners session).symm
  cover := covered.cover.endLine covered.valid
  skips := covered.skips

theorem Covered.of_same (covered : before.Covered parser buffer pieces)
    (cursor : after.cursor = before.cursor) (winners : after.winners = before.winners) :
    after.Covered parser buffer pieces where
  inBuffer := cursor ▸ covered.inBuffer
  valid := cursor ▸ covered.valid
  winners := covered.winners.trans winners.symm
  cover := cursor ▸ covered.cover
  skips := covered.skips

theorem Covered.extend (covered : before.Covered parser buffer pieces) {piece : Piece}
    (leads : before.cursor.LeadsTo after.cursor) (begins : piece.start = before.cursor.position)
    (ends : piece.stop = after.cursor.position)
    (winners : after.winners = before.winners ++ piece.match?.toList)
    (skip : ∀ place char, piece = .skipped place char → parser.PassesOver buffer place char) :
    after.Covered parser buffer (pieces ++ [piece]) where
  inBuffer := leads.buffer.trans covered.inBuffer
  valid := leads.valid
  winners := by
    rw [winners, List.filterMap_append, covered.winners]
    cases piece <;> rfl
  cover := covered.cover.extend leads begins ends
  skips := by
    intro place char member
    rcases List.mem_append.mp member with earlier | last
    · exact covered.skips place char earlier
    · exact skip place char (List.mem_singleton.mp last).symm

theorem Step.covered (step : Step parser.grammar sets before after)
    (visits : parser.Visits buffer before) (inside : before.cursor.atEnd = false)
    (covered : before.Covered parser buffer pieces) :
    ∃ more, after.Covered parser buffer more := by
  have cursor := announceStart_cursor before
  cases step with
  | @skipped scope notes known refused relaxed =>
      have announced : Covered parser buffer pieces { before.announceStart with notes := notes } :=
        covered.of_same cursor (announceStart_winners before)
      unfold skipChar
      split
      -- At the end of a line only the break is passed, and that is not a piece.
      · exact ⟨pieces, announced.endLine⟩
      · rename_i ahead
        have within : before.cursor.atLineEnd = false := by
          rw [Bool.not_eq_true] at ahead
          exact cursor ▸ ahead
        obtain ⟨char, later, rest⟩ := covered.valid.char_ahead inside within
        obtain ⟨leads, place⟩ := covered.valid.advance_one rest
        refine ⟨pieces ++ [.skipped before.cursor.position char], Covered.endLine ?_⟩
        refine covered.extend ?_ rfl ?_ ?_ ?_
        · simp only [cursor]
          exact leads
        · simp only [cursor]
          exact place.symm
        · exact (announceStart_winners before).trans (List.append_nil _).symm
        · intro place' char' same
          cases same
          exact ⟨before, scope, visits, rfl, by rw [rest]; rfl, known, refused, relaxed⟩
  | @matched scope earlier later rule found last known listed accepted changes recorded =>
      have covers := rule.expr.covers_of_attempt covered.valid (Rule.attempt_of_match? accepted)
      refine ⟨pieces ++ [.matched (rule.dress found)], Covered.endLine ?_⟩
      have behind : last.cursor = (rule.expr.attempt before.cursor).cursor := changes.cursor_eq
      refine covered.extend ?_ ?_ ?_ ?_ ?_
      · change before.cursor.LeadsTo last.cursor
        rw [behind]
        exact covers.leads
      · exact (rule.start_dress found).trans covers.start
      · change (rule.dress found).stop = last.cursor.position
        rw [behind]
        exact (rule.stop_dress found).trans covers.stop
      · have told : (last.publish (.matched before.context.scopeName earlier.length
            (rule.dress found))).winners = last.winners ++ [rule.dress found] :=
          filterMap_push _ _ _
        rw [told, changes.winners_eq]
        exact congrArg (· ++ _) (announceStart_winners before)
      · intro place char same
        cases same

end Session

theorem Parser.Visits.covered {parser : Parser} {buffer : Buffer} {session : Session}
    {sets : Bool → Prop} (visits : parser.Visits buffer session)
    (still : parser.grammar.Every (Rule.Still sets)) :
    ∃ pieces, session.Covered parser buffer pieces := by
  apply visits.keep
  · intro entered entering
    have changes := Session.changes_of_enter (fun _ => True) (fun _ => True) entering
    have cursor : entered.cursor = ⟨buffer, .origin⟩ := changes.cursor_eq
    refine ⟨[], ?_, ?_, changes.winners_eq.symm, ?_, ?_⟩
    · rw [cursor]
    · rw [cursor]
      exact Cursor.origin_valid buffer
    · rw [cursor]
      exact Piece.Cover.origin buffer
    · intro place char member
      simp at member
  · rintro before after visited ⟨inside, made⟩ ⟨pieces, covered⟩
    exact (Session.round_step still covered.valid made).covered visited inside covered

end LineGrammar
