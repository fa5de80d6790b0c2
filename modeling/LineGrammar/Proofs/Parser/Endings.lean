import LineGrammar.Proofs.Expr.Bare
import LineGrammar.Proofs.Parser.Alike
import Mathlib.Control.Monad.Basic

/-!
Line endings make no difference to a parse. Cursors whose buffers have the same
bare lines answer alike and move alike, so two parses that begin at such cursors
go the same way to the end, whatever they come to, as long as the host does not
look at endings and offsets itself.
-/

namespace LineGrammar

/-- Whether two cursors differ at most in the endings and the offsets of lines. -/
def Cursor.SameLines (left right : Cursor) : Prop := left.bare = right.bare

theorem Cursor.likeness_sameLines : Cursor.Likeness Cursor.SameLines where
  position left right same := by
    rw [← left.bare_position, same, right.bare_position]
  atEnd left right same := by
    rw [← left.bare_atEnd, same, right.bare_atEnd]
  atLineEnd left right same := by
    rw [← left.bare_atLineEnd, same, right.bare_atLineEnd]
  excerpt left right same width := by
    rw [← left.bare_excerpt, same, right.bare_excerpt]
  apply left right same movement := by
    unfold SameLines
    rw [← movement.apply_bare, same, movement.apply_bare]
  attempt left right same expr := by
    have here := expr.attempt_indifferent left
    have there := expr.attempt_indifferent right
    rw [show left.bare = right.bare from same] at here
    exact ⟨here.result.symm.trans there.result, here.cursor.symm.trans there.cursor⟩

namespace Parser

variable {parser : Parser} {left right : Buffer}

theorem ample_of_bare (same : left.bare = right.bare) : Budget.ample left = Budget.ample right := by
  unfold Budget.ample
  rw [← left.bare_charCount, same, right.bare_charCount]

theorem opening_alike (parser : Parser) (same : left.bare = right.bare) :
    (parser.opening left).Alike Cursor.SameLines (parser.opening right) := by
  unfold opening
  rw [ample_of_bare same]
  have cursor : Cursor.SameLines ⟨left, .origin⟩ ⟨right, .origin⟩ := by
    unfold Cursor.SameLines Cursor.bare
    rw [same]
  exact ⟨cursor, rfl, rfl⟩

theorem parseBuffer_alike (blind : parser.grammar.Every (Rule.Blind Cursor.SameLines))
    (same : left.bare = right.bare) :
    (parser.parseBuffer left).result = (parser.parseBuffer right).result ∧
      (parser.parseBuffer left).events = (parser.parseBuffer right).events := by
  have limit : parser.config.roundLimit left = parser.config.roundLimit right := by
    unfold Config.roundLimit
    rw [← left.bare_charCount, same, right.bare_charCount]
  have parsed := Session.parse_alike Cursor.likeness_sameLines blind
    (parser.config.roundLimit right + (Budget.ample right).extra) (parser.opening_alike same)
  rw [parseBuffer_eq, parseBuffer_eq, limit, ample_of_bare same]
  obtain ⟨tree, _, _, here, there, ended⟩ | ⟨error, _, _, here, there, ended⟩ := parsed.outcomes
  · rw [here, there]
    exact ⟨rfl, ended.events⟩
  · rw [here, there]
    exact ⟨rfl, ended.events⟩

theorem parseSource_of_load (parser : Parser) {source : Source} {buffer : Buffer}
    (loaded : source.load = .ok buffer) :
    ∃ outcome, parser.parseSource source = .ok outcome ∧
      outcome.result = (parser.parseBuffer buffer).result ∧
      outcome.events = (parser.parseBuffer buffer).events := by
  unfold parseSource
  rw [loaded]
  exact ⟨_, rfl, rfl, rfl⟩

/-- Lines that are given one by one, the text in which a line feed follows each of
them, and the text in which a carriage return and a line feed do, are parsed with
the same result, be it a tree or an error with all its diagnostics, and with the
same events. The lines are to hold no line feed and not to end in a carriage
return; the host must not tell cursors apart by endings and offsets of lines. -/
theorem line_endings_are_invisible (parser : Parser)
    (blind : parser.grammar.Every (Rule.Blind Cursor.SameLines)) (lines : List String)
    (unbroken : ∀ line ∈ lines, '\n' ∉ line.toList ∧ line.toList.getLast? ≠ some '\r') :
    ∃ given fed returned : Outcome,
      parser.parseSource (.lines lines) = .ok given ∧
      parser.parseSource (.text (String.join (lines.map (· ++ "\n")))) = .ok fed ∧
      parser.parseSource (.text (String.join (lines.map (· ++ "\r\n")))) = .ok returned ∧
      fed.result = given.result ∧ fed.events = given.events ∧
      returned.result = given.result ∧ returned.events = given.events := by
  have feed := parseBuffer_alike blind (@Buffer.ofText_bare .lf (by decide) lines unbroken)
  have both := parseBuffer_alike blind (@Buffer.ofText_bare .crlf (by decide) lines unbroken)
  obtain ⟨given, parsed, result, events⟩ :=
    parser.parseSource_of_load (show Source.load (.lines lines) = _ from rfl)
  obtain ⟨fed, parsedFed, resultFed, eventsFed⟩ :=
    parser.parseSource_of_load (show Source.load (.text _) = _ from rfl)
  obtain ⟨returned, parsedReturned, resultReturned, eventsReturned⟩ :=
    parser.parseSource_of_load (show Source.load (.text _) = _ from rfl)
  refine ⟨given, fed, returned, parsed, parsedFed, parsedReturned, ?_, ?_, ?_, ?_⟩
  · rw [resultFed, result]
    exact feed.1
  · rw [eventsFed, events]
    exact feed.2
  · rw [resultReturned, result]
    exact both.1
  · rw [eventsReturned, events]
    exact both.2

/-- The host looks at the text ahead. The strict scope comes past the empty line
and fails in the last one, of which the diagnostic shows an excerpt. -/
theorem returns_do_not_move_the_failure :
    let letter : Rule :=
      { expr := .leaf none "a" (Regex.compile? "a" false)
        pre := [fun cursor _ => !cursor.rest.isEmpty] }
    let blank : Rule := { expr := .always, pre := [fun cursor _ => cursor.atLineEnd] }
    let parser : Parser := .new ⟨[⟨"main", [letter, blank], true⟩]⟩
    let error : Error := .fatal
      { complaint := .noRule "main", position := ⟨2, 1⟩, excerpt := "a?\n ^", trace := ["main"] }
    parser.grammar.Every (Rule.Blind Cursor.SameLines) ∧
      (parser.parseSource (.lines ["a", "", "a?"])).map Outcome.result = .ok (.error error) ∧
      (parser.parseSource (.text "a\r\n\r\na?\r\n")).map Outcome.result = .ok (.error error) := by
  intro letter blank parser error
  have blind : parser.grammar.Every (Rule.Blind Cursor.SameLines) := by
    intro scope isScope rule isRule
    rw [List.mem_singleton.mp isScope] at isRule
    have among : rule = letter ∨ rule = blank := by simpa using isRule
    rcases among with rfl | rfl
    · refine ⟨?_, by simp [letter], by simp [letter]⟩
      intro check isCheck left right same context
      have ahead : left.rest = right.rest := by rw [← left.bare_rest, same, right.bare_rest]
      simp [List.mem_singleton.mp isCheck, ahead]
    · refine ⟨?_, by simp [blank], by simp [blank]⟩
      intro check isCheck left right same context
      have ended := Cursor.likeness_sameLines.atLineEnd left right same
      simp [List.mem_singleton.mp isCheck, ended]
  have failed : (parser.parseSource (.lines ["a", "", "a?"])).map Outcome.result =
      .ok (.error error) := by
    decide +kernel
  have text : String.join (["a", "", "a?"].map (· ++ "\r\n")) = "a\r\n\r\na?\r\n" := by decide
  obtain ⟨given, _, returned, parsed, _, parsedReturned, _, _, same, _⟩ :=
    line_endings_are_invisible parser blind ["a", "", "a?"] (by decide)
  rw [text] at parsedReturned
  refine ⟨blind, failed, ?_⟩
  rw [parsed] at failed
  rw [parsedReturned]
  simpa [Except.map, same] using failed

end Parser

end LineGrammar
