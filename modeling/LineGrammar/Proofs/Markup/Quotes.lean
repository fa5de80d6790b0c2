import LineGrammar.Proofs.Markup.Nesting
import LineGrammar.Proofs.Parser.Levels

/-!
Quotes are parsed again when they are left. What is kept of the parse of their
lines is what a parse of these lines by themselves gives, no matter how deep in
other quotes they stand. Only a quote with which the text ends is never left, and
of that nothing is kept.
-/

namespace LineGrammar.Markup.Blocks

/-! The scripts do not depend on the levels of parses inside parses. -/

theorem yields_act {operation : Operation} {next : Script} (yields : next.Yields) :
    (Script.act operation next).Yields := by
  intro result
  cases result with
  | error error => trivial
  | ok value => exact yields

theorem yields_openList (indent : Int) : (openList indent).Yields :=
  yields_act (yields_act trivial)

theorem yields_unwindLists (indent : Int) (limit : Nat) : (unwindLists indent limit).Yields := by
  induction limit with
  | zero => trivial
  | succ limit induction =>
      intro cursor context
      refine ⟨fun nested => rfl, ?_⟩
      dsimp only
      split
      · exact yields_act induction
      · trivial

theorem yields_listMarker (found : Match) : (listMarker found).Yields := by
  intro cursor context
  refine ⟨fun nested => rfl, ?_⟩
  dsimp only
  split
  · exact yields_openList _
  · exact yields_unwindLists _ _

theorem yields_closeListsWithin (limit : Nat) : (closeListsWithin limit).Yields := by
  induction limit with
  | zero => trivial
  | succ limit induction =>
      intro cursor context
      refine ⟨fun nested => rfl, ?_⟩
      dsimp only
      split
      · exact yields_act induction
      · trivial

theorem yields_endQuote : endQuote.Yields := by
  intro cursor context
  refine ⟨fun nested => rfl, rfl, ?_⟩
  intro result
  cases result with
  | error error => trivial
  | ok tree => exact yields_act (yields_act trivial)

theorem yields_of_unchecked {rule : Rule} (pre : rule.pre = []) (post : rule.post = [])
    (callbacks : ∀ callback ∈ rule.callbacks, callback.Yields) : rule.Yields where
  pre := by simp [pre]
  post := by simp [post]
  callbacks := callbacks

theorem compiled_yields : compiled.Every Rule.Yields := by
  have language : ∀ found, (codeLanguage found).Yields := fun _ => yields_act trivial
  have line : ∀ found, (quoteLine found).Yields := fun _ => yields_act trivial
  have lists : closeLists.Yields := fun _ _ => ⟨fun _ => rfl, yields_closeListsWithin _⟩
  have ending : paragraphEnd.Yields := by
    refine ⟨?_, by simp [paragraphEnd, Rule.always], ?_⟩
    · intro check member cursor context nested
      cases List.mem_singleton.mp member
      rfl
    · intro callback member
      cases List.mem_singleton.mp member
      exact fun _ => yields_act trivial
  intro scope listed rule member
  simp only [compiled, List.mem_cons, List.not_mem_nil, or_false] at listed
  rcases listed with rfl | rfl | rfl | rfl | rfl <;>
    simp only [mainScope, paraScope, codeScope, quoteScope, listScope, List.mem_cons,
      List.not_mem_nil, or_false] at member
  all_goals
    rcases member with rfl | rfl | rfl | rfl | rfl | rfl | rfl
  all_goals
    first
    | exact ending
    | exact yields_of_unchecked rfl rfl (by
        simp [quoted, marked, leaving, Callback.Yields, language, line, lists, yields_openList,
          yields_listMarker, yields_endQuote])

/-- Whether a quote keeps its lines and, as text, the tree that a parser makes of
them. -/
def Reparsed (parser : Parser) (tree : Tree) (id : Nat) : Prop :=
  ∃ (texts : List String) (outcome : Outcome) (inner : Tree),
    tree.valueOf? id "lines" = some (.list (texts.map .text)) ∧
    parser.parseSource (.lines texts) = .ok outcome ∧ outcome.result = .ok inner ∧
    tree.valueOf? id "nested" = some (.text inner.render)

/-- What a nested parse gives, a parse of the lines by themselves gives as well. -/
theorem Requoted.reparsed {buffer : Buffer} {depth id : Nat} {tree : Tree}
    (requoted : Requoted (compiled.drive {} (Budget.ample buffer).extra depth) tree id) :
    Reparsed (.new compiled) tree id := by
  obtain ⟨texts, inner, _, single, lines, parsed, nested⟩ := requoted
  obtain ⟨outcome, again, result, _⟩ :=
    (Parser.new compiled).parseSource_of_load (show (Source.lines texts).load = _ from rfl)
  obtain ⟨own, done⟩ := drive_parses (Buffer.plain_ofLines single) (Budget.ample buffer).extra
    (Nat.lt_add_of_pos_right (by decide : 0 < 0x10000))
  have same := Grammar.drive_eq_of_ok compiled_yields parsed done
  exact ⟨texts, outcome, inner, lines, again,
    result.trans ((congrArg Outcome.result same).symm.trans parsed), nested⟩

theorem reparsed_of_visits {buffer : Buffer} (plain : buffer.Plain) {session : Session}
    (visits : (Parser.new compiled).Visits buffer session) :
    ∀ id < session.context.tree.size, session.context.tree.nameOf id = "quote" →
      if id = session.context.current then session.context.tree.valueOf? id "nested" = none
      else Reparsed (.new compiled) session.context.tree id := by
  obtain ⟨entered, entering, reaches⟩ := visits
  cases entering
  have enough : buffer.charCount ≤ (Budget.ample buffer).depth - 1 := by
    change buffer.charCount ≤ buffer.charCount + 0x10000 - 1
    omega
  obtain ⟨_, _, _, place, _, stands, _⟩ := standing_of_reaches plain enough reaches
  intro id bound isQuote
  split
  · rename_i here
    rw [here] at isQuote ⊢
    have name := stands.scopeName
    rw [show session.context.scopeName = "quote" from isQuote] at name
    cases place with
    | quote texts => exact stands.kept.2
    | _ => exact absurd name (by simp [Place.scope, mainScope, paraScope, codeScope, listScope])
  · rename_i elsewhere
    exact ((stands.settled id bound elsewhere).quote isQuote).reparsed

/-- Every quote of a text but one with which the text ends keeps, next to its lines,
the tree that a parse of them by themselves gives, as text. The quote that is still
open at the end keeps its lines only. -/
theorem quotes_are_parsed_when_left (text : String) :
    ∃ built outcome final, grammar = .ok built ∧
      (Parser.new built).parseSource (.text text) = .ok outcome ∧
      (Parser.new built).Visits (.ofText text) final ∧ final.cursor.atEnd = true ∧
      outcome.result = .ok final.context.tree ∧
      ∀ id < final.context.tree.size, final.context.tree.nameOf id = "quote" →
        if id = final.context.current then final.context.tree.valueOf? id "nested" = none
        else Reparsed (.new built) final.context.tree id := by
  have plain := Buffer.plain_ofText text
  obtain ⟨outcome, parsed, result, _⟩ :=
    (Parser.new compiled).parseSource_of_load (show (Source.text text).load = _ from rfl)
  obtain ⟨tree, done⟩ := drive_parses plain (Budget.ample (.ofText text)).extra
    (Nat.lt_add_of_pos_right (by decide : 0 < 0x10000))
  obtain ⟨final, visits, ended, rfl, _⟩ :=
    @Parser.visits_of_parseBuffer (.new compiled) (.ofText text) tree done
  exact ⟨compiled, outcome, final, grammar_eq, parsed, visits, ended, result.trans done,
    reparsed_of_visits plain visits⟩

/-- A text that ends in a quote: its line is kept, but it is not parsed again. -/
theorem quote_at_end_is_not_parsed :
    ∃ built outcome tree, grammar = .ok built ∧
      (Parser.new built).parseSource (.text "> a") = .ok outcome ∧ outcome.result = .ok tree ∧
      1 < tree.size ∧ tree.nameOf 1 = "quote" ∧
      tree.valueOf? 1 "lines" = some (.list [.text "a"]) ∧ tree.valueOf? 1 "nested" = none := by
  obtain ⟨outcome, tree, parsed, result⟩ :=
    source_parses (show (Source.text "> a").load = _ from rfl) (Buffer.plain_ofText "> a")
  refine ⟨compiled, outcome, tree, grammar_eq, parsed, result, ?_⟩
  have shown : ((Parser.new compiled).parseSource (.text "> a")).toOption.bind
      (fun outcome => outcome.result.toOption.map fun tree =>
        decide (1 < tree.size ∧ tree.nameOf 1 = "quote" ∧
          tree.valueOf? 1 "lines" = some (.list [.text "a"]) ∧
          tree.valueOf? 1 "nested" = none)) = some true := by
    decide +kernel
  rw [parsed] at shown
  simp only [Except.toOption, Option.bind_some, result, Option.map_some, Option.some.injEq,
    decide_eq_true_eq] at shown
  exact shown

end LineGrammar.Markup.Blocks
