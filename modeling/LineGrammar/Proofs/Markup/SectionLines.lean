import LineGrammar.Proofs.Markup.SectionScopes
import LineGrammar.Proofs.Regex.Closing

/-!
The lines of section documents. What a line leads to follows from which rule takes
its text: it opens a block, adds to one or leaves it, and its texts are saved.
-/

namespace LineGrammar.Markup.Sections

variable {parse : Cursor → Outcome} {status : Status} {blocks : List Block} {items : Nat}
  {block : Block} {labels : List (Option String × List Char)} {index : Nat}
  {behind ahead taken : List Char} {rule : Rule} {source : String} {tag : Option String}

abbrev At (parse : Cursor → Outcome) (status : Status)
    (labels : List (Option String × List Char)) (behind : List Char) (ahead : List (List Char)) :
    Session → Prop :=
  Session.Stands (Shape parse status) labels behind ahead

theorem turns_of_saving (saving : rule.callbacks = [.save]) :
    rule.Turns (Shape parse status) (Shape parse status) := by
  intro found session shape
  rw [saving]
  exact Rule.succeeds_one (shape.saves found)

theorem turns_of_nothing (nothing : rule.callbacks = []) :
    rule.Turns (Shape parse status) (Shape parse status) := by
  intro found session shape
  rw [nothing]
  exact ⟨session, rfl, shape⟩

theorem turns_of_opening (opening : rule.callbacks = [.perform (.openScope block.scope.name)]) :
    rule.Turns (Shape parse ⟨none, blocks, items⟩)
      (Shape parse ⟨some block, blocks ++ [block], items⟩) := by
  intro found session shape
  rw [opening]
  exact Rule.succeeds_one (shape.opens block)

theorem turns_of_closing (closing : rule.callbacks = [.perform (.closeScopes 1)]) :
    rule.Turns (Shape parse ⟨some block, blocks, items⟩) (Shape parse ⟨none, blocks, items⟩) := by
  intro found session shape
  rw [closing]
  exact Rule.succeeds_one shape.closes

theorem turns_of_counting (counting : rule.callbacks = [.save, .perform (.add "items" 1 1)]) :
    rule.Turns (Shape parse ⟨some block, blocks, items⟩)
      (Shape parse ⟨some block, blocks, items + 1⟩) := by
  intro found session shape
  rw [counting]
  apply Rule.succeeds_cons
  apply (shape.saves found).imp
  intro saved shape
  exact Rule.succeeds_one shape.counts

/-! What a pattern that takes some text leads to, by the callbacks of its rule. -/

theorem leads_saves (status : Status) (later : List (List Char))
    (chosen : Rule.choose? behind ahead status.scope.rules = some (index, ahead))
    (wide : ahead ≠ [])
    (listed : status.scope.rules[index]? = some (.ofPattern source tag [.save])) :
    Session.Leads compiled (At parse status labels behind (ahead :: later))
      (At parse status (labels ++ [(tag, ahead)]) [] later) :=
  Session.leads_takes_line (Shape.steady parse status) (Shape.steady parse status) chosen wide listed
    (by simp [Rule.Still, Rule.ofPattern, Callback.Still]) (turns_of_saving rfl)

theorem leads_counts (block : Block) (later : List (List Char))
    (chosen : Rule.choose? behind ahead block.scope.rules = some (index, ahead))
    (wide : ahead ≠ [])
    (listed : block.scope.rules[index]? =
      some (.ofPattern source tag [.save, .perform (.add "items" 1 1)])) :
    Session.Leads compiled (At parse ⟨some block, blocks, items⟩ labels behind (ahead :: later))
      (At parse ⟨some block, blocks, items + 1⟩ (labels ++ [(tag, ahead)]) [] later) :=
  Session.leads_takes_line (Shape.steady parse _) (Shape.steady parse _) chosen wide listed
    (by simp [Rule.Still, Rule.ofPattern, Callback.Still, Operation.OnScopes])
    (turns_of_counting rfl)

theorem leads_marks (status : Status) (rest : List Char) (later : List (List Char))
    (chosen : Rule.choose? behind ahead status.scope.rules = some (index, taken))
    (wide : taken ≠ []) (listed : status.scope.rules[index]? = some (.ofPattern source tag []))
    (split : ahead = taken ++ rest) (more : rest ≠ []) :
    Session.Leads compiled (At parse status labels behind (ahead :: later))
      (At parse status (labels ++ [(tag, taken)]) (behind ++ taken) (rest :: later)) :=
  Session.leads_takes (Shape.steady parse status) (Shape.steady parse status) chosen wide listed
    (by simp [Rule.Still, Rule.ofPattern]) (turns_of_nothing rfl) split more

theorem leads_opens (block : Block) (rest : List Char) (later : List (List Char))
    (chosen : Rule.choose? behind ahead mainScope.rules = some (index, taken))
    (wide : taken ≠ [])
    (listed : mainScope.rules[index]? =
      some (.ofPattern source tag [.perform (.openScope block.scope.name)]))
    (split : ahead = taken ++ rest) (more : rest ≠ []) :
    Session.Leads compiled (At parse ⟨none, blocks, items⟩ labels behind (ahead :: later))
      (At parse ⟨some block, blocks ++ [block], items⟩ (labels ++ [(tag, taken)])
        (behind ++ taken) (rest :: later)) :=
  Session.leads_takes (Shape.steady parse ⟨none, blocks, items⟩) (Shape.steady parse _) chosen wide
    listed (by simp [Rule.Still, Rule.ofPattern, Callback.Still, Operation.OnScopes])
    (turns_of_opening rfl) split more

theorem leads_opens_line (block : Block) (later : List (List Char))
    (chosen : Rule.choose? behind ahead mainScope.rules = some (index, ahead))
    (wide : ahead ≠ [])
    (listed : mainScope.rules[index]? =
      some (.ofPattern source tag [.perform (.openScope block.scope.name)])) :
    Session.Leads compiled (At parse ⟨none, blocks, items⟩ labels behind (ahead :: later))
      (At parse ⟨some block, blocks ++ [block], items⟩ (labels ++ [(tag, ahead)]) [] later) :=
  Session.leads_takes_line (Shape.steady parse ⟨none, blocks, items⟩) (Shape.steady parse _) chosen
    wide listed (by simp [Rule.Still, Rule.ofPattern, Callback.Still, Operation.OnScopes])
    (turns_of_opening rfl)

theorem leads_closes_line (block : Block) (later : List (List Char))
    (chosen : Rule.choose? behind ahead block.scope.rules = some (index, ahead))
    (wide : ahead ≠ [])
    (listed : block.scope.rules[index]? =
      some (.ofPattern source tag [.perform (.closeScopes 1)])) :
    Session.Leads compiled (At parse ⟨some block, blocks, items⟩ labels behind (ahead :: later))
      (At parse ⟨none, blocks, items⟩ (labels ++ [(tag, ahead)]) [] later) :=
  Session.leads_takes_line (Shape.steady parse ⟨some block, blocks, items⟩) (Shape.steady parse _)
    chosen wide listed
    (by simp [Rule.Still, Rule.ofPattern, Callback.Still, Operation.OnScopes])
    (turns_of_closing rfl)

theorem leads_leaves (block : Block) (later : List (List Char))
    (chosen : Rule.choose? [] [] block.scope.rules = some (index, []))
    (listed : block.scope.rules[index]? = some leaving) :
    Session.Leads compiled (At parse ⟨some block, blocks, items⟩ labels [] ([] :: later))
      (At parse ⟨none, blocks, items⟩ labels [] later) :=
  Session.leads_leaves (Shape.steady parse ⟨some block, blocks, items⟩) (Shape.steady parse _)
    chosen listed rfl trivial (turns_of_closing rfl)

theorem leads_passes (later : List (List Char)) :
    Session.Leads compiled (At parse ⟨none, blocks, items⟩ labels [] ([] :: later))
      (At parse ⟨none, blocks, items⟩ labels [] later) := by
  have refused : Rule.choose? [] [] mainScope.rules = none := by decide +kernel
  exact Session.leads_passes (Shape.steady parse ⟨none, blocks, items⟩) rfl refused

/-! How the texts that hold a number are taken. -/

def inLine : Regex.CharClass := .complement (.single '\n')

theorem contains_inLine {text : List Char} (single : '\n' ∉ text) :
    ∀ char ∈ text, inLine.contains char = true := by
  intro char member
  rw [inLine, Regex.Program.contains_others, bne_iff_ne]
  rintro rfl
  exact single member

section Headings

open Regex

/-- A level of a heading, of which the first two marks are told. -/
def marks (deeper : Program) : Program :=
  .group 1 (.seq (.chars (.single '#')) (.branch 0 (.seq (.chars (.single '#'))
    (.branch 1 (.seq (.chars (.single '#')) deeper) .empty)) .empty))

def blanks : Program := .seq (.chars (.named .white)) (.star 5 true (.chars (.named .white)))

theorem compile_heading : ∃ regex deeper,
    Regex.compile? "^(#\x7b1,6\x7d)\\s+(.*)" false = some regex ∧
      regex.program = .seq (.look .textStart) (.seq (marks deeper) (.seq blanks
        (.group 2 (.star 6 true (.chars inLine))))) := ⟨_, _, rfl, rfl⟩

theorem run_marks {Result : Type} {deeper title : Program} {first : Char} {more : List Char}
    {next : State → Verdict Result} {result : Result} (black : Text.isWhite first = false)
    (accepted : title.run ⟨some ' ', first :: more, 3, [⟨1, 0, 2⟩], [⟨5, 3⟩, ⟨1, 2⟩, ⟨0, 1⟩]⟩ next =
      .accepted result) :
    Program.run (.seq (.look .textStart) (.seq (marks deeper) (.seq blanks title)))
      ⟨none, '#' :: '#' :: ' ' :: first :: more, 0, [], []⟩ next = .accepted result := by
  have mark : (CharClass.single '#').contains '#' = true := by decide
  have other : (CharClass.single '#').contains ' ' = false := by decide
  have white : (CharClass.named .white).contains ' ' = true := by decide +kernel
  have stops : (CharClass.named .white).contains first = false := black
  have widths : '#'.utf8Size = 1 ∧ ' '.utf8Size = 1 := by decide
  simp [marks, blanks, Program.run, Program.rounds, Assertion.holds, State.consume, State.hasMade,
    State.make, State.closeGroup, Verdict.orTry, mark, other, white, stops, widths, accepted]

theorem choose?_heading {first : Char} {more : List Char} (black : Text.isWhite first = false)
    (single : '\n' ∉ first :: more) :
    Rule.choose? [] ('#' :: '#' :: ' ' :: first :: more) mainScope.rules =
      some (0, '#' :: '#' :: ' ' :: first :: more) := by
  obtain ⟨regex, deeper, isRegex, program⟩ := compile_heading
  have widths : '#'.utf8Size = 1 ∧ ' '.utf8Size = 1 := by decide
  have ahead : State.Precedes ⟨none, '#' :: '#' :: ' ' :: first :: more, 0, [], []⟩
      ⟨some ' ', first :: more, 3, [⟨1, 0, 2⟩], [⟨5, 3⟩, ⟨1, 2⟩, ⟨0, 1⟩]⟩ :=
    ⟨['#', '#', ' '], rfl, by simp [widths]⟩
  obtain ⟨final, moved, ended, given⟩ :=
    @Program.rounds_take_all Captures inLine 6 ((first :: more).length + 1)
      ⟨some ' ', first :: more, 3, [⟨1, 0, 2⟩], [⟨5, 3⟩, ⟨1, 2⟩, ⟨0, 1⟩]⟩
      (fun inner => .accepted (Captures.ofState regex.groups 0 (inner.closeGroup 2 3)))
      (contains_inLine single) (by simp) (Nat.lt_succ_self _) (fun final _ => ⟨_, rfl⟩)
  have closed : final.Precedes (final.closeGroup 2 3) := State.precedes_of_same rfl rfl
  have taken : regex.take? [] ('#' :: '#' :: ' ' :: first :: more) =
      some ('#' :: '#' :: ' ' :: first :: more) := by
    apply Regex.take?_all
    apply matchFrom_of_all _ (ahead.trans (moved.trans closed)) ended
    rw [program]
    exact run_marks black given
  rw [mainScope, Rule.choose?, Rule.ofPattern, isRegex, Expr.take?, taken]

end Headings

theorem choose?_code {first : Char} {more : List Char} (other : first ≠ '`')
    (single : '\n' ∉ first :: more) :
    Rule.choose? [] (first :: more) codeScope.rules = some (1, first :: more) := by
  obtain ⟨fence, ticks, isFence, program⟩ : ∃ regex ticks,
      Regex.compile? "^```" false = some regex ∧
        regex.program = .seq (.look .textStart) (.seq (.chars (.single '`')) ticks) :=
    ⟨_, _, rfl, rfl⟩
  obtain ⟨code, isCode, program'⟩ : ∃ regex, Regex.compile? ".+" false = some regex ∧
      regex.program = .seq (.chars inLine) (.star 0 true (.chars inLine)) := ⟨_, rfl, rfl⟩
  have refused : fence.take? [] (first :: more) = none := by
    have differs : (Regex.CharClass.single '`').contains first = false := by
      rw [Regex.contains_single, beq_eq_false_iff_ne]
      exact other
    simp [Regex.take?, Regex.matchFrom, program, Regex.Program.run, Regex.Assertion.holds, differs,
      Regex.Verdict.result?]
  have all := contains_inLine single
  have taken : code.take? [] (first :: more) = some (first :: more) :=
    Regex.take?_all (Regex.matchFrom_take_first program' rfl (all first (by simp))
      fun char member => all char (List.mem_cons_of_mem first member))
  rw [codeScope, Rule.choose?, Rule.ofPattern, isFence, Expr.take?, refused]
  simp only [Rule.choose?, Rule.ofPattern, isCode, Expr.take?, taken, Option.map_some]

end LineGrammar.Markup.Sections
