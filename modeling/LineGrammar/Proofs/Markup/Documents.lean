import LineGrammar.Proofs.Buffer.Plain
import LineGrammar.Proofs.Markup.SectionLines
import LineGrammar.Proofs.Parser.Endings
import LineGrammar.Proofs.Text.Numeral

/-!
Documents of any number of sections. A section leads from the root back to the root,
with a quote, a list and fenced code in the tree, two more items and its labels in the
ledger; so does a document, section by section.
-/

namespace LineGrammar.Markup.Sections

variable {parse : Cursor → Outcome} {blocks : List Block} {items : Nat}
  {labels : List (Option String × List Char)} {later : List (List Char)}

theorem toList_heading (index : Nat) :
    ("## Section " ++ toString index).toList =
      '#' :: '#' :: ' ' :: 'S' :: ("ection ".toList ++ (toString index).toList) := by
  have start : "## Section ".toList = '#' :: '#' :: ' ' :: 'S' :: "ection ".toList := by
    decide +kernel
  rw [String.toList_append, start]
  rfl

theorem unbroken_heading (index : Nat) :
    Text.Unbroken ("## Section " ++ toString index).toList := by
  have apart : '\n' ∉ "## Section ".toList ∧ '\r' ∉ "## Section ".toList := by decide +kernel
  rw [String.toList_append]
  apply Text.unbroken_of_not_mem
  · rw [List.mem_append, not_or]
    exact ⟨apart.1, Text.not_mem_toString (by decide) index⟩
  · rw [List.mem_append, not_or]
    exact ⟨apart.2, Text.not_mem_toString (by decide) index⟩

theorem choose?_title (index : Nat) :
    Rule.choose? [] ("## Section " ++ toString index).toList mainScope.rules =
      some (0, ("## Section " ++ toString index).toList) := by
  have single := (unbroken_heading index).1
  rw [toList_heading] at single ⊢
  apply choose?_heading (by decide +kernel)
  intro member
  exact single (List.mem_append_right ['#', '#', ' '] member)

theorem leads_introduction (index : Nat) :
    Session.Leads compiled
      (At parse ⟨none, blocks, items⟩ labels []
        (("## Section " ++ toString index).toList ::
          "Some introductory text for this section.".toList :: [] :: later))
      (At parse ⟨none, blocks, items⟩
        (labels ++
          [(some "heading", ("## Section " ++ toString index).toList),
            (some "text", "Some introductory text for this section.".toList)])
        [] later) := by
  have title : ("## Section " ++ toString index).toList ≠ [] := by
    rw [toList_heading]
    exact List.cons_ne_nil _ _
  have text : Rule.choose? [] "Some introductory text for this section.".toList mainScope.rules =
      some (4, "Some introductory text for this section.".toList) := by decide +kernel
  have run : Session.Leads compiled (At parse ⟨none, blocks, items⟩ labels [] _)
      (At parse ⟨none, blocks, items⟩ _ [] later) :=
    (leads_saves ⟨none, blocks, items⟩ _ (choose?_title index) title rfl).trans
      ((leads_saves ⟨none, blocks, items⟩ _ text (by decide +kernel) rfl).trans
        (leads_passes later))
  rwa [List.append_assoc] at run

theorem leads_quote :
    Session.Leads compiled
      (At parse ⟨none, blocks, items⟩ labels []
        ("> a quoted remark".toList :: "> spanning two lines".toList :: [] :: later))
      (At parse ⟨none, blocks ++ [.quote], items⟩
        (labels ++
          [(none, "> ".toList), (some "text", "a quoted remark".toList),
            (none, "> ".toList), (some "text", "spanning two lines".toList)])
        [] later) := by
  have opens : Rule.choose? [] "> a quoted remark".toList mainScope.rules =
      some (2, "> ".toList) := by decide +kernel
  have remark : Rule.choose? "> ".toList "a quoted remark".toList quoteScope.rules =
      some (1, "a quoted remark".toList) := by decide +kernel
  have marks : Rule.choose? [] "> spanning two lines".toList quoteScope.rules =
      some (0, "> ".toList) := by decide +kernel
  have lines : Rule.choose? "> ".toList "spanning two lines".toList quoteScope.rules =
      some (1, "spanning two lines".toList) := by decide +kernel
  have leaves : Rule.choose? [] [] quoteScope.rules = some (2, []) := by decide +kernel
  have run : Session.Leads compiled (At parse ⟨none, blocks, items⟩ labels [] _)
      (At parse ⟨none, blocks ++ [.quote], items⟩ _ [] later) :=
    (leads_opens .quote "a quoted remark".toList _ opens (by decide +kernel) rfl
      (by decide +kernel) (by decide +kernel)).trans <|
    (leads_saves ⟨some .quote, _, items⟩ _ remark (by decide +kernel) rfl).trans <|
    (leads_marks ⟨some .quote, _, items⟩ "spanning two lines".toList _ marks (by decide +kernel) rfl
      (by decide +kernel) (by decide +kernel)).trans <|
    (leads_saves ⟨some .quote, _, items⟩ _ lines (by decide +kernel) rfl).trans <|
    leads_leaves .quote later leaves rfl
  simpa only [List.append_assoc, List.cons_append, List.nil_append] using run

theorem leads_list :
    Session.Leads compiled
      (At parse ⟨none, blocks, items⟩ labels []
        ("- first item".toList :: "- second item".toList :: [] :: later))
      (At parse ⟨none, blocks ++ [.list], items + 2⟩
        (labels ++
          [(none, "- ".toList), (some "item", "first item".toList),
            (none, "- ".toList), (some "item", "second item".toList)])
        [] later) := by
  have opens : Rule.choose? [] "- first item".toList mainScope.rules =
      some (3, "- ".toList) := by decide +kernel
  have item : Rule.choose? "- ".toList "first item".toList listScope.rules =
      some (1, "first item".toList) := by decide +kernel
  have marks : Rule.choose? [] "- second item".toList listScope.rules =
      some (0, "- ".toList) := by decide +kernel
  have another : Rule.choose? "- ".toList "second item".toList listScope.rules =
      some (1, "second item".toList) := by decide +kernel
  have leaves : Rule.choose? [] [] listScope.rules = some (2, []) := by decide +kernel
  have run : Session.Leads compiled (At parse ⟨none, blocks, items⟩ labels [] _)
      (At parse ⟨none, blocks ++ [.list], items + 1 + 1⟩ _ [] later) :=
    (leads_opens .list "first item".toList _ opens (by decide +kernel) rfl
      (by decide +kernel) (by decide +kernel)).trans <|
    (leads_counts .list _ item (by decide +kernel) rfl).trans <|
    (leads_marks ⟨some .list, _, items + 1⟩ "second item".toList _ marks (by decide +kernel) rfl
      (by decide +kernel) (by decide +kernel)).trans <|
    (leads_counts .list _ another (by decide +kernel) rfl).trans <|
    leads_leaves .list later leaves rfl
  simpa only [List.append_assoc, List.cons_append, List.nil_append] using run

theorem toList_code (index : Nat) :
    ("let x = " ++ toString index ++ ";").toList =
      'l' :: ("et x = ".toList ++ (toString index).toList ++ [';']) := by
  have start : "let x = ".toList = 'l' :: "et x = ".toList := by decide +kernel
  have stop : ";".toList = [';'] := by decide +kernel
  rw [String.toList_append, String.toList_append, start, stop]
  rfl

theorem unbroken_code (index : Nat) :
    Text.Unbroken ("let x = " ++ toString index ++ ";").toList := by
  have apart : '\n' ∉ "let x = ".toList ∧ '\r' ∉ "let x = ".toList := by decide +kernel
  have apart' : '\n' ∉ ";".toList ∧ '\r' ∉ ";".toList := by decide +kernel
  rw [String.toList_append, String.toList_append]
  apply Text.unbroken_of_not_mem
  · rw [List.mem_append, List.mem_append, not_or, not_or]
    exact ⟨⟨apart.1, Text.not_mem_toString (by decide) index⟩, apart'.1⟩
  · rw [List.mem_append, List.mem_append, not_or, not_or]
    exact ⟨⟨apart.2, Text.not_mem_toString (by decide) index⟩, apart'.2⟩

theorem choose?_numbered (index : Nat) :
    Rule.choose? [] ("let x = " ++ toString index ++ ";").toList codeScope.rules =
      some (1, ("let x = " ++ toString index ++ ";").toList) := by
  have single := (unbroken_code index).1
  rw [toList_code] at single ⊢
  exact choose?_code (by decide) single

theorem leads_code (index : Nat) :
    Session.Leads compiled
      (At parse ⟨none, blocks, items⟩ labels []
        ("```".toList :: ("let x = " ++ toString index ++ ";").toList :: "```".toList :: later))
      (At parse ⟨none, blocks ++ [.code], items⟩
        (labels ++
          [(none, "```".toList), (some "code", ("let x = " ++ toString index ++ ";").toList),
            (none, "```".toList)])
        [] later) := by
  have opens : Rule.choose? [] "```".toList mainScope.rules = some (1, "```".toList) := by
    decide +kernel
  have closes : Rule.choose? [] "```".toList codeScope.rules = some (0, "```".toList) := by
    decide +kernel
  have line : ("let x = " ++ toString index ++ ";").toList ≠ [] := by
    rw [toList_code]
    exact List.cons_ne_nil _ _
  have run : Session.Leads compiled (At parse ⟨none, blocks, items⟩ labels [] _)
      (At parse ⟨none, blocks ++ [.code], items⟩ _ [] later) :=
    (leads_opens_line .code _ opens (by decide +kernel) rfl).trans <|
    (leads_saves ⟨some .code, _, items⟩ _ (choose?_numbered index) line rfl).trans <|
    leads_closes_line .code later closes (by decide +kernel) rfl
  simpa only [List.append_assoc, List.cons_append, List.nil_append] using run

def sectionLabels (index : Nat) : List (Option String × List Char) :=
  [ (some "heading", ("## Section " ++ toString index).toList),
    (some "text", "Some introductory text for this section.".toList),
    (none, "> ".toList), (some "text", "a quoted remark".toList),
    (none, "> ".toList), (some "text", "spanning two lines".toList),
    (none, "- ".toList), (some "item", "first item".toList),
    (none, "- ".toList), (some "item", "second item".toList),
    (none, "```".toList), (some "code", ("let x = " ++ toString index ++ ";").toList),
    (none, "```".toList) ]

theorem leads_section (index : Nat) :
    Session.Leads compiled
      (At parse ⟨none, blocks, items⟩ labels []
        ((sectionLines index).map String.toList ++ later))
      (At parse ⟨none, blocks ++ [.quote, .list, .code], items + 2⟩
        (labels ++ sectionLabels index) [] later) := by
  have empty : "".toList = [] := by decide +kernel
  have run := (@leads_introduction parse blocks items labels _ index).trans
    (leads_quote.trans (leads_list.trans (@leads_code _ _ _ _ later index)))
  simpa only [sectionLines, sectionLabels, List.map_cons, List.map_nil, empty, List.append_assoc,
    List.cons_append, List.nil_append] using run

theorem leads_sections (sections : List Nat) :
    Session.Leads compiled
      (At parse ⟨none, blocks, items⟩ labels []
        ((sections.flatMap sectionLines).map String.toList ++ later))
      (At parse
        ⟨none, blocks ++ sections.flatMap fun _ => [.quote, .list, .code],
          items + 2 * sections.length⟩
        (labels ++ sections.flatMap sectionLabels) [] later) := by
  induction sections generalizing blocks items labels with
  | nil =>
      intro session stands
      refine ⟨session, .refl, ?_⟩
      simpa using stands
  | cons first sections induction =>
      have run := (@leads_section parse blocks items labels
        ((sections.flatMap sectionLines).map String.toList ++ later) first).trans induction
      have count : items + 2 + 2 * sections.length = items + 2 * (first :: sections).length := by
        rw [List.length_cons]
        omega
      rw [count] at run
      simpa only [List.flatMap_cons, List.map_append, List.append_assoc] using run

theorem unbroken_document (count : Nat) :
    ∀ line ∈ document count, Text.Unbroken line.toList := by
  intro line member
  obtain ⟨index, _, inSection⟩ := List.mem_flatMap.mp member
  simp only [sectionLines, List.mem_cons, List.not_mem_nil, or_false] at inSection
  rcases inSection with rfl | rfl | rfl | rfl | rfl | rfl | rfl | rfl | rfl | rfl | rfl | rfl
  case inl => exact unbroken_heading index
  case inr.inr.inr.inr.inr.inr.inr.inr.inr.inr.inl => exact unbroken_code index
  all_goals decide +kernel

theorem at_opening (count extra depth : Nat) :
    At (compiled.drive {} extra depth) ⟨none, [], 0⟩ [] []
      (((List.range count).flatMap sectionLines).map String.toList ++ [])
      (compiled.opening {} extra depth ⟨.ofLines (document count), .origin⟩) := by
  have sound := @Session.begin_sound
    (compiled.setting {} (compiled.drive {} extra depth)) rfl ⟨.ofLines (document count), .origin⟩
  refine ⟨⟨rfl, rfl, sound, rfl, rfl, rfl⟩, ⟨?_, rfl, ?_, ?_⟩, ?_⟩
  · exact Tree.chronicle_ofRoot Context.mainScope
  · intro found member
    cases member
  · intro found last
    cases last
  · have faces := Cursor.faces_lineStart (.ofLines (document count)) 0
    rw [List.drop_zero, Buffer.texts_ofLines (unbroken_document count)] at faces
    rw [List.append_nil]
    exact faces

def sectionTexts (tag : String) (index : Nat) : List String :=
  ((sectionLabels index).filter fun label => label.1 == some tag).map fun label =>
    String.ofList label.2

theorem sectionTexts_heading (index : Nat) :
    sectionTexts "heading" index = ["## Section " ++ toString index] := by
  have kept : (sectionLabels index).filter (fun label => label.1 == some "heading") =
      [(some "heading", ("## Section " ++ toString index).toList)] := by
    unfold sectionLabels
    generalize ("## Section " ++ toString index).toList = title
    simp
  rw [sectionTexts, kept, List.map_singleton, String.ofList_toList]

theorem sectionTexts_code (index : Nat) :
    sectionTexts "code" index = ["let x = " ++ toString index ++ ";"] := by
  have kept : (sectionLabels index).filter (fun label => label.1 == some "code") =
      [(some "code", ("let x = " ++ toString index ++ ";").toList)] := by
    unfold sectionLabels
    generalize ("let x = " ++ toString index ++ ";").toList = line
    simp
  rw [sectionTexts, kept, List.map_singleton, String.ofList_toList]

theorem length_sectionTexts_item (index : Nat) : (sectionTexts "item" index).length = 2 := by
  simp [sectionTexts, sectionLabels]

theorem length_sectionTexts_text (index : Nat) : (sectionTexts "text" index).length = 3 := by
  simp [sectionTexts, sectionLabels]

theorem length_flatMap_of_length {Item Other : Type} {each : Item → List Other} {size : Nat}
    (lengths : ∀ item, (each item).length = size) (list : List Item) :
    (list.flatMap each).length = size * list.length := by
  simp [List.length_flatMap, lengths, Nat.mul_comm]

theorem document_parses (count : Nat) :
    ∃ final parse, At parse
        ⟨none, (List.range count).flatMap fun _ => [.quote, .list, .code], 2 * count⟩
        ((List.range count).flatMap sectionLabels) [] [] final ∧
      ∃ outcome, (Parser.new compiled).parseSource (.lines (document count)) = .ok outcome ∧
        outcome.result = .ok final.context.tree := by
  obtain ⟨outcome, parsed, result, _⟩ := (Parser.new compiled).parseSource_of_load
    (show (Source.lines (document count)).load = .ok (.ofLines (document count)) from rfl)
  have opening := at_opening count (Budget.ample (.ofLines (document count))).extra
    ((Budget.ample (.ofLines (document count))).depth - 1)
  obtain ⟨final, strides, stands⟩ := leads_sections (List.range count) _ opening
  rw [List.nil_append, List.nil_append, Nat.zero_add, List.length_range] at stands
  refine ⟨final, _, stands, outcome, parsed, result.trans ?_⟩
  apply Session.Strides.parseBuffer_eq strides stands.cursor rfl
  rw [stands.context.setting]
  rfl

/-- The grammar of section documents is built, and for every number of sections its
parse of the document, with the default configuration, succeeds. The tree has the root
and, for each section in order, a quote, a list and fenced code, which are all the
children of the root, one after the other. The root counts two items for each
section, unless there are none. Every section has one heading, with its number, two items,
three texts and one line of code, with its number again. -/
theorem documents_parse_section_by_section (count : Nat) :
    ∃ built outcome tree, grammar = .ok built ∧
      (Parser.new built).parseSource (.lines (document count)) = .ok outcome ∧
      outcome.result = .ok tree ∧
      tree.size = 3 * count + 1 ∧
      tree.frame = ("main", none) :: (List.range count).flatMap (fun _ =>
        [("quote", some Tree.root), ("list", some Tree.root), ("code", some Tree.root)]) ∧
      tree.childrenOf Tree.root = List.range' 1 (3 * count) ∧
      tree.valueOf? Tree.root "items" = (if count = 0 then none else some (.int (2 * count))) ∧
      (tree.tagged "heading").map Match.text =
        (List.range count).map (fun index => "## Section " ++ toString index) ∧
      (tree.tagged "item").length = 2 * count ∧
      (tree.tagged "text").length = 3 * count ∧
      (tree.tagged "code").map Match.text =
        (List.range count).map (fun index => "let x = " ++ toString index ++ ";") := by
  obtain ⟨final, parse, stands, outcome, parsed, result⟩ := document_parses count
  have texts : ∀ tag, (final.context.tree.tagged tag).map Match.text =
      (List.range count).flatMap (sectionTexts tag) := by
    intro tag
    rw [stands.ledger.texts_eq, List.filter_flatMap, List.map_flatMap]
    rfl
  have length : ∀ tag size, (∀ index, (sectionTexts tag index).length = size) →
      (final.context.tree.tagged tag).length = size * count := by
    intro tag size lengths
    rw [← List.length_map Match.text, texts, length_flatMap_of_length lengths, List.length_range]
  have frame : final.context.tree.frame = ("main", none) ::
      ((List.range count).flatMap fun _ => ["quote", "list", "code"]).map fun name =>
        (name, some Tree.root) := by
    rw [stands.context.frame, List.map_flatMap, List.map_flatMap]
    rfl
  have blocks : ((List.range count).flatMap fun _ => ["quote", "list", "code"]).length =
      3 * count := by
    rw [@length_flatMap_of_length Nat String _ 3 (fun _ => rfl), List.length_range]
  refine ⟨compiled, outcome, final.context.tree, grammar_eq, parsed, result, ?_, ?_, ?_, ?_, ?_, ?_,
    ?_, ?_⟩
  · rw [← Tree.length_frame, frame, List.length_cons, List.length_map, blocks]
  · rw [frame, List.map_flatMap]
    rfl
  · rw [Tree.childrenOf_root stands.context.sound.formed frame, blocks]
  · rw [stands.context.items, itemsValue_eq]
    by_cases empty : count = 0
    · rw [empty]
      rfl
    · have twice : 2 * count ≠ 0 := by omega
      rw [if_neg empty, if_neg twice, Int.natCast_mul]
      rfl
  · rw [texts, funext sectionTexts_heading, List.map_eq_flatMap]
  · exact length "item" 2 length_sectionTexts_item
  · exact length "text" 3 length_sectionTexts_text
  · rw [texts, funext sectionTexts_code, List.map_eq_flatMap]

end LineGrammar.Markup.Sections
