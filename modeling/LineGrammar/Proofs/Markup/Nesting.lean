import LineGrammar.Proofs.Markup.Blocks

/-!
How blocks are nested. Between two rounds of a parse, and so in the tree that it
returns, every paragraph, every quote and all fenced code lies in the root, and
every list in the root or in a list of a smaller indent. Every quote has at least
one line.
-/

namespace LineGrammar.Markup.Blocks

def Lined (tree : Tree) (id : Nat) : Prop :=
  ∃ (text : String) (texts : List String),
    tree.valueOf? id "lines" = some (.list (.text text :: texts.map .text))

/-- Whether all scopes of a tree are nested as blocks are. -/
structure Arranged (tree : Tree) : Prop where
  block : ∀ id < tree.size, tree.nameOf id ∈ blockNames → tree.parentOf id = some Tree.root
  list : ∀ id < tree.size, tree.nameOf id = "list" → Listed tree id
  quote : ∀ id < tree.size, tree.nameOf id = "quote" → Lined tree id

variable {parse : Cursor → Outcome} {cursor : Cursor} {place : Place} {session : Session}
  {tree : Tree}

theorem Settled.lined {id : Nat} (settled : Settled parse tree id)
    (isQuote : tree.nameOf id = "quote") : Lined tree id := by
  obtain ⟨texts, inner, begun, _, lines, _⟩ := settled.quote isQuote
  obtain ⟨text, later, rfl⟩ := List.exists_cons_of_ne_nil begun
  exact ⟨text, later, lines⟩

theorem arranged_of_settled (settled : ∀ id < tree.size, Settled parse tree id) :
    Arranged tree where
  block id bound := (settled id bound).block
  list id bound := (settled id bound).list
  quote id bound := (settled id bound).lined

/-- In an open quote, it is the only scope that is not settled. -/
theorem Stands.arranged_in_quote {texts : List String}
    (stands : Stands parse cursor (.quote texts) session) (begun : texts ≠ []) :
    Arranged session.context.tree := by
  have name : session.context.tree.nameOf session.context.current = "quote" := stands.scopeName
  constructor
  · intro id bound isBlock
    by_cases here : id = session.context.current
    · rw [here]
      exact stands.sound.parent_eq_root stands.trace
    · exact (stands.settled id bound here).block isBlock
  · intro id bound isList
    by_cases here : id = session.context.current
    · rw [here, name] at isList
      exact absurd isList (by decide)
    · exact (stands.settled id bound here).list isList
  · intro id bound isQuote
    by_cases here : id = session.context.current
    · obtain ⟨text, later, rfl⟩ := List.exists_cons_of_ne_nil begun
      rw [here]
      exact ⟨text, later, stands.kept.1⟩
    · exact (stands.settled id bound here).lined isQuote

theorem Stands.arranged (stands : Stands parse cursor place session)
    (fits : place.Fits cursor) : Arranged session.context.tree := by
  cases place with
  | quote texts => exact stands.arranged_in_quote fun none => fits.begun (none ▸ rfl)
  | _ => exact arranged_of_settled (stands.all_settled rfl)

theorem arranged_of_reaches {buffer : Buffer} (plain : buffer.Plain) {extra depth : Nat}
    (enough : buffer.charCount ≤ depth)
    (reaches : Session.Reaches compiled (compiled.opening {} extra depth ⟨buffer, .origin⟩)
      session) : Arranged session.context.tree := by
  obtain ⟨_, _, _, place, _, stands, fits⟩ := standing_of_reaches plain enough reaches
  exact stands.arranged fits

theorem drive_arranged {buffer : Buffer} (plain : buffer.Plain) (extra : Nat) {depth : Nat}
    (enough : buffer.charCount < depth) :
    ∃ tree, (compiled.drive {} extra depth ⟨buffer, .origin⟩).result = .ok tree ∧
      Arranged tree := by
  obtain ⟨tree, parsed⟩ := drive_parses plain extra enough
  refine ⟨tree, parsed, ?_⟩
  obtain ⟨depth, rfl⟩ := Nat.exists_eq_add_one_of_ne_zero (Nat.ne_zero_of_lt enough)
  rw [Grammar.drive_succ] at parsed
  cases done : Session.parse compiled (Config.roundLimit {} buffer + extra)
    (compiled.opening {} extra depth ⟨buffer, .origin⟩) with
  | error error after =>
      rw [done] at parsed
      cases parsed
  | ok result after =>
      rw [done] at parsed
      cases parsed
      obtain ⟨entered, final, entering, reaches, _, rfl, _⟩ := Session.parse_ok done
      cases entering
      exact arranged_of_reaches plain (Nat.le_of_lt_succ enough) reaches

/-- Paragraphs, quotes and fenced code lie in the root; lists lie in the root or in
lists of a smaller indent; quotes have lines. So it is in every tree of blocks, and
also while a parse goes on, the open scopes included. -/
theorem blocks_are_nested :
    ∃ built, grammar = .ok built ∧
      (∀ lines : List String, (∀ line ∈ lines, '\n' ∉ line.toList) →
        ∃ outcome tree, (Parser.new built).parseSource (.lines lines) = .ok outcome ∧
          outcome.result = .ok tree ∧ Arranged tree) ∧
      ∀ (buffer : Buffer) (extra depth : Nat), (∀ line ∈ buffer.lines, '\n' ∉ line.text) →
        buffer.charCount ≤ depth →
        (∃ tree, (built.drive {} extra (depth + 1) ⟨buffer, .origin⟩).result = .ok tree ∧
          Arranged tree) ∧
        ∀ session, Session.Reaches built (built.opening {} extra depth ⟨buffer, .origin⟩) session →
          Arranged session.context.tree := by
  refine ⟨compiled, grammar_eq, ?_, ?_⟩
  · intro lines single
    obtain ⟨outcome, parsed, result, _⟩ :=
      (Parser.new compiled).parseSource_of_load (show (Source.lines lines).load = _ from rfl)
    obtain ⟨tree, done, arranged⟩ := drive_arranged (Buffer.plain_ofLines single)
      (Budget.ample (.ofLines lines)).extra
      (Nat.lt_add_of_pos_right (by decide : 0 < 0x10000))
    exact ⟨outcome, tree, parsed, result.trans done, arranged⟩
  · intro buffer extra depth plain enough
    exact ⟨drive_arranged plain extra (Nat.lt_succ_of_le enough),
      fun session => arranged_of_reaches plain enough⟩

def soleItem : Session := compiled.opening {} 0 4 ⟨.ofLines ["- a"], .origin⟩

/-- After the first round a list is open, with an indent and in the root. -/
theorem sole_item_is_nested :
    ∃ built, grammar = .ok built ∧ (∀ line ∈ ["- a"], '\n' ∉ line.toList) ∧
      (∃ outcome tree, (Parser.new built).parseSource (.lines ["- a"]) = .ok outcome ∧
        outcome.result = .ok tree ∧ Arranged tree) ∧
      ∃ session, Session.Reaches built (built.opening {} 0 4 ⟨.ofLines ["- a"], .origin⟩) session ∧
        session.context.scopeName = "list" ∧
        Listed session.context.tree session.context.current := by
  obtain ⟨built, isBuilt, lines, runs⟩ := blocks_are_nested
  have single : ∀ line ∈ ["- a"], '\n' ∉ line.toList := by decide
  refine ⟨built, isBuilt, single, lines _ single, ?_⟩
  rw [grammar_eq] at isBuilt
  cases isBuilt
  have succeeds : (match Session.round compiled soleItem with
    | .ok _ after => after.context.scopeName == "list" &&
        decide (after.context.current < after.context.tree.size)
    | .error _ _ => false) = true := by
    decide +kernel
  cases made : Session.round compiled soleItem with
  | error error after =>
      rw [made] at succeeds
      cases succeeds
  | ok value after =>
      rw [made] at succeeds
      simp only [Bool.and_eq_true, beq_iff_eq, decide_eq_true_eq] at succeeds
      have reaches : Session.Reaches compiled soleItem after :=
        .single ⟨by decide +kernel, made⟩
      have arranged := (runs (.ofLines ["- a"]) 0 4 (by decide) (by decide)).2 after reaches
      exact ⟨after, reaches, succeeds.1, arranged.list _ succeeds.2 succeeds.1⟩

end LineGrammar.Markup.Blocks
