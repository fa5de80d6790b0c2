import LineGrammar.Proofs.Grammar.Plain
import LineGrammar.Proofs.Parser.Turns

/-!
Runs of rounds that can be told in advance. A stride is a round that passes over
some of the text, and strides that come to the end of a buffer make a parse of it.
In a scope of plain rules the line tells which rule wins and what it takes; its
callbacks tell what becomes of the scopes; and the match is added to the ledger of
what was saved. So a run is put together from contracts, each of which leads from
sessions of one kind to sessions of another.
-/

namespace LineGrammar

namespace Session

variable {grammar : Grammar} {session before after final : Session}

structure Stride (grammar : Grammar) (before after : Session) : Prop where
  made : Round grammar before after
  buffer : after.cursor.buffer = before.cursor.buffer
  less : after.cursor.remaining < before.cursor.remaining

def Strides (grammar : Grammar) : Session → Session → Prop :=
  Relation.ReflTransGen (Stride grammar)

/-- Strides never let the fuse count, and there are no more of them than characters. -/
theorem Strides.drives (strides : Strides grammar session final)
    (ended : final.cursor.atEnd = true) {fuse : Fuse}
    (here : fuse.position = session.cursor.position) :
    ∃ count ≤ session.cursor.remaining, Drives grammar count fuse session (.ok () final) := by
  induction strides using Relation.ReflTransGen.head_induction_on generalizing fuse with
  | refl => exact ⟨0, Nat.zero_le _, .finished fuse ended⟩
  | @head before after stride _ induction =>
      have less := stride.less
      have moves : after.cursor.position ≠ fuse.position := by
        intro stays
        have same : after.cursor.remaining = before.cursor.remaining := by
          simp only [Cursor.remaining, stride.buffer, stays, here]
        omega
      obtain ⟨count, within, drives⟩ := @induction ⟨after.cursor.position, 0⟩ rfl
      exact ⟨count + 1, by omega, .goesOn stride.made (if_neg moves) drives⟩

theorem Strides.drive_eq {config : Config} {extra depth : Nat} {cursor : Cursor}
    (strides : Strides grammar (grammar.opening config extra depth cursor) final)
    (ended : final.cursor.atEnd = true) (start : config.start = Context.mainScope)
    (stop : final.context.setting.config.stop = none) :
    (grammar.drive config extra (depth + 1) cursor).result = .ok final.context.tree := by
  obtain ⟨count, within, drives⟩ := @Strides.drives grammar _ _ strides ended
    ⟨cursor.position, 0⟩ rfl
  refine Grammar.drive_of_drives drives ?_ start stop
  have most : count ≤ cursor.buffer.charCount :=
    Nat.le_trans within cursor.remaining_le_charCount
  have wide := Nat.le_mul_of_pos_right (cursor.buffer.charCount + 1)
    (show 0 < max 1 config.maxStall by omega)
  rw [Config.roundLimit]
  omega

theorem Strides.parseBuffer_eq {parser : Parser} {buffer : Buffer}
    (strides : Strides parser.grammar (parser.opening buffer) final)
    (ended : final.cursor.atEnd = true) (start : parser.config.start = Context.mainScope)
    (stop : final.context.setting.config.stop = none) :
    (parser.parseBuffer buffer).result = .ok final.context.tree := by
  rw [Parser.parseBuffer_eq_drive]
  exact strides.drive_eq ended start stop

/-- Whether the saved matches, all of them single nodes, have the given labels, and
the last of them begins before the cursor. -/
structure Ledger (labels : List (Option String × List Char)) (session : Session) : Prop where
  chronicled : session.Chronicled
  labels : session.savings.map Match.label = labels
  single : ∀ found ∈ session.savings, found.flatten = [found]
  behind : ∀ found, session.context.lastSave = some found →
    session.cursor.remaining < Cursor.remaining ⟨session.cursor.buffer, found.start⟩

namespace Ledger

variable {labels : List (Option String × List Char)}

theorem tagged_eq (ledger : session.Ledger labels) (tag : String) :
    (session.context.tree.tagged tag).map Match.label =
      labels.filter fun label => label.1 == some tag := by
  have told : session.context.tree.matchesOf Tree.root = session.savings :=
    ledger.chronicled.matchesOf_eq
  have nodes : session.savings.flatMap Match.flatten = session.savings := by
    rw [List.flatMap_congr ledger.single, List.flatMap_singleton']
  rw [Tree.tagged, told, nodes, ← ledger.labels, List.filter_map]
  rfl

theorem texts_eq (ledger : session.Ledger labels) (tag : String) :
    (session.context.tree.tagged tag).map Match.text =
      (labels.filter fun label => label.1 == some tag).map fun label => String.ofList label.2 := by
  rw [← ledger.tagged_eq, List.map_map]
  apply List.map_congr_left
  intro found _
  exact String.ofList_toList.symm

theorem moved (ledger : before.Ledger labels) (context : after.context = before.context)
    (savings : after.savings = before.savings)
    (buffer : after.cursor.buffer = before.cursor.buffer)
    (less : after.cursor.remaining ≤ before.cursor.remaining) : after.Ledger labels := by
  constructor
  · apply ledger.chronicled.of_same
    · rw [context]
    · rw [context]
    · exact savings
  · rw [savings]
    exact ledger.labels
  · rw [savings]
    exact ledger.single
  · intro found last
    rw [context] at last
    rw [buffer]
    exact Nat.lt_of_le_of_lt less (ledger.behind found last)

theorem add {found : Match} {sets : Bool → Prop} (ledger : before.Ledger labels)
    (changes : Changes (· = found) sets before after)
    (fresh : before.context.lastSave ≠ some found)
    (last : after.context.lastSave = some found) (single : found.flatten = [found])
    (passed : before.cursor.remaining < Cursor.remaining ⟨before.cursor.buffer, found.start⟩) :
    after.Ledger (labels ++ [found.label]) := by
  have added := changes.saved_once fresh last
  refine ⟨changes.chronicled ledger.chronicled, ?_, ?_, ?_⟩
  · rw [added, List.map_append, ledger.labels, List.map_singleton]
  · intro other member
    rw [added] at member
    rcases List.mem_append.mp member with earlier | new
    · exact ledger.single other earlier
    · rw [List.mem_singleton.mp new]
      exact single
  · intro other isLast
    cases last.symm.trans isLast
    rw [changes.cursor_eq]
    exact passed

theorem keeps {sets : Bool → Prop} (ledger : before.Ledger labels)
    (changes : Changes (fun _ => False) sets before after) : after.Ledger labels := by
  obtain ⟨savings, lastSave⟩ := changes.nothing_saved
  refine ⟨changes.chronicled ledger.chronicled, ?_, ?_, ?_⟩
  · rw [savings]
    exact ledger.labels
  · rw [savings]
    exact ledger.single
  · rw [lastSave, changes.cursor_eq]
    exact ledger.behind

theorem publish (ledger : session.Ledger labels) {event : Event} (silent : event.saved? = none) :
    (session.publish event).Ledger labels :=
  ledger.moved rfl (filterMap_push_of_none silent) rfl (Nat.le_refl _)

theorem note (ledger : session.Ledger labels) (note : Note) : (session.note note).Ledger labels :=
  ledger.moved rfl rfl rfl (Nat.le_refl _)

theorem endLine (ledger : session.Ledger labels) (valid : session.cursor.Valid) :
    session.endLine.Ledger labels :=
  ledger.moved (endLine_context session) (endLine_savings session) (endLine_buffer session)
    (endLine_along Cursor.way_onward valid).cursor.remaining_le

end Ledger

end Session

def Rule.Turns (rule : Rule) (holds holds' : Context → Prop) : Prop :=
  ∀ (found : Match) (session : Session), holds session.context →
    Action.Succeeds (runCallbacks found rule.callbacks session) fun after => holds' after.context

namespace Session

variable {grammar : Grammar} {scope scope' : Scope} {rule : Rule} {index : Nat}
  {holds holds' : Context → Prop} {labels : List (Option String × List Char)}
  {behind ahead taken rest : List Char} {later : List (List Char)} {session : Session}

/-- Whether the contexts of a kind are in a scope of plain rules and have all matches
recorded, and what is recorded makes no difference to their kind. -/
structure Steady (grammar : Grammar) (scope : Scope) (holds : Context → Prop) : Prop where
  plain : ∀ rule ∈ scope.rules, rule.isPlain = true
  sound : ∀ context, holds context → context.Sound
  known : ∀ context, holds context → grammar.scope? context.scopeName = some scope
  strict : ∀ context, holds context → context.isStrict context.scopeName = scope.strict
  records : ∀ context, holds context → context.setting.config.recordAll = true
  unmoved : ∀ before after : Session, holds before.context → before.Unmoved after →
    holds after.context

/-- How a session stands between two rounds: its context is of a kind, its ledger
has the given labels, and its cursor has the given text behind and ahead. -/
structure Stands (holds : Context → Prop) (labels : List (Option String × List Char))
    (behind : List Char) (ahead : List (List Char)) (session : Session) : Prop where
  context : holds session.context
  ledger : session.Ledger labels
  cursor : session.cursor.Faces behind ahead

/-- Whether strides lead from every session of which something holds to one of which
something else holds. -/
def Leads (grammar : Grammar) (early late : Session → Prop) : Prop :=
  ∀ session, early session → ∃ after, Strides grammar session after ∧ late after

theorem Leads.trans {early middle late : Session → Prop} (first : Leads grammar early middle)
    (second : Leads grammar middle late) : Leads grammar early late := by
  intro session held
  obtain ⟨between, strides, held'⟩ := first session held
  obtain ⟨after, strides', held''⟩ := second between held'
  exact ⟨after, strides.trans strides', held''⟩

def past (taken : List Char) (notes : Array Note) (session : Session) : Session :=
  { session.announceStart with
    cursor := session.cursor.skipBytes (Text.byteLength taken)
    notes := notes }

theorem past_context (taken : List Char) (notes : Array Note) (session : Session) :
    (session.past taken notes).context = session.context :=
  announceStart_context session

theorem past_nothing_cursor (valid : session.cursor.Valid) (notes : Array Note) :
    (session.past [] notes).cursor = session.cursor :=
  valid.skipBytes_eq (List.nil_append session.cursor.rest).symm

theorem Stands.remaining_past
    (stands : Stands holds labels behind ((taken ++ rest) :: later) session) (notes : Array Note) :
    (session.past taken notes).cursor.remaining + taken.length = session.cursor.remaining :=
  stands.cursor.valid.remaining_skipBytes stands.cursor.rest_eq

theorem Stands.buffer_past
    (stands : Stands holds labels behind ((taken ++ rest) :: later) session) (notes : Array Note) :
    (session.past taken notes).cursor.buffer = session.cursor.buffer :=
  (stands.cursor.valid.leadsTo_skipBytes stands.cursor.rest_eq).buffer

theorem Stands.past
    (stands : Stands holds labels behind ((taken ++ rest) :: later) session) (notes : Array Note) :
    Stands holds labels (behind ++ taken) (rest :: later) (session.past taken notes) where
  context := past_context taken notes session ▸ stands.context
  ledger := stands.ledger.moved (past_context taken notes session) (announceStart_savings session)
    (stands.buffer_past notes) (Nat.le_of_add_right_le (Nat.le_of_eq (stands.remaining_past notes)))
  cursor := stands.cursor.skipBytes

/-- The rule that is chosen wins: its callbacks run behind the text it takes, and then
its match is recorded. -/
theorem Stands.wins (stands : Stands holds labels behind (ahead :: later) session)
    (steady : Steady grammar scope holds) (steady' : Steady grammar scope' holds')
    (chosen : Rule.choose? behind ahead scope.rules = some (index, taken))
    (listed : scope.rules[index]? = some rule) (decisive : rule.Decisive)
    (turns : rule.Turns holds holds') :
    ∃ rest found place notes ran last, ahead = taken ++ rest ∧
      rule.Takes session.cursor session.context taken found ∧
      Rule.runCallbacks (rule.dress found) rule.callbacks (session.past taken notes) =
        .ok () ran ∧
      win session.context.scopeName place (rule.dress found) ran = .ok true last ∧
      round grammar session = .ok () last.endLine ∧ holds' last.context := by
  have cursor := announceStart_cursor session
  have context := announceStart_context session
  obtain ⟨earlier, chosenRule, others, split, isRule, refused, accepted⟩ :=
    Rule.of_choose? chosen
  cases listed.symm.trans isRule
  have plain : ∀ other ∈ earlier ++ rule :: others, other.isPlain = true :=
    split ▸ steady.plain
  obtain ⟨rest, found, isAhead, takes⟩ := @Rule.takes_of_accepted rule _ session.context _ _ _ _
    (plain rule (by simp)) stands.cursor accepted
  obtain ⟨notes, tried⟩ := @tryRules_of_some session.announceStart earlier others rule found
    session.context.scopeName 0 (by rw [cursor]; exact stands.cursor.valid) decisive
    (by
      intro other member
      rw [cursor, context]
      exact Rule.match?_of_refused (plain other (by simp [member])) stands.cursor
        (refused other member))
    (by rw [cursor, context]; exact takes.accepted)
  rw [cursor, takes.passes] at tried
  obtain ⟨ran, called, held⟩ := turns (rule.dress found) (session.past taken notes)
    (past_context taken notes session ▸ stands.context)
  obtain ⟨last, won, unmoved⟩ := win_here (steady'.sound _ held) session.context.scopeName
    (0 + earlier.length) (rule.dress found)
  refine ⟨rest, found, _, notes, ran, last, isAhead, takes, called, won, ?_,
    steady'.unmoved ran last held unmoved⟩
  simp only [Session.past] at called
  simp only [called, won] at tried
  simp only [round, matchAt, context, cursor, steady.known _ stands.context, split, tried]

theorem Stands.takes (stands : Stands holds labels behind (ahead :: later) session)
    (steady : Steady grammar scope holds) (steady' : Steady grammar scope' holds')
    (chosen : Rule.choose? behind ahead scope.rules = some (index, taken)) (wide : taken ≠ [])
    (listed : scope.rules[index]? = some rule) (still : rule.Still fun _ => True)
    (turns : rule.Turns holds holds') :
    ∃ rest last, ahead = taken ++ rest ∧ round grammar session = .ok () last.endLine ∧
      Stands holds' (labels ++ [(rule.tag, taken)]) (behind ++ taken) (rest :: later) last ∧
      last.cursor.buffer = session.cursor.buffer ∧
      last.cursor.remaining < session.cursor.remaining := by
  obtain ⟨rest, found, place, notes, ran, last, split, takes, called, won, made, held⟩ :=
    stands.wins steady steady' chosen listed still.decisive turns
  obtain ⟨saved, saving, won', recorded⟩ :=
    win_eq (fun _ => True) session.context.scopeName place (rule.dress found) ran
  cases won'.symm.trans won
  subst split
  have begun := stands.past notes
  have buffer := stands.buffer_past notes
  have less : (session.past taken notes).cursor.remaining < session.cursor.remaining := by
    have left := stands.remaining_past notes
    have some := List.length_pos_of_ne_nil wide
    omega
  have calls := (Rule.runCallbacks_changing still (rule.dress found) _).changes called
  have changes := calls.trans saving
  -- Where the callbacks begin, the match has not been saved, and it is when it is recorded.
  have fresh : (session.past taken notes).context.lastSave ≠ some (rule.dress found) := by
    intro before
    rw [past_context] at before
    have passed := stands.ledger.behind _ before
    rw [takes.start] at passed
    exact Nat.lt_irrefl _ passed
  have isLast : saved.context.lastSave = some (rule.dress found) := by
    apply recorded
    · rw [calls.setting_eq]
      exact steady.records _ begun.context
    · rw [Match.isEmpty, takes.start, takes.stop, beq_eq_false_iff_ne]
      intro stays
      have same : (session.past taken notes).cursor.position = session.cursor.position := stays.symm
      simp only [Cursor.remaining, same, buffer, Nat.lt_irrefl] at less
  have ledger := begun.ledger.add changes fresh isLast takes.single (by
    rw [takes.start, buffer]
    exact less)
  rw [takes.label] at ledger
  have cursor : saved.cursor = (session.past taken notes).cursor := changes.cursor_eq
  refine ⟨rest, _, rfl, made, ⟨held, ledger.publish rfl, ?_⟩, ?_, ?_⟩
  · exact cursor ▸ begun.cursor
  · exact (congrArg Cursor.buffer cursor).trans buffer
  · exact cursor ▸ less

theorem Stands.endLine_eq (stands : Stands holds labels behind (rest :: later) session)
    (more : rest ≠ []) : session.endLine = session := by
  have inside : session.cursor.atLineEnd = false := by
    rw [stands.cursor.atLineEnd_eq, List.isEmpty_eq_false_iff]
    exact more
  rw [endLine, inside]
  rfl

theorem Stands.endLine (stands : Stands holds labels behind ([] :: later) session) :
    Stands holds labels [] later session.endLine := by
  have ended : session.cursor.atLineEnd = true := stands.cursor.atLineEnd_eq
  refine ⟨?_, stands.ledger.endLine stands.cursor.valid, ?_⟩
  · rw [endLine_context]
    exact stands.context
  · rw [Session.endLine, if_pos ended]
    exact stands.cursor.nextLine

theorem leads_one {early late : Session → Prop}
    (stride : ∀ session, early session → ∃ after, Stride grammar session after ∧ late after) :
    Leads grammar early late := by
  intro session held
  obtain ⟨after, made, held'⟩ := stride session held
  exact ⟨after, .single made, held'⟩

theorem leads_takes (steady : Steady grammar scope holds) (steady' : Steady grammar scope' holds')
    (chosen : Rule.choose? behind ahead scope.rules = some (index, taken)) (wide : taken ≠ [])
    (listed : scope.rules[index]? = some rule) (still : rule.Still fun _ => True)
    (turns : rule.Turns holds holds') (split : ahead = taken ++ rest) (more : rest ≠ []) :
    Leads grammar (Stands holds labels behind (ahead :: later))
      (Stands holds' (labels ++ [(rule.tag, taken)]) (behind ++ taken) (rest :: later)) := by
  apply leads_one
  intro session stands
  obtain ⟨rest', last, split', made, stands', buffer, less⟩ :=
    stands.takes steady steady' chosen wide listed still turns
  cases List.append_cancel_left (split.symm.trans split')
  rw [stands'.endLine_eq more] at made
  exact ⟨last, ⟨⟨stands.cursor.before_end, made⟩, buffer, less⟩, stands'⟩

theorem leads_takes_line (steady : Steady grammar scope holds)
    (steady' : Steady grammar scope' holds')
    (chosen : Rule.choose? behind ahead scope.rules = some (index, ahead)) (wide : ahead ≠ [])
    (listed : scope.rules[index]? = some rule) (still : rule.Still fun _ => True)
    (turns : rule.Turns holds holds') :
    Leads grammar (Stands holds labels behind (ahead :: later))
      (Stands holds' (labels ++ [(rule.tag, ahead)]) [] later) := by
  apply leads_one
  intro session stands
  obtain ⟨rest, last, split, made, stands', buffer, less⟩ :=
    stands.takes steady steady' chosen wide listed still turns
  cases List.self_eq_append_right.mp split
  have most := (endLine_along Cursor.way_onward stands'.cursor.valid).cursor.remaining_le
  exact ⟨last.endLine, ⟨⟨stands.cursor.before_end, made⟩, (endLine_buffer last).trans buffer,
    Nat.lt_of_le_of_lt most less⟩, stands'.endLine⟩

theorem Stands.stride_endLine {before : Session}
    (stands : Stands holds labels behind ([] :: later) session)
    (made : Round grammar before session.endLine) (cursor : session.cursor = before.cursor) :
    Stride grammar before session.endLine := by
  have ended : session.cursor.atLineEnd = true := stands.cursor.atLineEnd_eq
  refine ⟨made, (endLine_buffer session).trans (by rw [cursor]), ?_⟩
  have less := endLine_remaining_lt stands.cursor.valid ended
  rwa [cursor] at less

theorem leads_leaves {operation : Operation} (steady : Steady grammar scope holds)
    (steady' : Steady grammar scope' holds')
    (chosen : Rule.choose? behind [] scope.rules = some (index, []))
    (listed : scope.rules[index]? = some rule) (only : rule.callbacks = [.perform operation])
    (onScopes : operation.OnScopes fun _ => True) (turns : rule.Turns holds holds') :
    Leads grammar (Stands holds labels behind ([] :: later)) (Stands holds' labels [] later) := by
  apply leads_one
  intro session stands
  have still : rule.Still fun _ => True := by
    intro callback member
    rw [only, List.mem_singleton] at member
    rw [member]
    exact onScopes
  obtain ⟨rest, found, place, notes, ran, last, _, takes, called, won, made, held⟩ :=
    stands.wins steady steady' chosen listed still.decisive turns
  have begun := @Stands.past _ _ _ [] [] _ _ stands notes
  have cursor := past_nothing_cursor stands.cursor.valid notes
  have empty : (rule.dress found).isEmpty = true := by
    rw [Match.isEmpty, takes.start, takes.stop]
    exact beq_iff_eq.mpr (congrArg Cursor.position cursor).symm
  -- Nothing is saved, neither by the callback nor for the match.
  have changes : Changes (fun _ => False) (fun _ => True) (session.past [] notes) ran := by
    rw [only, Rule.runCallbacks_one] at called
    exact (operation.run_changing onScopes _).changes called
  have place : ran.cursor = session.cursor := changes.cursor_eq.trans cursor
  simp only [win, empty, Bool.not_true, Bool.and_false, Bool.false_eq_true, if_false] at won
  cases won
  have stands' : Stands holds' labels behind ([] :: later) _ :=
    ⟨held, ((begun.ledger.keeps changes).note _).publish rfl, place ▸ stands.cursor⟩
  exact ⟨_, stands'.stride_endLine ⟨stands.cursor.before_end, made⟩ place, stands'.endLine⟩

theorem leads_passes (steady : Steady grammar scope holds) (relaxed : scope.strict = false)
    (chosen : Rule.choose? behind [] scope.rules = none) :
    Leads grammar (Stands holds labels behind ([] :: later)) (Stands holds labels [] later) := by
  apply leads_one
  intro session stands
  have cursor := announceStart_cursor session
  have context := announceStart_context session
  obtain ⟨notes, tried⟩ := @tryRules_of_none session.announceStart scope.rules
    session.context.scopeName 0 (by rw [cursor]; exact stands.cursor.valid) (by
      intro rule member
      rw [cursor, context]
      exact Rule.match?_of_refused (steady.plain rule member) stands.cursor
        (Rule.refused_of_choose? chosen rule member))
  -- Apart from notes, the session is as it was at the start of the round.
  obtain ⟨tail, isTail⟩ : ∃ tail : Session, { session.announceStart with notes := notes } = tail :=
    ⟨_, rfl⟩
  have context' : tail.context = session.context := isTail ▸ context
  have cursor' : tail.cursor = session.cursor := isTail ▸ cursor
  have savings : tail.savings = session.savings := isTail ▸ announceStart_savings session
  have stands' : Stands holds labels behind ([] :: later) tail := by
    refine ⟨context' ▸ stands.context, ?_, cursor' ▸ stands.cursor⟩
    apply stands.ledger.moved context' savings (congrArg Cursor.buffer cursor')
    exact Nat.le_of_eq (congrArg Cursor.remaining cursor')
  have ended : tail.cursor.atLineEnd = true := stands'.cursor.atLineEnd_eq
  have made : round grammar session = .ok () tail.endLine := by
    have tried' : tryRules session.context.scopeName session.announceStart.cursor.position 0
        scope.rules session.announceStart = .ok false tail := isTail ▸ tried
    rw [cursor] at tried'
    simp only [round, matchAt, context, cursor, steady.known _ stands.context, tried',
      context', steady.strict _ stands.context, relaxed, Bool.false_eq_true, if_false, skipChar,
      if_pos ended]
  exact ⟨_, stands'.stride_endLine ⟨stands.cursor.before_end, made⟩ cursor', stands'.endLine⟩

end Session

end LineGrammar
