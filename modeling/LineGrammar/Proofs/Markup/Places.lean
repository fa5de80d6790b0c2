import LineGrammar.Markup.Blocks
import LineGrammar.Parser.Drive
import LineGrammar.Proofs.Grammar.Compiled
import LineGrammar.Proofs.Markup.Arrangement

/-!
Where a parse of blocks can stand between two rounds, and what its scripts do
there. A block is opened in the main scope only, and a list also in a list, so
the open scopes are the main scope alone, a block in it, or lists in each other.
-/

namespace LineGrammar.Markup.Blocks

def pattern (source : String) : Expr := .leaf none source (Regex.compile? source false)

def text : Expr := pattern "\\S.*"

def quoted (callbacks : List Callback) : Rule :=
  { expr := pattern "^>\\s?(.*)", callbacks := callbacks }

def marked (callbacks : List Callback) : Rule :=
  { expr := pattern "^(\\s*)[-*]\\s+", callbacks := callbacks }

def leaving (callback : Callback) : Rule := { Rule.always with callbacks := [callback] }

def mainScope : Scope where
  name := "main"
  rules :=
    [ { expr := pattern "^(#\x7b1,6\x7d)\\s+(.*)", tag := some "heading", callbacks := [.save] },
      { expr := pattern "^(-\x7b3,\x7d|\\*\x7b3,\x7d)\\s*$", tag := some "hr"
        callbacks := [.save] },
      { expr := pattern "^```(\\w*)"
        callbacks := [.perform (.openScope "code"), .host codeLanguage] },
      quoted [.perform (.openScope "quote"), .host quoteLine],
      marked [.host fun found => openList (markerIndent found)],
      { expr := text, tag := some "text", callbacks := [.perform (.openScope "para"), .save] } ]
  strict := false

def paraScope : Scope where
  name := "para"
  rules :=
    [ paragraphEnd,
      { expr := text
        tag := some "text"
        transforms := [.processor
          (fun text _ => String.ofList (List.intercalate [' '] (Text.words text.toList))) []]
        callbacks := [.save] },
      leaving (.perform (.closeScopes 1)) ]
  strict := false

def codeScope : Scope where
  name := "code"
  rules :=
    [ { expr := pattern "^```\\s*$", callbacks := [.perform (.closeScopes 1)] },
      { expr := pattern ".*", tag := some "code", callbacks := [.save] } ]
  strict := true

def quoteScope : Scope where
  name := "quote"
  rules := [quoted [.host quoteLine], leaving (.host fun _ => endQuote)]
  strict := false

def listScope : Scope where
  name := "list"
  rules :=
    [ marked [.host listMarker],
      { expr := text, tag := some "item" },
      leaving (.host fun _ => closeLists) ]
  strict := false

def compiled : Grammar := ⟨[mainScope, paraScope, codeScope, quoteScope, listScope]⟩

theorem grammar_eq : grammar = .ok compiled := rfl

/-- Where a parse stands: in no block, in a block, in a quote with the contents of
its lines so far, or in a list with so many others around it. -/
inductive Place where
  | main
  | para
  | code
  | quote (texts : List String)
  | list (outer : Nat)

namespace Place

def trace : Place → List String
  | .main => ["main"]
  | .para => ["main", "para"]
  | .code => ["main", "code"]
  | .quote _ => ["main", "quote"]
  | .list outer => "main" :: List.replicate (outer + 1) "list"

def scope : Place → Scope
  | .main => mainScope
  | .para => paraScope
  | .code => codeScope
  | .quote _ => quoteScope
  | .list _ => listScope

def texts : Place → List String
  | .quote texts => texts
  | _ => []

def isQuote : Place → Bool
  | .quote _ => true
  | _ => false

def inLists : Nat → Place
  | 0 => .main
  | outer + 1 => .list outer

theorem trace_inLists_succ (count : Nat) :
    (inLists (count + 1)).trace = (inLists count).trace ++ ["list"] := by
  cases count with
  | zero => rfl
  | succ outer =>
      change "main" :: List.replicate (outer + 1 + 1) "list" =
        "main" :: (List.replicate (outer + 1) "list" ++ ["list"])
      rw [List.replicate_succ']

theorem isQuote_inLists (count : Nat) : (inLists count).isQuote = false := by
  cases count <;> rfl

theorem exists_trace (place : Place) : ∃ outer, place.trace = outer ++ [place.scope.name] := by
  cases place with
  | main => exact ⟨[], rfl⟩
  | para => exact ⟨["main"], rfl⟩
  | code => exact ⟨["main"], rfl⟩
  | quote texts => exact ⟨["main"], rfl⟩
  | list outer => exact ⟨_, trace_inLists_succ outer⟩

end Place

/-- The variable that keeps the contents of quoted lines. -/
def linesValue : List String → Option Value
  | [] => none
  | texts => some (.list (texts.map .text))

/-- What the current scope keeps at a place. -/
def Place.Kept (context : Context) : Place → Prop
  | .quote texts => context.tree.valueOf? context.current "lines" = linesValue texts ∧
      context.tree.valueOf? context.current "nested" = none
  | .list _ => Listed context.tree context.current
  | _ => True

theorem Place.Kept.congr {context context' : Context} {place : Place} (kept : place.Kept context)
    (current : context'.current = context.current)
    (same : SameAt context.tree context'.tree context.current) : place.Kept context' := by
  cases place with
  | quote texts =>
      rw [Kept, current, same.values, same.values]
      exact kept
  | list outer =>
      rw [Kept, current]
      exact Listed.congr kept same
  | _ => trivial

/-- Whether the scopes of a place are open in a session, with the cursor where it is. -/
structure Opened (parse : Cursor → Outcome) (cursor : Cursor) (place : Place)
    (session : Session) : Prop where
  cursor : session.cursor = cursor
  setting : session.context.setting = compiled.setting {} parse
  overrides : session.context.overrides = []
  sound : session.context.Sound
  trace : session.context.trace = place.trace

/-- How a session stands at a place: the current scope keeps what belongs to the
place, and the others are settled. -/
structure Stands (parse : Cursor → Outcome) (cursor : Cursor) (place : Place)
    (session : Session) : Prop extends Opened parse cursor place session where
  kept : place.Kept session.context
  settled : ∀ id < session.context.tree.size, id ≠ session.context.current →
    Settled parse session.context.tree id

variable {parse : Cursor → Outcome} {cursor : Cursor} {place next : Place}
  {session after : Session}

namespace Opened

theorem beside (opened : Opened parse cursor place session) (same : session.Beside after)
    (trace : after.context.trace = next.trace) : Opened parse cursor next after :=
  ⟨same.cursor.trans opened.cursor, same.setting.trans opened.setting,
    same.overrides.trans opened.overrides, same.sound, trace⟩

theorem scopeName (opened : Opened parse cursor place session) :
    session.context.scopeName = place.scope.name := by
  obtain ⟨outer, trace⟩ := place.exists_trace
  exact opened.sound.scopeName_eq (opened.trace.trans trace)

theorem closes {scope : String} {count : Nat} (opened : Opened parse cursor place session)
    (settled : ∀ id < session.context.tree.size, Settled parse session.context.tree id)
    (closed : place.trace = (Place.inLists count).trace ++ [scope]) :
    Action.Succeeds (Session.closeScopes 1 session) (Stands parse cursor (.inLists count)) := by
  have nested : (Place.inLists count).trace ≠ [] := by
    obtain ⟨outer, trace⟩ := (Place.inLists count).exists_trace
    rw [trace]
    simp
  apply (Session.closeScopes_one opened.sound (opened.trace.trans closed) nested).imp
  rintro after ⟨same, trace, tree, above⟩
  have opened' : Opened parse cursor (.inLists count) after := opened.beside same trace
  refine ⟨opened', ?_, ?_⟩
  · cases count with
    | zero => trivial
    | succ outer =>
        have isList : after.context.tree.nameOf after.context.current = "list" := opened'.scopeName
        have bound := same.sound.current
        rw [tree] at isList bound
        rw [Place.inLists, Place.Kept, tree]
        exact (settled _ bound).list isList
  · intro id bound _
    rw [tree] at bound ⊢
    exact settled id bound

end Opened

namespace Stands

theorem known (stands : Stands parse cursor place session) :
    compiled.scope? session.context.scopeName = some place.scope := by
  rw [stands.scopeName]
  cases place <;> rfl

theorem isStrict (stands : Stands parse cursor place session) :
    session.context.isStrict session.context.scopeName = place.scope.strict := by
  have strict := Grammar.strictness_get? stands.known
  have scopes : (compiled.setting {} parse).scopes = compiled.strictness := rfl
  rw [Context.isStrict, stands.overrides, stands.setting, scopes, strict]
  rfl

theorem unmoved (stands : Stands parse cursor place session) (same : session.Unmoved after) :
    Stands parse cursor place after := by
  have size : after.context.tree.size = session.context.tree.size := by
    rw [← Tree.size_mapNodes after.context.tree, ← Tree.size_mapNodes session.context.tree]
    exact congrArg Tree.size same.tree
  refine ⟨stands.toOpened.beside same.toBeside (same.trace.trans stands.trace),
    stands.kept.congr same.current (.of_unsaved same.tree _), ?_⟩
  intro id bound other
  rw [size] at bound
  rw [same.current] at other
  exact (stands.settled id bound other).congr (.of_unsaved same.tree id)

theorem moved (stands : Stands parse cursor place session)
    (same : after.context = session.context) : Stands parse after.cursor place after := by
  refine ⟨⟨rfl, ?_, ?_, ?_, ?_⟩, ?_, ?_⟩
  · rw [same, stands.setting]
  · rw [same, stands.overrides]
  · rw [same]
    exact stands.sound
  · rw [same, stands.trace]
  · rw [same]
    exact stands.kept
  · rw [same]
    exact stands.settled

theorem all_settled (stands : Stands parse cursor place session)
    (unquoted : place.isQuote = false) :
    ∀ id < session.context.tree.size, Settled parse session.context.tree id := by
  intro id bound
  by_cases here : id = session.context.current
  · have name : session.context.tree.nameOf session.context.current = place.scope.name :=
      stands.scopeName
    have kept := stands.kept
    subst here
    cases place with
    | main => constructor <;> simp [name, Place.scope, mainScope, blockNames]
    | para | code =>
        have inRoot := stands.sound.parent_eq_root stands.trace
        constructor <;> simp [name, Place.scope, paraScope, codeScope, inRoot]
    | quote texts => cases unquoted
    | list outer =>
        refine ⟨?_, fun _ => kept, ?_⟩ <;> simp [name, Place.scope, listScope, blockNames]
  · exact stands.settled id bound here

theorem saves (stands : Stands parse cursor place session) (found : Match) :
    Action.Succeeds (Session.save found session) (Stands parse cursor place) :=
  (Session.save_here stands.sound found).imp fun _ same => stands.unmoved same

theorem opensScope {scope : String} (stands : Stands parse cursor place session)
    (unquoted : place.isQuote = false) (next : Place)
    (known : compiled.contains scope = true) (opened : next.trace = place.trace ++ [scope]) :
    Action.Succeeds (Session.openScope scope session) fun after =>
      Opened parse cursor next after ∧
      after.context.tree = session.context.tree.addChild session.context.current scope ∧
      after.context.current = session.context.tree.size ∧
      ∀ id < session.context.tree.size, Settled parse after.context.tree id := by
  have isKnown : session.context.knows scope = true := by
    rw [Context.knows, stands.setting, ← known, ← Grammar.has_strictness]
    rfl
  apply (Session.openScope_here stands.sound isKnown).imp
  rintro after ⟨same, trace, tree, current⟩
  refine ⟨stands.toOpened.beside same ?_, tree, current, ?_⟩
  · rw [trace, stands.trace, opened]
  · intro id old
    rw [tree]
    exact (stands.all_settled unquoted id old).congr (.addChild stands.sound.formed _ _ old)

theorem opens {scope : String} (stands : Stands parse cursor place session)
    (unquoted : place.isQuote = false) (next : Place)
    (known : compiled.contains scope = true) (opened : next.trace = place.trace ++ [scope])
    (empty : ∀ context : Context,
      (∀ key, context.tree.valueOf? context.current key = none) → next.Kept context) :
    Action.Succeeds (Session.openScope scope session) (Stands parse cursor next) := by
  apply (stands.opensScope unquoted next known opened).imp
  rintro after ⟨opened, tree, current, settled⟩
  refine ⟨opened, empty _ ?_, ?_⟩
  · intro key
    rw [tree, current]
    exact Tree.valueOf?_addChild_size key
  · intro id bound other
    rw [tree, Tree.size_addChild] at bound
    exact settled id (by omega)

theorem closes {scope : String} {count : Nat} (stands : Stands parse cursor place session)
    (unquoted : place.isQuote = false)
    (closed : place.trace = (Place.inLists count).trace ++ [scope]) :
    Action.Succeeds (Session.closeScopes 1 session) (Stands parse cursor (.inLists count)) :=
  stands.toOpened.closes (stands.all_settled unquoted) closed

theorem keepsLanguage (stands : Stands parse cursor .code session) (found : Match) :
    Action.Succeeds ((codeLanguage found).run session) (Stands parse cursor .code) := by
  apply Script.succeeds_act
  apply (Session.define_here stands.sound _ _).imp
  rintro after ⟨same, trace, tree, current⟩
  refine ⟨after, rfl, stands.toOpened.beside same (trace.trans stands.trace), trivial, ?_⟩
  rw [tree, current, Tree.setVariable, Tree.size_update]
  intro id bound other
  exact (stands.settled id bound other).congr (.setVariable _ other (by simp))

theorem appends {texts : List String} (stands : Stands parse cursor (.quote texts) session)
    (line : String) :
    Action.Succeeds (Session.append "lines" (.text line) 0 session)
      (Stands parse cursor (.quote (texts ++ [line]))) := by
  obtain ⟨before, unparsed⟩ := stands.kept
  have appended : Action.Succeeds (Session.append "lines" (.text line) 0 session) fun after =>
      session.Beside after ∧ after.context.trace = session.context.trace ∧
        after.context.tree = session.context.tree.setVariable session.context.current "lines"
          (.list ((texts ++ [line]).map .text)) ∧
        after.context.current = session.context.current := by
    apply Session.changeVariable_here stands.sound
    rw [show session.context.valueOf? "lines" 0 = linesValue texts from before]
    cases texts with
    | nil => rfl
    | cons first rest =>
        rw [List.map_append]
        rfl
  apply appended.imp
  rintro after ⟨same, trace, tree, current⟩
  refine ⟨stands.toOpened.beside same (trace.trans stands.trace), ?_, ?_⟩
  · rw [Place.Kept, tree, current, Tree.valueOf?_setVariable stands.sound.current,
      Tree.valueOf?_setVariable stands.sound.current, if_pos rfl, if_neg (by decide)]
    refine ⟨?_, unparsed⟩
    cases texts <;> rfl
  · rw [tree, current, Tree.setVariable, Tree.size_update]
    intro id bound other
    exact (stands.settled id bound other).congr (.setVariable _ other (by simp))

theorem quotes {texts : List String} (stands : Stands parse cursor (.quote texts) session)
    (found : Match) :
    Action.Succeeds ((quoteLine found).run session)
      (Stands parse cursor (.quote (texts ++ [groupText found 1]))) := by
  apply Script.succeeds_act
  apply (stands.appends (groupText found 1)).imp
  intro after stands
  exact ⟨after, rfl, stands⟩

theorem quotedLines_eq {texts : List String} (stands : Stands parse cursor (.quote texts) session) :
    quotedLines session.context = texts := by
  rw [quotedLines, show session.context.valueOf? "lines" 0 = linesValue texts from stands.kept.1]
  cases texts with
  | nil => rfl
  | cons first rest =>
      change List.filterMap Value.text? (List.map Value.text (first :: rest)) = first :: rest
      rw [List.filterMap_map]
      exact List.filterMap_some

theorem indentOf_eq {outer : Nat} (stands : Stands parse cursor (.list outer) session) :
    session.context.tree.valueOf? session.context.current "indent" =
      some (.int (indentOf session.context)) := by
  obtain ⟨indent, value, _⟩ := stands.kept
  rw [indentOf, show session.context.valueOf? "indent" 0 = some (.int indent) from value]
  exact value

theorem opensList {count : Nat} (stands : Stands parse cursor (.inLists count) session)
    {indent : Int} (deeper : count ≠ 0 → indentOf session.context < indent) :
    Action.Succeeds ((openList indent).run session) (Stands parse cursor (.list count)) := by
  apply Script.succeeds_act
  apply (stands.opensScope (Place.isQuote_inLists count) (.list count) rfl
    (Place.trace_inLists_succ count)).imp
  rintro opened ⟨open', tree, current, settled⟩
  apply Script.succeeds_act
  apply (Session.define_here open'.sound _ _).imp
  rintro after ⟨same, trace, tree', current'⟩
  refine ⟨after, rfl, open'.beside same (trace.trans open'.trace), ?_, ?_⟩
  · have above : opened.context.tree.parentOf opened.context.current =
        some session.context.current := by
      rw [tree, current, Tree.parentOf, Tree.node?_addChild_size]
      rfl
    have below := (open'.sound.formed.parent_lt above).1
    have around := SameAt.addChild stands.sound.formed session.context.current "list"
      stands.sound.current
    have same := @SameAt.setVariable opened.context.tree session.context.current
      opened.context.current "indent" (.int indent) (Nat.ne_of_lt below) (by
        intro _ cycle
        have less := (open'.sound.formed.parent_lt cycle).1
        omega)
    rw [← tree] at around
    refine ⟨indent, ?_, session.context.current, ?_, ?_⟩
    · rw [tree', current', Tree.valueOf?_setVariable open'.sound.current, if_pos rfl]
    · rw [tree', current', Tree.parentOf_setVariable, above]
    · cases count with
      | zero => exact .inl (stands.sound.current_eq_root stands.trace)
      | succ outer =>
          refine .inr ⟨?_, indentOf session.context, ?_, deeper (Nat.succ_ne_zero outer)⟩
          · rw [tree', same.name, around.name]
            exact stands.scopeName
          · rw [tree', same.values, around.values]
            exact stands.indentOf_eq
  · rw [tree', current', Tree.setVariable, Tree.size_update]
    intro id bound other
    rw [tree, Tree.size_addChild] at bound
    rw [current] at other
    have old : id < session.context.tree.size := by omega
    refine (settled id old).congr (.setVariable _ (by rw [current]; omega) ?_)
    intro _ above
    have less := (open'.sound.formed.parent_lt above).1
    rw [current] at less
    omega

theorem unwindsLists {outer : Nat} (stands : Stands parse cursor (.list outer) session)
    (indent : Int) (limit : Nat) :
    Action.Succeeds ((unwindLists indent limit).run session) fun after =>
      ∃ fewer, Stands parse cursor (.list fewer) after := by
  induction limit generalizing session outer with
  | zero => exact ⟨session, rfl, outer, stands⟩
  | succ limit induction =>
      simp only [unwindLists, Script.run]
      split
      · rename_i deeper
        simp only [Bool.and_eq_true, decide_eq_true_eq] at deeper
        have length := stands.sound.length_trace
        rw [stands.trace, Place.trace, List.length_cons, List.length_replicate] at length
        cases outer with
        -- The outermost list is not deeper than 1, so it stays open.
        | zero => omega
        | succ outer =>
            apply Script.succeeds_act
            apply (@closes parse cursor _ session "list" (outer + 1) stands rfl
              (Place.trace_inLists_succ (outer + 1))).imp
            intro closed stands
            exact induction stands
      · exact ⟨session, rfl, outer, stands⟩

theorem marks {outer : Nat} (stands : Stands parse cursor (.list outer) session) (found : Match) :
    Action.Succeeds ((listMarker found).run session) fun after =>
      ∃ count, Stands parse cursor (.list count) after := by
  simp only [listMarker, Script.run]
  split
  · rename_i deeper
    exact (@opensList parse cursor session (outer + 1) stands _ fun _ => deeper).imp
      fun _ opened => ⟨_, opened⟩
  · exact stands.unwindsLists _ _

theorem closesListsWithin {count limit : Nat}
    (stands : Stands parse cursor (.inLists count) session) (enough : count < limit) :
    Action.Succeeds ((closeListsWithin limit).run session) (Stands parse cursor .main) := by
  induction limit generalizing session count with
  | zero => omega
  | succ limit induction =>
      have name := stands.scopeName
      simp only [closeListsWithin, Script.run, name]
      cases count with
      -- The main scope has another name.
      | zero => exact ⟨session, rfl, stands⟩
      | succ count =>
          apply Script.succeeds_act
          apply (stands.closes (Place.isQuote_inLists (count + 1))
            (Place.trace_inLists_succ count)).imp
          intro closed stands
          exact induction stands (by omega)

theorem closesLists {outer : Nat} (stands : Stands parse cursor (.list outer) session) :
    Action.Succeeds (closeLists.run session) (Stands parse cursor .main) := by
  have length := stands.sound.length_trace
  rw [stands.trace, Place.trace, List.length_cons, List.length_replicate] at length
  apply @closesListsWithin parse cursor session (outer + 1)
  · exact stands
  · omega

theorem endsQuote {texts : List String} {tree : Tree}
    (stands : Stands parse cursor (.quote texts) session) (begun : texts ≠ [])
    (single : ∀ text ∈ texts, '\n' ∉ text.toList)
    (parsed : (parse ⟨.ofLines texts, .origin⟩).result = .ok tree) :
    Action.Succeeds (endQuote.run session) (Stands parse cursor .main) := by
  have result : (session.context.setting.nested (quotedLines session.context)).result =
      .ok tree := by
    rw [stands.quotedLines_eq, stands.setting]
    exact parsed
  simp only [endQuote, Script.run]
  apply Script.succeeds_parseThen result
  intro notes
  have noted : Stands parse cursor (.quote texts) { session with notes := notes } :=
    stands.unmoved (Session.unmoved_aside stands.sound session.events notes)
  apply Script.succeeds_act
  apply (Session.define_here noted.sound _ _).imp
  rintro defined ⟨same, trace, tree', current⟩
  have opened : Opened parse cursor (.quote texts) defined :=
    noted.toOpened.beside same (trace.trans noted.trace)
  have settled : ∀ id < defined.context.tree.size, Settled parse defined.context.tree id := by
    intro id bound
    by_cases here : id = session.context.current
    · have name : defined.context.tree.nameOf defined.context.current = "quote" := opened.scopeName
      have inRoot := opened.sound.parent_eq_root opened.trace
      rw [current] at name inRoot
      subst here
      refine ⟨fun _ => inRoot, ?_, fun _ => ⟨texts, tree, begun, single, ?_, parsed, ?_⟩⟩
      · simp [name]
      · rw [tree', Tree.valueOf?_setVariable noted.sound.current, if_neg (by decide)]
        refine stands.kept.1.trans ?_
        cases texts with
        | nil => exact absurd rfl begun
        | cons first rest => rfl
      · rw [tree', Tree.valueOf?_setVariable noted.sound.current, if_pos rfl]
    · rw [tree', Tree.setVariable, Tree.size_update] at bound
      rw [tree']
      exact (stands.settled id bound here).congr (.setVariable _ here (by simp))
  apply Script.succeeds_act
  apply (@Opened.closes _ _ _ _ "quote" 0 opened settled rfl).imp
  intro after stands
  exact ⟨after, rfl, stands⟩

end Stands

end LineGrammar.Markup.Blocks
