import LineGrammar.Proofs.Parser.Refusal
import LineGrammar.Proofs.Parser.Winner

/-!
What is left behind where no rule has matched. A rule whose checks or whose expression
refuse leaves nothing behind. A rule that matches runs its callbacks, and a callback of
the host may still refuse the match then: the cursor is brought back and the next rule is
tried, but what the callbacks have done to the context until then stays done. So the
context is the one before if callbacks that refuse have not changed it, in particular if
the host is not called back at all.
-/

namespace LineGrammar

namespace Rule

/-- In which session the next rule is tried if a rule is refused. -/
inductive Leaves (rule : Rule) (before : Session) : Session → Prop
  /-- its checks or its expression refuse -/
  | refused (notes : Array Note)
      (refuses : rule.match? before.cursor before.context = none) :
      Leaves rule before { before with notes := notes }
  /-- it matches, and its callbacks run up to one that refuses -/
  | broken {found : Match} {last : Session} {error : Error} (notes : Array Note)
      (accepted : rule.match? before.cursor before.context = some found)
      (failed : runCallbacks (rule.dress found) rule.callbacks
        { before with
          cursor := (rule.expr.attempt before.cursor).cursor
          notes := notes } = .error error last)
      (refuses : error.isRecoverable = true) :
      Leaves rule before { last with cursor := before.cursor }

/-- Whether the callbacks of a rule leave the context as they found it where they refuse. -/
def Considerate (rule : Rule) : Prop :=
  ∀ (found : Match) (session last : Session) (error : Error),
    runCallbacks found rule.callbacks session = .error error last → error.isRecoverable = true →
      last.context = session.context

variable {rule : Rule} {session last : Session} {error : Error}

theorem Decisive.considerate (decisive : rule.Decisive) : rule.Considerate := by
  intro found session last error failed refuses
  have ends := decisive found session
  rw [failed] at ends
  cases refuses.symm.trans (Error.EndsParse.not_recoverable ends)

theorem matchAt_leaves (valid : session.cursor.Valid)
    (failed : rule.matchAt session = .error error last) (refuses : error.isRecoverable = true) :
    rule.Leaves session { last with cursor := session.cursor } := by
  cases accepted : rule.match? session.cursor session.context with
  | none =>
      obtain ⟨_, notes, outcome, _⟩ := matchAt_of_none valid accepted
      cases failed.symm.trans outcome
      exact .refused notes accepted
  | some found =>
      obtain ⟨notes, outcome⟩ := matchAt_of_some accepted
      rw [outcome] at failed
      split at failed
      · cases failed
      · rename_i called
        cases failed
        exact .broken notes accepted called refuses

theorem Leaves.context_eq (leaves : rule.Leaves session last) (considerate : rule.Considerate) :
    last.context = session.context := by
  cases leaves with
  | refused => rfl
  | broken notes accepted failed refuses => exact (considerate _ _ _ _ failed refuses).trans rfl

end Rule

namespace Session

/-- What rules that are all refused leave behind, each of them tried in what the ones
before it have left. -/
inductive Leaves : List Rule → Session → Session → Prop
  | nil (session : Session) : Leaves [] session session
  | cons {rule : Rule} {later : List Rule} {before middle after : Session}
      (first : rule.Leaves before middle) (rest : Leaves later middle after) :
      Leaves (rule :: later) before after

variable {grammar : Grammar} {session after : Session}

theorem Leaves.context_eq {rules : List Rule} (leaves : Leaves rules session after)
    (considerate : ∀ rule ∈ rules, rule.Considerate) : after.context = session.context := by
  induction leaves with
  | nil session => rfl
  | cons first rest induction =>
      obtain ⟨here, later⟩ := List.forall_mem_cons.mp considerate
      rw [induction later, first.context_eq here]

theorem tryRules_leaves {scope : String} {index : Nat} {rules : List Rule}
    (valid : session.cursor.Valid)
    (passed : tryRules scope session.cursor.position index rules session = .ok false after) :
    Leaves rules session after := by
  induction rules generalizing session index with
  | nil =>
      cases passed
      exact .nil after
  | cons rule later induction =>
      obtain ⟨error, last, outcome, refuses, rest⟩ := tryRules_cons_false valid passed
      have first := Rule.matchAt_leaves valid outcome refuses
      exact .cons first
        (@induction { last with cursor := session.cursor } (index + 1) valid rest)

theorem matchAt_leaves (valid : session.cursor.Valid)
    (passed : matchAt grammar session = .ok false after) :
    ∃ scope, grammar.scope? session.context.scopeName = some scope ∧
      Leaves scope.rules session after := by
  cases known : grammar.scope? session.context.scopeName with
  | none =>
      simp only [matchAt, known] at passed
      cases passed
  | some scope =>
      simp only [matchAt, known] at passed
      split at passed
      · rename_i tried
        split at passed
        · cases passed
        · cases passed
          exact ⟨scope, rfl, tryRules_leaves valid tried⟩
      · exact ⟨scope, rfl, tryRules_leaves valid passed⟩

end Session

/-- Where trying the rules of the current scope is answered by "nothing matched", the
cursor is where it was, and the context is the one that the rules, tried one after the
other, leave behind. It is the one before if callbacks that refuse leave the context as
they found it, in particular if the host is not called back. -/
theorem Grammar.unmatched_rules_leave_callbacks_done (grammar : Grammar) (session after : Session)
    (buffer : Buffer) (position : Position)
    (passed : Session.matchAt grammar { session with cursor := .near buffer position } =
      .ok false after) :
    ∃ scope, grammar.scope? session.context.scopeName = some scope ∧
      Session.Leaves scope.rules { session with cursor := .near buffer position } after ∧
      after.cursor = .near buffer position ∧
      ((∀ rule ∈ scope.rules, rule.Considerate) → after.context = session.context) ∧
      (scope.HostFree → after.context = session.context) := by
  have valid := Cursor.near_valid buffer position
  obtain ⟨scope, known, leaves⟩ := Session.matchAt_leaves valid passed
  refine ⟨scope, known, leaves, Session.matchAt_false valid passed, leaves.context_eq, ?_⟩
  intro free
  apply leaves.context_eq
  intro rule member
  exact (free.decisive member).considerate

/-- The first rule leaves a mark and refuses; the second one, which would match without
the mark, is refused on account of it. -/
theorem Grammar.mark_of_refused_rule_is_seen :
    let marking : Rule :=
      { expr := .always
        callbacks := [.host fun _ => .perform (.define "mark" (.int 1) 0) fun _ =>
          .fail (.noMatch .host ⟨0, 0⟩)] }
    let unmarked : Rule :=
      { expr := .always, pre := [fun _ context => (context.valueOf? "mark" 0).isNone] }
    let grammar : Grammar := ⟨[⟨"main", [marking, unmarked], false⟩]⟩
    let cursor : Cursor := .near (.ofLines ["ab"]) ⟨0, 1⟩
    let session := Session.begin (grammar.setting {} (grammar.drive {} 0 2)) cursor
    ∃ after, Session.matchAt grammar session = .ok false after ∧
      Session.Leaves [marking, unmarked] session after ∧ after.cursor = cursor ∧
      after.context.valueOf? "mark" 0 = some (.int 1) := by
  intro marking unmarked grammar cursor session
  obtain ⟨after, passed, marked⟩ : ∃ after, Session.matchAt grammar session = .ok false after ∧
      after.context.valueOf? "mark" 0 = some (.int 1) := ⟨_, rfl, rfl⟩
  obtain ⟨scope, known, leaves, back, _⟩ :=
    unmatched_rules_leave_callbacks_done grammar session after _ _ passed
  cases known
  exact ⟨after, passed, leaves, back, marked⟩

/-- A callback saves the match, sets a variable, makes a scope strict, opens it and then
refuses. Nothing has matched, and all of this stays. -/
theorem Grammar.refused_match_leaves_scope_open :
    let opening : Rule :=
      { expr := .always
        callbacks := [.host fun found => .actAll [.save found, .define "mark" (.int 1) 0,
          .setStrict "item" true, .openScope "item"] (.fail (.noMatch .host ⟨0, 0⟩))] }
    let grammar : Grammar := ⟨[⟨"main", [opening], false⟩, ⟨"item", [.always], false⟩]⟩
    let session := Session.begin (grammar.setting {} (grammar.drive {} 0 2))
      (.near (.ofLines ["a"]) ⟨0, 0⟩)
    let tells := fun (context : Context) (scope : String) (mark : Option Value)
        (strict saved : Bool) =>
      context.scopeName = scope ∧ context.tree.valueOf? Tree.root "mark" = mark ∧
        context.isStrict "item" = strict ∧ context.lastSave.isSome = saved
    tells session.context "main" none false false ∧
      ∃ after, Session.matchAt grammar session = .ok false after ∧
        tells after.context "item" (some (.int 1)) true true := by
  intro opening grammar session tells
  have ends : Action.Ends (Session.matchAt grammar session)
      (fun answer after =>
        answer = false ∧ tells after.context "item" (some (.int 1)) true true)
      (fun _ _ => False) := by decide +kernel
  refine ⟨by decide +kernel, ?_⟩
  cases outcome : Session.matchAt grammar session with
  | ok answer after =>
      rw [outcome] at ends
      obtain ⟨rfl, left⟩ := ends
      exact ⟨after, rfl, left⟩
  | error error after =>
      rw [outcome] at ends
      cases ends

end LineGrammar
