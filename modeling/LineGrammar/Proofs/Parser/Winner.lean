import LineGrammar.Proofs.Grammar.FirstMatch
import LineGrammar.Proofs.Parser.Alike
import LineGrammar.Proofs.Session.Shape

/-!
What trying the rules of a scope comes to, if none of their callbacks is the
host's own. The first rule that matches wins, and what it does is what it does if
it is tried alone; the rules before it leave nothing behind. If no rule matches,
nothing has happened, and the answer depends on whether the scope is strict.
-/

namespace LineGrammar

def Scope.HostFree (scope : Scope) : Prop :=
  ∀ rule ∈ scope.rules, ∀ callback ∈ rule.callbacks, callback.isHost = false

instance : DecidablePred Scope.HostFree := fun scope =>
  inferInstanceAs (Decidable (∀ rule ∈ scope.rules, ∀ callback ∈ rule.callbacks,
    callback.isHost = false))

namespace Scope.HostFree

variable {scope : Scope} {rule : Rule}

theorem decisive (free : scope.HostFree) (member : rule ∈ scope.rules) : rule.Decisive := by
  apply Rule.decisive_of_callbacks
  intro callback listed found session
  cases callback with
  | save => exact @Callback.Still.ends (fun _ => True) .save trivial found session
  | perform operation => exact operation.run_ends session
  | host script => cases free rule member _ listed

theorem blind (free : scope.HostFree) (member : rule ∈ scope.rules) (script : Match → Script)
    (listed : .host script ∈ rule.callbacks) (found : Match) : (script found).Blind Eq := by
  cases free rule member _ listed

end Scope.HostFree

namespace Session

/-- What a rule of the current scope that matches comes to by itself. Its
callbacks run behind the match; then the match is saved, if it has a width and
all matches are recorded, and made known under the name that the scope had
before. -/
def runAlone (index : Nat) (rule : Rule) (found : Match) : Action Bool := fun session =>
  let behind := { session with cursor := (rule.expr.attempt session.cursor).cursor }
  match Rule.runCallbacks found rule.callbacks behind with
  | .error error after => .error error after
  | .ok () after =>
      let recorded := after.context.setting.config.recordAll && !found.isEmpty
      match (if recorded then save found after else .ok () after) with
      | .error error last => .error error last
      | .ok () last => .ok true (last.publish (.matched session.context.scopeName index found))

variable {session : Session} {grammar : Grammar} {scope : Scope}

theorem win_alike_runAlone {rule : Rule} {found : Match} {index : Nat} {left right : Session}
    (ran : Rule.runCallbacks found rule.callbacks
      { session with cursor := (rule.expr.attempt session.cursor).cursor } = .ok () right)
    (alike : left.Alike Eq right) :
    Action.Alike Eq (win session.context.scopeName index found left)
      (runAlone index rule found session) := by
  have noted : (left.note (.matched session.context.scopeName index found.start found.stop)).Alike
      Eq right := ⟨alike.cursor, alike.context, alike.events⟩
  simp only [win, runAlone, ran, noted.context]
  by_cases recorded : (right.context.setting.config.recordAll && !found.isEmpty) = true
  · obtain ⟨value, _, _, here, there, after⟩ | ⟨error, _, _, here, there, after⟩ :=
      (save_alike found noted).outcomes
    · simp only [if_pos recorded, here, there]
      exact .ok true (after.publish _)
    · simp only [if_pos recorded, here, there]
      exact .error error after
  · simp only [if_neg recorded]
    exact .ok true (noted.publish _)

theorem current_scope_known {builder : Builder} {config : Config} {parse : Cursor → Outcome}
    {start : Cursor} {entered : Session} (built : builder.build = .ok grammar)
    (entering : enter (begin (grammar.setting config parse) start) = .ok () entered)
    (requests : List Request) :
    ∃ scope, grammar.scope? (entered.serveAll grammar requests).context.scopeName = some scope := by
  have acts := reached_acts built entering requests
  apply scope_of_sound (acts.sound (sound_of_build built))
  rw [acts.setting_eq]
  rfl

theorem matchAt_of_first {rule : Rule} {found : Match} {index : Nat} (free : scope.HostFree)
    (valid : session.cursor.Valid)
    (known : grammar.scope? session.context.scopeName = some scope)
    (listed : scope.rules[index]? = some rule)
    (accepted : rule.match? session.cursor session.context = some found)
    (refused : ∀ earlier < index, ∀ other, scope.rules[earlier]? = some other →
      other.match? session.cursor session.context = none) :
    Action.Alike Eq (matchAt grammar session) (runAlone index rule (rule.dress found) session) := by
  have member : rule ∈ scope.rules := List.mem_of_getElem? listed
  obtain ⟨bound, isRule⟩ := List.getElem?_eq_some_iff.mp listed
  have split : scope.rules.take index ++ rule :: scope.rules.drop (index + 1) = scope.rules := by
    rw [← isRule, List.getElem_cons_drop, List.take_append_drop]
  have length : (scope.rules.take index).length = index :=
    List.length_take_of_le (Nat.le_of_lt bound)
  have before : ∀ other ∈ scope.rules.take index,
      other.match? session.cursor session.context = none := by
    intro other isEarlier
    obtain ⟨earlier, within, isOther⟩ := List.mem_iff_getElem.mp isEarlier
    rw [length] at within
    apply refused earlier within other
    rw [← isOther, List.getElem_take, List.getElem?_eq_getElem]
  obtain ⟨notes, tried⟩ := @tryRules_of_some session _ (scope.rules.drop (index + 1)) rule found
    session.context.scopeName 0 valid (free.decisive member) before accepted
  rw [split, length, Nat.zero_add] at tried
  have start : Session.Alike Eq
      { session with cursor := (rule.expr.attempt session.cursor).cursor, notes := notes }
      { session with cursor := (rule.expr.attempt session.cursor).cursor } := ⟨rfl, rfl, rfl⟩
  have callbacks := Rule.runCallbacks_alike Cursor.likeness_eq (free.blind member)
    (rule.dress found) start
  obtain ⟨_, ran, alone, here, there, after⟩ | ⟨error, _, _, here, there, after⟩ :=
    callbacks.outcomes
  · have wins : Action.Alike Eq
        (win session.context.scopeName index (rule.dress found) ran)
        (runAlone index rule (rule.dress found) session) := win_alike_runAlone there after
    simp only [here] at tried
    -- A rule that wins is never answered by "nothing matched".
    obtain ⟨last, _, won, _⟩ := win_eq (fun _ => True) session.context.scopeName index
      (rule.dress found) ran
    rw [won] at wins tried
    simp only [matchAt, known, tried]
    exact wins
  · simp only [here] at tried
    simp only [matchAt, known, tried, runAlone, there]
    exact .error error after

theorem matchAt_of_nothing (valid : session.cursor.Valid)
    (known : grammar.scope? session.context.scopeName = some scope)
    (refused : ∀ rule ∈ scope.rules, rule.match? session.cursor session.context = none) :
    ∃ notes, matchAt grammar session =
      if session.context.isStrict session.context.scopeName then
        .error
          (.fatal
            { complaint := .noRule session.context.scopeName
              position := session.cursor.position
              excerpt := session.cursor.excerpt Context.excerptWidth
              trace := session.context.trace })
          { session with notes := notes }
      else .ok false { session with notes := notes } := by
  obtain ⟨notes, tried⟩ := tryRules_of_none session.context.scopeName 0 valid refused
  simp only [matchAt, known, tried]
  split
  · exact ⟨_, rfl⟩
  · exact ⟨notes, rfl⟩

/-- In every session that comes about by requests after the start scope of a
built grammar was entered, and at every place of every buffer, the current scope
is one of the grammar. If its rules do not call the host back, then the first rule
that matches there, by its checks and its expression as they stand, comes to what
it comes to by itself, and where no rule matches nothing has changed but the
notes: a relaxed scope says so, a strict one abandons the parse at the place. -/
theorem first_match_wins (builder : Builder) (grammar : Grammar)
    (built : builder.build = .ok grammar) (config : Config) (parse : Cursor → Outcome)
    (start : Cursor) (entered : Session)
    (entering : enter (begin (grammar.setting config parse) start) = .ok () entered)
    (requests : List Request) (buffer : Buffer) (position : Position) :
    let session := { entered.serveAll grammar requests with cursor := .near buffer position }
    ∃ scope, grammar.scope? session.context.scopeName = some scope ∧ (scope.HostFree →
      (∀ index rule found, scope.rules[index]? = some rule →
        rule.match? session.cursor session.context = some found →
        (∀ earlier < index, ∀ other, scope.rules[earlier]? = some other →
          other.match? session.cursor session.context = none) →
        Action.Alike Eq (matchAt grammar session)
          (runAlone index rule (rule.dress found) session)) ∧
      ((∀ rule ∈ scope.rules, rule.match? session.cursor session.context = none) →
        ∃ notes, matchAt grammar session =
          if session.context.isStrict session.context.scopeName then
            .error
              (.fatal
                { complaint := .noRule session.context.scopeName
                  position := session.cursor.position
                  excerpt := session.cursor.excerpt Context.excerptWidth
                  trace := session.context.trace })
              { session with notes := notes }
          else .ok false { session with notes := notes })) := by
  intro session
  have valid : session.cursor.Valid := Cursor.near_valid buffer position
  obtain ⟨scope, known⟩ := current_scope_known built entering requests
  refine ⟨scope, known, fun free => ⟨?_, ?_⟩⟩
  · intro index rule found listed accepted refused
    exact matchAt_of_first free valid known listed accepted refused
  · intro refused
    exact matchAt_of_nothing valid known refused

/-- The first two rules are refused by a check before and a check behind the
match; the third opens a scope, into which the configuration saves the letter, and is
made known under the name of the old one. -/
theorem third_rule_wins_alone :
    let letter := Expr.leaf none "a" (Regex.compile? "a" false)
    let unready : Rule := { expr := .always, pre := [fun _ _ => false] }
    let unwanted : Rule := { expr := letter, post := [.host fun _ _ _ => false] }
    let opening : Rule := { expr := letter, callbacks := [.perform (.openScope "item")] }
    let builder := ({} : Builder)
      |>.scopeRules "main" [unready, unwanted]
      |>.scope "main" [⟨.given letter, [⟨"open", [.text "item"]⟩]⟩]
      |>.scope "item" [RuleSpec.always]
    let grammar : Grammar :=
      ⟨[⟨"main", [unready, unwanted, opening], false⟩, ⟨"item", [.always], false⟩]⟩
    let session := begin (grammar.setting {} fun cursor => ⟨.error .exhausted, cursor, #[], #[]⟩)
      (.near (.ofLines ["ba"]) .origin)
    let here := { session.serveAll grammar [.perform (.define "count" (.int 1) 0)] with
      cursor := .near (.ofLines ["ba"]) ⟨0, 1⟩ }
    let found := Match.leaf ⟨⟨0, 1⟩, ⟨0, 2⟩, none, "a"⟩ "a" []
    builder.build = .ok grammar ∧ enter session = .ok () session ∧
      opening.match? here.cursor here.context = some found ∧
      Action.Alike Eq (matchAt grammar here) (runAlone 2 opening found here) ∧
      (Action.final (runAlone 2 opening found here)).events =
        #[.opened "item" 1, .saved "item" found, .matched "main" 2 found] := by
  intro letter unready unwanted opening builder grammar session here found
  have built : builder.build = .ok grammar := rfl
  have entering : enter session = .ok () session := rfl
  have accepted : opening.match? here.cursor here.context = some found := by decide +kernel
  obtain ⟨scope, known, wins⟩ := first_match_wins builder grammar built {} _ _ session entering
    [.perform (.define "count" (.int 1) 0)] (.ofLines ["ba"]) ⟨0, 1⟩
  cases known
  refine ⟨built, entering, accepted, ?_, by decide +kernel⟩
  apply (wins (by decide +kernel)).1 2 opening found rfl accepted
  intro earlier before other listed
  have among : earlier = 0 ∨ earlier = 1 := by omega
  rcases among with rfl | rfl
  · cases listed
    decide +kernel
  · cases listed
    decide +kernel

end Session

end LineGrammar
