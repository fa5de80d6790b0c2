import LineGrammar.Grammar.Rule

/-!
Sessions that run alike. Nothing that happens in a session depends on its notes,
and of its cursor only what movements, attempts and reports make of it. So two
sessions with the same context and the same events, whose cursors cannot be told
apart in these ways, stay so through everything that is done to both, and what is
done to both gives the same answers.
-/

namespace LineGrammar

/-- Whether cursors that are alike answer alike and lead to cursors that are alike. -/
structure Cursor.Likeness (like : Cursor → Cursor → Prop) : Prop where
  position : ∀ left right, like left right → left.position = right.position
  atEnd : ∀ left right, like left right → left.atEnd = right.atEnd
  atLineEnd : ∀ left right, like left right → left.atLineEnd = right.atLineEnd
  excerpt : ∀ left right, like left right → ∀ width, left.excerpt width = right.excerpt width
  apply : ∀ left right, like left right → ∀ movement : Movement,
    like (movement.apply left) (movement.apply right)
  attempt : ∀ left right, like left right → ∀ expr : Expr,
    (expr.attempt left).result = (expr.attempt right).result ∧
      like (expr.attempt left).cursor (expr.attempt right).cursor

theorem Cursor.likeness_eq : Cursor.Likeness Eq where
  position left right same := congrArg Cursor.position same
  atEnd left right same := congrArg Cursor.atEnd same
  atLineEnd left right same := congrArg Cursor.atLineEnd same
  excerpt left right same width := by rw [same]
  apply left right same movement := by rw [same]
  attempt left right same expr := by
    rw [same]
    exact ⟨rfl, rfl⟩

structure Session.Alike (like : Cursor → Cursor → Prop) (left right : Session) : Prop where
  cursor : like left.cursor right.cursor
  context : left.context = right.context
  events : left.events = right.events

/-- Whether two actions have answered the same and left sessions that are alike. -/
inductive Action.Alike {Result : Type} (like : Cursor → Cursor → Prop) :
    EStateM.Result Error Session Result → EStateM.Result Error Session Result → Prop
  | ok {left right : Session} (value : Result) (alike : left.Alike like right) :
      Alike like (.ok value left) (.ok value right)
  | error {left right : Session} (error : Error) (alike : left.Alike like right) :
      Alike like (.error error left) (.error error right)

theorem Action.Alike.outcomes {Result : Type} {like : Cursor → Cursor → Prop}
    {first second : EStateM.Result Error Session Result} (alike : Action.Alike like first second) :
    (∃ value left right, first = .ok value left ∧ second = .ok value right ∧
      left.Alike like right) ∨
    ∃ error left right, first = .error error left ∧ second = .error error right ∧
      left.Alike like right := by
  cases alike with
  | ok value alike => exact .inl ⟨value, _, _, rfl, rfl, alike⟩
  | error error alike => exact .inr ⟨error, _, _, rfl, rfl, alike⟩

namespace Session

variable {like : Cursor → Cursor → Prop} {left right : Session}

theorem Alike.eq (alike : left.Alike like right) :
    right = { left with cursor := right.cursor, notes := right.notes } := by
  obtain ⟨_, context, events⟩ := alike
  cases left
  cases right
  simp only at context events
  subst context events
  rfl

theorem Alike.publish (alike : left.Alike like right) (event : Event) :
    (left.publish event).Alike like (right.publish event) := by
  refine ⟨alike.cursor, alike.context, ?_⟩
  simp only [Session.publish, alike.events]

theorem refuse_alike (cause : ScopeFault) (alike : left.Alike like right) :
    Action.Alike like (refuse cause left) (refuse cause right) := by
  unfold refuse
  rw [← alike.context]
  exact .error _ alike

theorem save_alike (found : Match) (alike : left.Alike like right) :
    Action.Alike like (save found left) (save found right) := by
  have cursor := alike.cursor
  rw [alike.eq]
  by_cases last : left.context.lastSave = some found
  · simp only [save, if_pos last]
    exact .ok () ⟨cursor, rfl, rfl⟩
  · simp only [save, if_neg last]
    exact .ok () ⟨cursor, rfl, rfl⟩

theorem openScope_alike (scope : String) (alike : left.Alike like right) :
    Action.Alike like (openScope scope left) (openScope scope right) := by
  have cursor := alike.cursor
  rw [alike.eq]
  by_cases known : left.context.knows scope = true
  · simp only [openScope, if_pos known]
    exact .ok () ⟨cursor, rfl, rfl⟩
  · simp only [openScope, if_neg known]
    exact .error _ ⟨cursor, rfl, rfl⟩

theorem closeTimes_alike (count : Nat) (alike : left.Alike like right) :
    (left.closeTimes count).Alike like (right.closeTimes count) := by
  induction count generalizing left right with
  | zero => exact alike
  | succ count induction =>
      apply induction
      have cursor := alike.cursor
      rw [alike.eq]
      exact ⟨cursor, rfl, rfl⟩

theorem closeScopes_alike (count : Nat) (alike : left.Alike like right) :
    Action.Alike like (closeScopes count left) (closeScopes count right) := by
  simp only [closeScopes, ← alike.context]
  split
  · exact refuse_alike _ alike
  · exact .ok () (closeTimes_alike count alike)

theorem swapScope_alike (scope : String) (alike : left.Alike like right) :
    Action.Alike like (swapScope scope left) (swapScope scope right) := by
  simp only [swapScope, ← alike.context]
  split
  · exact refuse_alike _ alike
  · split
    · have cursor := alike.cursor
      rw [alike.eq]
      exact .ok () ⟨cursor, rfl, rfl⟩
    · exact refuse_alike _ alike

theorem nextScope_alike (scope : String) (count : Nat) (alike : left.Alike like right) :
    Action.Alike like (nextScope scope count left) (nextScope scope count right) := by
  obtain ⟨value, _, _, first, second, after⟩ | ⟨error, _, _, first, second, after⟩ :=
    (closeScopes_alike count alike).outcomes
  · simp only [nextScope, bind, EStateM.bind, first, second]
    exact openScope_alike scope after
  · simp only [nextScope, bind, EStateM.bind, first, second]
    exact .error error after

theorem changeVariable_alike (name : String) (level : Nat)
    (change : Option Value → Except ScopeFault Value) (alike : left.Alike like right) :
    Action.Alike like (changeVariable name level change left)
      (changeVariable name level change right) := by
  simp only [changeVariable, ← alike.context]
  split
  · exact refuse_alike _ alike
  · split
    · exact refuse_alike _ alike
    · have cursor := alike.cursor
      rw [alike.eq]
      exact .ok () ⟨cursor, rfl, rfl⟩

theorem setStrict_alike (scope : String) (strict : Bool) (alike : left.Alike like right) :
    Action.Alike like (setStrict scope strict left) (setStrict scope strict right) := by
  simp only [setStrict, ← alike.context]
  split
  · have cursor := alike.cursor
    rw [alike.eq]
    exact .ok () ⟨cursor, rfl, rfl⟩
  · exact refuse_alike _ alike

theorem diagnose_alike (likeness : Cursor.Likeness like) (complaint : Complaint)
    (alike : left.Alike like right) :
    left.context.diagnose left.cursor complaint = right.context.diagnose right.cursor complaint := by
  unfold Context.diagnose
  rw [alike.context, likeness.position _ _ alike.cursor, likeness.excerpt _ _ alike.cursor]

theorem abandon_alike {Result : Type} (likeness : Cursor.Likeness like) (complaint : Complaint)
    (alike : left.Alike like right) :
    Action.Alike like (abandon complaint left : EStateM.Result Error Session Result)
      (abandon complaint right) := by
  simp only [abandon, diagnose_alike likeness complaint alike]
  exact .error _ ⟨alike.cursor, alike.context, alike.events⟩

theorem move_alike (likeness : Cursor.Likeness like) (movement : Movement)
    (alike : left.Alike like right) :
    Action.Alike like (move movement left) (move movement right) :=
  .ok () ⟨likeness.apply _ _ alike.cursor movement, alike.context, alike.events⟩

end Session

/-- Whether a script cannot tell cursors apart that are alike. -/
def Script.Blind (like : Cursor → Cursor → Prop) : Script → Prop
  | .done => True
  | .fail _ => True
  | .look next => ∀ left right, like left right → ∀ context,
      next left context = next right context ∧ (next left context).Blind like
  | .perform _ next => ∀ result, (next result).Blind like
  | .parse _ next => ∀ result, (next result).Blind like

structure Rule.Blind (like : Cursor → Cursor → Prop) (rule : Rule) : Prop where
  pre : ∀ check ∈ rule.pre, ∀ left right, like left right → ∀ context,
    check left context = check right context
  post : ∀ accepts, .host accepts ∈ rule.post → ∀ left right, like left right →
    ∀ context found, accepts left context found = accepts right context found
  callbacks : ∀ script, .host script ∈ rule.callbacks → ∀ found, (script found).Blind like

variable {like : Cursor → Cursor → Prop} {left right : Session}

theorem Operation.run_alike (likeness : Cursor.Likeness like) (operation : Operation)
    (alike : left.Alike like right) :
    Action.Alike like (operation.run left) (operation.run right) := by
  cases operation with
  | save found => exact Session.save_alike found alike
  | openScope scope => exact Session.openScope_alike scope alike
  | closeScopes count => exact Session.closeScopes_alike count alike
  | swapScope scope => exact Session.swapScope_alike scope alike
  | nextScope scope count => exact Session.nextScope_alike scope count alike
  | define name value level =>
      simp only [run, Session.define]
      exact Session.changeVariable_alike name level _ alike
  | add name amount level =>
      simp only [run, Session.add]
      exact Session.changeVariable_alike name level _ alike
  | append name value level =>
      simp only [run, Session.append]
      exact Session.changeVariable_alike name level _ alike
  | setStrict scope strict => exact Session.setStrict_alike scope strict alike
  | move movement => exact Session.move_alike likeness movement alike
  | abandon message => exact Session.abandon_alike likeness _ alike

theorem Script.run_alike (likeness : Cursor.Likeness like) {script : Script}
    (blind : script.Blind like) (alike : left.Alike like right) :
    Action.Alike like (script.run left) (script.run right) := by
  induction script generalizing left right with
  | done => exact .ok () alike
  | fail error => exact .error error alike
  | look next induction =>
      obtain ⟨same, later⟩ := blind left.cursor right.cursor alike.cursor left.context
      simp only [run, ← alike.context, ← same]
      exact induction left.cursor left.context later alike
  | perform operation next induction =>
      obtain ⟨value, _, _, first, second, after⟩ | ⟨error, _, _, first, second, after⟩ :=
        (operation.run_alike likeness alike).outcomes
      · simp only [run, first, second]
        exact induction (.ok ()) (blind (.ok ())) after
      · simp only [run, first, second]
        exact induction (.error error) (blind (.error error)) after
  | parse lines next induction =>
      have nested : right.context.setting.nested lines = left.context.setting.nested lines := by
        rw [alike.context]
      simp only [run, nested]
      exact induction _ (blind _) ⟨alike.cursor, alike.context, alike.events⟩

theorem Callback.run_alike (likeness : Cursor.Likeness like) {callback : Callback}
    (blind : ∀ script, callback = .host script → ∀ found, (script found).Blind like)
    (found : Match) (alike : left.Alike like right) :
    Action.Alike like (callback.run found left) (callback.run found right) := by
  cases callback with
  | save => exact Session.save_alike found alike
  | perform operation => exact operation.run_alike likeness alike
  | host script => exact Script.run_alike likeness (blind script rfl found) alike

theorem Rule.runCallbacks_alike (likeness : Cursor.Likeness like) {callbacks : List Callback}
    (blind : ∀ script, .host script ∈ callbacks → ∀ found, (script found).Blind like)
    (found : Match) (alike : left.Alike like right) :
    Action.Alike like (runCallbacks found callbacks left) (runCallbacks found callbacks right) := by
  induction callbacks generalizing left right with
  | nil => exact .ok () alike
  | cons callback later induction =>
      have first : Action.Alike like (callback.run found left) (callback.run found right) := by
        apply Callback.run_alike likeness _ found alike
        intro script isHost
        exact blind script (by simp [isHost])
      obtain ⟨value, _, _, here, there, after⟩ | ⟨error, _, _, here, there, after⟩ := first.outcomes
      · simp only [runCallbacks, here, there]
        apply induction _ after
        intro script member
        exact blind script (by simp [member])
      · simp only [runCallbacks, here, there]
        exact .error error after

end LineGrammar
