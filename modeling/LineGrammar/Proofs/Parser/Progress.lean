import LineGrammar.Proofs.Parser.Loop

/-!
That a parse comes to an end. If no callback moves the cursor back, a round
leaves the cursor in place or brings it further on. The fuse allows only so many
rounds in one place, so the rounds left to make are bounded by the characters
that are left, as many times as the fuse allows.
-/

namespace LineGrammar

/-- Whether an instruction never moves the cursor back: neither a reversal, nor
a jump to the start of the line, nor a call of the host. -/
def Mnemonic.KeepsForward (mnemonic : Mnemonic) (arguments : List Argument) : Prop :=
  mnemonic ≠ .reverse ∧ mnemonic ≠ .call ∧ (mnemonic = .goto → arguments ≠ [.text "bol"])

def Callback.Forward (callback : Callback) : Prop :=
  callback.Still (fun _ => True) ∨
    ∃ movement : Movement, movement.Forward ∧ callback = .perform (.move movement)

theorem Movement.forward_of_target {target : String} {movement : Movement}
    (known : Compiler.targets.get? target = some movement) (notStart : target ≠ "bol") :
    movement.Forward := by
  have entry := Table.mem_of_get? known
  simp only [Compiler.targets, List.mem_cons, Prod.mk.injEq, List.not_mem_nil, or_false] at entry
  rcases entry with ⟨isStart, _⟩ | ⟨_, rfl⟩ | ⟨_, rfl⟩ | ⟨_, rfl⟩
  · exact absurd isStart notStart
  · trivial
  · trivial
  · trivial

theorem Mnemonic.Issues.forward {mnemonic : Mnemonic} {arguments : List Argument}
    {callback : Callback} (issued : mnemonic.Issues arguments callback)
    (keeps : mnemonic.KeepsForward arguments) : callback.Forward := by
  rcases keeps with ⟨noReverse, noCall, noStart⟩
  cases issued with
  | reverse arguments count => exact absurd rfl noReverse
  | call script => exact absurd rfl noCall
  | @goto target movement known =>
      refine .inr ⟨movement, Movement.forward_of_target known ?_, rfl⟩
      rintro rfl
      exact noStart rfl rfl
  | advance arguments count => exact .inr ⟨.advance count, trivial, rfl⟩
  | _ => exact .inl trivial

namespace Session

structure Onward (before after : Session) : Prop where
  cursor : before.cursor.Onward after.cursor
  setting : after.context.setting = before.context.setting

/-- How a step ends that does not go back: further on, or in an error that ends
the parse. -/
def GoesOn {Result : Type} (before : Session) (outcome : EStateM.Result Error Session Result) :
    Prop :=
  Action.Ends outcome (fun _ after => before.Onward after) (fun error _ => error.EndsParse)

end Session

theorem Callback.Forward.goes {callback : Callback} (forward : callback.Forward) :
    callback.Goes Cursor.Onward := by
  rcases forward with still | ⟨movement, forward, rfl⟩
  · exact .inl still
  · exact .inr ⟨movement, fun _ valid => forward.onward valid, rfl⟩

def Rule.Forward (rule : Rule) : Prop := ∀ callback ∈ rule.callbacks, callback.Forward

namespace Session

variable {grammar : Grammar} {session : Session}

theorem round_goesOn (forward : grammar.Every Rule.Forward) (valid : session.cursor.Valid) :
    session.GoesOn (round grammar session) := by
  have goes : grammar.Every (Rule.Goes Cursor.Onward) := fun scope inGrammar rule inScope callback
    member => (forward scope inGrammar rule inScope callback member).goes
  have ends := round_endsAlong Cursor.way_onward goes valid
  cases outcome : round grammar session with
  | ok value after =>
      rw [outcome] at ends
      exact ⟨ends.cursor, ends.setting⟩
  | error error after =>
      rw [outcome] at ends
      exact ends

theorem not_returns (forward : grammar.Every Rule.Forward)
    (valid : session.cursor.Valid) (count : Nat) : ¬Returns grammar count session := by
  rintro ⟨before, after, makes, made, back⟩
  induction makes with
  | nothing session =>
      have goes := round_goesOn forward valid
      rw [made.2] at goes
      exact goes.cursor.not_back valid back
  | first earlier _ induction =>
      have goes := round_goesOn forward valid
      rw [earlier.2] at goes
      exact induction goes.cursor.valid made back

/-- The rounds of a parse that does not move back are bounded by what is left of
the buffer. -/
theorem drives_of_left (forward : grammar.Every Rule.Forward) (bound : Nat) {fuse : Fuse}
    (valid : session.cursor.Valid)
    (here : fuse.position = session.cursor.position)
    (intact : fuse.count < max 1 session.context.setting.config.maxStall)
    (left : session.cursor.remaining * max 1 session.context.setting.config.maxStall - fuse.count ≤
      bound) :
    ∃ count ≤ bound, ∃ outcome, Drives grammar count fuse session outcome ∧
      Action.Ends outcome (fun _ _ => True) (fun error _ => error ≠ .exhausted) := by
  have goes : grammar.Every (Rule.Goes Cursor.Within) := fun scope inGrammar rule inScope callback
    member => (forward scope inGrammar rule inScope callback member).goes.imp
      fun _ _ onward => onward.within
  have armed : Armed fuse session := ⟨valid, here, intact⟩
  rcases armed.results_or_returns goes bound left with results | ⟨count, _, returns⟩
  · exact results
  · exact absurd returns (not_returns forward valid count)

theorem parse_not_exhausted {limit : Nat}
    (ends : ∀ entered, enter session = .ok () entered →
      Action.Ends (rounds grammar limit ⟨entered.cursor.position, 0⟩ entered) (fun _ _ => True)
        (fun error _ => error ≠ .exhausted)) :
    (conclude (parse grammar limit session)).result ≠ .error .exhausted := by
  have entering := @enter_changing (fun _ => True) (fun _ => True) session
  rw [parse_eq]
  cases opened : enter session with
  | error error entered =>
      rw [opened] at entering
      intro same
      cases same
      exact entering.1
  | ok value entered =>
      have made := ends entered opened
      simp only
      cases outcome : rounds grammar limit ⟨entered.cursor.position, 0⟩ entered with
      | error error final =>
          rw [outcome] at made
          intro same
          cases same
          exact made rfl
      | ok value final =>
          simp only
          cases leaving : leave final with
          | ok value left => simp [conclude]
          | error error left =>
              obtain ⟨diagnostic, rfl⟩ := leave_error leaving
              simp [conclude]

end Session

theorem Builder.forward_of_build {builder : Builder} {grammar : Grammar}
    (confined : builder.Every (Entry.Confined Mnemonic.KeepsForward))
    (built : builder.build = .ok grammar) : grammar.Every Rule.Forward := by
  intro scope inGrammar rule inScope callback member
  obtain ⟨mnemonic, arguments, keeps, issued⟩ :=
    issued_of_build confined built scope inGrammar rule inScope callback member
  exact issued.forward keeps

/-- If no instruction of a grammar moves the cursor back, the rounds of a parse
from any place are at most as many as the fuse allows at every character and
line break of the buffer and once more. So no parse is given up for its budget. -/
theorem Grammar.rounds_are_bounded (builder : Builder) (grammar : Grammar)
    (built : builder.build = .ok grammar)
    (confined : builder.Every (Entry.Confined Mnemonic.KeepsForward))
    (config : Config) (buffer : Buffer) (position : Position) :
    (∀ session : Session, session.cursor = .near buffer position →
      session.context.setting.config = config →
      ∃ iterations ≤ (buffer.charCount + 1) * max 1 config.maxStall, ∃ outcome,
        Session.Drives grammar iterations ⟨session.cursor.position, 0⟩ session outcome ∧
        ∀ limit, iterations ≤ limit →
          Session.rounds grammar limit ⟨session.cursor.position, 0⟩ session = outcome) ∧
    ∀ extra depth,
      (grammar.drive config extra (depth + 1) (.near buffer position)).result ≠
        .error .exhausted := by
  have forward := Builder.forward_of_build confined built
  have bounded : ∀ session : Session, session.cursor = .near buffer position →
      session.context.setting.config = config →
      ∃ iterations ≤ (buffer.charCount + 1) * max 1 config.maxStall, ∃ outcome,
        Session.Drives grammar iterations ⟨session.cursor.position, 0⟩ session outcome ∧
        Action.Ends outcome (fun _ _ => True) (fun error _ => error ≠ .exhausted) := by
    intro session here configured
    have valid : session.cursor.Valid := by
      rw [here]
      exact Cursor.near_valid buffer position
    have fits : session.cursor.remaining ≤ buffer.charCount + 1 := by
      have most := session.cursor.remaining_le_charCount
      rw [here] at most ⊢
      exact Nat.le_succ_of_le most
    rw [← configured]
    apply Session.drives_of_left forward _ valid rfl
    · exact Nat.lt_of_lt_of_le Nat.zero_lt_one (Nat.le_max_left 1 _)
    · exact Nat.mul_le_mul_right _ fits
  constructor
  · intro session here configured
    obtain ⟨iterations, within, outcome, drives, _⟩ := bounded session here configured
    exact ⟨iterations, within, outcome, drives, fun limit enough => drives.rounds_eq enough⟩
  · intro extra depth
    rw [Grammar.drive_succ]
    apply Session.parse_not_exhausted
    intro entered opened
    -- Entering the main scope leaves the cursor and the settings as they are.
    have changes := Session.changes_of_enter (fun _ => True) (fun _ => True) opened
    obtain ⟨iterations, within, outcome, drives, ends⟩ := bounded entered changes.cursor_eq
      (congrArg Setting.config changes.setting_eq)
    have enough : iterations ≤ config.roundLimit (Cursor.near buffer position).buffer + extra :=
      Nat.le_add_right_of_le within
    rw [drives.rounds_eq enough]
    exact ends

/-- A grammar that stays in place every other round: at each character it opens
a scope, and in there it advances and closes the scope again. -/
theorem Grammar.opening_in_place_is_bounded :
    let builder := ({} : Builder)
      |>.scope "main" [RuleSpec.always.instruct "open" [.text "step"]]
      |>.scope "step" [(RuleSpec.always.instruct "advance" [.int 1]).instruct "close" []]
    ∃ grammar, builder.build = .ok grammar ∧
      builder.Every (Entry.Confined Mnemonic.KeepsForward) ∧
      ∀ extra depth, (grammar.drive { maxStall := 2 } extra (depth + 1)
        (.near (.ofLines ["ab", "c"]) .origin)).result ≠ .error .exhausted := by
  intro builder
  have confined : builder.Every (Entry.Confined Mnemonic.KeepsForward) := by
    have entries : builder.entries =
        [("main", [.spec (RuleSpec.always.instruct "open" [.text "step"])]),
          ("step", [.spec ((RuleSpec.always.instruct "advance" [.int 1]).instruct "close" [])])] := rfl
    intro named isNamed entry isEntry
    simp only [entries, List.mem_cons, List.not_mem_nil, or_false] at isNamed
    rcases isNamed with rfl | rfl
    · rw [List.mem_singleton.mp isEntry]
      intro instruction listed mnemonic known
      rw [List.mem_singleton.mp listed] at known ⊢
      cases known
      simp [Mnemonic.KeepsForward]
    · rw [List.mem_singleton.mp isEntry]
      intro instruction listed mnemonic known
      rcases List.mem_append.mp listed with first | second
      · rw [List.mem_singleton.mp first] at known ⊢
        cases known
        simp [Mnemonic.KeepsForward]
      · rw [List.mem_singleton.mp second] at known ⊢
        cases known
        simp [Mnemonic.KeepsForward]
  obtain ⟨grammar, built⟩ : ∃ grammar, builder.build = .ok grammar := ⟨_, rfl⟩
  exact ⟨grammar, built, confined, (rounds_are_bounded builder grammar built confined
    { maxStall := 2 } (.ofLines ["ab", "c"]) .origin).2⟩

end LineGrammar
