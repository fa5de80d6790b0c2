import LineGrammar.Buffer.Position
import LineGrammar.Grammar.Mnemonic
import LineGrammar.Multiplicity
import LineGrammar.Scope.Value

/-!
What can go wrong, by cause. A refused match only means that something else is
to be tried; every other error ends the parse. The wording of messages is kept
apart from the causes.
-/

namespace LineGrammar

/-- Who reports that nothing matched. -/
inductive Matcher where
  | leaf
  | sequence
  | set
  | repetition
  | host
  deriving DecidableEq, Repr

def Matcher.name : Matcher → String
  | .leaf => "leaf"
  | .sequence => "sequence"
  | .set => "set"
  | .repetition => "repetition"
  | .host => "host"

/-- Why a parse was abandoned at a place. -/
inductive Complaint where
  | noRule (scope : String)
  | wrongEnd (expected actual : String)
  | stalled (limit : Nat) (scope : String)
  | stated (message : String)
  deriving DecidableEq, Repr

def Complaint.message : Complaint → String
  | .noRule scope => "no matching rule in strict scope \"" ++ scope ++ "\""
  | .wrongEnd expected actual =>
      "parse should end in scope \"" ++ expected ++ "\" but ended in \"" ++ actual ++ "\""
  | .stalled limit scope =>
      "cursor stuck for " ++ toString limit ++ " iterations in scope \"" ++ scope ++ "\""
  | .stated message => message

structure Diagnostic where
  complaint : Complaint
  position : Position
  excerpt : String
  trace : List String
  deriving DecidableEq, Repr

/-- The names of open scopes, outermost first. -/
def renderTrace (trace : List String) : String :=
  "[scope: " ++ " > ".intercalate trace ++ "]"

def Diagnostic.render (diagnostic : Diagnostic) : String :=
  let headline := diagnostic.complaint.message ++ " at " ++ diagnostic.position.render ++ " " ++
    renderTrace diagnostic.trace
  if diagnostic.excerpt.isEmpty then headline else headline ++ "\n" ++ diagnostic.excerpt

inductive ScopeFault where
  | openUnknown (scope : String)
  | closeTooMany (count depth : Nat)
  | swapRoot
  | swapUnknown (scope : String)
  | noAncestor (level depth : Nat)
  | notInteger (name : String) (value : Value)
  | notList (name : String) (value : Value)
  | unknown (scope : String)
  | noRules (scope : String)
  | stated (message : String)
  deriving DecidableEq, Repr

def ScopeFault.message : ScopeFault → String
  | .openUnknown scope => "cannot open unknown scope \"" ++ scope ++ "\""
  | .closeTooMany count depth =>
      "cannot close " ++ toString count ++ " scope(s) at depth " ++ toString depth
  | .swapRoot => "cannot swap the root scope"
  | .swapUnknown scope => "cannot swap to unknown scope \"" ++ scope ++ "\""
  | .noAncestor level depth =>
      "no ancestor " ++ toString level ++ " levels up from depth " ++ toString depth
  | .notInteger name value =>
      "variable \"" ++ name ++ "\" is not an integer: " ++ value.render
  | .notList name value => "variable \"" ++ name ++ "\" is not a list: " ++ value.render
  | .unknown scope => "unknown scope \"" ++ scope ++ "\""
  | .noRules scope => "no rules for scope \"" ++ scope ++ "\""
  | .stated message => message

/-- What is wrong with the arguments of an instruction. Arguments are counted
from 1. -/
inductive ArgumentFault where
  | wrongCount (min max : Nat)
  | expectsText (index : Nat)
  | expectsInteger (index : Nat)
  | expectsLevel
  | expectsValue (index : Nat)
  | expectsPreCheck
  | expectsPostCheck
  | expectsTransform
  | expectsCallback
  | unknownScope (scope : String)
  | unknownValidator (name : String)
  | unknownProcessor (name : String)
  | unknownTarget (name : String)
  deriving DecidableEq, Repr

def ArgumentFault.message : ArgumentFault → String
  | .wrongCount min max => "takes " ++ toString min ++ " to " ++ toString max ++ " arguments"
  | .expectsText index => "expects text as argument " ++ toString index
  | .expectsInteger index => "expects an integer as argument " ++ toString index
  | .expectsLevel => "expects a non-negative level"
  | .expectsValue index => "expects text or an integer as argument " ++ toString index
  | .expectsPreCheck => "expects a single pre-check function"
  | .expectsPostCheck => "expects a post-check function or validator name"
  | .expectsTransform => "expects a transform function or processor name"
  | .expectsCallback => "expects a single callback function"
  | .unknownScope scope => "refers to unknown scope '" ++ scope ++ "'"
  | .unknownValidator name => "uses unknown validator '" ++ name ++ "'"
  | .unknownProcessor name => "uses unknown processor '" ++ name ++ "'"
  | .unknownTarget name => "has unknown target '" ++ name ++ "'"

inductive GrammarFault where
  | noMain
  | strictUnknown (scope : String)
  | unknownInstruction (name : String)
  /-- `arguments` shows the arguments that were given -/
  | badArguments (mnemonic : Mnemonic) (fault : ArgumentFault) (arguments : String)
  | inRule (scope : String) (index : Nat) (fault : GrammarFault)
  | unknownScope (scope : String)
  | stated (message : String)
  deriving DecidableEq, Repr

def GrammarFault.message : GrammarFault → String
  | .noMain => "grammar has no \"main\" scope"
  | .strictUnknown scope => "strict flag on unknown scope \"" ++ scope ++ "\""
  | .unknownInstruction name => "unknown instruction '" ++ name ++ "'"
  | .badArguments mnemonic fault arguments =>
      "instruction '" ++ mnemonic.render ++ "' " ++ fault.message ++ " (got " ++ arguments ++ ")"
  | .inRule scope index fault =>
      "scope \"" ++ scope ++ "\", rule " ++ toString index ++ ": " ++ fault.message
  | .unknownScope scope => "unknown scope \"" ++ scope ++ "\""
  | .stated message => message

inductive SourceFault where
  | missing
  | notUtf8
  deriving DecidableEq, Repr

def SourceFault.message : SourceFault → String
  | .missing => "No such file or directory (os error 2)"
  | .notUtf8 => "stream did not contain valid UTF-8"

inductive Error where
  | noMatch (matcher : Matcher) (position : Position)
  | preCheck (position : Position)
  | postCheck (position : Position)
  | fatal (diagnostic : Diagnostic)
  | stuck (diagnostic : Diagnostic)
  | scope (fault : ScopeFault) (trace : List String)
  | grammar (fault : GrammarFault)
  | multiplicity (fault : CountFault)
  /-- a pattern that is not well formed -/
  | pattern
  | source (fault : SourceFault)
  /-- the budget of a parse is used up -/
  | exhausted
  deriving DecidableEq, Repr

namespace Error

/-- Whether the error only refuses a match. -/
def isRecoverable : Error → Bool
  | .noMatch .. | .preCheck .. | .postCheck .. => true
  | _ => false

def diagnostic? : Error → Option Diagnostic
  | .fatal diagnostic | .stuck diagnostic => some diagnostic
  | _ => none

def message : Error → String
  | .noMatch matcher position => "no match: " ++ matcher.name ++ " at " ++ position.render
  | .preCheck position => "pre-check rejected match at " ++ position.render
  | .postCheck position => "post-check rejected match at " ++ position.render
  | .fatal diagnostic => "parse error: " ++ diagnostic.render
  | .stuck diagnostic => "stuck grammar: " ++ diagnostic.render
  | .scope fault trace => "scope error: " ++ fault.message ++ " " ++ renderTrace trace
  | .grammar fault => "grammar error: " ++ fault.message
  | .multiplicity fault => "bad multiplicity: " ++ fault.message
  | .pattern => "error parsing pattern 0"
  | .source fault => fault.message
  | .exhausted => "budget exhausted"

def describe : Error → String
  | .noMatch matcher position =>
      "NoMatch \x7b action: " ++ Text.quote matcher.name ++ ", pos: " ++ position.describe ++ " \x7d"
  | .preCheck position => "PreCheck \x7b pos: " ++ position.describe ++ " \x7d"
  | .postCheck position => "PostCheck \x7b pos: " ++ position.describe ++ " \x7d"
  | other => other.message

end Error

end LineGrammar
