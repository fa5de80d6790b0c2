import LineGrammar.Text.Property

/-!
Quoted text, as it appears in messages and trace lines. Control characters,
invisible characters and the backslash are written as escapes, so that every
character of the text can be told from the output.
-/

namespace LineGrammar.Text

def codeEscape (char : Char) : List Char :=
  ['\\', 'u', '\x7b'] ++ Nat.toDigits 16 char.toNat ++ ['\x7d']

/-- What a quoting style escapes besides what every style escapes. -/
structure EscapeStyle where
  quote : Bool
  /-- a character that extends the one before it -/
  extending : Bool

def EscapeStyle.escape (style : EscapeStyle) (char : Char) : List Char :=
  if char == '\x00' then ['\\', '0']
  else if char == '\t' then ['\\', 't']
  else if char == '\r' then ['\\', 'r']
  else if char == '\n' then ['\\', 'n']
  else if char == '\\' then ['\\', '\\']
  else if char == '"' && style.quote then ['\\', '"']
  else if isGraphemeExtend char && style.extending then codeEscape char
  else if isPrintable char then [char]
  else codeEscape char

def EscapeStyle.quoted : EscapeStyle := ⟨true, true⟩

def quote (text : String) : String :=
  "\"" ++ String.ofList (text.toList.flatMap EscapeStyle.quoted.escape) ++ "\""

/-- Escapes a text that is not put between quotes: an extending character is
escaped only where it has nothing to extend, at the start. -/
def escapeBare : List Char → List Char
  | [] => []
  | first :: rest =>
      EscapeStyle.escape ⟨false, true⟩ first ++ rest.flatMap (EscapeStyle.escape ⟨false, false⟩)

def padRight (width : Nat) (text : String) : String :=
  text ++ String.ofList (List.replicate (width - text.length) ' ')

/-- The first `width` characters of a text, escaped, between bars and padded
so that previews of one width line up. -/
def preview (width : Nat) (text : List Char) : String :=
  padRight (width + 2)
    ("|" ++ String.ofList ((escapeBare (text.take width)).take width) ++ "|")

def bracketed (items : List String) : String :=
  "[" ++ ", ".intercalate items ++ "]"

def optional (item : Option String) : String :=
  match item with
  | some shown => "Some(" ++ shown ++ ")"
  | none => "None"

end LineGrammar.Text
