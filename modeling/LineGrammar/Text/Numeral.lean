/-!
Numerals in text: counts of 64 bits, signed integers of 64 bits, and decimal
fractions. A numeral is read whole; nothing may stand before or after it.
-/

namespace LineGrammar.Text

def digitsValue (value : Nat) : List Char → Nat
  | [] => value
  | digit :: rest => digitsValue (value * 10 + (digit.toNat - '0'.toNat)) rest

def natural? (text : List Char) : Option Nat :=
  if !text.isEmpty && text.all Char.isDigit then some (digitsValue 0 text) else none

def maxCount : Nat := 0xFFFFFFFFFFFFFFFF

def count? (text : List Char) : Option Nat :=
  let digits := match text with
    | '+' :: rest => rest
    | other => other
  (natural? digits).filter (· ≤ maxCount)

def integerBound : Nat := 0x8000000000000000

def integer? : List Char → Option Int
  | '-' :: rest => ((natural? rest).filter (· ≤ integerBound)).map fun value => -(value : Int)
  | '+' :: rest => ((natural? rest).filter (· < integerBound)).map Int.ofNat
  | text => ((natural? text).filter (· < integerBound)).map Int.ofNat

def afterSign : List Char → List Char
  | '+' :: rest | '-' :: rest => rest
  | text => text

def isExponent (text : List Char) : Bool :=
  (natural? (afterSign text)).isSome

def isExponentPart : List Char → Bool
  | [] => true
  | mark :: rest => (mark == 'e' || mark == 'E') && isExponent rest

/-- Whether a text without sign is a decimal: digits with at most one point
among them and at least one digit, then an optional exponent. -/
def isUnsignedDecimal (text : List Char) : Bool :=
  let whole := text.takeWhile Char.isDigit
  match text.dropWhile Char.isDigit with
  | '.' :: rest =>
      let fraction := rest.takeWhile Char.isDigit
      (!whole.isEmpty || !fraction.isEmpty) && isExponentPart (rest.dropWhile Char.isDigit)
  | rest => !whole.isEmpty && isExponentPart rest

/-- Whether a text denotes a floating-point number. The names of infinity and
of the undefined value count too, in any case. -/
def isFloat (text : List Char) : Bool :=
  let body := afterSign text
  let name := String.ofList (body.map Char.toLower)
  name == "inf" || name == "infinity" || name == "nan" || isUnsignedDecimal body

end LineGrammar.Text
