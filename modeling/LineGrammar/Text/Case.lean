import LineGrammar.Text.Property

/-!
Letter case: the mapping of single characters, of whole texts, and the groups
of characters that case-insensitive matching takes for equal.

A text maps character by character, with one exception. A capital sigma at the
end of a word becomes the final form of the small letter; the word ends where
no further cased letter follows, signs such as the apostrophe being passed over.
The tables cover the repertoire of the general categories.
-/

namespace LineGrammar.Text

/-- Code points `first`, `first + step`, … up to `last`, each mapped to the
code point `offset` further on. -/
structure CaseRun where
  first : Nat
  last : Nat
  step : Nat
  offset : Int

def CaseRun.covers (run : CaseRun) (code : Nat) : Bool :=
  run.first ≤ code && code ≤ run.last && (code - run.first) % run.step == 0

def CaseRun.target (run : CaseRun) (code : Nat) : Char :=
  Char.ofNat (code + run.offset).toNat

def lowerRuns : List CaseRun :=
  [ ⟨0x41, 0x5A, 1, 32⟩, ⟨0xC0, 0xD6, 1, 32⟩, ⟨0xD8, 0xDE, 1, 32⟩, ⟨0x100, 0x12E, 2, 1⟩,
    ⟨0x132, 0x136, 2, 1⟩, ⟨0x139, 0x147, 2, 1⟩, ⟨0x14A, 0x176, 2, 1⟩, ⟨0x178, 0x178, 1, -121⟩,
    ⟨0x179, 0x17D, 2, 1⟩, ⟨0x1C4, 0x1CA, 3, 2⟩, ⟨0x1C5, 0x1CB, 3, 1⟩, ⟨0x370, 0x372, 2, 1⟩,
    ⟨0x376, 0x376, 1, 1⟩, ⟨0x37F, 0x37F, 1, 116⟩, ⟨0x386, 0x386, 1, 38⟩, ⟨0x388, 0x38A, 1, 37⟩,
    ⟨0x38C, 0x38C, 1, 64⟩, ⟨0x38E, 0x38F, 1, 63⟩, ⟨0x391, 0x3A1, 1, 32⟩, ⟨0x3A3, 0x3AB, 1, 32⟩,
    ⟨0x3CF, 0x3CF, 1, 8⟩, ⟨0x3D8, 0x3EE, 2, 1⟩, ⟨0x3F4, 0x3F4, 1, -60⟩, ⟨0x3F7, 0x3F7, 1, 1⟩,
    ⟨0x3F9, 0x3F9, 1, -7⟩, ⟨0x3FA, 0x3FA, 1, 1⟩, ⟨0x3FD, 0x3FF, 1, -130⟩, ⟨0x400, 0x40F, 1, 80⟩,
    ⟨0x410, 0x42F, 1, 32⟩, ⟨0x2126, 0x2126, 1, -7517⟩, ⟨0x212A, 0x212A, 1, -8383⟩,
    ⟨0x212B, 0x212B, 1, -8262⟩, ⟨0x2132, 0x2132, 1, 28⟩, ⟨0x2160, 0x216F, 1, 16⟩,
    ⟨0x2183, 0x2183, 1, 1⟩, ⟨0xFF21, 0xFF3A, 1, 32⟩ ]

def upperRuns : List CaseRun :=
  [ ⟨0x61, 0x7A, 1, -32⟩, ⟨0xB5, 0xB5, 1, 743⟩, ⟨0xE0, 0xF6, 1, -32⟩, ⟨0xF8, 0xFE, 1, -32⟩,
    ⟨0xFF, 0xFF, 1, 121⟩, ⟨0x101, 0x12F, 2, -1⟩, ⟨0x131, 0x131, 1, -232⟩, ⟨0x133, 0x137, 2, -1⟩,
    ⟨0x13A, 0x148, 2, -1⟩, ⟨0x14B, 0x177, 2, -1⟩, ⟨0x17A, 0x17E, 2, -1⟩, ⟨0x17F, 0x17F, 1, -300⟩,
    ⟨0x1C5, 0x1CB, 3, -1⟩, ⟨0x1C6, 0x1CC, 3, -2⟩, ⟨0x345, 0x345, 1, 84⟩, ⟨0x371, 0x373, 2, -1⟩,
    ⟨0x377, 0x377, 1, -1⟩, ⟨0x37B, 0x37D, 1, 130⟩, ⟨0x3AC, 0x3AC, 1, -38⟩, ⟨0x3AD, 0x3AF, 1, -37⟩,
    ⟨0x3B1, 0x3C1, 1, -32⟩, ⟨0x3C2, 0x3C2, 1, -31⟩, ⟨0x3C3, 0x3CB, 1, -32⟩, ⟨0x3CC, 0x3CC, 1, -64⟩,
    ⟨0x3CD, 0x3CE, 1, -63⟩, ⟨0x3D0, 0x3D0, 1, -62⟩, ⟨0x3D1, 0x3D1, 1, -57⟩, ⟨0x3D5, 0x3D5, 1, -47⟩,
    ⟨0x3D6, 0x3D6, 1, -54⟩, ⟨0x3D7, 0x3D7, 1, -8⟩, ⟨0x3D9, 0x3EF, 2, -1⟩, ⟨0x3F0, 0x3F0, 1, -86⟩,
    ⟨0x3F1, 0x3F1, 1, -80⟩, ⟨0x3F2, 0x3F2, 1, 7⟩, ⟨0x3F3, 0x3F3, 1, -116⟩, ⟨0x3F5, 0x3F5, 1, -96⟩,
    ⟨0x3F8, 0x3F8, 1, -1⟩, ⟨0x3FB, 0x3FB, 1, -1⟩, ⟨0x430, 0x44F, 1, -32⟩, ⟨0x450, 0x45F, 1, -80⟩,
    ⟨0x214E, 0x214E, 1, -28⟩, ⟨0x2170, 0x217F, 1, -16⟩, ⟨0x2184, 0x2184, 1, -1⟩,
    ⟨0xFF41, 0xFF5A, 1, -32⟩ ]

def longUpper : List (Char × List Char) :=
  [ ('ß', ['S', 'S']), ('ŉ', ['\u02BC', 'N']), ('\u0390', ['\u0399', '\u0308', '\u0301']),
    ('\u03B0', ['\u03A5', '\u0308', '\u0301']), ('\uFB00', ['F', 'F']), ('\uFB01', ['F', 'I']),
    ('\uFB02', ['F', 'L']), ('\uFB03', ['F', 'F', 'I']), ('\uFB04', ['F', 'F', 'L']),
    ('\uFB05', ['S', 'T']), ('\uFB06', ['S', 'T']) ]

/-- Groups of more than two characters that differ in case only. -/
def foldGroups : List (List Char) :=
  [ ['K', 'k', '\u212A'], ['S', 's', '\u017F'], ['\u00B5', '\u039C', '\u03BC'],
    ['\u00C5', '\u00E5', '\u212B'], ['\u01C4', '\u01C5', '\u01C6'], ['\u01C7', '\u01C8', '\u01C9'],
    ['\u01CA', '\u01CB', '\u01CC'], ['\u0345', '\u0399', '\u03B9'], ['\u0392', '\u03B2', '\u03D0'],
    ['\u0395', '\u03B5', '\u03F5'], ['\u0398', '\u03B8', '\u03D1', '\u03F4'],
    ['\u039A', '\u03BA', '\u03F0'], ['\u03A0', '\u03C0', '\u03D6'], ['\u03A1', '\u03C1', '\u03F1'],
    ['\u03A3', '\u03C2', '\u03C3'], ['\u03A6', '\u03C6', '\u03D5'], ['\u03A9', '\u03C9', '\u2126'] ]

def mapRuns (runs : List CaseRun) (char : Char) : Char :=
  match runs.find? (·.covers char.toNat) with
  | some run => run.target char.toNat
  | none => char

def simpleLower (char : Char) : Char := mapRuns lowerRuns char

def simpleUpper (char : Char) : Char := mapRuns upperRuns char

def lowerChar (char : Char) : List Char :=
  if char == '\u0130' then ['i', '\u0307'] else [simpleLower char]

def upperChar (char : Char) : List Char :=
  (longUpper.lookup char).getD [simpleUpper char]

def startsCased (text : List Char) : Bool :=
  match text.dropWhile isCaseIgnorable with
  | [] => false
  | char :: _ => isCased char

/-- Lower case of a text whose part `before`, read backwards, is already done. -/
def lowerFrom (before : List Char) : List Char → List Char
  | [] => []
  | char :: rest =>
      let mapped :=
        if char == '\u03A3' then
          if startsCased before && !startsCased rest then ['\u03C2'] else ['\u03C3']
        else lowerChar char
      mapped ++ lowerFrom (char :: before) rest

def lowerText (text : List Char) : List Char := lowerFrom [] text

def upperText (text : List Char) : List Char := text.flatMap upperChar

/-- All characters equal to `char` up to case, itself included. -/
def foldOrbit (char : Char) : List Char :=
  match foldGroups.find? (·.contains char) with
  | some group => group
  | none =>
      let lower := simpleLower char
      let upper := simpleUpper char
      if lower != char && simpleUpper lower == char then [char, lower]
      else if upper != char && simpleLower upper == char then [char, upper]
      else [char]

end LineGrammar.Text
