/-!
General categories of characters. The tables list the runs of characters that
share a category, for the repertoire that the library classifies: Basic Latin,
Latin-1, Latin Extended-A, the Latin digraph letters, combining diacritics,
Greek and Coptic, basic Cyrillic, Arabic-Indic digits, general punctuation,
letterlike symbols, number forms, mathematical operators, CJK symbols, kana,
unified ideographs, Hangul syllables, Latin ligatures, full-width forms and
pictographs. A character outside this repertoire counts as a symbol, be it a letter
of another script.
-/

namespace LineGrammar.Text

/-- The general categories that the library tells apart. Punctuation other
than connectors, symbols other than modifiers, and separators are not divided
further. -/
inductive Category where
  | uppercaseLetter
  | lowercaseLetter
  | titlecaseLetter
  | modifierLetter
  | otherLetter
  | nonspacingMark
  | spacingMark
  | decimalNumber
  | letterNumber
  | otherNumber
  | connector
  | punctuation
  | modifierSymbol
  | symbol
  | separator
  | control
  | format
  | unassigned
  deriving DecidableEq, Repr

namespace Category

/-- A run of neighbouring code points. Code points at an even distance from
`first` have category `even`, the others `odd`. -/
structure Run where
  first : Nat
  last : Nat
  even : Category
  odd : Category

def Run.uniform (first last : Nat) (category : Category) : Run :=
  ⟨first, last, category, category⟩

/-- A run of upper-case letters, each followed by its lower-case partner. -/
def Run.alternating (first last : Nat) : Run :=
  ⟨first, last, .uppercaseLetter, .lowercaseLetter⟩

def Run.covers (run : Run) (code : Nat) : Bool :=
  run.first ≤ code && code ≤ run.last

def Run.categoryAt (run : Run) (code : Nat) : Category :=
  if (code - run.first) % 2 = 0 then run.even else run.odd

open Run (uniform alternating)

/-- Basic Latin, Latin-1, Latin Extended-A and the digraph letters. -/
def latinRuns : List Run :=
  [ uniform 0x0 0x1F .control, uniform 0x20 0x20 .separator, uniform 0x21 0x23 .punctuation,
    uniform 0x24 0x24 .symbol, uniform 0x25 0x2A .punctuation, uniform 0x2B 0x2B .symbol,
    uniform 0x2C 0x2F .punctuation, uniform 0x30 0x39 .decimalNumber,
    uniform 0x3A 0x3B .punctuation, uniform 0x3C 0x3E .symbol, uniform 0x3F 0x40 .punctuation,
    uniform 0x41 0x5A .uppercaseLetter, uniform 0x5B 0x5D .punctuation,
    uniform 0x5E 0x5E .modifierSymbol, uniform 0x5F 0x5F .connector,
    uniform 0x60 0x60 .modifierSymbol, uniform 0x61 0x7A .lowercaseLetter,
    uniform 0x7B 0x7B .punctuation, uniform 0x7C 0x7C .symbol, uniform 0x7D 0x7D .punctuation,
    uniform 0x7E 0x7E .symbol, uniform 0x7F 0x9F .control, uniform 0xA0 0xA0 .separator,
    uniform 0xA1 0xA1 .punctuation, uniform 0xA2 0xA6 .symbol, uniform 0xA7 0xA7 .punctuation,
    uniform 0xA8 0xA8 .modifierSymbol, uniform 0xA9 0xA9 .symbol, uniform 0xAA 0xAA .otherLetter,
    uniform 0xAB 0xAB .punctuation, uniform 0xAC 0xAC .symbol, uniform 0xAD 0xAD .format,
    uniform 0xAE 0xAE .symbol, uniform 0xAF 0xAF .modifierSymbol, uniform 0xB0 0xB1 .symbol,
    uniform 0xB2 0xB3 .otherNumber, uniform 0xB4 0xB4 .modifierSymbol,
    uniform 0xB5 0xB5 .lowercaseLetter, uniform 0xB6 0xB7 .punctuation,
    uniform 0xB8 0xB8 .modifierSymbol, uniform 0xB9 0xB9 .otherNumber,
    uniform 0xBA 0xBA .otherLetter, uniform 0xBB 0xBB .punctuation,
    uniform 0xBC 0xBE .otherNumber, uniform 0xBF 0xBF .punctuation,
    uniform 0xC0 0xD6 .uppercaseLetter, uniform 0xD7 0xD7 .symbol,
    uniform 0xD8 0xDE .uppercaseLetter, uniform 0xDF 0xF6 .lowercaseLetter,
    uniform 0xF7 0xF7 .symbol, uniform 0xF8 0xFF .lowercaseLetter, alternating 0x100 0x135,
    uniform 0x136 0x136 .uppercaseLetter, uniform 0x137 0x138 .lowercaseLetter,
    alternating 0x139 0x146, uniform 0x147 0x147 .uppercaseLetter,
    uniform 0x148 0x149 .lowercaseLetter, alternating 0x14A 0x177,
    uniform 0x178 0x179 .uppercaseLetter, uniform 0x17A 0x17A .lowercaseLetter,
    alternating 0x17B 0x17C, uniform 0x17D 0x17D .uppercaseLetter,
    uniform 0x17E 0x17F .lowercaseLetter, uniform 0x1C4 0x1C4 .uppercaseLetter,
    uniform 0x1C5 0x1C5 .titlecaseLetter, uniform 0x1C6 0x1C6 .lowercaseLetter,
    uniform 0x1C7 0x1C7 .uppercaseLetter, uniform 0x1C8 0x1C8 .titlecaseLetter,
    uniform 0x1C9 0x1C9 .lowercaseLetter, uniform 0x1CA 0x1CA .uppercaseLetter,
    uniform 0x1CB 0x1CB .titlecaseLetter, uniform 0x1CC 0x1CC .lowercaseLetter ]

/-- Combining diacritics, Greek and Coptic, basic Cyrillic, Arabic-Indic digits. -/
def greekRuns : List Run :=
  [ uniform 0x300 0x36F .nonspacingMark, alternating 0x370 0x373,
    uniform 0x374 0x374 .modifierLetter, uniform 0x375 0x375 .modifierSymbol,
    alternating 0x376 0x377, uniform 0x378 0x379 .unassigned,
    uniform 0x37A 0x37A .modifierLetter, uniform 0x37B 0x37D .lowercaseLetter,
    uniform 0x37E 0x37E .punctuation, uniform 0x37F 0x37F .uppercaseLetter,
    uniform 0x380 0x383 .unassigned, uniform 0x384 0x385 .modifierSymbol,
    uniform 0x386 0x386 .uppercaseLetter, uniform 0x387 0x387 .punctuation,
    uniform 0x388 0x38A .uppercaseLetter, uniform 0x38B 0x38B .unassigned,
    uniform 0x38C 0x38C .uppercaseLetter, uniform 0x38D 0x38D .unassigned,
    uniform 0x38E 0x38F .uppercaseLetter, uniform 0x390 0x390 .lowercaseLetter,
    uniform 0x391 0x3A1 .uppercaseLetter, uniform 0x3A2 0x3A2 .unassigned,
    uniform 0x3A3 0x3AB .uppercaseLetter, uniform 0x3AC 0x3CE .lowercaseLetter,
    uniform 0x3CF 0x3CF .uppercaseLetter, uniform 0x3D0 0x3D1 .lowercaseLetter,
    uniform 0x3D2 0x3D4 .uppercaseLetter, uniform 0x3D5 0x3D7 .lowercaseLetter,
    alternating 0x3D8 0x3ED, uniform 0x3EE 0x3EE .uppercaseLetter,
    uniform 0x3EF 0x3F3 .lowercaseLetter, alternating 0x3F4 0x3F5, uniform 0x3F6 0x3F6 .symbol,
    alternating 0x3F7 0x3F8, uniform 0x3F9 0x3FA .uppercaseLetter,
    uniform 0x3FB 0x3FC .lowercaseLetter, uniform 0x3FD 0x42F .uppercaseLetter,
    uniform 0x430 0x45F .lowercaseLetter, uniform 0x660 0x669 .decimalNumber,
    uniform 0x6F0 0x6F9 .decimalNumber ]

/-- General punctuation, letterlike symbols, number forms, mathematical operators. -/
def symbolRuns : List Run :=
  [ uniform 0x2000 0x200A .separator, uniform 0x200B 0x200F .format,
    uniform 0x2010 0x2027 .punctuation, uniform 0x2028 0x2029 .separator,
    uniform 0x202A 0x202E .format, uniform 0x202F 0x202F .separator,
    uniform 0x2030 0x203E .punctuation, uniform 0x203F 0x2040 .connector,
    uniform 0x2041 0x2043 .punctuation, uniform 0x2044 0x2044 .symbol,
    uniform 0x2045 0x2051 .punctuation, uniform 0x2052 0x2052 .symbol,
    uniform 0x2053 0x2053 .punctuation, uniform 0x2054 0x2054 .connector,
    uniform 0x2055 0x205E .punctuation, uniform 0x205F 0x205F .separator,
    uniform 0x2060 0x2064 .format, uniform 0x2065 0x2065 .unassigned,
    uniform 0x2066 0x206F .format, uniform 0x2100 0x2101 .symbol,
    uniform 0x2102 0x2102 .uppercaseLetter, uniform 0x2103 0x2106 .symbol,
    uniform 0x2107 0x2107 .uppercaseLetter, uniform 0x2108 0x2109 .symbol,
    uniform 0x210A 0x210A .lowercaseLetter, uniform 0x210B 0x210D .uppercaseLetter,
    uniform 0x210E 0x210F .lowercaseLetter, uniform 0x2110 0x2112 .uppercaseLetter,
    uniform 0x2113 0x2113 .lowercaseLetter, uniform 0x2114 0x2114 .symbol,
    uniform 0x2115 0x2115 .uppercaseLetter, uniform 0x2116 0x2118 .symbol,
    uniform 0x2119 0x211D .uppercaseLetter, uniform 0x211E 0x2123 .symbol,
    uniform 0x2124 0x2124 .uppercaseLetter, uniform 0x2125 0x2125 .symbol,
    uniform 0x2126 0x2126 .uppercaseLetter, uniform 0x2127 0x2127 .symbol,
    uniform 0x2128 0x2128 .uppercaseLetter, uniform 0x2129 0x2129 .symbol,
    uniform 0x212A 0x212D .uppercaseLetter, uniform 0x212E 0x212E .symbol,
    uniform 0x212F 0x212F .lowercaseLetter, uniform 0x2130 0x2133 .uppercaseLetter,
    uniform 0x2134 0x2134 .lowercaseLetter, uniform 0x2135 0x2138 .otherLetter,
    uniform 0x2139 0x2139 .lowercaseLetter, uniform 0x213A 0x213B .symbol,
    uniform 0x213C 0x213D .lowercaseLetter, uniform 0x213E 0x213F .uppercaseLetter,
    uniform 0x2140 0x2144 .symbol, uniform 0x2145 0x2145 .uppercaseLetter,
    uniform 0x2146 0x2149 .lowercaseLetter, uniform 0x214A 0x214D .symbol,
    uniform 0x214E 0x214E .lowercaseLetter, uniform 0x214F 0x214F .symbol,
    uniform 0x2150 0x215F .otherNumber, uniform 0x2160 0x2182 .letterNumber,
    alternating 0x2183 0x2184, uniform 0x2185 0x2188 .letterNumber,
    uniform 0x2189 0x2189 .otherNumber, uniform 0x218A 0x218B .symbol,
    uniform 0x218C 0x218F .unassigned, uniform 0x2200 0x22FF .symbol ]

/-- CJK symbols, kana, ideographs, Hangul, ligatures, full-width forms, pictographs. -/
def wideRuns : List Run :=
  [ uniform 0x3000 0x3000 .separator, uniform 0x3001 0x3003 .punctuation,
    uniform 0x3004 0x3004 .symbol, uniform 0x3005 0x3005 .modifierLetter,
    uniform 0x3006 0x3006 .otherLetter, uniform 0x3007 0x3007 .letterNumber,
    uniform 0x3008 0x3011 .punctuation, uniform 0x3012 0x3013 .symbol,
    uniform 0x3014 0x301F .punctuation, uniform 0x3020 0x3020 .symbol,
    uniform 0x3021 0x3029 .letterNumber, uniform 0x302A 0x302D .nonspacingMark,
    uniform 0x302E 0x302F .spacingMark, uniform 0x3030 0x3030 .punctuation,
    uniform 0x3031 0x3035 .modifierLetter, uniform 0x3036 0x3037 .symbol,
    uniform 0x3038 0x303A .letterNumber, uniform 0x303B 0x303B .modifierLetter,
    uniform 0x303C 0x303C .otherLetter, uniform 0x303D 0x303D .punctuation,
    uniform 0x303E 0x303F .symbol, uniform 0x3040 0x3040 .unassigned,
    uniform 0x3041 0x3096 .otherLetter, uniform 0x3097 0x3098 .unassigned,
    uniform 0x3099 0x309A .nonspacingMark, uniform 0x309B 0x309C .modifierSymbol,
    uniform 0x309D 0x309E .modifierLetter, uniform 0x309F 0x309F .otherLetter,
    uniform 0x30A0 0x30A0 .punctuation, uniform 0x30A1 0x30FA .otherLetter,
    uniform 0x30FB 0x30FB .punctuation, uniform 0x30FC 0x30FE .modifierLetter,
    uniform 0x30FF 0x30FF .otherLetter, uniform 0x4E00 0x9FFF .otherLetter,
    uniform 0xAC00 0xD7A3 .otherLetter, uniform 0xFB00 0xFB06 .lowercaseLetter,
    uniform 0xFEFF 0xFEFF .format, uniform 0xFF01 0xFF03 .punctuation,
    uniform 0xFF04 0xFF04 .symbol, uniform 0xFF05 0xFF0A .punctuation,
    uniform 0xFF0B 0xFF0B .symbol, uniform 0xFF0C 0xFF0F .punctuation,
    uniform 0xFF10 0xFF19 .decimalNumber, uniform 0xFF1A 0xFF1B .punctuation,
    uniform 0xFF1C 0xFF1E .symbol, uniform 0xFF1F 0xFF20 .punctuation,
    uniform 0xFF21 0xFF3A .uppercaseLetter, uniform 0xFF3B 0xFF3D .punctuation,
    uniform 0xFF3E 0xFF3E .modifierSymbol, uniform 0xFF3F 0xFF3F .connector,
    uniform 0xFF40 0xFF40 .modifierSymbol, uniform 0xFF41 0xFF5A .lowercaseLetter,
    uniform 0xFF5B 0xFF5B .punctuation, uniform 0xFF5C 0xFF5C .symbol,
    uniform 0xFF5D 0xFF5D .punctuation, uniform 0xFF5E 0xFF5E .symbol,
    uniform 0x1F300 0x1F3FA .symbol, uniform 0x1F3FB 0x1F3FF .modifierSymbol,
    uniform 0x1F400 0x1F64F .symbol ]

def runs : List Run :=
  latinRuns ++ greekRuns ++ symbolRuns ++ wideRuns

end Category

def category (char : Char) : Category :=
  match Category.runs.find? (·.covers char.toNat) with
  | some run => run.categoryAt char.toNat
  | none => .symbol

end LineGrammar.Text
