import LineGrammar.Text.Property

/-!
White space around and between words.
-/

namespace LineGrammar.Text

def trimStart (text : List Char) : List Char := text.dropWhile isWhite

def trimEnd (text : List Char) : List Char := (text.reverse.dropWhile isWhite).reverse

def trim (text : List Char) : List Char := trimEnd (trimStart text)

def indentOf (text : List Char) : List Char := text.takeWhile isWhite

def trailingOf (text : List Char) : List Char := (text.reverse.takeWhile isWhite).reverse

/-- Splits off one word at a time; `word` is what has been read of the current one. -/
def wordsFrom (word : List Char) : List Char → List (List Char)
  | [] => if word.isEmpty then [] else [word]
  | char :: rest =>
      if isWhite char then
        if word.isEmpty then wordsFrom [] rest else word :: wordsFrom [] rest
      else wordsFrom (word ++ [char]) rest

def words (text : List Char) : List (List Char) := wordsFrom [] text

end LineGrammar.Text
