import LineGrammar.Text.Blank
import LineGrammar.Text.Numeral
import Mathlib.Data.List.TakeWhile

/-!
Counts in text. A count is written with digits, with a plus sign before them or
without, and there may be white space around it. What is read is the value of the
digits, if it has no more than 64 bits; a number in decimal is read as itself.
-/

namespace LineGrammar.Text

def Padded (body text : List Char) : Prop :=
  ∃ left right, text = left ++ body ++ right ∧
    (∀ char ∈ left, isWhite char = true) ∧ ∀ char ∈ right, isWhite char = true

def Numeral (text : List Char) (count : Nat) : Prop :=
  ∃ sign digits, (sign = [] ∨ sign = ['+']) ∧ digits ≠ [] ∧
    (∀ digit ∈ digits, digit.isDigit = true) ∧ text = sign ++ digits ∧
      count = Nat.ofDigitChars 10 digits 0 ∧ count ≤ maxCount

def Written (text : List Char) (count : Nat) : Prop :=
  ∃ body, Padded body text ∧ Numeral body count

theorem trimStart_split (text : List Char) :
    ∃ white, text = white ++ trimStart text ∧ ∀ char ∈ white, isWhite char = true := by
  refine ⟨text.takeWhile isWhite, List.takeWhile_append_dropWhile.symm, ?_⟩
  intro char member
  exact List.mem_takeWhile_imp member

theorem trimEnd_eq (text : List Char) : trimEnd text = (trimStart text.reverse).reverse := rfl

theorem trim_padded (text : List Char) : Padded (trim text) text := by
  rcases trimStart_split text with ⟨left, split, before⟩
  rcases trimStart_split (trimStart text).reverse with ⟨right, split', behind⟩
  have tail : trimStart text = trim text ++ right.reverse := by
    rw [trim, trimEnd_eq, ← List.reverse_append, ← split', List.reverse_reverse]
  refine ⟨left, right.reverse, ?_, before, ?_⟩
  · rw [List.append_assoc, ← tail]
    exact split
  · intro char member
    exact behind char (List.mem_reverse.mp member)

theorem trimStart_append {white body : List Char} (all : ∀ char ∈ white, isWhite char = true)
    (some : body ≠ []) (plain : ∀ char ∈ body, isWhite char = false) (rest : List Char) :
    trimStart (white ++ (body ++ rest)) = body ++ rest := by
  rw [trimStart, List.dropWhile_append_of_pos all]
  cases body with
  | nil => exact absurd rfl some
  | cons char body =>
      have first := plain char List.mem_cons_self
      rw [List.cons_append, List.dropWhile_cons_of_neg (by rw [first]; exact Bool.false_ne_true)]

theorem Padded.trim_eq {body text : List Char} (padded : Padded body text) (some : body ≠ [])
    (plain : ∀ char ∈ body, isWhite char = false) : trim text = body := by
  rcases padded with ⟨left, right, rfl, before, behind⟩
  have behind' : ∀ char ∈ right.reverse, isWhite char = true := by
    intro char member
    exact behind char (List.mem_reverse.mp member)
  have plain' : ∀ char ∈ body.reverse, isWhite char = false := by
    intro char member
    exact plain char (List.mem_reverse.mp member)
  have some' : body.reverse ≠ [] := List.reverse_ne_nil_iff.mpr some
  have back := trimStart_append behind' some' plain' []
  rw [List.append_nil] at back
  rw [trim, List.append_assoc, trimStart_append before some plain, trimEnd_eq, List.reverse_append,
    back, List.reverse_reverse]

theorem padded_self (text : List Char) : Padded text text :=
  ⟨[], [], (List.append_nil text).symm, nofun, nofun⟩

theorem trim_of_plain {text : List Char} (plain : ∀ char ∈ text, isWhite char = false) :
    trim text = text := by
  cases text with
  | nil => rfl
  | cons char rest => exact (padded_self (char :: rest)).trim_eq (List.cons_ne_nil char rest) plain

theorem isWhite_of_isDigit {char : Char} (digit : char.isDigit = true) : isWhite char = false := by
  have bounds : 48 ≤ char.toNat ∧ char.toNat ≤ 57 := by
    simpa [Char.isDigit, UInt32.le_iff_toNat_le] using digit
  simp only [isWhite, Bool.or_eq_false_iff, Bool.and_eq_false_iff, decide_eq_false_iff_not,
    beq_eq_false_iff_ne]
  omega

theorem digitsValue_eq (value : Nat) (text : List Char) :
    digitsValue value text = Nat.ofDigitChars 10 text value := by
  induction text generalizing value with
  | nil => rfl
  | cons digit rest induction =>
      rw [Nat.ofDigitChars_cons, Nat.mul_comm]
      exact induction (value * 10 + (digit.toNat - '0'.toNat))

theorem natural?_eq_some_iff (text : List Char) (value : Nat) :
    natural? text = some value ↔
      text ≠ [] ∧ (∀ digit ∈ text, digit.isDigit = true) ∧ value = Nat.ofDigitChars 10 text 0 := by
  unfold natural?
  split
  · rename_i digits
    simp only [Bool.and_eq_true, Bool.not_eq_true', List.isEmpty_eq_false_iff,
      List.all_eq_true] at digits
    rw [Option.some.injEq, digitsValue_eq, eq_comm]
    exact ⟨fun same => ⟨digits.1, digits.2, same⟩, fun given => given.2.2⟩
  · rename_i other
    constructor
    · exact nofun
    · rintro ⟨some, digits, _⟩
      apply absurd _ other
      rw [Bool.and_eq_true, Bool.not_eq_true', List.isEmpty_eq_false_iff, List.all_eq_true]
      exact ⟨some, digits⟩

theorem count?_eq_some_iff (text : List Char) (count : Nat) :
    count? text = some count ↔ Numeral text count := by
  simp only [count?, Option.filter_eq_some_iff, natural?_eq_some_iff, decide_eq_true_eq]
  constructor
  · split
    · rename_i rest
      rintro ⟨⟨some, digits, value⟩, fits⟩
      exact ⟨['+'], rest, .inr rfl, some, digits, rfl, value, fits⟩
    · rintro ⟨⟨some, digits, value⟩, fits⟩
      exact ⟨[], text, .inl rfl, some, digits, rfl, value, fits⟩
  · rintro ⟨sign, digits, rfl | rfl, some, all, rfl, value, fits⟩
    -- Without a sign the text begins with a digit, so nothing is taken off it.
    · split
      · exact absurd (all '+' List.mem_cons_self) (by decide)
      · exact ⟨⟨some, all, value⟩, fits⟩
    · exact ⟨⟨some, all, value⟩, fits⟩

variable {text : List Char} {count : Nat}

theorem Numeral.mem (numeral : Numeral text count) :
    ∀ char ∈ text, char = '+' ∨ char.isDigit = true := by
  rcases numeral with ⟨sign, digits, signs, _, all, rfl, _⟩
  intro char member
  rcases List.mem_append.mp member with inSign | inDigits
  · rcases signs with rfl | rfl
    · cases inSign
    · exact .inl (List.mem_singleton.mp inSign)
  · exact .inr (all char inDigits)

theorem Numeral.getLast? (numeral : Numeral text count) :
    ∃ last, text.getLast? = some last ∧ last.isDigit = true := by
  rcases numeral with ⟨sign, digits, _, some, all, rfl, _⟩
  refine ⟨digits.getLast some, ?_, all _ (List.getLast_mem some)⟩
  rw [List.getLast?_append, List.getLast?_eq_some_getLast some, Option.some_or]

theorem Numeral.isWhite_eq_false (numeral : Numeral text count) :
    ∀ char ∈ text, isWhite char = false := by
  intro char member
  rcases numeral.mem char member with rfl | digit
  · decide
  · exact isWhite_of_isDigit digit

theorem Numeral.ne_nil (numeral : Numeral text count) : text ≠ [] := by
  rintro rfl
  rcases numeral.getLast? with ⟨last, given, _⟩
  cases given

theorem count?_trim_eq_some_iff (text : List Char) (count : Nat) :
    count? (trim text) = some count ↔ Written text count := by
  rw [count?_eq_some_iff]
  constructor
  · intro numeral
    exact ⟨trim text, trim_padded text, numeral⟩
  · rintro ⟨body, padded, numeral⟩
    rwa [padded.trim_eq numeral.ne_nil numeral.isWhite_eq_false]

theorem Written.mem (written : Written text count) :
    ∀ char ∈ text, isWhite char = true ∨ char = '+' ∨ char.isDigit = true := by
  rcases written with ⟨body, ⟨left, right, rfl, before, behind⟩, numeral⟩
  intro char member
  rcases List.mem_append.mp member with member | inRight
  · rcases List.mem_append.mp member with inLeft | inBody
    · exact .inl (before char inLeft)
    · exact .inr (numeral.mem char inBody)
  · exact .inl (behind char inRight)

/-- What is written ends in white space or in a digit, never in a plus sign. -/
theorem Written.getLast? (written : Written text count) :
    ∃ last, text.getLast? = some last ∧ (isWhite last = true ∨ last.isDigit = true) := by
  rcases written with ⟨body, ⟨left, right, rfl, _, behind⟩, numeral⟩
  rw [List.getLast?_append, List.getLast?_append]
  cases ends : right.getLast? with
  | some last => exact ⟨last, rfl, .inl (behind last (List.mem_of_getLast? ends))⟩
  | none =>
      rcases numeral.getLast? with ⟨last, given, digit⟩
      exact ⟨last, by rw [given]; rfl, .inr digit⟩

theorem Written.le (written : Written text count) : count ≤ maxCount := by
  rcases written with ⟨_, _, _, _, _, _, _, _, _, fits⟩
  exact fits

theorem isDigit_of_mem_toString {digit : Char} (number : Nat)
    (member : digit ∈ (toString number).toList) : digit.isDigit = true := by
  have decimal : (toString number).toList = Nat.toDigits 10 number := Nat.toList_repr
  rw [decimal] at member
  exact Nat.isDigit_of_mem_toDigits (by decide) (by decide) member

theorem not_mem_toString {char : Char} (other : char.isDigit = false) (number : Nat) :
    char ∉ (toString number).toList := by
  intro member
  rw [isDigit_of_mem_toString number member] at other
  cases other

theorem numeral_toString (fits : count ≤ maxCount) : Numeral (toString count).toList count := by
  have decimal : (toString count).toList = Nat.toDigits 10 count := Nat.toList_repr
  refine ⟨[], Nat.toDigits 10 count, .inl rfl, Nat.toDigits_ne_nil, ?_, decimal, ?_, fits⟩
  · intro digit member
    exact isDigit_of_mem_toString count (decimal ▸ member)
  · exact Nat.ofDigitChars_ten_toDigits.symm

theorem Numeral.written (numeral : Numeral text count) : Written text count :=
  ⟨text, padded_self text, numeral⟩

end LineGrammar.Text
