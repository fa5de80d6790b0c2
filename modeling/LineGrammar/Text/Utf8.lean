/-!
Byte offsets into a line of characters. A line is kept as the list of its
characters, while its columns count bytes of the UTF-8 encoding, so a column
may point into the middle of a character. Cutting a line at a column keeps
only whole characters: `takeBytes` rounds the column down to the nearest
character boundary and `dropBytes` is what `takeBytes` leaves.
-/

namespace LineGrammar.Text

def byteLength : List Char → Nat
  | [] => 0
  | char :: rest => char.utf8Size + byteLength rest

/-- The longest run of leading characters that fits into `budget` bytes. -/
def takeBytes (budget : Nat) : List Char → List Char
  | [] => []
  | char :: rest =>
      if char.utf8Size ≤ budget then char :: takeBytes (budget - char.utf8Size) rest else []

def dropBytes (budget : Nat) : List Char → List Char
  | [] => []
  | char :: rest =>
      if char.utf8Size ≤ budget then dropBytes (budget - char.utf8Size) rest else char :: rest

/-- The last character boundary at or before `offset`. -/
def floorBoundary (text : List Char) (offset : Nat) : Nat :=
  byteLength (takeBytes offset text)

/-- The first character boundary at or after `offset`, or the end of the text. -/
def ceilBoundary : List Char → Nat → Nat
  | [], _ => 0
  | char :: rest, offset =>
      if offset = 0 then 0 else char.utf8Size + ceilBoundary rest (offset - char.utf8Size)

/-- The characters between two byte offsets, both rounded down to a boundary. -/
def sliceBytes (start stop : Nat) (text : List Char) : List Char :=
  takeBytes (stop - floorBoundary text start) (dropBytes start text)

@[simp]
theorem byteLength_nil : byteLength [] = 0 := rfl

@[simp]
theorem byteLength_cons (char : Char) (rest : List Char) :
    byteLength (char :: rest) = char.utf8Size + byteLength rest := rfl

@[simp]
theorem byteLength_append (left right : List Char) :
    byteLength (left ++ right) = byteLength left + byteLength right := by
  induction left with
  | nil => simp
  | cons char rest induction => simp [induction, Nat.add_assoc]

theorem takeBytes_append_dropBytes (budget : Nat) (text : List Char) :
    takeBytes budget text ++ dropBytes budget text = text := by
  induction text generalizing budget with
  | nil => rfl
  | cons char rest induction =>
      by_cases fits : char.utf8Size ≤ budget
      · simp [takeBytes, dropBytes, fits, induction]
      · simp [takeBytes, dropBytes, fits]

theorem byteLength_takeBytes_le (budget : Nat) (text : List Char) :
    byteLength (takeBytes budget text) ≤ budget := by
  induction text generalizing budget with
  | nil => simp [takeBytes]
  | cons char rest induction =>
      by_cases fits : char.utf8Size ≤ budget
      · have bound := induction (budget - char.utf8Size)
        simp only [takeBytes, fits, if_true, byteLength_cons]
        omega
      · simp [takeBytes, fits]

theorem takeBytes_byteLength_append (left right : List Char) :
    takeBytes (byteLength left) (left ++ right) = left := by
  induction left with
  | nil =>
      cases right with
      | nil => rfl
      | cons char rest =>
          have positive := char.utf8Size_pos
          simp [takeBytes, Nat.not_le.mpr positive]
  | cons char rest induction => simp [takeBytes, induction]

theorem dropBytes_byteLength_append (left right : List Char) :
    dropBytes (byteLength left) (left ++ right) = right := by
  have whole := takeBytes_append_dropBytes (byteLength left) (left ++ right)
  rw [takeBytes_byteLength_append] at whole
  exact List.append_cancel_left whole

end LineGrammar.Text
