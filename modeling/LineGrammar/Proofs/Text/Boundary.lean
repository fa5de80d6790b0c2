import LineGrammar.Text.Utf8

/-!
Character boundaries of a line. An offset is a boundary if rounding it down
does not change it, which means that the line falls into two parts there. A
line that is cut at several boundaries falls into the pieces between them, and
the pieces put together are the line again.
-/

namespace LineGrammar.Text

/-- Whether an offset lies between two characters, or at an end of the text. -/
def AtBoundary (text : List Char) (offset : Nat) : Prop := floorBoundary text offset = offset

instance (text : List Char) (offset : Nat) : Decidable (AtBoundary text offset) :=
  inferInstanceAs (Decidable (_ = _))

theorem takeBytes_add_append (left right : List Char) (budget : Nat) :
    takeBytes (byteLength left + budget) (left ++ right) = left ++ takeBytes budget right := by
  induction left with
  | nil => simp
  | cons char rest induction =>
      have fits : char.utf8Size ≤ char.utf8Size + byteLength rest + budget := by omega
      have remaining :
          char.utf8Size + byteLength rest + budget - char.utf8Size =
            byteLength rest + budget := by omega
      simp only [byteLength_cons, List.cons_append, takeBytes, if_pos fits, remaining, induction]

theorem at_boundary_append (left right : List Char) :
    AtBoundary (left ++ right) (byteLength left) := by
  unfold AtBoundary floorBoundary
  rw [takeBytes_byteLength_append]

theorem at_boundary_zero (text : List Char) : AtBoundary text 0 :=
  at_boundary_append [] text

theorem at_boundary_byteLength (text : List Char) : AtBoundary text (byteLength text) := by
  have whole := at_boundary_append text []
  rwa [List.append_nil] at whole

theorem at_boundary_floorBoundary (text : List Char) (offset : Nat) :
    AtBoundary text (floorBoundary text offset) := by
  have parts := at_boundary_append (takeBytes offset text) (dropBytes offset text)
  rwa [takeBytes_append_dropBytes] at parts

theorem AtBoundary.byteLength_takeBytes {text : List Char} {offset : Nat}
    (boundary : AtBoundary text offset) : byteLength (takeBytes offset text) = offset := boundary

theorem AtBoundary.le_byteLength {text : List Char} {offset : Nat}
    (boundary : AtBoundary text offset) : offset ≤ byteLength text := by
  have parts := congrArg byteLength (takeBytes_append_dropBytes offset text)
  rw [byteLength_append, boundary.byteLength_takeBytes] at parts
  omega

theorem AtBoundary.byteLength_dropBytes {text : List Char} {offset : Nat}
    (boundary : AtBoundary text offset) :
    offset + byteLength (dropBytes offset text) = byteLength text := by
  have parts := congrArg byteLength (takeBytes_append_dropBytes offset text)
  rwa [byteLength_append, boundary.byteLength_takeBytes] at parts

/-- What follows a boundary may be consumed by any number of characters, and
that leads to another boundary. -/
theorem AtBoundary.add {text consumed rest : List Char} {offset : Nat}
    (boundary : AtBoundary text offset) (split : dropBytes offset text = consumed ++ rest) :
    AtBoundary text (offset + byteLength consumed) := by
  have whole := takeBytes_append_dropBytes offset text
  rw [split, ← List.append_assoc] at whole
  have later := at_boundary_append (takeBytes offset text ++ consumed) rest
  rwa [whole, byteLength_append, boundary.byteLength_takeBytes] at later

theorem AtBoundary.takeBytes_eq_append {text : List Char} {start stop : Nat}
    (first : AtBoundary text start) (ordered : start ≤ stop) :
    takeBytes stop text = takeBytes start text ++ sliceBytes start stop text := by
  have same : byteLength (takeBytes start text) + (stop - start) = stop := by
    rw [first.byteLength_takeBytes]
    omega
  have longer := takeBytes_add_append (takeBytes start text) (dropBytes start text) (stop - start)
  rw [takeBytes_append_dropBytes, same] at longer
  have slice : sliceBytes start stop text = takeBytes (stop - start) (dropBytes start text) := by
    unfold sliceBytes
    rw [show floorBoundary text start = start from first]
  rw [slice]
  exact longer

theorem AtBoundary.sliceBytes_add {text consumed rest : List Char} {offset : Nat}
    (boundary : AtBoundary text offset) (split : dropBytes offset text = consumed ++ rest) :
    sliceBytes offset (offset + byteLength consumed) text = consumed := by
  unfold sliceBytes
  rw [show floorBoundary text offset = offset from boundary, Nat.add_sub_cancel_left, split]
  exact takeBytes_byteLength_append consumed rest

theorem AtBoundary.sliceBytes_self {text : List Char} {offset : Nat}
    (boundary : AtBoundary text offset) : sliceBytes offset offset text = [] := by
  have empty := boundary.sliceBytes_add (List.nil_append (dropBytes offset text)).symm
  simpa using empty

theorem AtBoundary.dropBytes_add {text consumed rest : List Char} {offset : Nat}
    (boundary : AtBoundary text offset) (split : dropBytes offset text = consumed ++ rest) :
    dropBytes (offset + byteLength consumed) text = rest := by
  have whole := takeBytes_append_dropBytes offset text
  rw [split, ← List.append_assoc] at whole
  have later := dropBytes_byteLength_append (takeBytes offset text ++ consumed) rest
  rwa [whole, byteLength_append, boundary.byteLength_takeBytes] at later

@[simp]
theorem dropBytes_zero (text : List Char) : dropBytes 0 text = text := by
  simpa using dropBytes_byteLength_append [] text

theorem AtBoundary.length_dropBytes_lt {text : List Char} {start stop : Nat}
    (first : AtBoundary text start) (second : AtBoundary text stop) (later : start < stop) :
    (dropBytes stop text).length < (dropBytes start text).length := by
  have upTo := first.takeBytes_eq_append (Nat.le_of_lt later)
  have whole := congrArg List.length (takeBytes_append_dropBytes start text)
  have whole' := congrArg List.length (takeBytes_append_dropBytes stop text)
  have bytes := second.byteLength_takeBytes
  rw [upTo, byteLength_append, first.byteLength_takeBytes] at bytes
  rw [upTo] at whole'
  simp only [List.length_append] at whole whole'
  cases piece : sliceBytes start stop text with
  | nil =>
      rw [piece, byteLength_nil] at bytes
      omega
  | cons char rest =>
      rw [piece, List.length_cons] at whole'
      omega

theorem floorBoundary_le (text : List Char) (offset : Nat) : floorBoundary text offset ≤ offset :=
  byteLength_takeBytes_le offset text

theorem AtBoundary.le_floorBoundary {text : List Char} {start offset : Nat}
    (boundary : AtBoundary text start) (ordered : start ≤ offset) :
    start ≤ floorBoundary text offset := by
  have parts := congrArg byteLength (boundary.takeBytes_eq_append ordered)
  rw [byteLength_append, boundary.byteLength_takeBytes] at parts
  unfold floorBoundary
  omega

theorem at_boundary_ceilBoundary (text : List Char) (offset : Nat) :
    AtBoundary text (ceilBoundary text offset) := by
  induction text generalizing offset with
  | nil => rfl
  | cons char rest induction =>
      rw [ceilBoundary]
      split
      · exact at_boundary_zero _
      · have inner := induction (offset - char.utf8Size)
        have whole := at_boundary_append
          (char :: takeBytes (ceilBoundary rest (offset - char.utf8Size)) rest)
          (dropBytes (ceilBoundary rest (offset - char.utf8Size)) rest)
        rwa [List.cons_append, takeBytes_append_dropBytes, byteLength_cons,
          inner.byteLength_takeBytes] at whole

theorem le_ceilBoundary {text : List Char} {offset : Nat} (inside : offset ≤ byteLength text) :
    offset ≤ ceilBoundary text offset := by
  induction text generalizing offset with
  | nil => exact inside
  | cons char rest induction =>
      rw [ceilBoundary]
      rw [byteLength_cons] at inside
      split
      · omega
      · have inner : offset - char.utf8Size ≤ ceilBoundary rest (offset - char.utf8Size) := by
          apply induction
          omega
        omega

theorem sliceBytes_zero (stop : Nat) (text : List Char) :
    sliceBytes 0 stop text = takeBytes stop text := by
  unfold sliceBytes
  rw [show floorBoundary text 0 = 0 from at_boundary_zero text, dropBytes_zero, Nat.sub_zero]

theorem AtBoundary.sliceBytes_byteLength {text : List Char} {offset : Nat}
    (boundary : AtBoundary text offset) :
    sliceBytes offset (byteLength text) text = dropBytes offset text := by
  have piece := boundary.sliceBytes_add (List.append_nil (dropBytes offset text)).symm
  rwa [boundary.byteLength_dropBytes] at piece

end LineGrammar.Text
