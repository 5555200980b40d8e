/-!
# Blank characters at the ends of a text

Two readings of "blank" are in use.  Around a number only characters with the white space property may
stand (`isWhiteSpace`); at the ends of a line the four information separators are blank as well
(`isBlank`).  `trimWith` takes characters of a class off both ends of a text.
-/

namespace Reckon.Text

/-- The code points with the white space property. -/
def whiteSpaces : List Nat :=
  [9, 10, 11, 12, 13, 32, 133, 160, 5760, 8192, 8193, 8194, 8195, 8196, 8197, 8198, 8199, 8200, 8201,
   8202, 8232, 8233, 8239, 8287, 12288]

/-- The code points of the information separators. -/
def separators : List Nat :=
  [28, 29, 30, 31]

/-- The character has the white space property. -/
def isWhiteSpace (c : Char) : Bool :=
  whiteSpaces.contains c.toNat

/-- The character is blank. -/
def isBlank (c : Char) : Bool :=
  isWhiteSpace c || separators.contains c.toNat

/-- The text without the characters of a class at its two ends. -/
def trimWith (p : Char → Bool) (cs : List Char) : List Char :=
  ((cs.dropWhile p).reverse.dropWhile p).reverse

/-- The text without the blanks at its two ends. -/
def trim (cs : List Char) : List Char :=
  trimWith isBlank cs

/-- Nothing but blanks, or nothing at all. -/
def allBlank (cs : List Char) : Bool :=
  cs.all isBlank

theorem dropWhile_isBlank_of_allBlank {cs : List Char} (h : allBlank cs = true) :
    cs.dropWhile isBlank = [] := by
  induction cs with
  | nil => rfl
  | cons c r ih =>
    simp only [allBlank, List.all_cons, Bool.and_eq_true] at h
    rw [List.dropWhile_cons_of_pos h.1]
    exact ih h.2

/-- Trimming a blank text leaves nothing. -/
theorem trim_of_allBlank {cs : List Char} (h : allBlank cs = true) : trim cs = [] := by
  simp [trim, trimWith, dropWhile_isBlank_of_allBlank h]

end Reckon.Text
