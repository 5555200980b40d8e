/-!
# Terminal styles

A style sequence is `ESC [`, then digits, semicolons and question marks, then a letter.
`dropStyles` takes all of them out of a text, which is what a destination that is not a terminal
is given.
-/

namespace Reckon.Text

/-- A character between the bracket and the letter of a style sequence. -/
def isStyleParameter (c : Char) : Bool :=
  c == ';' || c == '?' || c.isDigit

/-- What follows a style sequence whose `ESC [` has been read, if it is one. -/
def afterStyle? (cs : List Char) : Option (List Char) :=
  match cs.dropWhile isStyleParameter with
  | c :: r => if c.isAlpha then some r else none
  | [] => none

theorem afterStyle?_length {cs r : List Char} (h : afterStyle? cs = some r) :
    r.length < cs.length := by
  have hd : (cs.dropWhile isStyleParameter).length ≤ cs.length :=
    (List.dropWhile_sublist _).length_le
  unfold afterStyle? at h
  split at h
  · rename_i c r' heq
    split at h
    · cases h
      rw [heq, List.length_cons] at hd
      omega
    · cases h
  · cases h

/-- The text without its style sequences. -/
def dropStyles : List Char → List Char
  | [] => []
  | '\x1b' :: '[' :: r =>
    match _h : afterStyle? r with
    | some rest => dropStyles rest
    | none => '\x1b' :: '[' :: dropStyles r
  | c :: r => c :: dropStyles r
termination_by cs => cs.length
decreasing_by
  · have := afterStyle?_length _h
    simp only [List.length_cons]
    omega
  · simp only [List.length_cons]
    omega
  · simp only [List.length_cons]
    omega

end Reckon.Text
