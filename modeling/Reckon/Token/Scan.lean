import Reckon.Text.Letter
import Reckon.Token.Kind

/-!
# The token at the front of a text

`scan?` finds the token that a text starts with, as its kind and its characters: a numeral if the
text starts with a digit, a word if it starts with a letter or an underscore, otherwise the first
sign of `Kind.signs` that fits.  Only characters outside all three leave it without an answer.
-/

namespace Reckon.Token

/-- Characters between tokens that mean nothing. -/
def isSkipped (c : Char) : Bool :=
  c == ' ' || c == '\t' || c == '\r' || c == '\x0c' || c == '\x0b'

/-- The numeral at the front: digits, and if a point follows, the point and the digits after it. -/
def numeral (cs : List Char) : List Char :=
  cs.takeWhile Char.isDigit ++
    match cs.dropWhile Char.isDigit with
    | '.' :: r => '.' :: r.takeWhile Char.isDigit
    | _ => []

/-- The word at the front. -/
def word (cs : List Char) : List Char :=
  cs.takeWhile Text.isNamePart

/-- The words that are values. -/
def reservedWords : List (List Char) :=
  [['t', 'r', 'u', 'e'], ['f', 'a', 'l', 's', 'e']]

/-- The kind of a word. -/
def wordKind (w : List Char) : Kind :=
  if reservedWords.contains w then .reservedValue else .identifier

/-- The sign at the front. -/
def signAt? (cs : List Char) : Option (List Char × Kind) :=
  Kind.signs.find? fun s => s.1.isPrefixOf cs

/-- The token at the front of a text that does not start with a skipped character. -/
def scan? (cs : List Char) : Option (List Char × Kind) :=
  match cs with
  | [] => none
  | c :: _ =>
    if c.isDigit then some (numeral cs, .number)
    else if Text.isNameStart c then some (word cs, wordKind (word cs))
    else signAt? cs

/-! ## The lexeme stands at the front, and is not empty -/

theorem numeral_append (cs : List Char) : ∃ r, cs = numeral cs ++ r := by
  unfold numeral
  have h : cs.takeWhile Char.isDigit ++ cs.dropWhile Char.isDigit = cs :=
    List.takeWhile_append_dropWhile
  split
  · rename_i r heq
    refine ⟨r.dropWhile Char.isDigit, ?_⟩
    rw [List.append_assoc, List.cons_append, List.takeWhile_append_dropWhile, ← heq, h]
  · exact ⟨cs.dropWhile Char.isDigit, by rw [List.append_nil, h]⟩

theorem word_append (cs : List Char) : ∃ r, cs = word cs ++ r :=
  ⟨cs.dropWhile Text.isNamePart, List.takeWhile_append_dropWhile.symm⟩

theorem signAt?_append {cs l : List Char} {k : Kind} (h : signAt? cs = some (l, k)) :
    ∃ r, cs = l ++ r := by
  have := List.find?_some h
  obtain ⟨r, hr⟩ := List.isPrefixOf_iff_prefix.1 this
  exact ⟨r, hr.symm⟩

theorem signs_ne_nil : ∀ s ∈ Kind.signs, s.1 ≠ [] := by
  decide

/-- A scanned lexeme is what the text starts with. -/
theorem scan?_append {cs l : List Char} {k : Kind} (h : scan? cs = some (l, k)) :
    ∃ r, cs = l ++ r := by
  unfold scan? at h
  split at h
  · cases h
  · rename_i c r
    split at h
    · cases h
      exact numeral_append _
    · split at h
      · cases h
        exact word_append _
      · exact signAt?_append h

/-- A scanned lexeme has a character. -/
theorem scan?_ne_nil {cs l : List Char} {k : Kind} (h : scan? cs = some (l, k)) : l ≠ [] := by
  unfold scan? at h
  split at h
  · cases h
  · rename_i c r
    split at h
    · rename_i hd
      cases h
      simp [numeral, hd]
    · split at h
      · rename_i hs
        cases h
        simp [word, Text.isNamePart_of_isNameStart hs]
      · exact signs_ne_nil _ (List.mem_of_find?_eq_some h)

end Reckon.Token
