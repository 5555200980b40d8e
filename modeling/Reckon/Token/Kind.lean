import Reckon.Text.Quoted

/-!
# Kinds of token

A token is a numeral, a word, or one of a fixed list of signs.  The signs are tried in the order of
`Kind.signs`, in which each one that starts with another comes before it, so the first match is the
longest.
-/

namespace Reckon.Token

/-- The kinds of token. -/
inductive Kind where
  | number
  | identifier
  | reservedValue
  | and
  | or
  | notEqual
  | equal
  | lessEqual
  | greaterEqual
  | less
  | greater
  | bang
  | fatArrow
  | assign
  | plusAssign
  | minusAssign
  | starAssign
  | slashAssign
  | plus
  | minus
  | star
  | slash
  | caret
  | percent
  | ampersand
  | pipe
  | lparen
  | rparen
  | lbracket
  | rbracket
  | lbrace
  | rbrace
  | semicolon
  | comma
  | dot
  | colon
  | question
  | newline
  | eof
deriving Repr, DecidableEq, Inhabited

namespace Kind

/-- Every kind, in order. -/
def all : List Kind :=
  [number, identifier, reservedValue, and, or, notEqual, equal, lessEqual, greaterEqual, less,
   greater, bang, fatArrow, assign, plusAssign, minusAssign, starAssign, slashAssign, plus, minus,
   star, slash, caret, percent, ampersand, pipe, lparen, rparen, lbracket, rbracket, lbrace, rbrace,
   semicolon, comma, dot, colon, question, newline, eof]

/-- The list has every kind. -/
theorem mem_all (k : Kind) : k ∈ all := by
  cases k <;> decide

/-- The name under which a listing of tokens shows a kind. -/
def name : Kind → String
  | number => "NUMBER"
  | identifier => "IDENTIFIER"
  | reservedValue => "RESERVED_VALUE"
  | and => "AND"
  | or => "OR"
  | notEqual => "NOT_EQUAL"
  | equal => "EQUAL"
  | lessEqual => "LESS_EQUAL"
  | greaterEqual => "GREATER_EQUAL"
  | less => "LESS"
  | greater => "GREATER"
  | bang => "BANG"
  | fatArrow => "FAT_ARROW"
  | assign => "ASSIGN"
  | plusAssign => "PLUS_ASSIGN"
  | minusAssign => "MINUS_ASSIGN"
  | starAssign => "STAR_ASSIGN"
  | slashAssign => "SLASH_ASSIGN"
  | plus => "PLUS"
  | minus => "MINUS"
  | star => "STAR"
  | slash => "SLASH"
  | caret => "CARET"
  | percent => "PERCENT"
  | ampersand => "AMPERSAND"
  | pipe => "PIPE"
  | lparen => "LPAREN"
  | rparen => "RPAREN"
  | lbracket => "LBRACKET"
  | rbracket => "RBRACKET"
  | lbrace => "LBRACE"
  | rbrace => "RBRACE"
  | semicolon => "SEMICOLON"
  | comma => "COMMA"
  | dot => "DOT"
  | colon => "COLON"
  | question => "QUESTION"
  | newline => "NEWLINE"
  | eof => "EOF"

/-- The signs, in the order in which they are tried. -/
def signs : List (List Char × Kind) :=
  [(['&', '&'], and), (['|', '|'], or), (['!', '='], notEqual), (['=', '>'], fatArrow),
   (['=', '='], equal), (['<', '='], lessEqual), (['>', '='], greaterEqual),
   (['+', '='], plusAssign), (['-', '='], minusAssign), (['*', '='], starAssign),
   (['/', '='], slashAssign), (['!'], bang), (['+'], plus), (['-'], minus), (['*'], star),
   (['/'], slash), (['^'], caret), (['%'], percent), (['('], lparen), ([')'], rparen),
   (['['], lbracket), ([']'], rbracket), (['\x7b'], lbrace), (['\x7d'], rbrace), (['<'], less),
   (['>'], greater), ([';'], semicolon), ([','], comma), (['='], assign), (['|'], pipe),
   (['.'], dot), (['\n'], newline), (['&'], ampersand), ([':'], colon), (['?'], question)]

/-- The text of a sign. -/
def sign? (k : Kind) : Option (List Char) :=
  (signs.find? fun s => s.2 == k).map Prod.fst

/-- How a message calls a token of this kind. -/
def describe : Kind → String
  | number => "number"
  | identifier => "identifier"
  | reservedValue => "true/false"
  | newline => "newline"
  | eof => "end of input"
  | k => String.ofList (Text.quoteChars (k.sign?.getD []))

/-- Each sign that starts with another stands before it. -/
theorem signs_longest_first :
    signs.Pairwise fun s t => ¬ (s.1.isPrefixOf t.1 = true) := by
  decide

/-- No sign has two kinds and no kind two signs. -/
theorem signs_distinct : (signs.map Prod.fst).Nodup ∧ (signs.map Prod.snd).Nodup := by
  decide

end Kind

end Reckon.Token
