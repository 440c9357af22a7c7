import Bracemark.Text.Segment
import Bracemark.Text.Blank
import Bracemark.Text.Word
import Bracemark.Token.Basic

/-!
# Scanners

Three vocabularies: directives and braces, tags and braces, and the separators
of tabular text. Each scanner looks at the first character of what is left and
says what the next lexeme is and how many more characters it has. A keyword is
a whole word: a maximal run of word characters that equals its name.
-/

namespace Bracemark

/-- A scanner: the kind of the lexeme that begins with a character, and the
number of the following characters that belong to it. -/
abbrev Lexer := Char → Text → TokenKind × Nat

namespace Lexer

/-- A character that neither begins a directive nor is a brace or a blank. -/
def isPlain (c : Char) : Bool :=
  !(isBlank c || c = '\x7b' || c = '\x7d' || c = '.')

/-- A character between words that is neither a brace nor a blank. -/
def isMark (c : Char) : Bool :=
  !(isBlank c || isWord c || c = '\x7b' || c = '\x7d')

/-- The vocabulary of the preprocessing stages. -/
def directive : Lexer := fun c rest =>
  if isBlank c then (.blank, (rest.takeWhile isBlank).length)
  else if c = '\x7b' then (.blockStart, 0)
  else if c = '\x7d' then (.blockEnd, 0)
  else if c = '.' then
    match Directive.ofName? (rest.takeWhile isWord) with
    | some d => (.directive d, d.name.length)
    | none => (.other, 0)
  else (.other, (rest.takeWhile isPlain).length)

def document : Lexer := fun c rest =>
  if isBlank c then (.blank, (rest.takeWhile isBlank).length)
  else if c = '\x7b' then (.blockStart, 0)
  else if c = '\x7d' then (.blockEnd, 0)
  else if isWord c then
    let more := rest.takeWhile isWord
    match Kind.ofWord? (c :: more) with
    | some k => (.tag k, more.length)
    | none => (.other, more.length)
  else (.other, (rest.takeWhile isMark).length)

def table : Lexer := fun c rest =>
  if c = '&' then (.nextItem, 0)
  else if c = '$' then (.nextRow, 0)
  else (.other, (rest.takeWhile fun d => !(d = '&' || d = '$')).length)

def lexemes (lexer : Lexer) (t : Text) : List (TokenKind × Text) :=
  segment (fun c rest =>
    let (kind, more) := lexer c rest
    ((kind, c :: rest.take more), more)) 0 t

def tokens (lexer : Lexer) (t : Text) : List Token :=
  Token.placeFrom 0 (lexer.lexemes t)

end Lexer

namespace Token

/-- The directive whose keyword a token is. -/
def directive? (t : Token) : Option Directive :=
  match t.kind with
  | .directive d => some d
  | _ => none

end Token

/-- Whether a text holds the keyword of any directive. -/
def Text.hasDirective (t : Text) : Bool :=
  (Lexer.directive.tokens t).any fun token => token.directive?.isSome

end Bracemark
