import Bracemark.Directive.Basic
import Bracemark.Document.Kind

/-!
# Tokens

A scanner cuts a text into lexemes; a token is a lexeme with its place in the
text. Blanks and anything without a meaning of its own are tokens too, so the
tokens of a text spell the whole text.
-/

namespace Bracemark

/-- What a lexeme is. -/
inductive TokenKind where
  | directive (d : Directive)
  | tag (k : Kind)
  | blockStart
  | blockEnd
  | nextItem
  | nextRow
  | blank
  | other
  deriving DecidableEq, Repr

/-- A lexeme located in a text. -/
structure Token where
  kind : TokenKind
  start : Nat
  text : Text
  deriving DecidableEq, Repr

namespace Token

def stop (t : Token) : Nat := t.start + t.text.length

/-- Places lexemes one after the other from an offset on. -/
def placeFrom : Nat → List (TokenKind × Text) → List Token
  | _, [] => []
  | start, (kind, text) :: rest => ⟨kind, start, text⟩ :: placeFrom (start + text.length) rest

end Token

/-- What a message says was found in place of an expected token. -/
inductive Found where
  | endOfInput
  | blockStart
  | blockEnd
  | word (text : Text)
  deriving DecidableEq, Repr

namespace Found

/-- How a message calls a token, or the end of the text. -/
def ofToken? : Option Token → Found
  | none => .endOfInput
  | some t => match t.kind with
    | .blockStart => .blockStart
    | .blockEnd => .blockEnd
    | _ => .word t.text

def describe : Found → String
  | .endOfInput => "end of input"
  | .blockStart => "block start"
  | .blockEnd => "block end"
  | .word t => "'" ++ String.ofList t ++ "'"

end Found

end Bracemark
