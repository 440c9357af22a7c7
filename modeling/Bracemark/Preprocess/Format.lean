import Bracemark.Phonetic.Sampa
import Bracemark.Preprocess.Run

/-!
# Inline formats

A format names its styles by one character each, applied from left to right.
Most styles put the text into an HTML element; `x` transcribes it from X-SAMPA.
A style named twice is applied once, and the second naming is a warning, or an
error in strict mode.
-/

namespace Bracemark

/-- What a character of a format asks for. -/
inductive Style where
  | element (name : String)
  | phonetic
  deriving DecidableEq, Repr

namespace Style

def ofSpecifier? : Char → Option Style
  | 'b' => some (.element "b")
  | 'i' => some (.element "i")
  | '_' => some (.element "sub")
  | '^' => some (.element "sup")
  | 's' => some (.element "s")
  | 'x' => some .phonetic
  | _ => none

def wrap (name : String) (t : Text) : Text :=
  ("<" ++ name ++ ">").toList ++ t ++ ("</" ++ name ++ ">").toList

/-- Applies a style. Transcription sees the characters and not their codes. -/
def apply (t : Text) : Style → Run Text
  | .element name => return wrap name t
  | .phonetic => do
    return Scheme.document.shield (Sampa.transcribe (← Run.deprotect .document t))

/-- A style named again: the one place where strict mode counts. -/
def repeated (ctx : Context) (line : Nat) (c : Char) : Run Unit :=
  if ctx.settings.strict then Run.complain ctx line (.redundantSpecifier c)
  else Run.warn ctx line (.redundantSpecifier c)

/-- Applies the styles that a format names, those seen before aside. -/
def applyAll (ctx : Context) (line : Nat) : (seen spec : Text) → Text → Run Text
  | _, [], t => return t
  | seen, c :: rest, t => do
    if seen.contains c then
      repeated ctx line c
      applyAll ctx line seen rest t
    else
      match ofSpecifier? c with
      | none => Run.complain ctx line (.invalidSpecifier c)
      | some style => do applyAll ctx line (c :: seen) rest (← style.apply t)

end Style

end Bracemark
