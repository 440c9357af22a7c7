import Bracemark.Pattern.Read
import Bracemark.Pattern.Template
import Bracemark.Text.Segment

/-!
# Transcriptions

A transcription is a list of replacements, each applied to the whole text before
the next one. In the built-in tables the replaced text is literal; a custom
transcription replaces the matches of patterns.
-/

namespace Bracemark

/-- A literal replacement: every occurrence of `sign` becomes `sound`. -/
structure Rule where
  sign : String
  sound : String
  deriving DecidableEq, Repr

namespace Rule

/-- Replaces the occurrences of a text from left to right; none of them overlap. -/
def replace (sign sound : Text) (t : Text) : Text :=
  (segment (fun c rest =>
    if sign.isPrefixOf (c :: rest) then (sound, sign.length - 1) else ([c], 0)) 0 t).flatten

def apply (t : Text) (r : Rule) : Text := replace r.sign.toList r.sound.toList t

def applyAll (rules : List Rule) (t : Text) : Text := rules.foldl apply t

end Rule

/-- A named list of patterns with the templates that replace their matches. -/
structure Transcription where
  name : String
  pairs : List (Pattern × Text)

namespace Transcription

/-- Reads the patterns of a transcription, the first refused one is the error. -/
def ofPairs (name : String) (pairs : List (Text × Text)) :
    Except Pattern.Error Transcription := do
  let pairs ← pairs.mapM fun (source, template) => do
    return ((← Pattern.ofText source), template)
  return { name, pairs }

/-- Replaces the matches of every pattern, one pattern after the other. -/
def transcribe (tr : Transcription) (t : Text) : Except Pattern.Error Text :=
  tr.pairs.foldlM (fun text (pattern, template) => pattern.replaceAll template text) t

/-- How a transcription with so many replacements presents itself. -/
def describe (name : String) (pairs : Nat) : String :=
  "Transcription(name='" ++ name ++ "', pairs=" ++ toString pairs ++ ")"

end Transcription

end Bracemark
