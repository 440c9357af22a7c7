import Bracemark.Directive.Basic
import Bracemark.Diagnostic

/-!
# The directive reference

A registry lists the directives that are handled. The complete one handles every
directive; a registry from which some were taken can say which are missing. The
reference shows the directives family by family.
-/

namespace Bracemark

namespace Directive

def description : Directive → String
  | .defineMacro => "Define (or redefine) a text macro"
  | .useMacro => "Substitute a previously defined macro"
  | .includeFile => "Include another file verbatim"
  | .importTable => "Import a '&'/'$' separated text table as table markup"
  | .link => "Hyperlink"
  | .format => "Bold/italic/sub/sup/strike styling and phonetic transcription"
  | .codePoint => "Insert a character by hexadecimal codepoint"
  | .replaceAll => "Regex substitution over the rest of the document"

def examples : Directive → List String
  | .defineMacro => [".define_macro\x7bgreet\x7d\x7bHello\x7d"]
  | .useMacro => [".macro\x7bgreet\x7d"]
  | .includeFile => [".include\x7bchapters/intro.vvsml\x7d"]
  | .importTable => [".import_table\x7bdata/results.vvtab\x7d"]
  | .link => [".link\x7bhome page\x7d\x7bhttps://example.org\x7d"]
  | .format => [".format\x7bbi\x7d\x7bimportant\x7d", ".format\x7bx\x7d\x7bh@\"loU\x7d"]
  | .codePoint => [".unicode\x7b3B1\x7d"]
  | .replaceAll => [".replace_all\x7bcolour\x7d\x7bcolor\x7d"]

end Directive

/-- The directives that are handled, in the order in which they were added. -/
abbrev Registry := List Directive

namespace Registry

def complete : Registry :=
  [.defineMacro, .useMacro, .includeFile, .importTable, .link, .format, .codePoint, .replaceAll]

def without (r : Registry) (removed : List Directive) : Registry :=
  r.filter fun d => !removed.contains d

def ofFamily (r : Registry) (f : Family) : List Directive := r.filter (·.family = f)

/-- Refuses a registry that leaves a directive unhandled. -/
def check (r : Registry) : Except Failure Unit :=
  match Directive.all.filter fun d => !r.contains d with
  | [] => .ok ()
  | missing => .error (.unhandled (missing.map Directive.keyword))

def directiveLines (d : Directive) : List String :=
  ("  " ++ d.keyword ++ " (" ++ toString d.arity ++ " args)  " ++ d.description)
    :: d.examples.map ("      " ++ ·)

def reference (r : Registry) : String :=
  "\n".intercalate (Family.all.flatMap fun f =>
    f.name :: (r.ofFamily f).flatMap directiveLines)

end Registry

end Bracemark
