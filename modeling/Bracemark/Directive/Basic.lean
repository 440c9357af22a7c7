import Bracemark.Text.Basic

/-!
# Directives

The closed set of directives. Each one is a keyword behind a full stop followed
by one or two blocks, and belongs to one family. The families are resolved one
after the other, in the order of `Family.all`.
-/

namespace Bracemark

/-- Directives that are resolved together. -/
inductive Family where
  | macros
  | includes
  | tables
  | links
  | formats
  | codePoints
  | replacements
  deriving DecidableEq, Repr

namespace Family

/-- The families in the order of their stages. -/
def all : List Family :=
  [.macros, .includes, .tables, .links, .formats, .codePoints, .replacements]

/-- The name of a family in the reference and in the progress log. -/
def name : Family → String
  | .macros => "macro"
  | .includes => "include"
  | .tables => "table"
  | .links => "link"
  | .formats => "format"
  | .codePoints => "unicode"
  | .replacements => "replace"

/-- The name of the stage that resolves a family. -/
def stageName : Family → String
  | .macros => "macros_resolve"
  | .includes => "includes_resolve"
  | .tables => "tables_import"
  | .links => "links_resolve"
  | .formats => "formats_apply"
  | .codePoints => "unicodes_decode"
  | .replacements => "replacements_apply"

end Family

/-- What a document can ask of the preprocessing stages. -/
inductive Directive where
  | defineMacro
  | useMacro
  | includeFile
  | link
  | format
  | codePoint
  | replaceAll
  | importTable
  deriving DecidableEq, Repr

namespace Directive

def all : List Directive :=
  [.defineMacro, .useMacro, .includeFile, .link, .format, .codePoint, .replaceAll, .importTable]

def name : Directive → String
  | .defineMacro => "define_macro"
  | .useMacro => "macro"
  | .includeFile => "include"
  | .link => "link"
  | .format => "format"
  | .codePoint => "unicode"
  | .replaceAll => "replace_all"
  | .importTable => "import_table"

def keyword (d : Directive) : String := "." ++ d.name

def ofName? (word : Text) : Option Directive :=
  all.find? fun d => d.name.toList = word

def family : Directive → Family
  | .defineMacro | .useMacro => .macros
  | .includeFile => .includes
  | .importTable => .tables
  | .link => .links
  | .format => .formats
  | .codePoint => .codePoints
  | .replaceAll => .replacements

/-- The number of blocks that follow the keyword. -/
def arity : Directive → Nat
  | .defineMacro | .link | .format | .replaceAll => 2
  | .useMacro | .includeFile | .importTable | .codePoint => 1

/-- Whether a directive waits until no directive is left in its blocks. -/
def waits : Directive → Bool
  | .format => true
  | _ => false

end Directive

end Bracemark
