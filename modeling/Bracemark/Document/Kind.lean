import Bracemark.Text.Basic

/-!
# Kinds of document nodes

A document is a tree of a few kinds of node. Every kind but the root has a word
that opens it in markup. Leaves carry text; the other kinds hold children, and
`accepts` says which.
-/

namespace Bracemark

/-- The kinds of node in a document tree. -/
inductive Kind where
  | root
  | contents
  | chapter
  | sectionTitle
  | subsectionTitle
  | paragraph
  | bulletList
  | numberedList
  | table
  | row
  deriving DecidableEq, Repr

namespace Kind

/-- The kinds that have a word of their own. -/
def tagged : List Kind :=
  [.contents, .chapter, .sectionTitle, .subsectionTitle, .paragraph, .bulletList,
    .numberedList, .table, .row]

/-- The word that opens a node of this kind. -/
def word : Kind → String
  | .root => ""
  | .contents => "main"
  | .chapter => "chapter"
  | .sectionTitle => "section"
  | .subsectionTitle => "subsection"
  | .paragraph => "text"
  | .bulletList => "list"
  | .numberedList => "ordered_list"
  | .table => "table"
  | .row => "row"

def ofWord? (w : Text) : Option Kind :=
  tagged.find? fun k => k.word.toList = w

/-- Leaves carry text and take no children from markup. -/
def isLeaf : Kind → Bool
  | .chapter | .sectionTitle | .subsectionTitle | .paragraph => true
  | _ => false

/-- Kinds whose children are each put into an item of their own. -/
def boxes : Kind → Bool
  | .bulletList | .numberedList | .row => true
  | _ => false

/-- The kinds that stand in running contents. -/
def isItem : Kind → Bool
  | .chapter | .sectionTitle | .subsectionTitle | .paragraph
  | .bulletList | .numberedList | .table => true
  | _ => false

/-- Whether markup may put a `child` into a node of this kind. -/
def accepts (parent child : Kind) : Bool :=
  match parent with
  | .root => child = .contents
  | .contents | .bulletList | .numberedList | .row => child.isItem
  | .table => child = .row
  | _ => false

/-- The words of the accepted kinds, in alphabetical order. -/
def acceptedWords (parent : Kind) : List String :=
  ([.chapter, .bulletList, .contents, .numberedList, .row, .sectionTitle, .subsectionTitle,
    .table, .paragraph].filter parent.accepts).map word

end Kind

end Bracemark
