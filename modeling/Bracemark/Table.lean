import Bracemark.Escape.Chunk
import Bracemark.Escape.Piece
import Bracemark.Token.Lexer

/-!
# Tabular text

In a table file an ampersand ends an item and a dollar sign ends a row. Items
and rows become blocks of markup. A blank leftover before the end of a row or
of the text is no item, and a row at the end of the text counts only if it has
an item.
-/

namespace Bracemark

namespace Table

/-- Rows read so far, the items of the current row, and the current item. -/
structure Reading where
  rows : List (List Text) := []
  row : List Text := []
  item : Text := []

namespace Reading

/-- Whether an item holds anything but blanks. -/
def filled (item : Text) : Bool := !item.all isBlank

/-- The current row, with the current item unless that is blank. -/
def endRow (r : Reading) : List Text :=
  if filled r.item then r.row ++ [r.item] else r.row

def step (r : Reading) (lexeme : TokenKind × Text) : Reading :=
  match lexeme.1 with
  | .nextItem => { r with row := r.row ++ [r.item], item := [] }
  | .nextRow => { rows := r.rows ++ [r.endRow], row := [], item := [] }
  | _ => { r with item := r.item ++ lexeme.2 }

/-- All rows, with the last one if it has an item. -/
def finish (r : Reading) : List (List Text) :=
  if r.endRow.isEmpty then r.rows else r.rows ++ [r.endRow]

end Reading

/-- The rows of a tabular text and the items of each. -/
def rows (t : Text) : List (List Text) :=
  ((Lexer.table.lexemes t).foldl Reading.step {}).finish

def block (word : Kind) (interior : Text) : Text :=
  word.word.toList ++ '\x7b' :: interior ++ ['\x7d']

/-- The markup of rows, each item a paragraph. -/
def markup (rows : List (List Text)) : Text :=
  block .table (rows.flatMap fun row => block .row (row.flatMap (block .paragraph)))

/-- The markup of rows before the separators in its items are restored. -/
def protectedMarkup (t : Text) : Text :=
  markup (rows (Scheme.table.protect t))

/-- Turns tabular text into markup. A separator behind a backslash is text. -/
def convert (t : Text) : Text :=
  Text.collapse (Scheme.table.deprotect (protectedMarkup t))

end Table

end Bracemark
