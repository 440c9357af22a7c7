import Bracemark.Token.Lexer

/-!
# Blocks

A block is a pair of matching braces with what stands between them. After a
keyword only blanks may come before the opening brace. Inside the block depth
is counted, so that nesting costs nothing.

A reader takes tokens from the front of a list and leaves the rest, also when
it fails.
-/

namespace Bracemark

/-- Why no block could be read. -/
inductive BlockProblem where
  | expected (keyword : Text) (found : Found)
  | unterminated (keyword : Text)
  deriving DecidableEq, Repr

/-- A problem with the offset that a message cites. -/
structure BlockFault where
  problem : BlockProblem
  offset : Nat
  deriving DecidableEq, Repr

/-- The place of a block: `start` is just past the opening brace, `stop` is the
offset of the closing one. -/
structure Block where
  start : Nat
  stop : Nat
  deriving DecidableEq, Repr

namespace Block

/-- The offset just past the closing brace. -/
def past (b : Block) : Nat := b.stop + 1

def interior (b : Block) (t : Text) : Text := t.slice b.start b.stop

end Block

/-- A reader of tokens: it takes some from the front and leaves the rest. -/
abbrev TokenReader (α : Type) := EStateM BlockFault (List Token) α

namespace Token

/-- The next token that is no blank, without taking it. -/
def peekSignificant (tokens : List Token) : Option Token :=
  (tokens.dropWhile fun t => t.kind = .blank).head?

def nextSignificant : List Token → Option Token × List Token
  | [] => (none, [])
  | t :: rest => if t.kind = .blank then nextSignificant rest else (some t, rest)

/-- Takes tokens through the closing brace of a block in which `depth` inner
blocks are open. -/
def closingBrace : Nat → List Token → Option Token × List Token
  | _, [] => (none, [])
  | depth, t :: rest =>
    match t.kind, depth with
    | .blockStart, _ => closingBrace (depth + 1) rest
    | .blockEnd, 0 => (some t, rest)
    | .blockEnd, inner + 1 => closingBrace inner rest
    | _, _ => closingBrace depth rest

/-- Takes the opening brace that must follow a keyword. -/
def expectBlock (keyword : Token) : TokenReader Token := fun tokens =>
  match nextSignificant tokens with
  | (none, rest) => .error ⟨.expected keyword.text .endOfInput, keyword.start⟩ rest
  | (some t, rest) =>
    if t.kind = .blockStart then .ok t rest
    else .error ⟨.expected keyword.text (.ofToken? (some t)), t.start⟩ rest

/-- Takes the block that must follow a keyword. -/
def readBlock (keyword : Token) : TokenReader Block := fun tokens =>
  match keyword.expectBlock tokens with
  | .error fault rest => .error fault rest
  | .ok opening rest =>
    match closingBrace 0 rest with
    | (some closing, after) => .ok ⟨opening.stop, closing.start⟩ after
    | (none, after) => .error ⟨.unterminated keyword.text, opening.start⟩ after

/-- Takes as many blocks after a keyword as asked for. -/
def readBlocks (keyword : Token) : Nat → TokenReader (List Block)
  | 0 => pure []
  | n + 1 => do
    let first ← keyword.readBlock
    let others ← keyword.readBlocks n
    return first :: others

end Token

end Bracemark
