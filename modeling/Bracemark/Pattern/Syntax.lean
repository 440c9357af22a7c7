import Bracemark.Text.Case
import Bracemark.Text.Digit
import Bracemark.Text.Word

/-!
# Patterns

The syntax trees of patterns. Flags are settled when a pattern is read, so every
leaf says by itself how it compares letters and what it takes for a word
character. A leaf that takes one character is a `CharTest`, a leaf that takes
none an `Anchor`.

Codes are numbers and not characters, because a pattern can name a code point
that no text holds.
-/

namespace Bracemark

namespace Pattern

/-- How letters are compared: as written, or without regard to case among the
ASCII letters or among all letters. -/
inductive Folding where
  | exact
  | ascii
  | unicode
  deriving DecidableEq, Repr

namespace Folding

/-- The representative of a code point under a comparison. -/
def fold : Folding → Nat → Nat
  | .exact, n => n
  | .ascii, n => Case.lowerAscii n
  | .unicode, n => Case.lower n

/-- Whether a folded code point stands for the same letter as another one. -/
def agrees (f : Folding) (folded n : Nat) : Bool :=
  folded == f.fold n || (f = .unicode && (Case.siblings (f.fold n)).contains folded)

/-- Whether a code point has another spelling under a comparison, as far as its
own case mappings say. -/
def isCased : Folding → Nat → Bool
  | .exact, _ => false
  | .ascii, n => (0x41 ≤ n && n ≤ 0x5A) || (0x61 ≤ n && n ≤ 0x7A)
  | .unicode, n => Case.lower n != n || Case.upper n != n

/-- The code points that a folded one stands for. -/
def spellings : Folding → Nat → List Nat
  | .exact, n => [n]
  | .ascii, n => if 0x61 ≤ n && n ≤ 0x7A then [n, n - 0x20] else [n]
  | .unicode, n => (n :: Case.siblings n).flatMap Case.spellings

end Folding

/-- The kinds of character that have an escape of their own. -/
inductive Category where
  | digit
  | blank
  | word
  deriving DecidableEq, Repr

/-- A category or its complement, among the ASCII characters or among all. -/
structure ClassTest where
  category : Category
  ascii : Bool
  negated : Bool
  deriving DecidableEq, Repr

/-- Whether a character counts as part of a word. -/
def inWord (ascii : Bool) (c : Char) : Bool :=
  isWord c && (!ascii || c.toNat < 0x80)

namespace ClassTest

/-- Whether a character is of the category, or is not, if the test is negated. -/
def holds (t : ClassTest) (c : Char) : Bool :=
  (match t.category with
    | .digit => isDigit c && (!t.ascii || c.toNat < 0x80)
    | .blank => isBlank c && (!t.ascii || (c.toNat < 0x80 && !(0x1C ≤ c.toNat && c.toNat ≤ 0x1F)))
    | .word => inWord t.ascii c) != t.negated

end ClassTest

/-- One member of a set of characters. -/
inductive Member where
  | code (n : Nat)
  | range (low high : Nat)
  | category (t : ClassTest)
  deriving DecidableEq, Repr

namespace Member

/-- The last code point of the basic plane. Without regard to case, a member
beyond it is compared with the folded character as it is written. -/
def lastBasic : Nat := 0xFFFF

/-- Whether a set that holds this member accepts a character. -/
def holds (f : Folding) (c : Char) : Member → Bool
  | .code n =>
    if n ≤ lastBasic then f.agrees (f.fold c.toNat) n else f.fold c.toNat == n
  | .range low high =>
    let folded := f.fold c.toNat
    let within (n : Nat) : Bool := low ≤ n && n ≤ high
    (f.spellings folded).any (fun n => within n && n ≤ lastBasic)
      || (lastBasic < high && (within folded || (f ≠ .exact && within (Case.upper folded))))
  | .category t => t.holds c

/-- Whether a member has nothing to compare without regard to case. -/
def isCaseless (f : Folding) : Member → Bool
  | .code n => !f.isCased n
  | .range low high =>
    f = .exact || (high ≤ lastBasic
      && (List.range (high + 1 - low)).all fun i => !f.isCased (low + i))
  | .category _ => true

/-- The member with its category read in an alphabet. -/
def inAlphabet (ascii : Bool) : Member → Member
  | .category t => .category { t with ascii }
  | m => m

end Member

/-- A leaf that takes one character. -/
inductive CharTest where
  | any (lineFeeds : Bool)
  | code (n : Nat) (folding : Folding) (negated : Bool)
  | set (members : List Member) (folding : Folding) (negated : Bool)
  deriving DecidableEq, Repr

namespace CharTest

def accepts (c : Char) : CharTest → Bool
  | .any lineFeeds => lineFeeds || c ≠ '\n'
  | .code n f negated => f.agrees (f.fold c.toNat) n != negated
  | .set members f negated => members.any (·.holds f c) != negated

end CharTest

/-- A leaf that takes no character. -/
inductive Anchor where
  | textStart
  | lineStart
  | textEnd
  | lastLineEnd
  | lineEnd
  | boundary (ascii negated : Bool)
  deriving DecidableEq, Repr

/-- How a repetition is tried: as often as possible first, as seldom as possible
first, or as often as possible and never less. -/
inductive Manner where
  | greedy
  | lazy
  | possessive
  deriving DecidableEq, Repr

/-- Syntax trees of patterns. A group without a number only brackets its body. A
reference carries the least and greatest length of the group it repeats. -/
inductive Node where
  | empty
  | one (test : CharTest)
  | anchor (a : Anchor)
  | seq (first rest : Node)
  | either (first second : Node)
  | group (number : Option Nat) (body : Node)
  | reference (number : Nat) (folding : Folding) (shortest longest : Nat)
  | iterate (least : Nat) (most : Option Nat) (manner : Manner) (body : Node)
  | look (behind negated : Bool) (body : Node)
  | atomic (body : Node)
  | conditional (number : Nat) (present absent : Node)
  deriving DecidableEq, Repr

namespace Node

/-- A width that stands for any greater one. -/
def unlimited : Nat := 0x10000000000000000

/-- The least and the greatest number of characters that a node takes. -/
def width : Node → Nat × Nat
  | .empty | .anchor _ | .look .. => (0, 0)
  | .one _ => (1, 1)
  | .seq a b => (a.width.1 + b.width.1, a.width.2 + b.width.2)
  | .either a b => (min a.width.1 b.width.1, max a.width.2 b.width.2)
  | .group _ body => body.width
  | .reference _ _ shortest longest => (shortest, longest)
  | .iterate least most _ body =>
    (body.width.1 * least,
      match most with
      | some n => body.width.2 * n
      | none => if body.width.2 = 0 then 0 else unlimited)
  | .atomic body => body.width
  | .conditional _ a b => (min a.width.1 b.width.1, max a.width.2 b.width.2)

def items : Node → List Node
  | .empty => []
  | .seq first rest => first :: rest.items
  | other => [other]

def ofItems : List Node → Node
  | [] => .empty
  | [item] => item
  | item :: rest => .seq item (ofItems rest)

/-- The set with which a node begins, read in the alphabet of the whole pattern,
if a group of another alphabet encloses it. A set that compares letters without
regard to case is left alone. -/
def opening? (ascii : Bool) : Node → Option CharTest
  | .one (.set members f negated) =>
    let read := members.map (·.inAlphabet ascii)
    if read ≠ members && members.all (·.isCaseless f) then some (.set read .exact negated)
    else none
  | .seq first _ => first.opening? ascii
  | .group _ body => body.opening? ascii
  | _ => none

end Node

end Pattern

/-- A pattern that has been read: its tree, the number of its groups, their
names, and the text it was read from. A match is looked for only where the next
character passes `opening?`, if there is such a test. -/
structure Pattern where
  source : Text
  root : Pattern.Node
  groupCount : Nat
  names : List (Text × Nat)
  opening? : Option Pattern.CharTest := none
  deriving Repr

end Bracemark
