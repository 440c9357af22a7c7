import Bracemark.Pattern.Syntax

/-!
# Matching

A node is matched at a place of the subject by handing every place where it can
end to a continuation, in order of preference; the first success counts. The
recursion is on the tree. A loop over a node takes the node's matcher as an
argument and is bounded by the text that is left: beyond its least number of
rounds, a loop begins no further round at the place where its last one began.

`Pattern.allMatches` lists the matches of a whole subject from left to right. A
match may be empty, but not at the end of an empty match before it.
-/

namespace Bracemark

namespace Pattern

/-- A place in the subject: the text before it, latest character first, the
text after it, its offset, and the marks set so far. A group has two marks, its
start and its end; marks come latest first. -/
structure Place where
  before : Text
  after : Text
  offset : Nat
  marks : List (Nat × Nat) := []
  deriving DecidableEq, Repr

namespace Place

def start (subject : Text) : Place := { before := [], after := subject, offset := 0 }

/-- One character further, if there is one. -/
def forward? (p : Place) : Option (Char × Place) :=
  match p.after with
  | [] => none
  | c :: rest => some (c, { p with before := c :: p.before, after := rest, offset := p.offset + 1 })

/-- So many characters back, if there are that many. -/
def back? (p : Place) : Nat → Option Place
  | 0 => some p
  | n + 1 => match p.before with
    | [] => none
    | c :: rest =>
      { p with before := rest, after := c :: p.after, offset := p.offset - 1 }.back? n

def mark (p : Place) (index : Nat) : Place :=
  { p with marks := (index, p.offset) :: p.marks }

def startMark (group : Nat) : Nat := 2 * group

def endMark (group : Nat) : Nat := 2 * group + 1

/-- The span of a group that has taken part. -/
def span? (marks : List (Nat × Nat)) (group : Nat) : Option (Nat × Nat) :=
  match marks.lookup (startMark group), marks.lookup (endMark group) with
  | some start, some stop => if start ≤ stop then some (start, stop) else none
  | _, _ => none

/-- Takes characters that equal given ones under a comparison. -/
def takeText (f : Folding) : Text → Place → Option Place
  | [], p => some p
  | c :: rest, p => match p.forward? with
    | some (d, q) => if f.fold c.toNat = f.fold d.toNat then takeText f rest q else none
    | none => none

end Place

namespace Anchor

/-- Whether an anchor holds at a place. No word boundary is in an empty
subject, and neither is the lack of one. -/
def holds (p : Place) : Anchor → Bool
  | .textStart => p.before.isEmpty
  | .lineStart => p.before.isEmpty || p.before.head? = some '\n'
  | .textEnd => p.after.isEmpty
  | .lastLineEnd => p.after.isEmpty || p.after = ['\n']
  | .lineEnd => p.after.isEmpty || p.after.head? = some '\n'
  | .boundary ascii negated =>
    !(p.before.isEmpty && p.after.isEmpty)
      && (p.before.head?.any (inWord ascii) != p.after.head?.any (inWord ascii)) != negated

end Anchor

abbrev Continuation := Place → Option Place

/-- A matcher: it hands the places where it can end to a continuation. -/
abbrev Matcher := Continuation → Continuation

namespace Matcher

def times (m : Matcher) : Nat → Matcher
  | 0, k, p => k p
  | n + 1, k, p => m (m.times n k) p

/-- Whether a loop begins another round: it may, and it did not begin the last
one here. -/
def again (left : Option Nat) (last : Option Nat) (p : Place) : Bool :=
  left ≠ some 0 && last ≠ some p.offset

/-- Further rounds first. `fuel` bounds them, `left` is how many more there may
be, `last` where the last one began. -/
def greedy (m : Matcher) (k : Continuation) :
    (fuel : Nat) → (left last : Option Nat) → Continuation
  | 0, _, _, p => k p
  | fuel + 1, left, last, p =>
    if again left last p then
      (m (m.greedy k fuel (left.map (· - 1)) (some p.offset)) p).or (k p)
    else k p

/-- What follows first, further rounds later. -/
def lazy (m : Matcher) (k : Continuation) :
    (fuel : Nat) → (left last : Option Nat) → Continuation
  | 0, _, _, p => k p
  | fuel + 1, left, last, p =>
    (k p).or (if again left last p then
      m (m.lazy k fuel (left.map (· - 1)) (some p.offset)) p
    else none)

/-- As many rounds as there are, each in the first way that it matches. -/
def possessive (m : Matcher) :
    (fuel : Nat) → (left last : Option Nat) → Place → Place
  | 0, _, _, p => p
  | fuel + 1, left, last, p =>
    if again left last p then
      match m some p with
      | some q => m.possessive fuel (left.map (· - 1)) (some p.offset) q
      | none => p
    else p

/-- As many rounds as asked for, each in the first way that it matches. -/
def timesFirst (m : Matcher) : Nat → Place → Option Place
  | 0, p => some p
  | n + 1, p => (m some p).bind (m.timesFirst n)

/-- A repetition: the least number of rounds, then further ones in the given
manner. -/
def iterate (m : Matcher) (least : Nat) (most : Option Nat) : Manner → Matcher
  | .greedy, k, p =>
    m.times least (fun q => m.greedy k (q.after.length + 2) (most.map (· - least)) none q) p
  | .lazy, k, p =>
    m.times least (fun q => m.lazy k (q.after.length + 2) (most.map (· - least)) none q) p
  | .possessive, k, p =>
    (m.timesFirst least p).bind fun q =>
      k (m.possessive (q.after.length + 2) (most.map (· - least)) none q)

end Matcher

def Node.matcher (subject : Text) : Node → Matcher
  | .empty, k, p => k p
  | .one test, k, p => match p.forward? with
    | some (c, q) => if test.accepts c then k q else none
    | none => none
  | .anchor a, k, p => if a.holds p then k p else none
  | .seq first rest, k, p => first.matcher subject (rest.matcher subject k) p
  | .either first second, k, p =>
    (first.matcher subject k p).or (second.matcher subject k p)
  | .group none body, k, p => body.matcher subject k p
  | .group (some number) body, k, p =>
    body.matcher subject (fun q => k (q.mark (Place.endMark number)))
      (p.mark (Place.startMark number))
  | .reference number folding _ _, k, p =>
    match Place.span? p.marks number with
    | some (start, stop) => (p.takeText folding (subject.slice start stop)).bind k
    | none => none
  | .iterate least most manner body, k, p =>
    Matcher.iterate (body.matcher subject) least most manner k p
  | .look behind negated body, k, p =>
    let from? := if behind then p.back? body.width.1 else some p
    match from?.bind (body.matcher subject some) with
    | some q => if negated then none else k { p with marks := q.marks }
    | none => if negated then k p else none
  | .atomic body, k, p => (body.matcher subject some p).bind k
  | .conditional number present absent, k, p =>
    if (Place.span? p.marks number).isSome then present.matcher subject k p
    else absent.matcher subject k p

/-- A match: its span, and the marks of its groups. -/
structure Match where
  start : Nat
  stop : Nat
  marks : List (Nat × Nat)
  deriving DecidableEq, Repr

namespace Match

/-- The text of a group: group 0 is the whole match, and a group that took no
part is empty. -/
def group (m : Match) (subject : Text) (number : Nat) : Text :=
  if number = 0 then subject.slice m.start m.stop
  else match Place.span? m.marks number with
    | some (start, stop) => subject.slice start stop
    | none => []

end Match

end Pattern

namespace Pattern

/-- The match that begins at a place. If `advancing`, an empty one does not count. -/
def matchAt? (pattern : Pattern) (subject : Text) (advancing : Bool) (p : Place) :
    Option (Match × Place) :=
  let accept (q : Place) : Option Place :=
    if advancing && q.offset == p.offset then none else some q
  (pattern.root.matcher subject accept p).map fun q =>
    (⟨p.offset, q.offset, q.marks⟩, { q with marks := [] })

/-- Whether a match is looked for in front of a character. -/
def opensAt (pattern : Pattern) (c : Char) : Bool := pattern.opening?.all (·.accepts c)

/-- The first match at a place or after it; `after` is the text after the place.
An empty match at the place itself counts only if not `advancing`. -/
def search? (pattern : Pattern) (subject : Text) (advancing : Bool) :
    (after before : Text) → (offset : Nat) → Option (Match × Place)
  | [], before, offset =>
    pattern.matchAt? subject advancing { before, after := [], offset }
  | c :: rest, before, offset =>
    let here := if pattern.opensAt c
      then pattern.matchAt? subject advancing { before, after := c :: rest, offset } else none
    here.or (pattern.search? subject false rest (c :: before) (offset + 1))

/-- The matches from a place on; `fuel` bounds their number. -/
def matchesFrom (pattern : Pattern) (subject : Text) :
    (fuel : Nat) → (advancing : Bool) → Place → List Match
  | 0, _, _ => []
  | fuel + 1, advancing, p =>
    match pattern.search? subject advancing p.after p.before p.offset with
    | some (m, q) => m :: pattern.matchesFrom subject fuel (m.start == m.stop) q
    | none => []

/-- The matches in a subject, from left to right. At every offset at most one
empty and one other match begin. -/
def allMatches (pattern : Pattern) (subject : Text) : List Match :=
  pattern.matchesFrom subject (2 * subject.length + 2) false (Place.start subject)

end Pattern

end Bracemark
