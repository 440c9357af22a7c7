import Bracemark.Pattern.Flags

/-!
# Reading patterns

A pattern is read in one pass. The groups that are open form a stack of frames,
innermost first; each frame holds the alternatives finished so far and the items
of the current one. Every step takes at least one piece, so the number of pieces
bounds the steps.

Two rearrangements are part of reading, because they decide how characters
beyond the basic plane compare without regard to case: alternatives that begin
with equal leaves share that beginning, and alternatives of one character each
become one set.

A character can be given by its number. No names of characters are known: an
escape that gives one by name is read to its closing brace, and the pattern is
refused with that name as an unknown one, whatever it is.
-/

namespace Bracemark

namespace Pattern

/-- An item of a sequence. A plain bracket is taken apart when its sequence
ends; until then it counts as one item. -/
inductive Item where
  | solid (n : Node)
  | bracket (body : Node)

namespace Item

def body : Item → Node
  | .solid n => n
  | .bracket b => b

/-- The items that it contributes to its sequence. -/
def unpack : Item → List Node
  | .solid n => [n]
  | .bracket b => b.items

end Item

/-- What an open parenthesis has begun. -/
inductive Opening where
  | whole
  | bracket
  | scope
  | group (number : Nat)
  | atomic
  | look (behind negated outermost : Bool)
  | conditional (number : Nat)

/-- An open parenthesis: where it stands, the flags in force inside, the
finished alternatives and the items of the current one, both latest first. -/
structure Frame where
  opening : Opening
  start : Nat
  flags : Flags
  finished : List (List Node) := []
  items : List Item := []

namespace Frame

def current (f : Frame) : List Node := f.items.reverse.flatMap Item.unpack

def alternatives (f : Frame) : List (List Node) := f.finished.reverse ++ [f.current]

end Frame

/-- Leaves that match in one way at most: equal ones can be shared. -/
def Node.isLeaf : Node → Bool
  | .one _ | .anchor _ | .reference .. => true
  | _ => false

/-- The leaf with which every alternative begins. -/
def sharedHead? : List (List Node) → Option Node
  | [] => none
  | first :: others => match first.head? with
    | some leaf =>
      if leaf.isLeaf && others.all (fun items => items.head? = some leaf) then some leaf else none
    | none => none

/-- Splits off the leaves with which every alternative begins; `n` bounds them. -/
def shareHeads : Nat → List (List Node) → List Node × List (List Node)
  | 0, alternatives => ([], alternatives)
  | n + 1, alternatives => match sharedHead? alternatives with
    | some leaf =>
      let (shared, rest) := shareHeads n (alternatives.map List.tail)
      (leaf :: shared, rest)
    | none => ([], alternatives)

/-- The members that an alternative of one character adds to a set. -/
def setMembers? : List Node → Option (List Member × Folding)
  | [.one (.code n f false)] => some ([.code n], f)
  | [.one (.set members f false)] => some (members, f)
  | _ => none

def eitherOf : List (List Node) → Node
  | [] => .empty
  | [items] => Node.ofItems items
  | items :: others => .either (Node.ofItems items) (eitherOf others)

/-- One node for the alternatives of a frame. -/
def join (alternatives : List (List Node)) : Node :=
  match alternatives with
  | [items] => Node.ofItems items
  | _ =>
    let (shared, rest) := shareHeads (alternatives.headD []).length alternatives
    match rest.mapM setMembers? with
    | some parts =>
      let folding := (parts.head?.map (·.2)).getD .exact
      Node.ofItems (shared ++ [.one (.set (parts.flatMap (·.1)).eraseDups folding false)])
    | none => Node.ofItems (shared ++ [eitherOf rest])

/-- What a pattern keeps while it is read: the open frames, the flags of the
whole, the widths of the groups (none while a group is open), their names, the
number of groups before the outermost open look behind, and where conditions
first name a group by number. -/
structure Draft where
  frame : Frame
  outer : List Frame := []
  flags : Flags := {}
  widths : List (Option (Nat × Nat)) := []
  names : List (Text × Nat) := []
  lookbehindGroups : Option Nat := none
  conditions : List (Nat × Nat) := []

namespace Draft

/-- One more than the number of groups begun. -/
def groups (d : Draft) : Nat := d.widths.length + 1

/-- The width of a group that has been closed. -/
def width? (d : Draft) (number : Nat) : Option (Nat × Nat) :=
  if number = 0 then none else (d.widths[number - 1]?).bind id

end Draft

abbrev Read := ReadM Draft

namespace Read

def draft : Read Draft := return (← get).2

def update (f : Draft → Draft) : Read Unit := modify fun (c, d) => (c, f d)

def flags : Read Flags := return (← draft).frame.flags

def push (item : Item) : Read Unit :=
  update fun d => { d with frame := { d.frame with items := item :: d.frame.items } }

def pushOne (t : CharTest) : Read Unit := push (.solid (.one t))

def opens (opening : Opening) (start : Nat) (flags : Flags) : Read Unit :=
  update fun d => { d with frame := { opening, start, flags }, outer := d.frame :: d.outer }

/-- Refuses a reference to a group that is open, or that a look behind still in
progress has defined. -/
def checkLookbehind (number : Nat) : Read Unit := do
  let d ← draft
  match d.lookbehindGroups with
  | none => return
  | some before =>
    if (d.width? number).isNone then ReadM.failBack .openGroup 0
    if before ≤ number then ReadM.failBack .groupOfSameLookbehind 0

/-- The code of an escape by number, for the letters that have one. An escape by
name has none, as no names are known. -/
def codeEscape? (letter : Char) : Read (Option Nat) := do
  let number (digits : Nat) : Read (Option Nat) := do
    let spelled ← ReadM.takeWhile isHex digits
    let written := '\\' :: letter :: spelled
    if spelled.length ≠ digits then
      ReadM.failBack (.incompleteEscape written) written.length
    let n := digitsValue 16 spelled
    if 0x10FFFF < n then ReadM.failBack (.badEscape written) written.length
    return some n
  match letter with
  | 'x' => number 2
  | 'u' => number 4
  | 'U' => number 8
  | 'N' => do
    unless ← ReadM.accept '\x7b' do ReadM.failBack (.missing "\x7b") 0
    let name ← ReadM.takeName '\x7d' "character name"
    ReadM.failBack (.unknownCharacterName name) (name.length + 4)
  | _ => return none

def category? (ascii : Bool) : Char → Option ClassTest
  | 'd' => some ⟨.digit, ascii, false⟩
  | 'D' => some ⟨.digit, ascii, true⟩
  | 's' => some ⟨.blank, ascii, false⟩
  | 'S' => some ⟨.blank, ascii, true⟩
  | 'w' => some ⟨.word, ascii, false⟩
  | 'W' => some ⟨.word, ascii, true⟩
  | _ => none

def anchorEscape? (ascii : Bool) : Char → Option Anchor
  | 'A' => some .textStart
  | 'b' => some (.boundary ascii false)
  | 'B' => some (.boundary ascii true)
  | 'Z' => some .textEnd
  | _ => none

def octalCode (written : Text) : Read Nat := do
  let n := digitsValue 8 written.tail
  if 0o377 < n then ReadM.failBack (.octalTooLarge written) written.length
  return n

/-- The member that an escape in a set stands for. -/
def setEscape (c : Char) : Read Member := do
  let ascii := (← flags).ascii
  if let some n := controlEscape? c then return .code n
  if let some t := category? ascii c then return .category t
  if let some n ← codeEscape? c then return .code n
  if isOctal c then
    let more ← ReadM.takeWhile isOctal 2
    return .code (← octalCode ('\\' :: c :: more))
  if c.isAlphanum then ReadM.failBack (.badEscape ['\\', c]) 2
  return .code c.toNat

/-- Takes a reference to a group by number, of which the digits have been taken. -/
def reference (number : Nat) (written : Text) : Read Unit := do
  let d ← draft
  if d.groups ≤ number then
    ReadM.failBack (.invalidGroup number) (written.length - 1)
  match d.width? number with
  | none => ReadM.failBack .openGroup written.length
  | some (shortest, longest) =>
    checkLookbehind number
    push (.solid (.reference number d.frame.flags.folding shortest longest))

/-- Takes an octal escape or a reference, from a first digit other than zero. -/
def digitEscape (c : Char) : Read Unit := do
  let folding := (← flags).folding
  let second ← ReadM.takeWhile Char.isDigit 1
  let third ←
    if isOctal c && second.any isOctal then ReadM.takeWhile isOctal 1 else pure []
  let written := '\\' :: c :: second ++ third
  if third.isEmpty then reference (digitsValue 10 (c :: second)) written
  else pushOne (.code (← octalCode written) folding false)

def escape (c : Char) : Read Unit := do
  let f ← flags
  if let some t := category? f.ascii c then
    pushOne (.set [.category t] f.folding false)
  else if let some a := anchorEscape? f.ascii c then
    push (.solid (.anchor a))
  else if let some n := controlEscape? c then
    pushOne (.code n f.folding false)
  else if let some n ← codeEscape? c then
    pushOne (.code n f.folding false)
  else if c = '0' then
    let more ← ReadM.takeWhile isOctal 2
    pushOne (.code (digitsValue 8 more) f.folding false)
  else if c.isDigit then
    digitEscape c
  else if c.isAlpha then
    ReadM.failBack (.badEscape ['\\', c]) 2
  else
    pushOne (.code c.toNat f.folding false)

/-- The member that a piece in a set stands for; the piece has been taken. -/
def setMember : Piece → Read Member
  | .escaped c => setEscape c
  | .plain c => return .code c.toNat
  | .dangling => return .code '\\'.toNat

/-- Takes the members of a set through its closing bracket. The set began at
`start`; `members` come latest first; `n` bounds the members. -/
def setMembers (start : Nat) (members : List Member) : Nat → Read (List Member)
  | 0 => return members
  | n + 1 => do
    match ← ReadM.advance with
    | none => ReadM.failAt .unterminatedSet start
    | some first =>
      if first = .plain ']' && !members.isEmpty then return members
      let low ← setMember first
      if ← ReadM.accept '-' then
        match ← ReadM.advance with
        | none => ReadM.failAt .unterminatedSet start
        | some second =>
          if second = .plain ']' then return .code '-'.toNat :: low :: members
          let high ← setMember second
          let refuse : Read (List Member) :=
            ReadM.failBack (.badRange first.written second.written)
              (first.written.length + 1 + second.written.length)
          match low, high with
          | .code l, .code h =>
            if h < l then refuse else setMembers start (.range l h :: members) n
          | _, _ => refuse
      else
        setMembers start (low :: members) n

/-- Takes a set, of which the opening bracket has been taken. -/
def characterSet : Read Unit := do
  let start := (← ReadM.tell) - 1
  let negated ← ReadM.accept '^'
  let members ← setMembers start [] ((← get).1.rest.length + 1)
  let folding := (← flags).folding
  match members.reverse.eraseDups with
  | [.code n] => pushOne (.code n folding negated)
  | members => pushOne (.set members folding negated)

def count (digits : Text) : Read Nat := do
  if longestNumber < digits.length then throw (.countTooLong digits.length)
  let n := digitsValue 10 digits
  if countLimit ≤ n then throw .countTooLarge
  return n

/-- Replaces the last item by its repetition; the sign began at `start`. -/
def iterate (start least : Nat) (most : Option Nat) : Read Unit := do
  let d ← draft
  match d.frame.items with
  | [] => ReadM.failAt .nothingToRepeat start
  | .solid (.anchor _) :: _ => ReadM.failAt .nothingToRepeat start
  | .solid (.iterate ..) :: _ => ReadM.failAt .multipleRepeat start
  | item :: others =>
    let manner ←
      if ← ReadM.accept '?' then pure Manner.lazy
      else if ← ReadM.accept '+' then pure Manner.possessive
      else pure Manner.greedy
    update fun d => { d with frame := { d.frame with
      items := .solid (.iterate least most manner item.body) :: others } }

/-- Takes the digits and the comma of a counted repetition through its closing
brace, or none of them if they are not of that form. -/
def counts : Read (Option (Text × Text)) := do
  let saved := (← get).1
  let bound := saved.rest.length
  let low ← ReadM.takeWhile Char.isDigit bound
  let high ←
    if ← ReadM.accept ',' then ReadM.takeWhile Char.isDigit bound else pure low
  if ← ReadM.accept '\x7d' then return some (low, high)
  modify fun (_, d) => (saved, d)
  return none

/-- Takes a counted repetition, of which the opening brace has been taken. -/
def countedRepeat : Read Unit := do
  let here ← ReadM.tell
  let brace := pushOne (.code 0x7B (← flags).folding false)
  if (← ReadM.peek) = some (.plain '\x7d') then brace
  else
    match ← counts with
    | none => brace
    | some (low, high) =>
      let least ← if low.isEmpty then pure 0 else count low
      let most ← if high.isEmpty then pure none else some <$> count high
      if most.any (· < least) then ReadM.failAt .reversedRepeat here
      iterate (here - 1) least most

/-- Takes a comment through its closing parenthesis. -/
def comment (start : Nat) : Nat → Read Unit
  | 0 => return
  | n + 1 => do
    match ← ReadM.peek with
    | none => ReadM.failAt .unterminatedComment start
    | some p =>
      let _ ← ReadM.advance
      if p ≠ .plain ')' then comment start n

/-- Begins a group with a number, under a name if it has one. -/
def openGroup (name? : Option Text) (start : Nat) : Read Unit := do
  let d ← draft
  let number := d.groups
  match name? with
  | none => pure ()
  | some name =>
    if let some old := d.names.lookup name then
      ReadM.failBack (.redefinedGroup name number old) (name.length + 1)
  update fun d => { d with
    widths := d.widths ++ [none]
    names := match name? with
      | some name => d.names ++ [(name, number)]
      | none => d.names }
  opens (.group number) start d.frame.flags

/-- Takes a reference to a named group, of which the sign has been taken. -/
def namedReference : Read Unit := do
  let name ← ReadM.takeName ')' "group name"
  ReadM.checkName name
  let d ← draft
  match d.names.lookup name with
  | none => ReadM.failBack (.unknownGroupName name) (name.length + 1)
  | some number =>
    match d.width? number with
    | none => ReadM.failBack .openGroup (name.length + 1)
    | some (shortest, longest) =>
      checkLookbehind number
      push (.solid (.reference number d.frame.flags.folding shortest longest))

/-- The group that a condition names; its closing parenthesis has been taken. -/
def conditionGroup (name : Text) : Read Nat := do
  let d ← draft
  let back := name.length + 1
  if isIdentifier name then
    match d.names.lookup name with
    | some number => return number
    | none => ReadM.failBack (.unknownGroupName name) back
  else
    match integer? name with
    | some (.ofNat number) =>
      if number = 0 then ReadM.failBack .badGroupNumber back
      if groupLimit ≤ number then ReadM.failBack (.invalidGroup number) back
      let position := (← ReadM.tell) - back
      if (d.conditions.lookup number).isNone then
        update fun d => { d with conditions := d.conditions ++ [(number, position)] }
      return number
    | _ => ReadM.failBack (.badGroupName name) back

/-- Begins a look around; `sign` tells whether it is negated. -/
def look (behind : Bool) (sign : Char) (start : Nat) : Read Unit := do
  let d ← draft
  let outermost := behind && d.lookbehindGroups.isNone
  if outermost then update fun d => { d with lookbehindGroups := some d.groups }
  opens (.look behind (sign = '!') outermost) start d.frame.flags

/-- Takes what follows a parenthesis and a question mark. -/
def extension (start : Nat) : Read Unit := do
  let f ← flags
  match ← ReadM.advance with
  | none => ReadM.failBack .unexpectedEnd 0
  | some (.plain 'P') =>
    if ← ReadM.accept '<' then
      let name ← ReadM.takeName '>' "group name"
      ReadM.checkName name
      openGroup (some name) start
    else if ← ReadM.accept '=' then
      namedReference
    else
      match ← ReadM.advance with
      | none => ReadM.failBack .unexpectedEnd 0
      | some p => ReadM.failBack (.unknownExtension ('P' :: p.written)) (p.written.length + 2)
  | some (.plain ':') => opens .bracket start f
  | some (.plain '#') => comment start ((← get).1.rest.length + 1)
  | some (.plain '=') => look false '=' start
  | some (.plain '!') => look false '!' start
  | some (.plain '<') =>
    match ← ReadM.advance with
    | none => ReadM.failBack .unexpectedEnd 0
    | some (.plain '=') => look true '=' start
    | some (.plain '!') => look true '!' start
    | some p => ReadM.failBack (.unknownExtension ('<' :: p.written)) (p.written.length + 2)
  | some (.plain '(') =>
    let number ← conditionGroup (← ReadM.takeName ')' "group name")
    checkLookbehind number
    opens (.conditional number) start f
  | some (.plain '>') => opens .atomic start f
  | some p =>
    match p with
    | .plain c =>
      if c = '-' || Flags.isLetter c then
        match ← ReadM.readFlags c with
        | .whole added =>
          let d ← draft
          let atStart := d.outer.isEmpty && d.frame.finished.isEmpty && d.frame.items.isEmpty
          unless atStart do ReadM.failAt .lateFlags start
          let all := d.flags.union added
          update fun d => { d with flags := all, frame := { d.frame with flags := all } }
        | .group added removed =>
          opens .scope start (f.within added removed)
      else ReadM.failBack (.unknownExtension p.written) 2
    | _ => ReadM.failBack (.unknownExtension p.written) (p.written.length + 1)

/-- Takes an opening parenthesis, which has been taken, with what belongs to it. -/
def parenthesis : Read Unit := do
  let start := (← ReadM.tell) - 1
  if ← ReadM.accept '?' then extension start else openGroup none start

/-- Takes the closing parenthesis of the innermost frame. -/
def close : Read Unit := do
  let d ← draft
  match d.outer with
  | [] => return
  | parent :: others =>
    let body := join d.frame.alternatives
    update fun d => { d with frame := parent, outer := others }
    match d.frame.opening with
    | .whole => return
    | .bracket => push (.bracket body)
    | .scope => push (.solid (.group none body))
    | .group number =>
      update fun d => { d with widths := d.widths.set (number - 1) (some body.width) }
      push (.solid (.group (some number) body))
    | .atomic => push (.solid (.atomic body))
    | .look behind negated outermost =>
      if outermost then update fun d => { d with lookbehindGroups := none }
      push (.solid (.look behind negated body))
    | .conditional number =>
      let present := Node.ofItems (d.frame.alternatives.headD [])
      let absent := Node.ofItems (d.frame.alternatives.tail.headD [])
      push (.solid (.conditional number present absent))

/-- Begins the next alternative of the innermost frame. -/
def alternative : Read Unit := do
  let d ← draft
  match d.frame.opening, d.frame.finished with
  | .conditional _, _ :: _ => ReadM.failBack .thirdBranch 0
  | _, _ => pure ()
  let _ ← ReadM.advance
  update fun d => { d with frame := { d.frame with
    finished := d.frame.current :: d.frame.finished, items := [] } }

/-- A blank that is passed over under the verbose flag. -/
def isLayout (c : Char) : Bool :=
  c = ' ' || c = '\t' || c = '\n' || c = '\r' || c = '\x0b' || c = '\x0c'

def restOfLine : Nat → Read Unit
  | 0 => return
  | n + 1 => do
    match ← ReadM.advance with
    | none | some (.plain '\n') => return
    | some _ => restOfLine n

/-- Reads one item from a piece that has been taken. -/
def item (p : Piece) : Read Unit := do
  let f ← flags
  match p with
  | .dangling => return
  | .escaped c => escape c
  | .plain c =>
    if f.verbose && isLayout c then return
    if f.verbose && c = '#' then restOfLine ((← get).1.rest.length + 1)
    else
      let sign := (← ReadM.tell) - 1
      match c with
      | '[' => characterSet
      | '?' => iterate sign 0 (some 1)
      | '*' => iterate sign 0 none
      | '+' => iterate sign 1 none
      | '\x7b' => countedRepeat
      | '.' => pushOne (.any f.dotAll)
      | '(' => parenthesis
      | '^' => push (.solid (.anchor (if f.multiline then .lineStart else .textStart)))
      | '$' => push (.solid (.anchor (if f.multiline then .lineEnd else .lastLineEnd)))
      | _ => pushOne (.code c.toNat f.folding false)

/-- Reads items to the end of the pattern or to a closing parenthesis that
nothing opened; `n` bounds the steps. -/
def items : Nat → Read Unit
  | 0 => return
  | n + 1 => do
    let d ← draft
    match ← ReadM.peek with
    | none =>
      unless d.outer.isEmpty do ReadM.failAt .unterminatedGroup d.frame.start
    | some (.plain '|') =>
      alternative
      items n
    | some (.plain ')') =>
      unless d.outer.isEmpty do
        let _ ← ReadM.advance
        close
        items n
    | some p =>
      let _ ← ReadM.advance
      item p
      items n

/-- The first problem, from the outside in and from left to right, that only
the whole tree shows. -/
def treeProblem? (template : Bool) : Node → Option Problem
  | .empty | .one _ | .anchor _ | .reference .. => none
  | .seq a b | .either a b | .conditional _ a b =>
    (treeProblem? template a).or (treeProblem? template b)
  | .group _ body | .atomic body => treeProblem? template body
  | .iterate _ _ manner body =>
    if template then some (.templateOperator manner) else treeProblem? template body
  | .look behind _ body =>
    if behind && countLimit < body.width.1 then some .endlessLookbehind
    else if behind && body.width.1 ≠ body.width.2 then some .variableLookbehind
    else treeProblem? template body

def whole : Read Pattern := do
  let source := (← get).1.source
  ReadM.checkNext
  items ((← get).1.rest.length + 1)
  let d ← draft
  if d.flags.ascii && d.flags.unicode then throw .mixedAlphabets
  if (← ReadM.peek).isSome then ReadM.failBack .unbalancedParenthesis 0
  if let some (number, position) := d.conditions.find? fun c => d.groups ≤ c.1 then
    ReadM.failAt (.invalidGroup number) position
  let root := join d.frame.alternatives
  match treeProblem? d.flags.template root with
  | some problem => throw (.fault ⟨source, problem, none⟩)
  | none => return {
      source, root, groupCount := d.widths.length, names := d.names
      opening? := root.opening? d.flags.ascii }

end Read

def ofText (source : Text) : Except Error Pattern :=
  let cursor : Cursor := { source, rest := Piece.ofText source }
  let draft : Draft := { frame := { opening := .whole, start := 0, flags := {} } }
  match Read.whole.run (cursor, draft) with
  | .ok pattern _ => .ok pattern
  | .error e _ => .error e

end Pattern

end Bracemark
