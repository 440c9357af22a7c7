import Bracemark.Pattern.Match
import Bracemark.Pattern.Reader

/-!
# Templates and replacement

A template is the text that replaces a match. It holds text and references to
groups; a backslash before anything but a letter or a digit stays as it is
written. A template is read before any match is looked for, so a bad one is
refused even if nothing matches.
-/

namespace Bracemark

namespace Pattern

/-- A part of a template. -/
inductive TemplatePart where
  | text (t : Text)
  | group (number : Nat)
  deriving DecidableEq, Repr

abbrev Template := List TemplatePart

namespace Template

/-- Reading of a template; the pattern says which groups there are. -/
abbrev Read := ReadM Pattern

/-- A reference to a group whose text ends so many characters before the next
piece. -/
def reference (number back : Nat) : Read TemplatePart := do
  if (← get).2.groupCount < number then ReadM.failBack (.invalidGroup number) back
  return .group number

/-- Takes a reference in angle brackets, of which the letter has been taken. -/
def bracketed : Read TemplatePart := do
  unless ← ReadM.accept '<' do ReadM.failBack (.missing "<") 0
  let name ← ReadM.takeName '>' "group name"
  let back := name.length + 1
  if isIdentifier name then
    match (← get).2.names.lookup name with
    | some number => reference number back
    | none => throw (.unknownGroup name)
  else
    match integer? name with
    | some (.ofNat number) =>
      if groupLimit ≤ number then ReadM.failBack (.invalidGroup number) back
      reference number back
    | _ => ReadM.failBack (.badGroupName name) back

/-- Takes an octal escape or a reference, from a first digit other than zero. -/
def digits (c : Char) : Read TemplatePart := do
  let second ← ReadM.takeWhile Char.isDigit 1
  let third ←
    if isOctal c && second.any isOctal then ReadM.takeWhile isOctal 1 else pure []
  let written := '\\' :: c :: second ++ third
  if third.isEmpty then
    reference (digitsValue 10 (c :: second)) (written.length - 1)
  else
    let n := digitsValue 8 written.tail
    if 0o377 < n then ReadM.failBack (.octalTooLarge written) written.length
    return .text [Char.ofNat n]

/-- Takes what an escape in a template stands for. -/
def escape (c : Char) : Read TemplatePart := do
  if c = 'g' then bracketed
  else if c = '0' then
    let more ← ReadM.takeWhile isOctal 2
    return .text [Char.ofNat (digitsValue 8 more % 0x100)]
  else if c.isDigit then digits c
  else
    match controlEscape? c with
    | some n => return .text [Char.ofNat n]
    | none =>
      if c.isAlpha then ReadM.failBack (.badEscape ['\\', c]) 2
      return .text ['\\', c]

def parts : Nat → Read Template
  | 0 => return []
  | n + 1 => do
    match ← ReadM.advance with
    | none => return []
    | some (.plain c) => return .text [c] :: (← parts n)
    | some (.escaped c) =>
      let part ← escape c
      return part :: (← parts n)
    | some .dangling => return []

def ofText (pattern : Pattern) (source : Text) : Except Error Template :=
  let cursor : Cursor := { source, rest := Piece.ofText source }
  match (do ReadM.checkNext; parts (cursor.rest.length + 1) : Read Template).run
      (cursor, pattern) with
  | .ok template _ => .ok template
  | .error e _ => .error e

def expand (template : Template) (subject : Text) (m : Match) : Text :=
  template.flatMap fun
    | .text t => t
    | .group number => m.group subject number

end Template

/-- A subject from an offset on, with every match replaced. -/
def replaceFrom (template : Template) (subject : Text) : Nat → List Match → Text
  | offset, [] => subject.drop offset
  | offset, m :: rest =>
    subject.slice offset m.start ++ template.expand subject m
      ++ replaceFrom template subject m.stop rest

def replaceAll (pattern : Pattern) (template : Text) (subject : Text) : Except Error Text :=
  (Template.ofText pattern template).map fun read =>
    replaceFrom read subject 0 (pattern.allMatches subject)

end Pattern

end Bracemark
