import Bracemark.Pattern.Reader

/-!
# Flags of patterns

Flags are letters behind a question mark in parentheses. Flags that end with a
parenthesis hold for the whole pattern and must stand at its start; flags that
end with a colon hold for one group. `a` and `u` choose the alphabet and
exclude each other; `t` asks for a pattern without repetitions.
-/

namespace Bracemark

namespace Pattern

/-- The flags in force, or a choice of flags to turn on or off. -/
structure Flags where
  ignoreCase : Bool := false
  multiline : Bool := false
  dotAll : Bool := false
  verbose : Bool := false
  ascii : Bool := false
  unicode : Bool := false
  template : Bool := false
  deriving DecidableEq, Repr

namespace Flags

/-- The choice that a flag letter adds to a choice. -/
def add? (f : Flags) : Char → Option Flags
  | 'i' => some { f with ignoreCase := true }
  | 'm' => some { f with multiline := true }
  | 's' => some { f with dotAll := true }
  | 'x' => some { f with verbose := true }
  | 'a' => some { f with ascii := true }
  | 'u' => some { f with unicode := true }
  | 't' => some { f with template := true }
  | _ => none

/-- Whether a character is a flag letter; `L` is one, although no text takes it. -/
def isLetter (c : Char) : Bool := c = 'L' || (add? {} c).isSome

def union (f g : Flags) : Flags where
  ignoreCase := f.ignoreCase || g.ignoreCase
  multiline := f.multiline || g.multiline
  dotAll := f.dotAll || g.dotAll
  verbose := f.verbose || g.verbose
  ascii := f.ascii || g.ascii
  unicode := f.unicode || g.unicode
  template := f.template || g.template

/-- Whether two choices have a flag in common. -/
def meets (f g : Flags) : Bool :=
  (f.ignoreCase && g.ignoreCase) || (f.multiline && g.multiline) || (f.dotAll && g.dotAll)
    || (f.verbose && g.verbose) || (f.ascii && g.ascii) || (f.unicode && g.unicode)
    || (f.template && g.template)

/-- The flags in force in a group that turns some on and some off. A choice of
alphabet replaces the one in force. -/
def within (f added removed : Flags) : Flags where
  ignoreCase := (f.ignoreCase || added.ignoreCase) && !removed.ignoreCase
  multiline := (f.multiline || added.multiline) && !removed.multiline
  dotAll := (f.dotAll || added.dotAll) && !removed.dotAll
  verbose := (f.verbose || added.verbose) && !removed.verbose
  ascii := if added.ascii || added.unicode then added.ascii else f.ascii
  unicode := if added.ascii || added.unicode then added.unicode else f.unicode
  template := f.template

def folding (f : Flags) : Folding :=
  if !f.ignoreCase then .exact else if f.ascii then .ascii else .unicode

end Flags

/-- What a run of flag letters says: flags of the whole pattern, or of a group. -/
inductive FlagChoice where
  | whole (added : Flags)
  | group (added removed : Flags)

namespace ReadM

variable {σ : Type}

/-- Refuses what stands in place of a flag letter and has been taken. -/
def failFlag {α : Type} (what : String) : Option Piece → ReadM σ α
  | none => failBack (.missing what) 0
  | some p => match p with
    | .plain c => failBack (if Bracemark.isLetter c then .unknownFlag else .missing what) 1
    | _ => failBack (.missing what) p.written.length

/-- Takes the letters that turn flags on, from a letter that has been taken;
gives the flags and the character that ends them. -/
def addedFlags (letter : Char) (added : Flags) : Nat → ReadM σ (Flags × Char)
  | 0 => return (added, ')')
  | n + 1 => do
    if letter = 'L' then failBack .localeFlag 0
    let added := (added.add? letter).getD added
    if (letter = 'a' || letter = 'u') && added.ascii && added.unicode then
      failBack .mixedFlags 0
    let next ← advance
    match next with
    | some (.plain c) =>
      if c = ')' || c = '-' || c = ':' then return (added, c)
      if Flags.isLetter c then addedFlags c added n else failFlag "-, : or )" next
    | _ => failFlag "-, : or )" next

/-- Takes the letters that turn flags off, from a letter that has been taken,
through the colon that ends them. -/
def removedFlags (letter : Char) (removed : Flags) : Nat → ReadM σ Flags
  | 0 => return removed
  | n + 1 => do
    if letter = 'a' || letter = 'u' || letter = 'L' then failBack .removedAlphabetFlag 0
    let removed := (removed.add? letter).getD removed
    let next ← advance
    match next with
    | some (.plain c) =>
      if c = ':' then return removed
      if Flags.isLetter c then removedFlags c removed n else failFlag ":" next
    | _ => failFlag ":" next

/-- Takes the letters that turn flags off, behind a minus sign. -/
def firstRemoved (bound : Nat) : ReadM σ Flags := do
  let next ← advance
  match next with
  | some (.plain c) =>
    if Flags.isLetter c then removedFlags c {} bound else failFlag "flag" next
  | _ => failFlag "flag" next

/-- Takes flags from the first character behind the question mark, which has
been taken and is a flag letter or a minus sign. -/
def readFlags (first : Char) : ReadM σ FlagChoice := do
  let bound := (← get).1.rest.length + 1
  let (added, terminator) ←
    if first = '-' then pure ({}, '-') else addedFlags first {} bound
  if terminator = ')' then return .whole added
  if added.template then failBack .addedGlobalFlag 1
  let removed ← if terminator = '-' then firstRemoved bound else pure {}
  if removed.template then failBack .removedGlobalFlag 1
  if added.meets removed then failBack .contradictoryFlag 1
  return .group added removed

end ReadM

end Pattern

end Bracemark
