import Bracemark.Pattern.Syntax
import Bracemark.Text.Quoted

/-!
# Errors of patterns and templates

A fault is a problem with the place in the pattern or template where it was
noticed. Its message gives the place, and in a text of several lines the line
and the column as well. A few patterns are refused for reasons that are no
fault of their syntax; those errors have constructors of their own.
-/

namespace Bracemark

namespace Pattern

/-- What is wrong with the syntax of a pattern or template. -/
inductive Problem where
  | danglingEscape
  | badEscape (written : Text)
  | incompleteEscape (written : Text)
  | octalTooLarge (written : Text)
  | missing (what : String)
  | unterminatedName (terminator : Char)
  | unterminatedGroup
  | unterminatedComment
  | unterminatedSet
  | badRange (low high : Text)
  | nothingToRepeat
  | multipleRepeat
  | reversedRepeat
  | unexpectedEnd
  | unknownExtension (written : Text)
  | badGroupName (name : Text)
  | unknownGroupName (name : Text)
  | unknownCharacterName (name : Text)
  | openGroup
  | groupOfSameLookbehind
  | invalidGroup (number : Nat)
  | badGroupNumber
  | redefinedGroup (name : Text) (new old : Nat)
  | thirdBranch
  | lateFlags
  | localeFlag
  | mixedFlags
  | unknownFlag
  | addedGlobalFlag
  | removedGlobalFlag
  | removedAlphabetFlag
  | contradictoryFlag
  | unbalancedParenthesis
  | variableLookbehind
  | endlessLookbehind
  | templateOperator (manner : Manner)
  deriving DecidableEq, Repr

namespace Problem

def message : Problem → String
  | .danglingEscape => "bad escape (end of pattern)"
  | .badEscape w => "bad escape " ++ String.ofList w
  | .incompleteEscape w => "incomplete escape " ++ String.ofList w
  | .octalTooLarge w =>
    "octal escape value " ++ String.ofList w ++ " outside of range 0-0o377"
  | .missing what => "missing " ++ what
  | .unterminatedName c => "missing " ++ String.singleton c ++ ", unterminated name"
  | .unterminatedGroup => "missing ), unterminated subpattern"
  | .unterminatedComment => "missing ), unterminated comment"
  | .unterminatedSet => "unterminated character set"
  | .badRange low high =>
    "bad character range " ++ String.ofList low ++ "-" ++ String.ofList high
  | .nothingToRepeat => "nothing to repeat"
  | .multipleRepeat => "multiple repeat"
  | .reversedRepeat => "min repeat greater than max repeat"
  | .unexpectedEnd => "unexpected end of pattern"
  | .unknownExtension w => "unknown extension ?" ++ String.ofList w
  | .badGroupName name =>
    "bad character in group name " ++ String.ofList (Quoted.encode name)
  | .unknownGroupName name => "unknown group name " ++ String.ofList (Quoted.encode name)
  | .unknownCharacterName name =>
    "undefined character name " ++ String.ofList (Quoted.encode name)
  | .openGroup => "cannot refer to an open group"
  | .groupOfSameLookbehind =>
    "cannot refer to group defined in the same lookbehind subpattern"
  | .invalidGroup n => "invalid group reference " ++ toString n
  | .badGroupNumber => "bad group number"
  | .redefinedGroup name new old =>
    "redefinition of group name " ++ String.ofList (Quoted.encode name) ++ " as group "
      ++ toString new ++ "; was group " ++ toString old
  | .thirdBranch => "conditional backref with more than two branches"
  | .lateFlags => "global flags not at the start of the expression"
  | .localeFlag => "bad inline flags: cannot use 'L' flag with a str pattern"
  | .mixedFlags => "bad inline flags: flags 'a', 'u' and 'L' are incompatible"
  | .unknownFlag => "unknown flag"
  | .addedGlobalFlag => "bad inline flags: cannot turn on global flag"
  | .removedGlobalFlag => "bad inline flags: cannot turn off global flag"
  | .removedAlphabetFlag => "bad inline flags: cannot turn off flags 'a', 'u' and 'L'"
  | .contradictoryFlag => "bad inline flags: flag turned on and off"
  | .unbalancedParenthesis => "unbalanced parenthesis"
  | .variableLookbehind => "look-behind requires fixed-width pattern"
  | .endlessLookbehind => "looks too much behind"
  | .templateOperator .greedy => "internal: unsupported template operator MAX_REPEAT"
  | .templateOperator .lazy => "internal: unsupported template operator MIN_REPEAT"
  | .templateOperator .possessive =>
    "internal: unsupported template operator POSSESSIVE_REPEAT"

end Problem

/-- A problem in a pattern or template, with its offset if it has one. -/
structure Fault where
  source : Text
  problem : Problem
  position? : Option Nat
  deriving DecidableEq, Repr

namespace Fault

/-- The distance of an offset from the last line feed before it. -/
def column (source : Text) (position : Nat) : Nat :=
  ((source.take position).reverse.takeWhile (· ≠ '\n')).length + 1

def message (f : Fault) : String :=
  match f.position? with
  | none => f.problem.message
  | some p =>
    f.problem.message ++ " at position " ++ toString p ++
      if f.source.contains '\n' then
        " (line " ++ toString (f.source.lineAt p) ++ ", column "
          ++ toString (column f.source p) ++ ")"
      else ""

end Fault

/-- Why a pattern or template is refused. -/
inductive Error where
  | fault (f : Fault)
  | countTooLarge
  | countTooLong (digits : Nat)
  | mixedAlphabets
  | unknownGroup (name : Text)
  deriving DecidableEq, Repr

end Pattern

end Bracemark
