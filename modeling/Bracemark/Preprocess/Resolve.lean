import Bracemark.Pattern.Template
import Bracemark.Preprocess.Format
import Bracemark.Preprocess.Include

/-!
# Resolving directives

Every directive is replaced by a text. Definitions and replacements are replaced
by nothing: the first puts a macro into the table of the run, the second a
substitution onto its list.

A family is resolved in one scan of the buffer. The sites are resolved in
document order, so a use of a macro sees the definitions before it, and then all
texts are spliced in at once.
-/

namespace Bracemark

namespace Resolve

/-- The text that takes the place of a link. -/
def linkText (text url : Text) : Text :=
  "<a href=\"".toList ++ url ++ "\">".toList ++ text ++ "</a>".toList

/-- The character that one to six hexadecimal digits name. -/
def codePoint? (written : Text) : Option Char :=
  let n := Pattern.digitsValue 16 written
  if written.length = 0 || 6 < written.length || !written.all Pattern.isHex then none
  else if 0x10FFFF < n || (0xD800 ≤ n && n ≤ 0xDFFF) then none
  else some (Char.ofNat n)

/-- The text that takes the place of a site. -/
def site (ctx : Context) (s : Site) : Run Text := do
  match s.directive with
  | .defineMacro =>
    let name := Text.trim s.first
    modify fun st => { st with macros := st.macros.define name s.second }
    Run.note (.definedMacro name)
    return []
  | .useMacro =>
    let name := Text.trim s.first
    match (← get).macros.body? name with
    | some body => return body
    | none => Run.complain ctx s.line (.undefinedMacro name)
  | .includeFile =>
    let (path, contents) ← Include.readFile ctx s .unreadableInclude
    Include.anchor ctx path contents
  | .importTable =>
    let (path, contents) ← Include.readFile ctx s .unreadableTable
    Include.tableMarkup path.toText contents
  | .link => return linkText s.first s.second
  | .format => Style.applyAll ctx s.line [] s.first s.second
  | .codePoint =>
    let written := Text.trim s.first
    match codePoint? written with
    | some c => return Scheme.document.shield [c]
    | none => Run.complain ctx s.line (.invalidCodePoint written)
  | .replaceAll =>
    let source ← Run.deprotect .document s.first
    let template ← Run.deprotect .document s.second
    match Pattern.ofText source with
    | .ok pattern =>
      modify fun st => { st with pending := st.pending ++ [⟨pattern, template, s.line⟩] }
      return []
    | .error (.fault f) => Run.complain ctx s.line (.invalidPattern source f)
    | .error e => throw (.pattern e)

/-- The edits that resolve all sites of a scan. -/
def sites (ctx : Context) (buffer : Text) : List (Except BlockFault Site) → Run (List Edit)
  | [] => return []
  | .error f :: _ => Run.refuse (.ofBlockFault .directive ctx.path buffer f)
  | .ok s :: rest => do
    let text ← site ctx s
    return ⟨s.start, s.stop, text⟩ :: (← sites ctx buffer rest)

/-- Resolves every site of a family in a buffer. -/
def family (ctx : Context) (f : Family) (buffer : Text) : Run Text := do
  let edits ← sites ctx buffer (Site.scan f buffer)
  if !edits.isEmpty then Run.note (.resolved edits.length f)
  return buffer.splice edits

/-- Applies one substitution to a masked buffer. -/
def substitute (ctx : Context) (buffer : Text) (s : Substitution) : Run Text :=
  match s.pattern.replaceAll s.template buffer with
  | .ok text => return text
  | .error (.fault f) => Run.complain ctx s.line (.invalidReplacement s.template f)
  | .error e => throw (.pattern e)

/-- Applies the substitutions that wait, in order. Codes are masked while they
run, so an escaped character counts as one. -/
def pending (ctx : Context) (buffer : Text) : Run Text := do
  let waiting := (← get).pending
  modify fun st => { st with pending := [] }
  if waiting.isEmpty then return buffer
  let masked ← waiting.foldlM (substitute ctx) (Scheme.document.mask buffer)
  return Scheme.document.unmask masked

end Resolve

end Bracemark
