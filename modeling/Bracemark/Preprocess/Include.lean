import Bracemark.Directive.Site
import Bracemark.Preprocess.Run
import Bracemark.Table
import Bracemark.Text.Splice

/-!
# Included files

The text of an included file takes the place of the directive that names the
file. Relative paths that the file itself names are first pinned to its own
directory, so that they lead to the same files after the move. A path that
other directives are still to build is left alone.
-/

namespace Bracemark

namespace Include

/-- Whether a token begins a directive that names a file. -/
def namesFile (t : Token) : Bool :=
  t.kind = .directive .includeFile || t.kind = .directive .importTable

/-- What the scan for file names finds at one token, and the number of tokens it
passes over. -/
def step (t : Token) (rest : List Token) : List (Except BlockFault Block) × Nat :=
  if namesFile t then
    match t.readBlock rest with
    | .error fault _ => ([.error fault], rest.length)
    | .ok block after => ([.ok block], rest.length - after.length)
  else ([], 0)

/-- The blocks in which a text names files, in order, and perhaps a fault at the
end. -/
def fileBlocks (t : Text) : List (Except BlockFault Block) :=
  (segment step 0 (Lexer.directive.tokens t)).flatten

/-- A path of a file in terms of that file's directory, which is made absolute. -/
def pinned (files : FileTree) (file name : Path) : Text :=
  ((files.absolute file.parent).join name).toText

/-- The edit that pins the path in a block, if it is a relative one that no
directive is still to build. -/
def pin (ctx : Context) (file : Path) (text : Text) (b : Block) : Run (Option Edit) := do
  let written := b.interior text
  if written.hasDirective then return none
  let name := Path.ofText (Text.trim (← Run.deprotect .document written))
  if name.isAbsolute then return none
  return some ⟨b.start, b.stop, Scheme.document.shield (pinned ctx.files file name)⟩

/-- The edits that pin the paths of all blocks. -/
def pins (ctx : Context) (file : Path) (text : Text) :
    List (Except BlockFault Block) → Run (List Edit)
  | [] => return []
  | .error f :: _ => Run.refuse (.ofBlockFault .directive file.toText text f)
  | .ok b :: rest => do
    let edit ← pin ctx file text b
    return edit.toList ++ (← pins ctx file text rest)

/-- Protects the text of an included file and pins the paths in it. -/
def anchor (ctx : Context) (file : Path) (contents : Text) : Run Text := do
  let text ← Run.protect .document file.toText contents
  return text.splice (← pins ctx file text (fileBlocks text))

/-- The path that a name in the document leads to. -/
def resolve (ctx : Context) (name : Text) : Path :=
  ctx.directory.join (Path.ofText name)

/-- Reads the file that the first block of a site names; `unreadable` is the
complaint if there is none, or if it is no text in the encoding of sources. -/
def readFile (ctx : Context) (site : Site) (unreadable : Text → Cause) :
    Run (Path × Text) := do
  let name := Text.trim (← Run.deprotect .document site.first)
  let path := resolve ctx name
  let refuse : Run (Path × Text) := Run.complain ctx site.line (unreadable name)
  match ctx.files.read path with
  | .error .embeddedNul => throw (.file .embeddedNul)
  | .error _ => refuse
  | .ok bytes =>
    match Encoding.ofName? ctx.settings.sourceEncoding with
    | none => throw (.unknownEncoding ctx.settings.sourceEncoding)
    | some encoding =>
      match encoding.decode bytes with
      | .error _ => refuse
      | .ok text =>
        let contents := Text.unixLines text
        Run.note (.readFile contents.length path.toText)
        return (path, contents)

def tableMarkup (file contents : Text) : Run Text := do
  let text ← Run.protect .table file contents
  let markup := Table.markup (Table.rows text)
  return Text.collapse (← Run.deprotect .table markup)

end Include

end Bracemark
