import Bracemark.Document.Html
import Bracemark.Document.Parser
import Bracemark.Preprocess.Passes

/-!
# Compiling

A source is preprocessed, parsed and rendered, and at the very end the escaped
characters are restored: a protected brace is never taken for structure. The
report of a compilation keeps what each stage gave, as far as it came.
-/

namespace Bracemark

/-- What a compilation gave. -/
structure Report where
  result : Except Failure Text
  markup? : Option Text := none
  tree? : Option Tree := none
  state : RunState

namespace Compile

def parse (ctx : Context) (markup : Text) : Run Tree := do
  let (result, closed) := Document.parse ctx.settings.collapse markup
  closed.forM fun (kind, children) => Run.note (.parsedNode kind children)
  match result with
  | .error f => Run.refuse (f.diagnostic ctx.path markup)
  | .ok tree =>
    Run.note (.parsedContents tree.children.toList.length)
    return tree

/-- Renders a tree in a run; escaped characters are still protected. -/
def generate (ctx : Context) (tree : Tree) : Run Text := do
  match Html.render tree with
  | .error f => throw (f.failure ctx.path)
  | .ok html =>
    Run.note .generated
    return html

/-- Renders a tree in a run and restores the escaped characters. -/
def render (ctx : Context) (tree : Tree) : Run Text := do
  let text ← Run.deprotect .document (← generate ctx tree)
  Run.note .postprocessed
  return text

end Compile

/-- Compiles a source, going on from the state of a run. -/
def compileFrom (ctx : Context) (source : Text) (start : RunState) : Report :=
  match (do Run.note .preprocessing; Preprocess.source ctx source : Run Text).run start with
  | .error e state => { result := .error e, state }
  | .ok markup state =>
    match (do Run.note .parsing; Compile.parse ctx markup : Run Tree).run state with
    | .error e state => { result := .error e, markup? := some markup, state }
    | .ok tree state =>
      match (do Run.note .generating; Compile.render ctx tree : Run Text).run state with
      | .error e state =>
        { result := .error e, markup? := some markup, tree? := some tree, state }
      | .ok html state =>
        { result := .ok html, markup? := some markup, tree? := some tree, state }

def compile (ctx : Context) (source : Text) : Report := compileFrom ctx source {}

end Bracemark
