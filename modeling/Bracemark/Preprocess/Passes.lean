import Bracemark.Preprocess.Resolve

/-!
# Preprocessing

A pass resolves the families one after the other. After every stage the text
that came in is protected and the braces are counted. Passes are run until a
scan finds no directive any more, or until there have been too many.
-/

namespace Bracemark

namespace Preprocess

/-- Refuses a buffer with more braces of one kind than of the other. -/
def verifyBraces (ctx : Context) (buffer : Text) : Run Unit :=
  let (opening, closing) := buffer.braces
  if opening = closing then return
  else Run.complain ctx none (.unbalanced opening closing)

/-- The stage of a family, before its result is checked. -/
def bareStage (ctx : Context) (f : Family) (buffer : Text) : Run Text := do
  let resolved ← Resolve.family ctx f buffer
  match f with
  | .replacements => Resolve.pending ctx resolved
  | _ => return resolved

def stage (ctx : Context) (buffer : Text) (f : Family) : Run Text := do
  let buffer ← Run.protect .document ctx.path (← bareStage ctx f buffer)
  verifyBraces ctx buffer
  Run.note (.stageDone f buffer.length)
  return buffer

def pass (ctx : Context) (buffer : Text) : Run Text :=
  Family.all.foldlM (stage ctx) buffer

/-- Counts a pass that begins, and refuses one past the bound. -/
def beginPass (ctx : Context) : Run Unit := do
  modify fun s => { s with passes := s.passes + 1 }
  let passes := (← get).passes
  if ctx.settings.limitReached passes then
    Run.complain ctx none (.notConverged ctx.settings.maxPasses)
  Run.note (.passStarted passes)

/-- Runs passes until no directive is left; `fuel` bounds their number. -/
def converge (ctx : Context) : (fuel : Nat) → Text → Run Text
  | fuel, buffer =>
    if buffer.hasDirective then
      match fuel with
      | 0 => throw .outOfPatience
      | fuel + 1 => do
        beginPass ctx
        converge ctx fuel (← pass ctx buffer)
    else return buffer

/-- The number of passes that may begin: one more than the bound, so that the
bound itself is what refuses a run, or the patience where there is no bound. -/
def fuel (ctx : Context) : Nat :=
  if ctx.settings.maxPasses = 0 then ctx.patience else ctx.settings.maxPasses + 1

def source (ctx : Context) (text : Text) : Run Text := do
  let buffer ← Run.protect .document ctx.path text
  verifyBraces ctx buffer
  let result ← converge ctx (fuel ctx) buffer
  Run.note (.passesDone (← get).passes)
  return result

end Preprocess

/-- Resolves all directives of a source in a fresh run. -/
def preprocess (ctx : Context) (text : Text) : EStateM.Result Failure RunState Text :=
  (Preprocess.source ctx text).run {}

end Bracemark
