import Bracemark.Command.Arguments
import Bracemark.Command.Job
import Bracemark.Command.Outcome
import Bracemark.Command.Switch
import Bracemark.Command.Word
import Bracemark.Compile
import Bracemark.Diagnostic
import Bracemark.Directive.Basic
import Bracemark.Directive.Reference
import Bracemark.Directive.Site
import Bracemark.Document.Arena
import Bracemark.Document.Html
import Bracemark.Document.Kind
import Bracemark.Document.Parser
import Bracemark.Document.Tree
import Bracemark.Escape.Chunk
import Bracemark.Escape.Piece
import Bracemark.Escape.Scheme
import Bracemark.File.Encoding
import Bracemark.File.Path
import Bracemark.File.Tree
import Bracemark.Main
import Bracemark.Pattern.Error
import Bracemark.Pattern.Flags
import Bracemark.Pattern.Match
import Bracemark.Pattern.Read
import Bracemark.Pattern.Reader
import Bracemark.Pattern.Syntax
import Bracemark.Pattern.Template
import Bracemark.Phonetic.Sampa
import Bracemark.Phonetic.Transcription
import Bracemark.Preprocess.Format
import Bracemark.Preprocess.Include
import Bracemark.Preprocess.Passes
import Bracemark.Preprocess.Resolve
import Bracemark.Preprocess.Run
import Bracemark.Progress
import Bracemark.Proofs.Anchoring
import Bracemark.Proofs.Blocks
import Bracemark.Proofs.Boundaries
import Bracemark.Proofs.Citations
import Bracemark.Proofs.CodePoints
import Bracemark.Proofs.Codes
import Bracemark.Proofs.Collapsing
import Bracemark.Proofs.Contexts
import Bracemark.Proofs.Cuts
import Bracemark.Proofs.Decoding
import Bracemark.Proofs.Edits
import Bracemark.Proofs.Escapes
import Bracemark.Proofs.Failures
import Bracemark.Proofs.FileTexts
import Bracemark.Proofs.Following
import Bracemark.Proofs.Grammar
import Bracemark.Proofs.History
import Bracemark.Proofs.Inclusion
import Bracemark.Proofs.Inline
import Bracemark.Proofs.Jobs
import Bracemark.Proofs.Keeping
import Bracemark.Proofs.Keywords
import Bracemark.Proofs.LeafTexts
import Bracemark.Proofs.Lexemes
import Bracemark.Proofs.Literals
import Bracemark.Proofs.Locality
import Bracemark.Proofs.Logs
import Bracemark.Proofs.Macros
import Bracemark.Proofs.Masking
import Bracemark.Proofs.Matching
import Bracemark.Proofs.Nesting
import Bracemark.Proofs.NormalForm
import Bracemark.Proofs.Outcomes
import Bracemark.Proofs.Outline
import Bracemark.Proofs.PassBound
import Bracemark.Proofs.Passes
import Bracemark.Proofs.Paths
import Bracemark.Proofs.Places
import Bracemark.Proofs.Prefixes
import Bracemark.Proofs.Protection
import Bracemark.Proofs.Rendering
import Bracemark.Proofs.Replacing
import Bracemark.Proofs.Resolution
import Bracemark.Proofs.Runs
import Bracemark.Proofs.Scanning
import Bracemark.Proofs.Sequence
import Bracemark.Proofs.Shielding
import Bracemark.Proofs.Sites
import Bracemark.Proofs.SourceLines
import Bracemark.Proofs.Spellings
import Bracemark.Proofs.Splicing
import Bracemark.Proofs.Stretches
import Bracemark.Proofs.Strictness
import Bracemark.Proofs.TableRows
import Bracemark.Proofs.Tables
import Bracemark.Proofs.Tagging
import Bracemark.Proofs.Tearing
import Bracemark.Proofs.Termination
import Bracemark.Proofs.Transcribing
import Bracemark.Proofs.Unboxed
import Bracemark.Proofs.Uncounted
import Bracemark.Proofs.Vocabulary
import Bracemark.Proofs.Writing
import Bracemark.Settings
import Bracemark.Table
import Bracemark.Text.Basic
import Bracemark.Text.Blank
import Bracemark.Text.Case
import Bracemark.Text.Digit
import Bracemark.Text.Identifier
import Bracemark.Text.Letter
import Bracemark.Text.Quoted
import Bracemark.Text.Ranges
import Bracemark.Text.Segment
import Bracemark.Text.Splice
import Bracemark.Text.Word
import Bracemark.Token.Basic
import Bracemark.Token.Block
import Bracemark.Token.Lexer
