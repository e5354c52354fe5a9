import Stencil.Artifact.Compile
import Stencil.Extension.Rules
import Stencil.Extension.Shown
import Stencil.Template.Lines
import Stencil.Proofs.Agreement
import Stencil.Proofs.Compile
import Stencil.Proofs.Lookup
import Stencil.Proofs.Session
import Stencil.Proofs.Transparency
import Stencil.Proofs.Answers
import Stencil.Proofs.Plain
import Stencil.Proofs.Emitted
import Stencil.Proofs.EmittedTree
import Stencil.Proofs.Pages
import Stencil.Proofs.Merging
import Stencil.Proofs.Chain
import Stencil.Proofs.Rejoin
import Stencil.Proofs.Scan
import Stencil.Proofs.Sealed
import Stencil.Proofs.Balanced
import Stencil.Proofs.Guarded
import Stencil.Proofs.Escaping
import Stencil.Proofs.Success
import Stencil.Proofs.JsonText
import Stencil.Proofs.StoredBlocks
import Stencil.Proofs.TreeText
import Stencil.Proofs.Stable
import Stencil.Proofs.Levels
import Stencil.Proofs.Writes
import Stencil.Proofs.Coherence
import Stencil.Proofs.Depth
import Stencil.Proofs.Reload
import Stencil.Proofs.Uses
import Stencil.Proofs.Congruence
import Stencil.Proofs.Lockstep
import Stencil.Proofs.Declining
import Stencil.Proofs.Unused
import Stencil.Proofs.Registered
import Stencil.Proofs.Overrides
import Stencil.Proofs.LetterCase
import Stencil.Proofs.FileNames
import Stencil.Proofs.Isolation
import Stencil.Proofs.Script
import Stencil.Proofs.Traced
import Stencil.Proofs.LoopRecords
import Stencil.Proofs.Iterations
import Stencil.Proofs.ParentCalls
import Stencil.Proofs.Append
import Stencil.Proofs.Segments
import Stencil.Proofs.Scoping
import Stencil.Proofs.QuotedParent
import Stencil.Proofs.MacroNames
import Stencil.Proofs.Tokens
import Stencil.Proofs.Signs
import Stencil.Proofs.Passes
import Stencil.Proofs.Tidied
import Stencil.Proofs.Weave
import Stencil.Proofs.LiteralPlaces
import Stencil.Proofs.SwitchLiterals
import Stencil.Proofs.Faults
import Stencil.Proofs.ExprFaults
import Stencil.Proofs.Located
import Stencil.Proofs.TidiedLines
import Stencil.Proofs.Keywords
import Stencil.Proofs.Registry
import Stencil.Proofs.Spellings
import Stencil.Proofs.Overwriting
import Stencil.Proofs.Passes
