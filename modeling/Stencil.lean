import Stencil.Arg.Inspect
import Stencil.Json.Reader
import Stencil.Named
import Stencil.Positional
import Stencil.Proofs.Evaluation
import Stencil.Proofs.Json.Reading
import Stencil.Proofs.Json.Slots
import Stencil.Proofs.Bindings
import Stencil.Proofs.Named.Reachable
import Stencil.Proofs.Positional.Reachable
import Stencil.Proofs.CheckedConstruction
import Stencil.Proofs.Encoding
import Stencil.Proofs.Positional.Fill
import Stencil.Proofs.Interpretation
import Stencil.Proofs.Positional.PartialEvaluation
import Stencil.Proofs.Named.PartialEvaluation
import Stencil.Proofs.Token.Unparse
import Stencil.Proofs.Token.Runs
import Stencil.Proofs.Placeholders
import Stencil.Proofs.Json.Member
import Stencil.Proofs.Members
import Stencil.Proofs.Representation
import Stencil.Proofs.CallOrder
import Stencil.Proofs.Configuration
import Stencil.Proofs.Construction
import Stencil.Proofs.Modes
import Stencil.Proofs.Positional.Hygiene
import Stencil.Proofs.Positional.Composition
import Stencil.Proofs.Named.Composition
import Stencil.Proofs.Completion
import Stencil.Proofs.Omission
import Stencil.Proofs.BestEffort
import Stencil.Proofs.Named.Relevance
import Stencil.Proofs.Named.Configuration
import Stencil.Proofs.Scope
import Stencil.Proofs.Joining
import Stencil.Proofs.Filling
import Stencil.Proofs.Lengths
import Stencil.Proofs.Token.Gaps
import Stencil.Proofs.Token.Passes
import Stencil.Proofs.Textual
