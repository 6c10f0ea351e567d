import Lox.Command.Run
import Lox.Proofs.Grammar.Recognition
import Lox.Proofs.Scoping.Session
import Lox.Proofs.Joining.Session
import Lox.Proofs.Listing
import Lox.Proofs.Acceptance
import Lox.Proofs.Token.Segmentation
import Lox.Proofs.Token.Layout
import Lox.Proofs.Running.Frame
import Lox.Proofs.Running.Integrity
import Lox.Proofs.Running.Session
import Lox.Proofs.Objects.Construction
import Lox.Proofs.Renaming.Session
import Lox.Proofs.Tracing.Session
import Lox.Proofs.Usage.Session
import Lox.Proofs.Usage.Deserted
import Lox.Proofs.Binding.Distances
import Lox.Proofs.Grammar.Literals
import Lox.Proofs.Grammar.Recovery
import Lox.Proofs.Grammar.Semicolons
import Lox.Proofs.Grammar.Progress
import Lox.Proofs.Grammar.Breaks
import Lox.Proofs.Printing.Readability
import Lox.Proofs.Scoping.Superclasses
import Lox.Proofs.Loops.ForLoops
import Lox.Proofs.Scope.Chains
import Lox.Proofs.Grammar.Contexts
import Lox.Proofs.Binding.Restoration
