import Mis.Log
import Mis.Main
import Mis.Proofs.Closed
import Mis.Proofs.Simulation
import Mis.Proofs.Agreement
import Mis.Proofs.Capture
import Mis.Proofs.Writing
import Mis.Proofs.Failing
import Mis.Proofs.Lexing
import Mis.Proofs.Renumbering
import Mis.Proofs.Reordering
import Mis.Proofs.Insertion
import Mis.Proofs.Printing
import Mis.Proofs.ExternalNames
import Mis.Proofs.TypeNames
import Mis.Proofs.DefinitionOrder
import Mis.Proofs.Files
import Mis.Proofs.Commands
import Mis.Proofs.CallOrder
import Mis.Proofs.Copies
import Mis.Proofs.Locals
import Mis.Proofs.Values
import Mis.Proofs.NodeCount
import Mis.Proofs.Joining
import Mis.Proofs.Merging
import Mis.Proofs.Excerpts
import Mis.Proofs.Literals
import Mis.Proofs.Lookups
import Mis.Proofs.Recording
import Mis.Proofs.Progress
