import Dcr.CommandLine.Execution
import Dcr.Document.Loading
import Dcr.Document.Writing
import Dcr.Editor
import Dcr.Main
import Dcr.Proofs.Availability
import Dcr.Proofs.Cascades
import Dcr.Proofs.Choices
import Dcr.Proofs.Clauses
import Dcr.Proofs.Coverage
import Dcr.Proofs.Cycles
import Dcr.Proofs.Descent
import Dcr.Proofs.Entries
import Dcr.Proofs.Fates
import Dcr.Proofs.Forest
import Dcr.Proofs.Loading
import Dcr.Proofs.Locking
import Dcr.Proofs.Misreadings
import Dcr.Proofs.Normalizing
import Dcr.Proofs.Numbers
import Dcr.Proofs.Persistence
import Dcr.Proofs.Positions
import Dcr.Proofs.Recursion
import Dcr.Proofs.Refusals
import Dcr.Proofs.Renaming
import Dcr.Proofs.Reordering
import Dcr.Proofs.Rereading
import Dcr.Proofs.Runs
import Dcr.Proofs.Staleness
import Dcr.Proofs.Survival
import Dcr.Proofs.Trails
import Dcr.Proofs.Visibility
import Dcr.Proofs.Wrapping
