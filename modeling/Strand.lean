import Strand.Program
import Strand.Proofs.Callers
import Strand.Proofs.Cancellation
import Strand.Proofs.Custody
import Strand.Proofs.Handlers
import Strand.Proofs.Publication
import Strand.Proofs.Panics
import Strand.Proofs.Reentries
import Strand.Proofs.Lanes
import Strand.Proofs.Posts
import Strand.Proofs.Honesty
import Strand.Proofs.Closures
import Strand.Proofs.Deeds
import Strand.Proofs.Entrances
import Strand.Proofs.Failures
import Strand.Proofs.DepthFirst
import Strand.Proofs.Journeys
import Strand.Proofs.Book
import Strand.Proofs.Reclamation
import Strand.Proofs.Reinstatement
import Strand.Proofs.Aborts
import Strand.Proofs.Captives
import Strand.Proofs.Lives
import Strand.Proofs.Freeing
import Strand.Proofs.Queues
import Strand.Proofs.Tasks
import Strand.Proofs.Leftovers
import Strand.Proofs.Sweeps
import Strand.Proofs.Sequential
