import ConstFold.Main
import ConstFold.Proofs.Collecting
import ConstFold.Proofs.Collectors
import ConstFold.Proofs.Decimals
import ConstFold.Proofs.Diagnostics
import ConstFold.Proofs.Discarded
import ConstFold.Proofs.Documents
import ConstFold.Proofs.Evaluation
import ConstFold.Proofs.Interchange
import ConstFold.Proofs.Isolation
import ConstFold.Proofs.Ledger
import ConstFold.Proofs.Limits
import ConstFold.Proofs.Meaning
import ConstFold.Proofs.Mismatches
import ConstFold.Proofs.Nearest
import ConstFold.Proofs.NormalForm
import ConstFold.Proofs.Powers
import ConstFold.Proofs.Pruning
import ConstFold.Proofs.Readability
import ConstFold.Proofs.Representation
import ConstFold.Proofs.Representatives
import ConstFold.Proofs.Staging
import ConstFold.Proofs.Stops
import ConstFold.Proofs.Tables
import ConstFold.Proofs.Writes
import ConstFold.Semantics
import ConstFold.World
