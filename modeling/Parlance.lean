import Parlance.Main
import Parlance.Proofs.Basename
import Parlance.Proofs.Clients
import Parlance.Proofs.Collections
import Parlance.Proofs.Containment
import Parlance.Proofs.Copying
import Parlance.Proofs.Dispatch
import Parlance.Proofs.ElseBranch
import Parlance.Proofs.EventKey
import Parlance.Proofs.Files
import Parlance.Proofs.Folding
import Parlance.Proofs.Importing
import Parlance.Proofs.Indexing
import Parlance.Proofs.Inheritance
import Parlance.Proofs.Inventory
import Parlance.Proofs.Lacking
import Parlance.Proofs.LoopScope
import Parlance.Proofs.NameSpan
import Parlance.Proofs.NormalBag
import Parlance.Proofs.Order
import Parlance.Proofs.Padding
import Parlance.Proofs.Placement
import Parlance.Proofs.Rounds
import Parlance.Proofs.Settings
import Parlance.Proofs.Sorting
import Parlance.Proofs.Splitting
import Parlance.Proofs.Termination
import Parlance.Proofs.Transform
import Parlance.Proofs.Warnings
import Parlance.Proofs.WholeNumbers
import Parlance.Proofs.WrittenNumbers
