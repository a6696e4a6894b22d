import Columnar.Workspace.Text
import Columnar.Memory.Pool
import Columnar.Proofs.Assembly
import Columnar.Proofs.Building.Alignment
import Columnar.Proofs.Building.Attribution
import Columnar.Proofs.Building.Bulk
import Columnar.Proofs.Building.Entries
import Columnar.Proofs.Building.Reserving
import Columnar.Proofs.Building.Resetting
import Columnar.Proofs.Building.Scalars
import Columnar.Proofs.Building.Typing
import Columnar.Proofs.Building.Validity
import Columnar.Proofs.MapsAsLists
import Columnar.Proofs.Masks
import Columnar.Proofs.Memory.Accounting
import Columnar.Proofs.Memory.ByteLists
import Columnar.Proofs.Memory.Regions
import Columnar.Proofs.Safety
import Columnar.Proofs.Symmetry
import Columnar.Proofs.TypeTexts
import Columnar.Proofs.Windows
