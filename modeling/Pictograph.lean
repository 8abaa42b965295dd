import Pictograph.Proofs.Classify.Refused
import Pictograph.Proofs.Classify.Tones
import Pictograph.Proofs.Compact
import Pictograph.Proofs.Compile.Consuming
import Pictograph.Proofs.Compile.Determined
import Pictograph.Proofs.Compile.Discipline
import Pictograph.Proofs.Compile.Flavors
import Pictograph.Proofs.Compile.Leading
import Pictograph.Proofs.Compile.Merged
import Pictograph.Proofs.Compile.Pairs
import Pictograph.Proofs.Decorate.Accounts
import Pictograph.Proofs.Decorate.Alike
import Pictograph.Proofs.Decorate.Dressed
import Pictograph.Proofs.Decorate.Settled
import Pictograph.Proofs.Grouping
import Pictograph.Proofs.Keys
import Pictograph.Proofs.Log.Faithful
import Pictograph.Proofs.Log.Refused
import Pictograph.Proofs.Markup.Reading
import Pictograph.Proofs.Registry
import Pictograph.Proofs.Settings
import Pictograph.Proofs.Taken
