import Processor64.Main
import Processor64.Proofs.Accounts
import Processor64.Proofs.AddressSpaces
import Processor64.Proofs.Atomicity
import Processor64.Proofs.BitFields
import Processor64.Proofs.Budget
import Processor64.Proofs.ByteMap
import Processor64.Proofs.Bytewise
import Processor64.Proofs.Calls
import Processor64.Proofs.Checked.Cycles
import Processor64.Proofs.Conversation
import Processor64.Proofs.Decision
import Processor64.Proofs.Delivery
import Processor64.Proofs.Frame
import Processor64.Proofs.Fresh
import Processor64.Proofs.Inclusion
import Processor64.Proofs.Legality
import Processor64.Proofs.Lifecycle
import Processor64.Proofs.Meaning
import Processor64.Proofs.Mnemonics
import Processor64.Proofs.Operand
import Processor64.Proofs.Overlay
import Processor64.Proofs.Packing
import Processor64.Proofs.Precise
import Processor64.Proofs.Preview
import Processor64.Proofs.Probing
import Processor64.Proofs.Progress
import Processor64.Proofs.Replacement
import Processor64.Proofs.Reservations
import Processor64.Proofs.Retry
import Processor64.Proofs.Secrecy
import Processor64.Proofs.Sums
