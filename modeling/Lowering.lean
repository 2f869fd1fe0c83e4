import Lowering.Command.Directory
import Lowering.Main
import Lowering.Proofs.CallDepth
import Lowering.Proofs.LabelCount
import Lowering.Proofs.LabelHistory
import Lowering.Proofs.KeyTree
import Lowering.Proofs.Cycles
import Lowering.Proofs.TableCheck
import Lowering.Proofs.Shipped
import Lowering.Proofs.Control.Expansion
import Lowering.Proofs.Control.Program
import Lowering.Proofs.Control.Semantics
import Lowering.Proofs.Control.Simulation
import Lowering.Proofs.Control.Lowering
import Lowering.Proofs.Control.Preservation
import Lowering.Proofs.LineResults
import Lowering.Proofs.Rejection
import Lowering.Proofs.Positions
import Lowering.Proofs.Linked
import Lowering.Proofs.Configuration
import Lowering.Proofs.TargetCode
import Lowering.Proofs.Comparison.Machine
import Lowering.Proofs.Comparison.Relation
import Lowering.Proofs.Comparison.Expansion
import Lowering.Proofs.Comparison.Fusion
import Lowering.Proofs.Control.Nested
import Lowering.Proofs.Nesting
import Lowering.Proofs.RoleFrames
import Lowering.Proofs.Policies
import Lowering.Proofs.Numbering.Renumbering
import Lowering.Proofs.Numbering.Units
import Lowering.Proofs.LineReports
import Lowering.Proofs.Inclusion
import Lowering.Proofs.CallSites
import Lowering.Proofs.Linkage
import Lowering.Proofs.Descriptors
import Lowering.Proofs.DescriptorBytes
import Lowering.Proofs.SourceSignatures
import Lowering.Proofs.Bootstraps
import Lowering.Proofs.DirectCalls
import Lowering.Proofs.Replacement
import Lowering.Proofs.IndirectCalls
import Lowering.Proofs.IntegerLiterals
import Lowering.Proofs.IntegerConstants
import Lowering.Proofs.Registrations
import Lowering.Proofs.ReadBack
import Lowering.Proofs.Deliveries
import Lowering.Proofs.Mnemonics
import Lowering.Proofs.FieldInstructions
import Lowering.Proofs.IntegerWords
import Lowering.Proofs.HexadecimalLiterals
import Lowering.Proofs.LeadingDigits
