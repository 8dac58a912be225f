import Quartermaster.Agreement
import Quartermaster.Main
import Quartermaster.Samples
import Quartermaster.Proofs.Board
import Quartermaster.Proofs.Choice
import Quartermaster.Proofs.Queue
import Quartermaster.Proofs.Purchase
import Quartermaster.Proofs.Budget
import Quartermaster.Proofs.Conservation
import Quartermaster.Proofs.Frontier
import Quartermaster.Proofs.Ceiling
import Quartermaster.Proofs.Rules
import Quartermaster.Proofs.Admission
import Quartermaster.Proofs.Execution
import Quartermaster.Proofs.Output
import Quartermaster.Proofs.Composition
import Quartermaster.Proofs.Consistency
import Quartermaster.Proofs.Destinations
import Quartermaster.Proofs.Completion
import Quartermaster.Proofs.Antitone
import Quartermaster.Proofs.Saturation
import Quartermaster.Proofs.Legality
import Quartermaster.Proofs.Lessening
import Quartermaster.Proofs.Turns
import Quartermaster.Proofs.Waiting
import Quartermaster.Proofs.Defenders
import Quartermaster.Proofs.Charging
import Quartermaster.Proofs.Proportion
import Quartermaster.Proofs.Leftover
import Quartermaster.Proofs.Recount
import Quartermaster.Proofs.View
import Quartermaster.Proofs.Secrecy
import Quartermaster.Proofs.Reservations
import Quartermaster.Proofs.Garrison
import Quartermaster.Proofs.Numbering
import Quartermaster.Proofs.Accounts
import Quartermaster.Proofs.Text.Tokens
import Quartermaster.Proofs.Text.Nodes
import Quartermaster.Proofs.Codec
import Quartermaster.Proofs.Storage
import Quartermaster.Proofs.Saving
import Quartermaster.Proofs.Acceptance
import Quartermaster.Proofs.Exhaustion
import Quartermaster.Proofs.Merit
import Quartermaster.Proofs.Accord
import Quartermaster.Proofs.Naming
import Quartermaster.Proofs.Allotment
import Quartermaster.Proofs.Passage
import Quartermaster.Proofs.Efficiency
import Quartermaster.Proofs.Rejection
import Quartermaster.Proofs.Piecewise
import Quartermaster.Proofs.Pricing
import Quartermaster.Proofs.Verdict
