import ProseMap.Node.Json
import ProseMap.Projection
import ProseMap.Proofs.Walks
import ProseMap.Proofs.Widths
import ProseMap.Proofs.Order
import ProseMap.Proofs.Queries
import ProseMap.Proofs.Edits
import ProseMap.Proofs.Visits
import ProseMap.Proofs.Masks
import ProseMap.Proofs.Coverage
import ProseMap.Proofs.Parts
import ProseMap.Proofs.Outcomes
import ProseMap.Proofs.Sources
import ProseMap.Proofs.Shifts
import ProseMap.Proofs.Coordinates
import ProseMap.Proofs.Saving
import ProseMap.Proofs.Loaders
import ProseMap.Proofs.Alignment
import ProseMap.Proofs.OtherTexts
import ProseMap.Proofs.Occurrences
import ProseMap.Proofs.Schema
import ProseMap.Proofs.Searches
import ProseMap.Proofs.Dependence
import ProseMap.Proofs.Integers
import ProseMap.Proofs.Redactions
