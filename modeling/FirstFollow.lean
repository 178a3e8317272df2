import FirstFollow.Session
import FirstFollow.Store.Printer
import FirstFollow.Proofs.Derivation
import FirstFollow.Proofs.Outcome
import FirstFollow.Proofs.Passes
import FirstFollow.Proofs.Growth
import FirstFollow.Proofs.Saturation
import FirstFollow.Proofs.Scan
import FirstFollow.Proofs.Concatenation
import FirstFollow.Proofs.FirstSets
import FirstFollow.Proofs.Analysis
import FirstFollow.Proofs.FollowRules
import FirstFollow.Proofs.FollowSolution
import FirstFollow.Proofs.FollowPass
import FirstFollow.Proofs.Convergence
import FirstFollow.Proofs.Solvability
import FirstFollow.Proofs.FollowSets
import FirstFollow.Proofs.Simulation
import FirstFollow.Proofs.Meaning
import FirstFollow.Proofs.Numbering
import FirstFollow.Proofs.Emission
import FirstFollow.Proofs.Encoding
import FirstFollow.Proofs.Walk
import FirstFollow.Proofs.Build
import FirstFollow.Proofs.Reading
import FirstFollow.Proofs.Soundness
import FirstFollow.Proofs.Completeness
import FirstFollow.Proofs.Language
import FirstFollow.Proofs.Productions
import FirstFollow.Proofs.Ownership
import FirstFollow.Proofs.KeyOrder
import FirstFollow.Proofs.WellFormed
import FirstFollow.Proofs.StoreHistory
import FirstFollow.Proofs.Freezing
import FirstFollow.Proofs.Rearrangement
import FirstFollow.Proofs.Symbols
import FirstFollow.Proofs.BuiltStores
import FirstFollow.Proofs.Failures
import FirstFollow.Proofs.Refusal
import FirstFollow.Proofs.Issuing
import FirstFollow.Proofs.Answers
import FirstFollow.Proofs.Extension
import FirstFollow.Proofs.Exposure
import FirstFollow.Proofs.FirstAgreement
import FirstFollow.Proofs.FollowFailure
import FirstFollow.Proofs.RightEnds
import FirstFollow.Proofs.AnalysisOutcome
import FirstFollow.Proofs.Bracketing
import FirstFollow.Proofs.Flatness
import FirstFollow.Proofs.Rendering
