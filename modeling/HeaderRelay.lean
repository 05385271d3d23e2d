import HeaderRelay.Bytes.Lemmas
import HeaderRelay.Chain.Seed
import HeaderRelay.Inclusion
import HeaderRelay.Merkle.Tree
import HeaderRelay.Proofs.ByteMap
import HeaderRelay.Proofs.ByteMap.FiniteMap
import HeaderRelay.Proofs.ByteMap.Halving
import HeaderRelay.Proofs.Chain.Absorb
import HeaderRelay.Proofs.Chain.Archive
import HeaderRelay.Proofs.Chain.ArrivalOrder
import HeaderRelay.Proofs.Chain.Attachment
import HeaderRelay.Proofs.Chain.Batch
import HeaderRelay.Proofs.Chain.BatchSplit
import HeaderRelay.Proofs.Chain.BranchMap
import HeaderRelay.Proofs.Chain.ChallengeWindow
import HeaderRelay.Proofs.Chain.Chronicle
import HeaderRelay.Proofs.Chain.Confirmation
import HeaderRelay.Proofs.Chain.Decodable
import HeaderRelay.Proofs.Chain.DifficultyPeriods
import HeaderRelay.Proofs.Chain.Forest
import HeaderRelay.Proofs.Chain.Growth
import HeaderRelay.Proofs.Chain.History
import HeaderRelay.Proofs.Chain.Lineage
import HeaderRelay.Proofs.Chain.Promotion
import HeaderRelay.Proofs.Chain.PromotionEffect
import HeaderRelay.Proofs.Chain.PromotionEnd
import HeaderRelay.Proofs.Chain.Replay
import HeaderRelay.Proofs.Chain.Resubmission
import HeaderRelay.Proofs.Chain.Run
import HeaderRelay.Proofs.Chain.Seeding
import HeaderRelay.Proofs.Chain.TimeBound
import HeaderRelay.Proofs.Chain.TimestampHistory
import HeaderRelay.Proofs.Chain.Totality
import HeaderRelay.Proofs.Chain.Verification
import HeaderRelay.Proofs.Chain.Winner
import HeaderRelay.Proofs.Difficulty.CompactForm
import HeaderRelay.Proofs.Difficulty.CompactValue
import HeaderRelay.Proofs.Difficulty.RetargetRange
import HeaderRelay.Proofs.Difficulty.Work
import HeaderRelay.Proofs.Document.Canonical
import HeaderRelay.Proofs.Document.DigestText
import HeaderRelay.Proofs.Document.Fields
import HeaderRelay.Proofs.Document.FlatTip
import HeaderRelay.Proofs.Document.Guarantees
import HeaderRelay.Proofs.Document.Injective
import HeaderRelay.Proofs.Document.Ranges
import HeaderRelay.Proofs.Document.RoundTrip
import HeaderRelay.Proofs.Document.Soundness
import HeaderRelay.Proofs.HeaderWire
import HeaderRelay.Proofs.Hex
import HeaderRelay.Proofs.Json.Length
import HeaderRelay.Proofs.Json.RoundTrip
import HeaderRelay.Proofs.Json.Tokens
import HeaderRelay.Proofs.Merkle.BinaryCounter
import HeaderRelay.Proofs.Merkle.BlockProof
import HeaderRelay.Proofs.Merkle.HashTree
import HeaderRelay.Proofs.Merkle.HashedStrings
import HeaderRelay.Proofs.Merkle.Levels
import HeaderRelay.Proofs.Merkle.PathBinding
import HeaderRelay.Proofs.Merkle.RollingRoot
import HeaderRelay.Proofs.Merkle.RootBinding
import HeaderRelay.Proofs.Merkle.TransactionProof
import HeaderRelay.Proofs.Merkle.TreePath
import HeaderRelay.Proofs.Transaction.Identity
import HeaderRelay.Proofs.Transaction.Stripping
import HeaderRelay.Proofs.Transaction.WitnessForm
import HeaderRelay.Proofs.Validation.MedianTime
import HeaderRelay.Proofs.Validation.Refusals
import HeaderRelay.Proofs.Validation.Rules
import HeaderRelay.Proofs.Validation.Window
import HeaderRelay.Transaction
import HeaderRelay.Transition
