import HZKA.Circuits.Aggregation
import HZKA.Circuits.AggregationRelation
import HZKA.Circuits.Audit
import HZKA.Circuits.ExchangePrepare
import HZKA.Circuits.ExchangeUnlock
import HZKA.Circuits.MerkleTree
import HZKA.Circuits.SHA256
import HZKA.Circuits.SingleBlock
import HZKA.Circuits.Synthesis
import HZKA.Circuits.Transfer
import HZKA.Clusters.Authority
import HZKA.Clusters.Challenges
import HZKA.Clusters.Complexity
import HZKA.Clusters.Election
import HZKA.Clusters.Membership
import HZKA.Clusters.Partition
import HZKA.Clusters.Reshuffle
import HZKA.Clusters.Transition
import HZKA.Clusters.Verdicts
import HZKA.Contracts.AuditV1
import HZKA.Contracts.AuditV2
import HZKA.Contracts.ClusterManager
import HZKA.Contracts.Denomination
import HZKA.Contracts.Exchange
import HZKA.Contracts.Groth16Verifier
import HZKA.Contracts.ReputationRegistry
import HZKA.Contracts.Transfer
import HZKA.EVM.Abi
import HZKA.EVM.Calldata
import HZKA.EVM.Keccak
import HZKA.Lib.Bins
import HZKA.Lib.Bytes
import HZKA.Lib.CheckedArray
import HZKA.Lib.ConstraintSystem
import HZKA.Lib.Counting
import HZKA.Lib.Forest
import HZKA.Lib.GreedyMatching
import HZKA.Lib.Interleaving
import HZKA.Lib.LayerPath
import HZKA.Lib.LayeredRoot
import HZKA.Lib.LeadingZeros
import HZKA.Lib.Merkle
import HZKA.Lib.MixedRadix
import HZKA.Lib.NewtonRoot
import HZKA.Lib.PairingGroup
import HZKA.Lib.RecordStore
import HZKA.Lib.Reentrancy
import HZKA.Lib.Remote
import HZKA.Lib.Revert
import HZKA.Lib.RoundRobin
import HZKA.Lib.Run
import HZKA.Lib.RunningBest
import HZKA.Lib.Sha256
import HZKA.Lib.Shuffle
import HZKA.Lib.SingleDip
import HZKA.Lib.Sweep
import HZKA.Lib.Totals
import HZKA.Lib.WeightedChoice
import HZKA.Phi.Accounting
import HZKA.Phi.HashLock
import HZKA.Phi.Swap
import HZKA.Psi.ClusterCommitment
import HZKA.Psi.ClusterPath
import HZKA.Psi.Groups
import HZKA.Psi.Quorum
import HZKA.Psi.RootHistory
import HZKA.Psi.Selection
import HZKA.Psi.SingleAudit
import HZKA.Psi.StateTransition
import HZKA.Psi.Transition
import HZKA.Psi.WeightedAudit
import HZKA.Psi.WriteOnce
import HZKA.PsiV1.Aggregation
import HZKA.PsiV1.History
import HZKA.PsiV1.Lifecycle
import HZKA.PsiV1.Linking
import HZKA.PsiV1.Stakes
import HZKA.PsiV1.Tree
import HZKA.Relay.Blocks
import HZKA.Relay.Committer
import HZKA.Relay.Daemon
import HZKA.Relay.MerkleRoots
import HZKA.Relay.SPV
import HZKA.Relay.Signatures
import HZKA.Relay.Wire
import HZKA.Reputation.AppealWindow
import HZKA.Reputation.Appeals
import HZKA.Reputation.Endorsement
import HZKA.Reputation.Honesty
import HZKA.Reputation.Invariant
import HZKA.Reputation.Order
import HZKA.Reputation.ProofOfWork
import HZKA.Reputation.Recovery
import HZKA.Reputation.Refinement
import HZKA.Reputation.Registration
import HZKA.Reputation.Stake
import HZKA.Reputation.Transition
import HZKA.Simulator.Capture
import HZKA.Simulator.Churn
import HZKA.Simulator.Clustering
import HZKA.Simulator.Isolation
import HZKA.Simulator.MFPoP
import HZKA.Simulator.Rounds
import HZKA.Simulator.Simulation
import HZKA.Theta.Accounting
import HZKA.Theta.Backing
import HZKA.Theta.Denominations
import HZKA.Theta.Payout
import HZKA.Theta.Solvency
import HZKA.Theta.SplitBurn
import HZKA.Theta.World
import HZKA.Verifier.Agreement
import HZKA.Verifier.Grammar
import HZKA.Verifier.Library
import HZKA.Verifier.Native
