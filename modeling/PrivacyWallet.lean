import PrivacyWallet.Api.Pagination
import PrivacyWallet.Api.QueryErrors
import PrivacyWallet.Api.Routes
import PrivacyWallet.Asp.Absence
import PrivacyWallet.Asp.Allowlist
import PrivacyWallet.Asp.BlockedKeys
import PrivacyWallet.Asp.Deletion
import PrivacyWallet.Asp.Insertion
import PrivacyWallet.Asp.Membership
import PrivacyWallet.Asp.NonMembership
import PrivacyWallet.Asp.Refinement
import PrivacyWallet.Asp.Rounds
import PrivacyWallet.Backfill.Archive
import PrivacyWallet.Backfill.ArchiveOrder
import PrivacyWallet.Backfill.Fetch
import PrivacyWallet.Backfill.Load
import PrivacyWallet.Bootnode.Handler
import PrivacyWallet.Bootnode.Handoff
import PrivacyWallet.Bootnode.Replay
import PrivacyWallet.Bootnode.Replica
import PrivacyWallet.Circuits.Completeness
import PrivacyWallet.Circuits.PolicyTransaction
import PrivacyWallet.Circuits.SparseVerifier
import PrivacyWallet.Circuits.Templates
import PrivacyWallet.Indexer.CursorProgress
import PrivacyWallet.Indexer.Database
import PrivacyWallet.Indexer.ExactlyOnce
import PrivacyWallet.Indexer.Lossless
import PrivacyWallet.Indexer.NormalizeCt
import PrivacyWallet.Indexer.Poller
import PrivacyWallet.Indexer.Sources
import PrivacyWallet.Indexer.StateMachine
import PrivacyWallet.Indexer.Worker
import PrivacyWallet.Lib.Async
import PrivacyWallet.Lib.Base64
import PrivacyWallet.Lib.BinaryTree
import PrivacyWallet.Lib.CappedLog
import PrivacyWallet.Lib.Checks
import PrivacyWallet.Lib.Decimal
import PrivacyWallet.Lib.Guarantee
import PrivacyWallet.Lib.Invoke
import PrivacyWallet.Lib.Json
import PrivacyWallet.Lib.Keyset
import PrivacyWallet.Lib.Notes
import PrivacyWallet.Lib.Numeral
import PrivacyWallet.Lib.Ring
import PrivacyWallet.Lib.Run
import PrivacyWallet.Lib.Selection
import PrivacyWallet.Lib.Shares
import PrivacyWallet.Lib.SparseStore
import PrivacyWallet.Lib.SparseTree
import PrivacyWallet.Lib.Table
import PrivacyWallet.Lib.Task
import PrivacyWallet.Lib.Text
import PrivacyWallet.Lib.Utf8
import PrivacyWallet.Lib.Watermark
import PrivacyWallet.Planner.Chains
import PrivacyWallet.Planner.Combination
import PrivacyWallet.Planner.Completion
import PrivacyWallet.Planner.Fewest
import PrivacyWallet.Planner.Plan
import PrivacyWallet.Planner.Session
import PrivacyWallet.Pool.AllowedInputs
import PrivacyWallet.Pool.Amounts
import PrivacyWallet.Pool.CircuitNotes
import PrivacyWallet.Pool.CircuitSoundness
import PrivacyWallet.Pool.Conservation
import PrivacyWallet.Pool.Contract
import PrivacyWallet.Pool.Divest
import PrivacyWallet.Pool.Invest
import PrivacyWallet.Pool.Liabilities
import PrivacyWallet.Pool.Merkle
import PrivacyWallet.Pool.MerkleTree
import PrivacyWallet.Pool.RootHistory
import PrivacyWallet.Pool.Runs
import PrivacyWallet.Pool.ShareVault
import PrivacyWallet.Pool.Solvency
import PrivacyWallet.Pool.Specs
import PrivacyWallet.Pool.State
import PrivacyWallet.Pool.Statement
import PrivacyWallet.Pool.Transact
import PrivacyWallet.Pool.VaultOutage
import PrivacyWallet.Pool.Withdrawal
import PrivacyWallet.Pool.YieldRounding
import PrivacyWallet.Prover.Flows
import PrivacyWallet.Prover.MerkleTree
import PrivacyWallet.Prover.Notes
import PrivacyWallet.Prover.PrefixTree
import PrivacyWallet.Prover.Provable
import PrivacyWallet.Soroban.Host
import PrivacyWallet.Soroban.Poseidon
import PrivacyWallet.Storage.Balances
import PrivacyWallet.Storage.Events
import PrivacyWallet.Storage.Invariant
import PrivacyWallet.Storage.Leaves
import PrivacyWallet.Storage.PoolTree
import PrivacyWallet.Storage.Portfolio
import PrivacyWallet.Storage.Reconciling
import PrivacyWallet.Storage.Scanning
import PrivacyWallet.Storage.Settling
import PrivacyWallet.Storage.Tables
import PrivacyWallet.Wallet.Backup
import PrivacyWallet.Wallet.BoundaryLog
import PrivacyWallet.Wallet.CtCircuits
import PrivacyWallet.Wallet.CtCrypto
import PrivacyWallet.Wallet.CtIndexer
import PrivacyWallet.Wallet.CtProvider
import PrivacyWallet.Wallet.CtState
import PrivacyWallet.Wallet.CtSyncs
import PrivacyWallet.Wallet.EventRoutes
import PrivacyWallet.Wallet.Events
import PrivacyWallet.Wallet.Format
import PrivacyWallet.Wallet.Openings
import PrivacyWallet.Wallet.Provider
import PrivacyWallet.Wallet.Resolve
import PrivacyWallet.Wallet.ShieldedConnect
import PrivacyWallet.Wallet.ShieldedNotice
import PrivacyWallet.Wallet.SppRail
import PrivacyWallet.Wallet.Token
import PrivacyWallet.Wallet.Tracking
import PrivacyWallet.Wallet.TransferAmount
