import AergoLite.Library.Refresh
import AergoLite.Library.Transition
import AergoLite.Library.TwoRoundVoting
import AergoLite.Library.Ledger
import AergoLite.Library.KeyedChain
import AergoLite.Library.Savepoints
import AergoLite.Library.Ranking
import AergoLite.Library.CString
import AergoLite.Library.Loops
import AergoLite.Library.StreamCipher
import AergoLite.Library.MultiPrecision
import AergoLite.Core.Basic
import AergoLite.Core.Ciphers
import AergoLite.Core.Xrc4
import AergoLite.Core.Codec
import AergoLite.Core.Base58
import AergoLite.Core.Addresses
import AergoLite.Core.AuthorizationRefresh
import AergoLite.Core.AuthorizationRuns
import AergoLite.Core.AuthorizationLoading
import AergoLite.Core.Authorizations
import AergoLite.Core.BlockVotes
import AergoLite.Core.Transactions
import AergoLite.Core.SignedText
import AergoLite.Core.SerializedSize
import AergoLite.NoLeader.Mempool
import AergoLite.Core.Statements
import AergoLite.Core.Databases
import AergoLite.Core.Pragmas
import AergoLite.Core.NodeTypePragma
import AergoLite.Core.Execution
import AergoLite.Core.AccessRights
import AergoLite.Core.Blocks
import AergoLite.Core.Savepoints
import AergoLite.Core.Determinism
import AergoLite.NoLeader.Identification
import AergoLite.NoLeader.PeerAuthentication
import AergoLite.NoLeader.PeerMessages
import AergoLite.NoLeader.PageTransfer
import AergoLite.NoLeader.DuplicateConnections
import AergoLite.NoLeader.Plugin
import AergoLite.NoLeader.Consensus
import AergoLite.NoLeader.Handlers
import AergoLite.NoLeader.Voting
import AergoLite.NoLeader.Refinement
import AergoLite.NoLeader.SingleVote
import AergoLite.NoLeader.Authenticity
import AergoLite.NoLeader.Agreement
import AergoLite.NoLeader.StoredVotes
import AergoLite.NoLeader.VoteCounting
import AergoLite.NoLeader.ConvertedVotes
import AergoLite.NoLeader.BlockChoice
import AergoLite.NoLeader.WaitTimes
import AergoLite.NoLeader.Chain
import AergoLite.NoLeader.MempoolCleanup
import AergoLite.NoLeader.MempoolMemory
import AergoLite.Core.Calls
import AergoLite.Core.Notifications
import AergoLite.Core.NodeRows
import AergoLite.Core.Nonces
import AergoLite.Core.LastNonces
import AergoLite.Core.FailedTransactions
import AergoLite.NoLeader.OpenBlock
import AergoLite.NoLeader.Replay
import AergoLite.NoLeader.TransactionIds
import AergoLite.NoLeader.BlockCreation
import AergoLite.NoLeader.RoundChange
import AergoLite.Core.BlockHeader
import AergoLite.NoLeader.BlockIds
import AergoLite.Core.HeaderCodec
import AergoLite.Common.Array
import AergoLite.Common.SortedArray
import AergoLite.Common.ArrayOperations
import AergoLite.Common.MsgFraming
import AergoLite.Common.FramingBounds
import AergoLite.Common.LinkedList
import AergoLite.Common.CallQueue
import AergoLite.Core.PageHashes
import AergoLite.Core.StateHash
import AergoLite.Core.CommitPages
import AergoLite.Core.StateUpdate
import AergoLite.Core.PageHistory
import AergoLite.Core.History
import AergoLite.Core.StoredBlocks
import AergoLite.NoLeader.StateUpdate
import AergoLite.NoLeader.Synchronization
import AergoLite.NoLeader.UpdateTransactions
import AergoLite.NoLeader.ContactedNodes
import AergoLite.NoLeader.RequestLoop
import AergoLite.NoLeader.SpecialTransactions
import AergoLite.NoLeader.StateRequests
import AergoLite.NoLeader.BlockRequests
import AergoLite.NoLeader.HistoryDownload
import AergoLite.Core.TransactionRows
import AergoLite.NoLeader.TransactionRequests
import AergoLite.NoLeader.BlockTransactions
import AergoLite.Core.WalLog
import AergoLite.Core.LogRotation
import AergoLite.Core.LocalTransactions
import AergoLite.Core.TransactionCapture
import AergoLite.Core.CapturedRuns
import AergoLite.Core.RegularRuns
import AergoLite.NoLeader.SendLocalTransactions
import AergoLite.StoredProc.Commands
import AergoLite.StoredProc.Blocks
import AergoLite.StoredProc.OpenBlocks
import AergoLite.StoredProc.Semantics
import AergoLite.StoredProc.Refinement
import AergoLite.StoredProc.ForeachValues
import AergoLite.StoredProc.ResultRows
import AergoLite.StoredProc.CommandFilter
import AergoLite.StoredProc.RepeatedCalls
import AergoLite.StoredProc.Atomicity
import AergoLite.Library.Partition
import AergoLite.Core.RowIds
import AergoLite.Library.BlockHash
import AergoLite.Common.Sha256
import AergoLite.NoLeader.PeerChannel
import AergoLite.Library.Crc
import AergoLite.Common.Checksum
import AergoLite.Core.Signing
import AergoLite.NoLeader.CatchUp
import AergoLite.NoLeader.NodeDiscovery
import AergoLite.Core.Rekey
import AergoLite.Library.Lexer
import AergoLite.Core.Tokenizer
import AergoLite.Core.TokenShapes
import AergoLite.Core.TokenEnds
import AergoLite.Core.ExpandedSql
import AergoLite.Core.RecordedSql
import AergoLite.Core.LiteralValues
import AergoLite.Core.AttachedSql
import AergoLite.StoredProc.CallArguments
