import Yes3.Rules.DynArray
import Yes3.Rules.CallTree
import Yes3.Rules.Unwinding
import Yes3.Rules.Deferred
import Yes3.Rules.Parts
import Yes3.Rules.Beside
import Yes3.Rules.Register
import Yes3.Rules.Replay
import Yes3.Rules.ByteMemory
import Yes3.Rules.Rfc4648
import Yes3.Rules.Decimal
import Yes3.Rules.Holdings
import Yes3.Evm
import Yes3.Memory
import Yes3.LyonPrompt.Types
import Yes3.LyonPrompt.Contract
import Yes3.LyonPrompt.Exec
import Yes3.LyonPrompt.Reentrancy
import Yes3.LyonPrompt.OwnerIndex
import Yes3.LyonPrompt.Minting
import Yes3.LyonPrompt.OwnerOf
import Yes3.LyonPrompt.Deliveries
import Yes3.LyonPrompt.Lifecycle
import Yes3.LyonPrompt.Registry
import Yes3.LyonPrompt.Provenance
import Yes3.LyonPrompt.EventLog
import Yes3.LyonPrompt.Supply
import Yes3.LyonPrompt.Tally
import Yes3.LyonPrompt.ReplyAlgebra
import Yes3.LyonPrompt.Isolation
import Yes3.LyonPrompt.Endorsements
import Yes3.LyonPrompt.ReplyIndex
import Yes3.LyonPrompt.ReplyBook
import Yes3.LyonPrompt.ReplyKeys
import Yes3.LyonPrompt.BurnReplies
import Yes3.LyonPrompt.Erasure
import Yes3.LyonPrompt.Authority
import Yes3.LyonPrompt.ToString
import Yes3.ERC721.Token
import Yes3.ERC721.Log
import Yes3.LyonTemplate.Types
import Yes3.LyonTemplate.Contract
import Yes3.LyonTemplate.Exec
import Yes3.LyonTemplate.Pending
import Yes3.LyonTemplate.MintLog
import Yes3.LyonTemplate.Ledger
import Yes3.LyonTemplate.Consent
import Yes3.LyonTemplate.Reentrancy
import Yes3.LyonTemplate.HalfMinted
import Yes3.LyonTemplate.Permission
import Yes3.LyonTemplate.OwnerIndex
import Yes3.LyonTemplate.Deliveries
import Yes3.LyonTemplate.UriAuthority
import Yes3.System
import Yes3.Base64.Encode
import Yes3.Base64.Correct
import Yes3.Base64.Stray
import Yes3.Base64.Frame
import Yes3.Base64.Sequence
