import TssSvc.Lib.Codec
import TssSvc.Lib.GoString
import TssSvc.Lib.Gob
import TssSvc.Lib.Machine
import TssSvc.Broadcast.Message
import TssSvc.Broadcast.Reliable
import TssSvc.Broadcast.Network
import TssSvc.Broadcast.Validity
import TssSvc.Broadcast.Agreement
import TssSvc.Broadcast.Verdict
import TssSvc.Lib.Proto
import TssSvc.Db.Deposits
import TssSvc.Session.Payload
import TssSvc.Lib.Decimal
import TssSvc.Lib.Hex
import TssSvc.Bridge.Chain
import TssSvc.Bridge.Fetcher
import TssSvc.Bridge.Evm
import TssSvc.Bridge.Solana
import TssSvc.Bridge.Encoding
import TssSvc.Bridge.Utxo
import TssSvc.Bridge.Zano
import TssSvc.Bridge.Events
import TssSvc.Session.Mechanism
import TssSvc.Bridge.Admission
import TssSvc.Bridge.Uniqueness
import TssSvc.Bridge.Signability
import TssSvc.Bridge.TonDeposit
import TssSvc.Bridge.Ton
import TssSvc.Bridge.UtxoWithdrawal
import TssSvc.Bridge.Withdrawal
import TssSvc.Session.ProposalBinding
import TssSvc.Party.Writers
import TssSvc.Party.Final
import TssSvc.Lib.Quorum
import TssSvc.Party.SigningOnce
import TssSvc.Party.Refinement
import TssSvc.Lib.Rank
import TssSvc.Tss.PartyIndex
import TssSvc.Tss.SigningIndices
import TssSvc.Broadcast.Progress
import TssSvc.Broadcast.Survival
import TssSvc.Session.Consensus
import TssSvc.Session.SignerSet
import TssSvc.Bridge.UtxoSoundness
import TssSvc.Bridge.ZanoSoundness
import TssSvc.Party.StoredSignature
import TssSvc.Party.RunSession
import TssSvc.Session.Schedule
import TssSvc.Session.Catchup
import TssSvc.P2p.SessionManager
import TssSvc.P2p.Wedge
import TssSvc.Bridge.Totality
import TssSvc.Bridge.Consolidation
import TssSvc.Bridge.ZanoOwnership
import TssSvc.Session.Acceptor
import TssSvc.Session.Handlers
import TssSvc.Tss.PartyChannel
import TssSvc.Tss.SigningRounds
import TssSvc.P2p.Routing
import TssSvc.Session.PayloadKeys
import TssSvc.Bridge.Amounts
import TssSvc.Bridge.Confirmations
import TssSvc.Bridge.Memo
import TssSvc.Session.Leader
import TssSvc.Bridge.SignHashes
import TssSvc.Broadcast.HonestRelay
import TssSvc.Bridge.Finality
import TssSvc.Bridge.CheckSum
import TssSvc.Broadcast.SignatureChain
import TssSvc.Bridge.ZanoExtra
import TssSvc.Session.SignerChoice
import TssSvc.Bridge.CoinSource
import TssSvc.Bridge.ConsolidationValue
import TssSvc.Lib.Outbox
import TssSvc.Party.Watch
import TssSvc.Party.Handover
import TssSvc.Party.Distributor
import TssSvc.Party.Dissemination
import TssSvc.P2p.Registry
import TssSvc.P2p.Submit
import TssSvc.Session.Protocol
import TssSvc.Session.Accord
import TssSvc.Session.Signing
import TssSvc.Session.Conclusion
import TssSvc.Bridge.UtxoInjection
import TssSvc.Party.Announcements
import TssSvc.Bridge.ConsolidationSession
