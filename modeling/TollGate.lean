import TollGate.Lib.Run
import TollGate.Lib.Loop
import TollGate.Lib.BoundedTable
import TollGate.Lib.Slots
import TollGate.Lib.Scan
import TollGate.Lib.FixedWindow
import TollGate.Lib.CTypes
import TollGate.Lib.CJson
import TollGate.Lib.CText
import TollGate.Lib.FlatJson
import TollGate.Lib.JsonText
import TollGate.Lib.JsonNesting
import TollGate.Lib.JsonArray
import TollGate.Lib.JsonPrinter
import TollGate.Lib.JsonSplice
import TollGate.Lib.JsonWalk
import TollGate.Lib.ByteOrder
import TollGate.Lib.Base64
import TollGate.Lib.Crc
import TollGate.Lib.TombstoneLog
import TollGate.Lib.Rounding
import TollGate.Lib.Checkpoint
import TollGate.Lib.WebSocket
import TollGate.Lib.Pieces
import TollGate.Lib.Qsort
import TollGate.Lib.Replace
import TollGate.Lib.Bisection
import TollGate.Lib.BitString
import TollGate.Lib.Memory
import TollGate.Core.Firewall
import TollGate.Core.Session
import TollGate.Core.Owner
import TollGate.Core.Tables
import TollGate.Core.Client
import TollGate.Core.TopUp
import TollGate.Core.SlotReuse
import TollGate.Core.Cashu
import TollGate.Core.Token
import TollGate.Core.Payment
import TollGate.Core.Config
import TollGate.Core.Allotment
import TollGate.Core.Portal
import TollGate.Dns.Names
import TollGate.Dns.Replies
import TollGate.Dns.Bounds
import TollGate.Firmware.Services
import TollGate.Firmware.Admission
import TollGate.Firmware.Uplink
import TollGate.Firmware.Config
import TollGate.Firmware.Lists
import TollGate.EHash.Packet
import TollGate.EHash.Corruption
import TollGate.EHash.Relay
import TollGate.EHash.HopLimit
import TollGate.Mining.Credit
import TollGate.Mining.Header
import TollGate.Mining.Stratum
import TollGate.Mining.Framing
import TollGate.Mining.Pow
import TollGate.Mining.Clients
import TollGate.Mining.Difficulty
import TollGate.Mining.Gateway
import TollGate.Mining.Http
import TollGate.Mining.Records
import TollGate.Mining.Requests
import TollGate.Mining.Submissions
import TollGate.Mining.Tally
import TollGate.Mining.RemoteMiner
import TollGate.Mining.PoolClient
import TollGate.Mcp.Metric
import TollGate.Mcp.FeeLimits
import TollGate.Mcp.Withdrawal
import TollGate.Mcp.Tools
import TollGate.Api.Payment
import TollGate.Api.DoubleCredit
import TollGate.Api.Replies
import TollGate.Api.Usage
import TollGate.Market.Beacon
import TollGate.Market.Table
import TollGate.Market.Cheapest
import TollGate.Market.Geohash
import TollGate.Mints.Health
import TollGate.Mints.Recovery
import TollGate.Mints.Announcements
import TollGate.Relay.Storage
import TollGate.Relay.Representation
import TollGate.Relay.Event
import TollGate.Relay.Metadata
import TollGate.Relay.Filter
import TollGate.Relay.Subscriptions
import TollGate.Relay.Deletion
import TollGate.Relay.Writers
import TollGate.Relay.Restart
import TollGate.Relay.Maintenance
import TollGate.Relay.Addresses
import TollGate.Relay.Matching
import TollGate.Relay.Signer
import TollGate.Relay.RateLimiter
import TollGate.Relay.Budgets
import TollGate.Relay.Handling
import TollGate.Relay.SubTable
import TollGate.Relay.Hex
import TollGate.Relay.Selector
import TollGate.Relay.Answers
import TollGate.Relay.SyncFrames
import TollGate.Relay.Sync
import TollGate.Relay.SyncRequest
import TollGate.Cvm.Server
import TollGate.Cvm.Frames
import TollGate.Cvm.Stream
import TollGate.Cvm.FrameBounds
import TollGate.Cvm.Nip04
import TollGate.Wallet.Send
import TollGate.Wallet.Payout
import TollGate.Wallet.Receive
import TollGate.Wallet.Keysets
import TollGate.Wallet.Melt
import TollGate.Wallet.Faucet
import TollGate.Upstream.Replies
import TollGate.Upstream.Client
import TollGate.Upstream.Renewal
import TollGate.Lib.ReedSolomon
import TollGate.Qr.Field
import TollGate.Qr.Grid
import TollGate.Qr.Reader
import TollGate.Qr.Patterns
import TollGate.Qr.Placement
import TollGate.Qr.Masking
import TollGate.Qr.Correction
import TollGate.Qr.Blocks
import TollGate.Qr.Segment
import TollGate.Qr.Symbol
import TollGate.Qr.Damage
import TollGate.Display.Panel
import TollGate.Display.Code
import TollGate.Display.WifiText
import TollGate.Display.Screens
