import Lithium.Effects.Execution
import Lithium.Effects.Threads
import Lithium.Keys.RecordProofs
import Lithium.Keys.System
import Lithium.Keys.Keyfile
import Lithium.Keys.Manager
import Lithium.Keys.View
import Lithium.Keys.KeyfileProofs
import Lithium.Keys.Store
import Lithium.Keys.Rotation
import Lithium.Keys.Recovery
import Lithium.Keys.Preparation
import Lithium.Keys.Commit
import Lithium.Keys.Progress
import Lithium.Keys.Crash
import Lithium.Keys.Sample
import Lithium.Keys.Durability
import Lithium.Keys.Identity
import Lithium.Keys.Start
import Lithium.Keys.FirstStart
import Lithium.Memory.Blocks
import Lithium.Secrets.Arena
import Lithium.Secrets.ArenaProofs
import Lithium.Secrets.ArenaRuns
import Lithium.Crypto.Context
import Lithium.Crypto.Suite
import Lithium.Crypto.Sample
import Lithium.Crypto.KyberBox
import Lithium.Crypto.BaseKey
import Lithium.Crypto.Boxes
import Lithium.Crypto.Conversation
import Lithium.Crypto.Transplant
import Lithium.Hpke.Protocol
import Lithium.Hpke.Agreement
import Lithium.Hpke.Stream
import Lithium.Utils.Store
import Lithium.Utils.Linearization
import Lithium.Keys.Rounds
import Lithium.Keys.Abandoned
import Lithium.Keys.Client
import Lithium.Keys.Solitary
import Lithium.Keys.Rollback
import Lithium.Keys.PublicCache
import Lithium.Keys.Blobs
import Lithium.Keys.Concurrency
import Lithium.Keys.MixedStore
import Lithium.Keys.CachedMk
import Lithium.Keys.Gate
import Lithium.Keys.LabelAgreement
import Lithium.Keys.FailClosed
import Lithium.Hpke.Labels
import Lithium.Wire.Codec
import Lithium.Crypto.Wire
import Lithium.Crypto.Sign
import Lithium.Hpke.Wire
import Lithium.Keys.RecordCodec
import Lithium.Utils.Versions
import Lithium.Keys.Worker
import Lithium.Keys.Traceless
import Lithium.Keys.FileNames
import Lithium.Keys.Targets
import Lithium.Keys.Splicing
import Lithium.HexCodec
import Lithium.Hpke.Session
import Lithium.Wire.Text
import Lithium.Crypto.Framing
import Lithium.Crypto.Signing
import Lithium.Secrets.Wiping
import Lithium.Secrets.Json
import Lithium.Secrets.JsonFields
import Lithium.Secrets.JsonWiping
import Lithium.Keys.Rewrapping
import Lithium.Secrets.Writer
import Lithium.Keys.Interruption
import Lithium.Keys.Usage
import Lithium.Keys.Restart
import Lithium.Keys.Lifetime
import Lithium.Effects.Monitor
import Lithium.Utils.Cleanup
import Lithium.Keys.Schedule
import Lithium.Utils.Leases
import Lithium.Effects.Locking
import Lithium.Keys.Liveness
import Lithium.Secrets.Capacity
import Lithium.Keys.Availability
import Lithium.Keys.SharedArena
import Lithium.Opaque.Dek
