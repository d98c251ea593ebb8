import Helios.Client.Freshness
import Helios.Client.Staleness
import Helios.Consensus.Recovery
import Helios.Execution.AccessList
import Helios.Client.Storage
import Helios.Client.Holes
import Helios.Client.Rpc
import Helios.Client.History
import Helios.Client.Queries
import Helios.Consensus.Headers
import Helios.Execution.ProofSound
import Helios.Execution.Records
import Helios.Consensus.Replay
import Helios.Consensus.Signing
import Helios.Consensus.Checkpoint
import Helios.Consensus.Collect
import Helios.Consensus.Wire
import Helios.Execution.Encoding
import Helios.Execution.Prefetch
import Helios.Client.Syncing
import Helios.Client.Slots
import Helios.Execution.Nibbles
import Helios.Client.Quantities
import Helios.Execution.Environment
import Helios.Execution.FeeCheck
import Helios.Config.Checkpoints
import Helios.Consensus.Following
import Helios.Consensus.Accountability
import Helios.Client.Start
import Helios.Client.Lifecycle
import Helios.Client.Durable
import Helios.Client.Reads
import Helios.Client.Outcome
import Helios.Client.Schedule
