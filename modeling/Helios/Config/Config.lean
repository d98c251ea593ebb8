import Helios.Consensus.Types

/-!
# The configuration (`config/src/config.rs`, `config/src/base.rs`, `config/src/networks.rs`)

* `ClientConfig` — all fields of `config::Config`; `Config`, which it extends, has those that the
  consensus client and the node read.
-/

set_option autoImplicit false

namespace Helios

inductive IpAddr where
  | v4 (octets : Vector UInt8 4)
  | v6 (octets : Vector UInt8 16)
  deriving DecidableEq

/-- `Ipv4Addr::LOCALHOST` -/
def IpAddr.localhost : IpAddr := .v4 #v[127, 0, 0, 1]

/-- `config::Config` -/
structure ClientConfig extends Config where
  consensusRpc : String
  executionRpc : String
  rpcBindIp : Option IpAddr
  rpcPort : Option UInt16
  defaultCheckpoint : Bytes
  checkpoint : Option Bytes
  dataDir : Option String
  fallback : Option String
  loadExternalFallback : Bool

end Helios
