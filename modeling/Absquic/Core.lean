import Mathlib.Data.List.AList

/-!
# The types of `absquic_core`

`UdpPak` (`udp.rs`), `Opaque`, `Http3Msg` and `ConEvt` (`con.rs`), the error values made with
`other_err` (`lib.rs`), and the instants of `rt.rs`. Fields that no modelled function reads (`ip`, `gso`
and `ecn` of a packet) are left out.
-/

namespace Absquic

abbrev Bytes := List UInt8

/-- `std::time::Instant`, in some fixed unit. -/
abbrev Instant := Nat

/-- `std::time::Duration`, in the same unit. -/
abbrev Duration := Nat

/-- `HashMap`: an iteration order is never used. -/
abbrev HashMap (κ α : Type) := AList fun _ : κ => α

/-- `u64::MAX`. -/
def u64Max : UInt64 := 0xffffffffffffffff

inductive IpAddr
  | v4 (octets : Vector UInt8 4)
  | v6 (octets : Vector UInt8 16)
  deriving DecidableEq

structure SocketAddr where
  ip : IpAddr
  port : UInt16
  deriving DecidableEq

/-- `0.0.0.0:0`. -/
def SocketAddr.unspecified : SocketAddr := ⟨.v4 ⟨#[0, 0, 0, 0], rfl⟩, 0⟩

/-- A udp packet, incoming (`addr` is its source) or outgoing (`addr` is its destination). -/
structure UdpPak where
  addr : SocketAddr
  data : Bytes
  deriving DecidableEq

/-- `quiche::Error`, as far as the code tells its values apart. -/
inductive QuicheError
  | done
  | streamReset (code : UInt64)
  | other (code : Int)
  deriving DecidableEq

/-- `std::io::Error`: `other_err` of a text or of a quiche error, or an error of the socket. -/
inductive IoError
  | other (msg : String)
  | quiche (err : QuicheError)
  | os (code : Int)
  deriving DecidableEq

def conShutdown : IoError := .other "ConShutdown"
def endpointClosed : IoError := .other "EndpointClosed"
def channelClosed : IoError := .other "ChannelClosed"
def socketClosed : IoError := .other "SocketClosed"

abbrev Result (α : Type) := Except IoError α

/-- `Opaque(pub u64)`. -/
abbrev Opaque := UInt64

structure Http3Msg where
  headers : List (Bytes × Bytes)
  body : List Bytes
  reference : Opaque
  deriving DecidableEq

inductive ConEvt
  | connected
  | http3 (msg : Http3Msg)
  deriving DecidableEq

end Absquic
