import Absquic.Core

/-!
# The calls of the `quiche` library

`quiche` is not part of the repository. `Quiche` is what the tasks see of it: the types of its
values and the functions they call. A connection is a value of an arbitrary type, so that the
answers may depend on everything that happened before (and on anything else the value holds);
nothing is assumed of the functions here. The calls that change a connection read the clock.

A call with `&mut` arguments returns their new values. The bytes that `recv_body` and `send` write
to the buffer are returned; the buffer's length is an argument.
-/

namespace Absquic

abbrev ConnectionId := Bytes

/-- `quiche::Type`. -/
inductive PacketType
  | initial | retry | handshake | zeroRTT | versionNegotiation | short
  deriving DecidableEq

/-- `quiche::Header`: the fields that are read. -/
structure Header where
  ty : PacketType
  dcid : ConnectionId
  deriving DecidableEq

/-- `quiche::SendInfo`. -/
structure SendInfo where
  toAddr : SocketAddr
  atTime : Instant
  deriving DecidableEq

/-- `quiche::h3::Header`. -/
structure H3Header where
  name : Bytes
  value : Bytes
  deriving DecidableEq

/-- `quiche::h3::Error`, as far as the code tells its values apart. -/
inductive H3Error
  | done
  | streamBlocked
  | transport (err : QuicheError)
  | other (code : Int)
  deriving DecidableEq

/-- `quiche::h3::Event`. -/
inductive H3Event
  | headers (list : List H3Header) (hasBody : Bool)
  | data
  | finished
  | reset (code : UInt64)
  | datagram
  | goAway
  deriving DecidableEq

/-- The `quiche` library (module doc). -/
structure Quiche where
  Config : Type
  H3Config : Type
  Connection : Type
  H3Connection : Type
  /-- `Header::from_slice(data, dcid_len)`. -/
  headerFromSlice : Bytes → Nat → Except QuicheError Header
  /-- `accept(scid, None, from, config)`. -/
  accept : ConnectionId → SocketAddr → Config → Config × Except QuicheError Connection
  /-- `connect(None, scid, to, config)`. -/
  connect : ConnectionId → SocketAddr → Config → Config × Except QuicheError Connection
  /-- `Connection::recv(data, info)`; its result is only logged. -/
  recv : Instant → Bytes → SocketAddr → Connection → Connection
  onTimeout : Instant → Connection → Connection
  timeout : Instant → Connection → Option Duration
  isEstablished : Connection → Bool
  isClosed : Connection → Bool
  maxSendUdpPayloadSize : Connection → Nat
  /-- `Connection::send(buf)`, with the length of the buffer. -/
  send : Instant → Nat → Connection → Connection × Except QuicheError (Bytes × SendInfo)
  /-- `h3::Connection::with_transport`. -/
  withTransport : Instant → H3Config → Connection → Connection × Except H3Error H3Connection
  /-- `h3::Connection::send_request(conn, headers, fin)`. -/
  sendRequest : Instant → List (Bytes × Bytes) → Bool → Connection → H3Connection →
    (Connection × H3Connection) × Except H3Error UInt64
  poll : Instant → Connection → H3Connection →
    (Connection × H3Connection) × Except H3Error (UInt64 × H3Event)
  /-- `h3::Connection::recv_body(conn, stream_id, buf)`. -/
  recvBody : Instant → UInt64 → Nat → Connection → H3Connection →
    (Connection × H3Connection) × Except H3Error Bytes
  /-- `h3::Connection::recv_dgram(conn, buf)`: the length, the flow id and its length. -/
  recvDgram : Instant → Nat → Connection → H3Connection →
    (Connection × H3Connection) × Except H3Error (Nat × UInt64 × Nat)

/-- A library whose connections are made as `new` and whose calls change nothing; every packet is an
Initial packet whose dcid is its data. The libraries of the examples differ from it in a few
calls. -/
def Quiche.inert {σ : Type} (new : σ) : Quiche where
  Config := Unit
  H3Config := Unit
  Connection := σ
  H3Connection := Unit
  headerFromSlice data _ := .ok { ty := .initial, dcid := data }
  accept _ _ _ := ((), .ok new)
  connect _ _ _ := ((), .ok new)
  recv _ _ _ con := con
  onTimeout _ con := con
  timeout _ _ := none
  isEstablished _ := false
  isClosed _ := false
  maxSendUdpPayloadSize _ := 1200
  send _ _ con := (con, .error .done)
  withTransport _ _ con := (con, .ok ())
  sendRequest _ _ _ con h3 := ((con, h3), .error .streamBlocked)
  poll _ con h3 := ((con, h3), .error .done)
  recvBody _ _ _ con h3 := ((con, h3), .error .done)
  recvDgram _ _ con h3 := ((con, h3), .error .done)

/-- An answer of the library `Quiche.scripted`. -/
inductive Answer
  | poll (r : Except H3Error (UInt64 × H3Event))
  | recvBody (r : Except H3Error Bytes)
  | recvDgram (r : Except H3Error (Nat × UInt64 × Nat))

/-- A library whose connections are established, and give the h3 calls their answers in the order in
which they hold them; a call that is not the next one has nothing to do. -/
def Quiche.scripted : Quiche :=
  { Quiche.inert ([] : List Answer) with
    isEstablished := fun _ => true
    poll := fun _ (con : List Answer) h3 => match con with
      | .poll r :: con => ((con, h3), r)
      | _ => ((con, h3), .error .done)
    recvBody := fun _ _ _ (con : List Answer) h3 => match con with
      | .recvBody r :: con => ((con, h3), r)
      | _ => ((con, h3), .error .done)
    recvDgram := fun _ _ (con : List Answer) h3 => match con with
      | .recvDgram r :: con => ((con, h3), r)
      | _ => ((con, h3), .error .done) }

end Absquic
