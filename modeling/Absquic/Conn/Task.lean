import Absquic.Quiche
import Absquic.Lib.Chan
import Absquic.Lib.Lts

/-!
# One connection (`absquic_quiche/src/con.rs`)

`Con` is what belongs to one connection: its two bounded channels, the locals of `con_task`, the
timeout sleepers and the packet senders that it spawned, the `http3()` calls of its users, and the
two handles. `Con.step` is one atomic step of one of the parties:

* `con_task` (`taskStep`): the code between two points at which another party can act. The place
  it is at is `pc`: its `recv().await`, the two `acquire().await`s, and the heads of its loops.
* a sleeper (`fire`), a spawned packet sender (`udpSend`), an `http3()` call (`callAcquire`,
  `callSend`, `callCancel`), the users of the handles (`http3`, `evtPoll`, `dropRecv`, `dropCon`);
* `ep_task`, as far as it acts on this connection (`tryAcquire`, `sendInPak`, `unmap`, `deliver`).

Guards are values (`ConSem`), held where the code holds them; a dropped guard gives its permit back
to the semaphore it names. The clock (`now`) is the connection's own reading of the time; nothing
compares instants of two connections. `trace` records the calls of quiche with their answers and
what was put on the channels; no step reads it.

The loop at lines 255-261 is unfinished in the source: `send_request` has one arm, for
`StreamBlocked`, and `is_empty` is not defined. Here the other answers go round the loop again, and
`is_empty` is an empty body.
-/

namespace Absquic

/-- The semaphores of a connection's command and event channels. -/
inductive ConSem
  | cmd | evt
  deriving DecidableEq

inductive ConCmd
  | tick
  | timeout
  | inPak (pak : UdpPak)
  /-- `rsp` is the reply slot: the index of the `http3()` call that waits at its other end. -/
  | http3 (item : Http3Msg) (rsp : Nat)
  deriving DecidableEq

/-- The reply slot in a command. -/
def ConCmd.rsp? : ConCmd → Option Nat
  | .http3 _ rsp => some rsp
  | _ => none

structure H3OutboundProgress where
  reference : Option UInt64
  headers : Option (List (Bytes × Bytes))
  body : List Bytes
  rsp : Nat
  deriving DecidableEq

structure H3InboundProgress where
  headers : List H3Header
  body : List Bytes
  deriving DecidableEq

/-- How a task ended: its receive loop, an early return, or an `unwrap` of `None`. -/
inductive Exit
  | closed | returned | panicked
  deriving DecidableEq

/-- `std::task::Poll`. -/
inductive Poll (α : Type)
  | pending
  | ready (value : α)

/-- Where `con_task` is. -/
inductive ConPc
  /-- `con_cmd_recv.recv().await` -/
  | recv
  /-- a command taken -/
  | cmd (cmd : ConCmd)
  /-- lines 219-221 -/
  | evtGuard
  /-- line 223 -/
  | established
  /-- the loop at line 255 -/
  | sendRequest
  /-- the head of the loop at line 266 -/
  | h3EvtGuard
  /-- line 274 -/
  | poll
  /-- the loop at line 339 -/
  | recvBody (stream : UInt64)
  /-- the loop at line 358 -/
  | recvDgram (flow : UInt64)
  /-- line 379 -/
  | flush
  /-- the loop at line 385 -/
  | send
  | ended (exit : Exit)
  deriving DecidableEq

/-- `con_task` has ended. -/
def ConPc.over : ConPc → Bool
  | .ended _ => true
  | _ => false

/-- Where a handle is: on its way to the user (with `ep_task`, in an event, in an answer), with the
user, or dropped. -/
inductive Hold
  | inFlight | user | dropped
  deriving DecidableEq

/-- The state of an `http3()` future. -/
inductive Http3Call
  | acquire (item : Http3Msg)
  | send (item : Http3Msg) (guard : ConSem)
  | wait
  | done (result : Result Unit)
  | cancelled
  deriving DecidableEq

/-- The guard that an `http3()` call holds. -/
def Http3Call.guard? : Http3Call → Option ConSem
  | .send _ g => some g
  | _ => none

/-- The future still exists, with its clone of the command sender. -/
def Http3Call.live : Http3Call → Bool
  | .acquire _ | .send _ _ | .wait => true
  | .done _ | .cancelled => false

/-- A task spawned at line 213. -/
structure Sleeper where
  timeout : Instant
  guard : ConSem
  deriving DecidableEq

/-- A task spawned at line 409. -/
structure Sender where
  atTime : Instant
  pak : UdpPak
  deriving DecidableEq

/-- What the trace records. -/
inductive ConObs
  | recv
  | onTimeout
  | timeout (d : Option Duration)
  | withTransport (ok : Bool)
  | sendRequest
  | poll (r : Except H3Error (UInt64 × H3Event))
  | recvBody (stream : UInt64) (r : Except H3Error Bytes)
  | recvDgram (r : Except H3Error (Nat × UInt64 × Nat))
  | send (r : Except QuicheError (Bytes × SendInfo))
  /-- `ConCmd::InPak` was put on the command channel. -/
  | inPak (pak : UdpPak)
  /-- The event was put on the event channel. -/
  | evt (evt : ConEvt)
  /-- A packet was handed to `Udp::send`. -/
  | udpSend (pak : UdpPak)

/-- One connection (module doc). -/
structure Con (Q : Quiche) where
  now : Instant
  /-- The command channel. -/
  cmd : Chan ConSem ConCmd
  /-- The event channel. -/
  evt : Chan ConSem ConEvt
  /-- `QuicheCon`. -/
  handle : Hold
  /-- `QuicheConRecv`. -/
  evtRecv : Hold
  /-- `ep_task` has its clone of the command sender, in a local or in `con_map`. -/
  epSend : Bool
  /-- The permit that `ep_task` holds between `try_acquire` and `send`. -/
  epGuard : Option ConSem
  sleepers : List Sleeper
  senders : List Sender
  calls : List Http3Call
  -- the locals of `con_task`
  pc : ConPc
  h3Config : Option Q.H3Config
  con : Q.Connection
  /-- The length of `send_buf`. -/
  sendBuf : Nat
  evtGuard : Option ConSem
  connected : Bool
  h3Con : Option Q.H3Connection
  h3OutboundWait : List H3OutboundProgress
  h3Outbound : HashMap UInt64 H3OutboundProgress
  h3Inbound : HashMap UInt64 H3InboundProgress
  shouldSend : Bool
  cmdGuard : Option ConSem
  trace : List ConObs

namespace Con

variable {Q : Quiche}

def log (c : Con Q) (o : ConObs) : Con Q := { c with trace := c.trace ++ [o] }

/-! ## Drops -/

/-- The guards `gs` are dropped. -/
def dropGuards (c : Con Q) (gs : List ConSem) : Con Q :=
  { c with cmd := c.cmd.release (gs.count .cmd), evt := c.evt.release (gs.count .evt) }

/-- The reply slots `rs` are dropped: a call that waits for one of them gets `ConShutdown`
(line 121). -/
def dropRsps (c : Con Q) (rs : List Nat) : Con Q :=
  { c with calls := c.calls.mapIdx fun k x =>
      if x = .wait ∧ k ∈ rs then .done (.error conShutdown) else x }

/-- The reply slots that `con_task` owns: in its queue, and in what it took from it. -/
def ownedRsps (c : Con Q) : List Nat :=
  c.cmd.queue.filterMap (·.1.rsp?) ++ c.h3OutboundWait.map (·.rsp) ++
    c.h3Outbound.entries.map (·.2.rsp)

/-- `con_task` is over: its locals and the command receiver are dropped, with what is queued. -/
def endTask (c : Con Q) (exit : Exit) : Con Q :=
  let c := (c.dropRsps c.ownedRsps).dropGuards
    (c.cmd.guards ++ c.cmdGuard.toList ++ c.evtGuard.toList)
  { c with
    pc := .ended exit
    cmd := c.cmd.close
    cmdGuard := none
    evtGuard := none
    h3OutboundWait := []
    h3Outbound := ∅
    h3Inbound := ∅ }

/-- `QuicheConRecv` is dropped, with the queued events. -/
def dropRecv (c : Con Q) : Con Q :=
  let c := c.dropGuards c.evt.guards
  { c with evt := c.evt.close, evtRecv := .dropped }

/-- `QuicheCon` is dropped. -/
def dropCon (c : Con Q) : Con Q := { c with handle := .dropped }

/-! ## The command channel -/

/-- The clones of the command sender: `con_task`'s own, the handle's, those of the sleepers and of
the `http3()` calls, and `ep_task`'s. -/
def cmdSenders (c : Con Q) : Nat :=
  (if c.pc.over then 0 else 1) + (if c.handle = .dropped then 0 else 1) +
    c.sleepers.length + c.calls.countP (·.live) + (if c.epSend then 1 else 0)

/-- `con_cmd_send.send(cmd, g)`: does it succeed? Otherwise the command and the guard are
dropped. -/
def sendCmd (c : Con Q) (cmd : ConCmd) (g : ConSem) : Con Q × Bool :=
  if c.cmd.rx then ({ c with cmd := c.cmd.push cmd g }, true)
  else ((c.dropRsps cmd.rsp?.toList).dropGuards [g], false)

/-- `con_cmd_recv.recv().await` (line 167). It ends the loop when nothing is queued and no sender is
left. -/
def recvCmd (c : Con Q) : Option (Con Q) :=
  match c.cmd.queue with
  | (cmd, g) :: rest =>
    some { c with
      cmd := { c.cmd with queue := rest }
      pc := .cmd cmd
      cmdGuard := some g
      shouldSend := false }
  | [] => if c.cmdSenders = 0 then some (c.endTask .closed) else none

/-! ## `con_task` -/

/-- `h3_outbound.insert`: the progress it replaces is dropped, with its reply slot. -/
def insertOutbound (c : Con Q) (k : UInt64) (p : H3OutboundProgress) : Con Q :=
  let c := c.dropRsps ((c.h3Outbound.lookup k).toList.map (·.rsp))
  { c with h3Outbound := c.h3Outbound.insert k p }

/-- The `match cmd` (lines 173-206). -/
def dispatch (c : Con Q) : ConCmd → Con Q
  | .tick => { c with shouldSend := true }
  | .timeout => { c with con := Q.onTimeout c.now c.con, shouldSend := true }.log .onTimeout
  | .inPak pak =>
    { c with con := Q.recv c.now pak.data pak.addr c.con, shouldSend := true }.log .recv
  | .http3 item rsp =>
    if item.reference = u64Max then
      { c with h3OutboundWait := c.h3OutboundWait ++
          [{ reference := none, headers := some item.headers, body := item.body, rsp }] }
    else
      c.insertOutbound item.reference
        { reference := some item.reference, headers := some item.headers, body := item.body, rsp }

/-- Lines 208-217: a sleeper takes the command's guard. -/
def schedTimeout (c : Con Q) : Con Q :=
  let d := Q.timeout c.now c.con
  let c := c.log (.timeout d)
  match d with
  | none => { c with pc := .evtGuard }
  | some d =>
    match c.cmdGuard with
    | none => c.endTask .panicked
    | some g =>
      { c with
        sleepers := c.sleepers ++ [{ timeout := c.now + d, guard := g }]
        cmdGuard := none
        pc := .evtGuard }

/-- `if evt_guard.is_none() { evt_guard = Some(con_evt_send.acquire().await) }`. -/
def acquireEvt (c : Con Q) (next : ConPc) : Option (Con Q) :=
  match c.evtGuard with
  | some _ => some { c with pc := next }
  | none => c.evt.acquire.map fun evt => { c with evt, evtGuard := some .evt, pc := next }

/-- `con_evt_send.send(evt, evt_guard.take().unwrap())`: `none` if the `unwrap` panics, else
whether it succeeds. -/
def sendEvt (c : Con Q) (evt : ConEvt) : Option (Con Q × Bool) :=
  match c.evtGuard with
  | none => none
  | some g =>
    let c := { c with evtGuard := none }
    if c.evt.rx then some ({ c with evt := c.evt.push evt g }.log (.evt evt), true)
    else some (c.dropGuards [g], false)

/-- Lines 229-244. -/
def setupH3 (c : Con Q) : Con Q :=
  match c.h3Config with
  | none => c
  | some cfg =>
    match Q.withTransport c.now cfg c.con with
    | (con, .ok h3) => { c with con, h3Con := some h3, shouldSend := true }.log (.withTransport true)
    | (con, .error _) => { c with con, h3Con := none }.log (.withTransport false)

/-- Line 253: on to the h3 part if there is an h3 connection. -/
def enterH3 (c : Con Q) : Con Q :=
  { c with pc := if c.h3Con.isSome then .sendRequest else .flush }

/-- Lines 223-251. -/
def establish (c : Con Q) : Con Q :=
  if !c.connected && Q.isEstablished c.con then
    let c := { c with connected := true }.setupH3
    match c.sendEvt .connected with
    | none => c.endTask .panicked
    | some (c, _) => c.enterH3
  else c.enterH3

/-- One round of the loop at lines 255-261 (module doc). -/
def sendRequest (c : Con Q) (h3 : Q.H3Connection) : Con Q :=
  match c.h3OutboundWait with
  | [] => { c with pc := .h3EvtGuard }
  | item :: _ =>
    match Q.sendRequest c.now (item.headers.getD []) item.body.isEmpty c.con h3 with
    | ((con, h3), r) =>
      let c := { c with con, h3Con := some h3 }.log .sendRequest
      match r with
      | .error .streamBlocked => { c with pc := .h3EvtGuard }
      | _ => c

/-- The headers as an `Http3Msg` has them (lines 291-294). -/
def msgHeaders (list : List H3Header) : List (Bytes × Bytes) := list.map fun h => (h.name, h.value)

/-- `if let Err(_) = con_evt_send.send(ConEvt::Http3(item), ..) { return; }`, then round the
loop. -/
def sendHttp3 (c : Con Q) (item : Http3Msg) : Con Q :=
  match c.sendEvt (.http3 item) with
  | none => c.endTask .panicked
  | some (c, true) => { c with pc := .h3EvtGuard }
  | some (c, false) => c.endTask .returned

/-- The `match evt` (lines 281-333). -/
def onEvent (c : Con Q) (stream : UInt64) : H3Event → Con Q
  | .headers list hasBody =>
    if hasBody then
      { c with
        h3Inbound := c.h3Inbound.insert stream { headers := list, body := [] }
        pc := .h3EvtGuard }
    else c.sendHttp3 { headers := msgHeaders list, body := [], reference := stream }
  | .data => { c with pc := .recvBody stream }
  | .finished =>
    match c.h3Inbound.lookup stream with
    | none => { c with pc := .h3EvtGuard }
    | some item =>
      { c with h3Inbound := c.h3Inbound.erase stream }.sendHttp3
        { headers := msgHeaders item.headers, body := item.body, reference := stream }
  | .reset _ => { c with h3Inbound := c.h3Inbound.erase stream, pc := .h3EvtGuard }
  | .datagram => { c with pc := .recvDgram stream }
  | .goAway => c.endTask .returned

/-- Lines 274-335. -/
def poll (c : Con Q) (h3 : Q.H3Connection) : Con Q :=
  match Q.poll c.now c.con h3 with
  | ((con, h3), r) =>
    let c := { c with con, h3Con := some h3 }.log (.poll r)
    match r with
    | .error .done => { c with pc := .flush }
    | .error _ => c.endTask .returned
    | .ok (stream, evt) => c.onEvent stream evt

/-- `item.body.push(chunk)`, if the stream has an item. -/
def pushBody (c : Con Q) (stream : UInt64) (chunk : Bytes) : Con Q :=
  match c.h3Inbound.lookup stream with
  | none => c
  | some item =>
    { c with h3Inbound := c.h3Inbound.insert stream { item with body := item.body ++ [chunk] } }

/-- One round of the loop at lines 339-354. -/
def recvBody (c : Con Q) (h3 : Q.H3Connection) (stream : UInt64) : Con Q :=
  match Q.recvBody c.now stream c.sendBuf c.con h3 with
  | ((con, h3), r) =>
    let c := { c with con, h3Con := some h3 }.log (.recvBody stream r)
    match r with
    | .error .done => { c with pc := .h3EvtGuard }
    | .error _ => c.endTask .returned
    | .ok chunk => c.pushBody stream chunk

/-- One round of the loop at lines 358-374. -/
def recvDgram (c : Con Q) (h3 : Q.H3Connection) (flow : UInt64) : Con Q :=
  match Q.recvDgram c.now c.sendBuf c.con h3 with
  | ((con, h3), r) =>
    let c := { c with con, h3Con := some h3 }.log (.recvDgram r)
    match r with
    | .error .done => { c with pc := .h3EvtGuard }
    | .error _ => c.endTask .returned
    | .ok (_, newFlow, _) => if flow ≠ newFlow then c.endTask .returned else c

/-- The end of the loop body: what is left of the command's guard is dropped. -/
def nextCmd (c : Con Q) : Con Q :=
  { c.dropGuards c.cmdGuard.toList with cmdGuard := none, pc := .recv }

/-- Lines 379-383. -/
def flush (c : Con Q) : Con Q :=
  if c.shouldSend then
    { c with sendBuf := max c.sendBuf (Q.maxSendUdpPayloadSize c.con), pc := .send }
  else c.nextCmd

/-- One round of the loop at lines 385-417. -/
def send (c : Con Q) : Con Q :=
  match Q.send c.now c.sendBuf c.con with
  | (con, r) =>
    let c := { c with con }.log (.send r)
    match r with
    | .error .done => c.nextCmd
    | .error _ => c.endTask .returned
    | .ok (data, info) =>
      { c with senders := c.senders ++
          [{ atTime := info.atTime, pak := { addr := info.toAddr, data } }] }

/-- A step of `con_task`. -/
def taskStep (c : Con Q) : Option (Con Q) :=
  match c.pc with
  | .recv => c.recvCmd
  | .cmd cmd => some (c.dispatch cmd).schedTimeout
  | .evtGuard => c.acquireEvt .established
  | .established => some c.establish
  | .sendRequest => c.h3Con.map c.sendRequest
  | .h3EvtGuard => c.acquireEvt .poll
  | .poll => c.h3Con.map c.poll
  | .recvBody stream => c.h3Con.map (c.recvBody · stream)
  | .recvDgram flow => c.h3Con.map (c.recvDgram · flow)
  | .flush => some c.flush
  | .send => some c.send
  | .ended _ => none

/-! ## The spawned tasks -/

/-- Sleeper `k` is woken: `con_cmd_send.send(ConCmd::Timeout, g)`. -/
def fire (c : Con Q) (k : Nat) : Option (Con Q) :=
  match c.sleepers[k]? with
  | none => none
  | some s =>
    if s.timeout ≤ c.now then
      some (({ c with sleepers := c.sleepers.eraseIdx k } : Con Q).sendCmd .timeout s.guard).1
    else none

/-- Sender `k` is woken and hands its packet to `Udp::send`. -/
def udpSend (c : Con Q) (k : Nat) : Option (Con Q) :=
  match c.senders[k]? with
  | none => none
  | some s =>
    if s.atTime ≤ c.now then
      some ({ c with senders := c.senders.eraseIdx k }.log (.udpSend s.pak))
    else none

/-! ## The users -/

/-- `http3(item)` is called. -/
def http3 (c : Con Q) (item : Http3Msg) : Option (Con Q) :=
  if c.handle = .user then some { c with calls := c.calls ++ [.acquire item] } else none

/-- Line 119. -/
def callAcquire (c : Con Q) (k : Nat) : Option (Con Q) :=
  match c.calls[k]? with
  | some (.acquire item) =>
    c.cmd.acquire.map fun cmd => { c with cmd, calls := c.calls.set k (.send item .cmd) }
  | _ => none

/-- Line 120. -/
def callSend (c : Con Q) (k : Nat) : Option (Con Q) :=
  match c.calls[k]? with
  | some (.send item g) =>
    match ({ c with calls := c.calls.set k .wait } : Con Q).sendCmd (.http3 item k) g with
    | (c, true) => some c
    | (c, false) => some { c with calls := c.calls.set k (.done (.error channelClosed)) }
  | _ => none

/-- The future of the call is dropped. -/
def callCancel (c : Con Q) (k : Nat) : Option (Con Q) :=
  match c.calls[k]? with
  | some x =>
    if x.live then
      some { c.dropGuards x.guard?.toList with calls := c.calls.set k .cancelled }
    else none
  | none => none

/-- `QuicheConRecv::poll_next` finds an event: its guard is dropped. -/
def evtPoll (c : Con Q) : Option (Con Q) :=
  match c.evtRecv, c.evt.queue with
  | .user, (_, g) :: rest => some (({ c with evt := { c.evt with queue := rest } } : Con Q).dropGuards [g])
  | _, _ => none

/-- The event sender is a local of `con_task`, and is not cloned. -/
def evtSenders (c : Con Q) : Nat := if c.pc.over then 0 else 1

/-- What `QuicheConRecv::poll_next` gives: `None` when nothing is queued and no sender is left. -/
def pollNext (c : Con Q) : Poll (Option ConEvt) :=
  match c.evt.queue with
  | (evt, _) :: _ => .ready (some evt)
  | [] => if c.evtSenders = 0 then .ready none else .pending

/-- `QuicheConRecv::poll_next` gives `None`: nothing is queued, and `con_task`, which has the only
sender, is over. -/
def evtEnded (c : Con Q) : Bool :=
  c.evt.queue.isEmpty && c.pc.over

/-! ## `ep_task` on this connection -/

/-- `con_cmd_send.try_acquire()`: with the permit in `epGuard`, if it is `Some`. -/
def tryAcquire (c : Con Q) : Option (Con Q) :=
  match c.epGuard with
  | some _ => none
  | none => c.cmd.acquire.map fun cmd => { c with cmd, epGuard := some .cmd }

/-- `con_cmd_send.send(ConCmd::InPak(pak), g)` with the permit of `tryAcquire`: does it succeed? -/
def sendInPak (c : Con Q) (pak : UdpPak) : Option (Con Q × Bool) :=
  match c.epGuard with
  | none => none
  | some g =>
    match ({ c with epGuard := none } : Con Q).sendCmd (.inPak pak) g with
    | (c, true) => some (c.log (.inPak pak), true)
    | (c, false) => some (c, false)

/-- `ep_task` drops its clone of the command sender. -/
def unmap (c : Con Q) : Con Q := { c with epSend := false }

/-- The handles arrive at the user. -/
def deliver (c : Con Q) : Con Q := { c with handle := .user, evtRecv := .user }

/-- `quiche_con` (lines 58-80): the channels with the first `Tick`, and `con_task` at its start.
`none` is the panic of `try_acquire().unwrap()`. -/
def quicheCon (h3Config : Option Q.H3Config) (con : Q.Connection) : Option (Con Q) :=
  (Chan.new 64).acquire.map fun cmd =>
    { now := 0
      cmd := cmd.push .tick .cmd
      evt := .new 64
      handle := .inFlight
      evtRecv := .inFlight
      epSend := true
      epGuard := none
      sleepers := []
      senders := []
      calls := []
      pc := .recv
      h3Config
      con
      sendBuf := 64 * 1024
      evtGuard := none
      connected := false
      h3Con := none
      h3OutboundWait := []
      h3Outbound := ∅
      h3Inbound := ∅
      shouldSend := false
      cmdGuard := none
      trace := [] }

end Con

/-- The steps of a connection's parties (module doc). -/
inductive ConAct
  | task
  | fire (k : Nat)
  | udpSend (k : Nat)
  | http3 (item : Http3Msg)
  | callAcquire (k : Nat)
  | callSend (k : Nat)
  | callCancel (k : Nat)
  | evtPoll
  | dropRecv
  | dropCon
  | tick (d : Duration)
  | tryAcquire
  | sendInPak (pak : UdpPak)
  | unmap
  | deliver

/-- A step that `ep_task` makes, or that comes with the move of a handle. -/
def ConAct.isEp : ConAct → Bool
  | .tryAcquire | .sendInPak _ | .unmap | .deliver => true
  | _ => false

namespace Con

variable {Q : Quiche}

/-- May a party other than `ep_task` do `a` on the connection? A handle is dropped by its user. -/
def may (c : Con Q) : ConAct → Bool
  | .dropCon => c.handle = .user
  | .dropRecv => c.evtRecv = .user
  | a => !a.isEp

def step : ConAct → Con Q → Option (Con Q)
  | .task, c => c.taskStep
  | .fire k, c => c.fire k
  | .udpSend k, c => c.udpSend k
  | .http3 item, c => c.http3 item
  | .callAcquire k, c => c.callAcquire k
  | .callSend k, c => c.callSend k
  | .callCancel k, c => c.callCancel k
  | .evtPoll, c => c.evtPoll
  | .dropRecv, c => some c.dropRecv
  | .dropCon, c => some c.dropCon
  | .tick d, c => some { c with now := c.now + d }
  | .tryAcquire, c => c.tryAcquire
  | .sendInPak pak, c => (c.sendInPak pak).map Prod.fst
  | .unmap, c => some c.unmap
  | .deliver, c => some c.deliver

/-- One connection as a system: it starts as `quiche_con` makes it, and every party may step at any
time. -/
def sys (Q : Quiche) : Lts (Con Q) ConAct where
  init c := ∃ h3Config con, quicheCon h3Config con = some c
  step := step

end Con

end Absquic
