import Absquic.Conn.Task
import Mathlib.Algebra.Group.Nat.Defs

/-!
# An endpoint (`absquic_quiche/src/ep.rs`)

`Ep` is one endpoint with everything it spawned: `udp_task`, `ep_task`, the bounded channels
between them, the connections that `ep_task` created, the `connect()` calls and the two handles.
`Ep.step` is one atomic step of one of the parties:

* `ep_task` (`taskStep`): its places (`EpPc`) are its two awaits and the points between which it
  acts on a channel that another party uses at the same time. In the accept path these are the
  spawn of `con_task`, the `try_acquire` and the `send` after it, and the event.
* `udp_task` (`udpStep`, `udpRecv`): the stream may yield anything.
* a `connect()` call (`connAcquire`, `connSend`, `connPoll`, `connCancel`) and the users of the
  handles (`connect`, `evtPoll`, `dropRecv`, `dropEp`);
* a party of connection `i` (`con`), by a step of `Con`;
* `cid()` called by another endpoint of the process (`otherCid`): the counter is shared.

A connection is named by its index in `cons`: `con_map` maps an id to the index of the connection
whose command sender it holds. `trace` records what the stream yielded and what `ep_task` did with
each command; no step reads it.
-/

namespace Absquic

/-- The semaphores of an endpoint: `QuicheEp.limit`, `udp_task`'s own, and those of the command and
event channels (`ep_cmd`'s is never used). -/
inductive EpSem
  | limit | udpLimit | cmd | evt
  deriving DecidableEq

inductive EpCmd
  | inPak (pak : Option (Result UdpPak))
  /-- `rsp` is the reply slot: the index of the `connect()` call that waits at its other end. -/
  | newCon (addr : SocketAddr) (rsp : Nat)

/-- The reply slot in a command. -/
def EpCmd.rsp? : EpCmd → Option Nat
  | .newCon _ rsp => some rsp
  | .inPak _ => none

/-- `EpEvt::InCon`, with the handles of connection `con`. -/
inductive EpEvt
  | inCon (con : Nat)
  deriving DecidableEq

/-- Where `ep_task` is. -/
inductive EpPc
  /-- `ep_cmd_recv.recv().await` -/
  | recv
  /-- lines 176-178 -/
  | evtGuard (cmd : EpCmd)
  /-- line 180 -/
  | cmd (cmd : EpCmd)
  /-- line 215 -/
  | route (con : Nat) (dcid : ConnectionId) (pak : UdpPak)
  /-- line 244 -/
  | accepted (con : Nat) (scid : ConnectionId) (pak : UdpPak)
  /-- line 245 -/
  | acceptSend (con : Nat) (scid : ConnectionId) (pak : UdpPak)
  /-- line 247 -/
  | inCon (con : Nat)
  /-- line 276 -/
  | newCon (con : Nat) (scid : ConnectionId) (rsp : Nat)
  | ended (exit : Exit)

/-- `ep_task` has ended. -/
def EpPc.over : EpPc → Bool
  | .ended _ => true
  | _ => false

/-- Where `udp_task` is. -/
inductive UdpPc
  /-- line 140 -/
  | acquire
  /-- line 141 -/
  | recv
  /-- lines 144 and 148 -/
  | send (item : Option (Result UdpPak))
  | ended

/-- The state of a `connect()` future. -/
inductive ConnectCall
  | acquire (addr : SocketAddr)
  | send (addr : SocketAddr) (guard : EpSem)
  | wait
  /-- The answer is in the slot: the handles of a connection, or an error. -/
  | answered (result : Result Nat)
  | done (result : Result Nat)
  | cancelled

/-- The guard that a `connect()` call holds. -/
def ConnectCall.guard? : ConnectCall → Option EpSem
  | .send _ g => some g
  | _ => none

/-- The future still exists, with its clone of the command sender. -/
def ConnectCall.live : ConnectCall → Bool
  | .acquire _ | .send _ _ | .wait | .answered _ => true
  | .done _ | .cancelled => false

/-- The connection whose handles are in the call's slot. -/
def ConnectCall.con? : ConnectCall → Option Nat
  | .answered (.ok i) => some i
  | _ => none

/-- What `ep_task` does with a packet. -/
inductive Fate
  | malformed
  /-- put on the command channel of the connection -/
  | delivered (con : Nat)
  /-- created the connection; was it put on its command channel? -/
  | created (con : Nat) (put : Bool)
  /-- dropped: the connection's channel had no free permit -/
  | noPermit (con : Nat)
  /-- dropped: the connection's task had ended -/
  | conEnded (con : Nat)
  /-- dropped: `quiche::accept` refused it -/
  | refused
  /-- dropped: unknown id, and not an Initial packet -/
  | noRoute
  deriving DecidableEq

/-- What the trace records. -/
inductive EpObs
  /-- The stream's item, received by `udp_task`. -/
  | yield (item : Option (Result UdpPak))
  /-- The command was taken by `ep_task`. -/
  | take (cmd : EpCmd)
  | fate (pak : UdpPak) (fate : Fate)
  /-- `InPak(None)` was handled. -/
  | streamEnd
  /-- `NewCon` was handled, with this result. -/
  | newCon (rsp : Nat) (result : Except QuicheError Nat)
  /-- `EpEvt::InCon` was put on the event channel. -/
  | inCon (con : Nat)

/-! ## Connection ids -/

/-- `u64::to_le_bytes`. -/
def toLeBytes (id : UInt64) : Bytes :=
  (List.range 8).map fun k => UInt8.ofNat (id.toNat / 256 ^ k)

/-- The id of the counter's value `id` (lines 286-289). -/
def cidOf (id : UInt64) : ConnectionId := toLeBytes id ++ List.replicate 8 0xdb

/-- The counter `CID`, with the ids that the process got from it. -/
structure CidGen where
  next : UInt64
  issued : List ConnectionId

/-- `cid()`: `fetch_add` wraps around. -/
def CidGen.cid (g : CidGen) : ConnectionId × CidGen :=
  (cidOf g.next, ⟨g.next + 1, g.issued ++ [cidOf g.next]⟩)

/-- The counter after `n` calls in the process. -/
def CidGen.after : Nat → CidGen
  | 0 => ⟨0, []⟩
  | n + 1 => (after n).cid.2

/-! ## The endpoint -/

/-- A connection that `ep_task` created. -/
structure EpCon (Q : Quiche) where
  scid : ConnectionId
  addr : SocketAddr
  /-- The Initial packet it was accepted for, with its header; `none`: it was connected. -/
  origin : Option (UdpPak × Header)
  con : Con Q

/-- An endpoint (module doc). -/
structure Ep (Q : Quiche) where
  cid : CidGen
  /-- `QuicheEp` has not been dropped. -/
  handle : Bool
  /-- The free permits of `QuicheEp.limit`. -/
  limit : Nat
  connects : List ConnectCall
  /-- The command channel. -/
  cmd : Chan EpSem EpCmd
  /-- The event channel; its receiver is `QuicheEpRecv`. -/
  evt : Chan EpSem EpEvt
  udpPc : UdpPc
  /-- The free permits of `udp_task`'s semaphore. -/
  udpLimit : Nat
  udpGuard : Option EpSem
  -- the locals of `ep_task`
  pc : EpPc
  config : Q.Config
  h3Config : Option Q.H3Config
  conMap : HashMap ConnectionId Nat
  evtGuard : Option EpSem
  cmdGuard : Option EpSem
  cons : List (EpCon Q)
  trace : List EpObs

namespace Ep

variable {Q : Quiche}

def log (s : Ep Q) (o : EpObs) : Ep Q := { s with trace := s.trace ++ [o] }

/-- Connection `i` after `f`. -/
def modCon (s : Ep Q) (i : Nat) (f : Con Q → Con Q) : Ep Q :=
  { s with cons := s.cons.modify i fun r => { r with con := f r.con } }

/-! ## Drops -/

/-- The guards `gs` are dropped. -/
def dropGuards (s : Ep Q) (gs : List EpSem) : Ep Q :=
  { s with
    limit := s.limit + gs.count .limit
    udpLimit := s.udpLimit + gs.count .udpLimit
    cmd := s.cmd.release (gs.count .cmd)
    evt := s.evt.release (gs.count .evt) }

/-- The handles of the connections `is` are dropped. -/
def dropCons (s : Ep Q) (is : List Nat) : Ep Q :=
  { s with cons := s.cons.mapIdx fun i r =>
      if i ∈ is then { r with con := r.con.dropCon.dropRecv } else r }

/-- The reply slots `rs` are dropped: a call that waits for one of them gets `EndpointClosed`
(line 126). -/
def dropRsps (s : Ep Q) (rs : List Nat) : Ep Q :=
  { s with connects := s.connects.mapIdx fun k x =>
      match x with
      | .wait => if k ∈ rs then .answered (.error endpointClosed) else x
      | _ => x }

/-- `rsp(result)`: if the call is gone, the result is dropped. -/
def answer (s : Ep Q) (rsp : Nat) (result : Result Nat) : Ep Q :=
  match s.connects[rsp]? with
  | some .wait => { s with connects := s.connects.set rsp (.answered result) }
  | _ => s.dropCons result.toOption.toList

/-- The connection whose handles are locals of `ep_task`. -/
def localCon : EpPc → Option Nat
  | .accepted i _ _ | .acceptSend i _ _ | .inCon i | .newCon i _ _ => some i
  | _ => none

/-- The reply slot that is a local of `ep_task`. -/
def localRsp : EpPc → Option Nat
  | .evtGuard cmd | .cmd cmd => cmd.rsp?
  | .newCon _ _ rsp => some rsp
  | _ => none

/-- `ep_task` is over: its locals and the command receiver are dropped, with what is queued. -/
def endTask (s : Ep Q) (exit : Exit) : Ep Q :=
  let s := (s.dropRsps ((localRsp s.pc).toList ++ s.cmd.queue.filterMap (·.1.rsp?))).dropCons
    (localCon s.pc).toList
  let s := s.dropGuards (s.cmd.guards ++ s.cmdGuard.toList ++ s.evtGuard.toList)
  { s with
    pc := .ended exit
    cmd := s.cmd.close
    cmdGuard := none
    evtGuard := none
    conMap := ∅
    cons := s.cons.map fun r => { r with con := r.con.unmap } }

/-! ## `ep_task` -/

/-- `con_task` of a connection is not over: it has a clone of the command sender
(`_ep_cmd_send`). -/
def conAlive (r : EpCon Q) : Bool := !r.con.pc.over

/-- The clones of the command sender: `ep_task`'s own, `QuicheEp`'s, `udp_task`'s, and those of the
`con_task`s and of the `connect()` calls. -/
def cmdSenders (s : Ep Q) : Nat :=
  (if s.pc.over then 0 else 1) + (if s.handle then 1 else 0) +
    (match s.udpPc with | .ended => 0 | _ => 1) + s.cons.countP conAlive +
    s.connects.countP (·.live)

/-- The end of the loop body: the command's guard `_g` is dropped. -/
def nextCmd (s : Ep Q) : Ep Q :=
  { s.dropGuards s.cmdGuard.toList with cmdGuard := none, pc := .recv }

/-- Line 175. -/
def recvCmd (s : Ep Q) : Option (Ep Q) :=
  match s.cmd.queue with
  | (cmd, g) :: rest =>
    some ({ s with
      cmd := { s.cmd with queue := rest }
      pc := .evtGuard cmd
      cmdGuard := some g }.log (.take cmd))
  | [] => if s.cmdSenders = 0 then some (s.endTask .closed) else none

/-- Lines 176-178. -/
def acquireEvt (s : Ep Q) (cmd : EpCmd) : Option (Ep Q) :=
  match s.evtGuard with
  | some _ => some { s with pc := .cmd cmd }
  | none => s.evt.acquire.map fun evt => { s with evt, evtGuard := some .evt, pc := .cmd cmd }

/-- `quiche_con(..)` for a new connection (lines 237 and 269). -/
def spawnCon (s : Ep Q) (scid : ConnectionId) (addr : SocketAddr)
    (origin : Option (UdpPak × Header)) (con : Q.Connection) (next : Nat → EpPc) : Ep Q :=
  match Con.quicheCon s.h3Config con with
  | none => s.endTask .panicked
  | some con =>
    { s with cons := s.cons ++ [{ scid, addr, origin, con }], pc := next s.cons.length }

/-- Lines 224-243: an Initial packet with an unknown id. -/
def accept (s : Ep Q) (pak : UdpPak) (hdr : Header) : Ep Q :=
  let (scid, cid) := s.cid.cid
  let (config, con) := Q.accept scid pak.addr s.config
  let s := { s with cid, config }
  match con with
  | .error _ => (s.log (.fate pak .refused)).nextCmd
  | .ok con => s.spawnCon scid pak.addr (some (pak, hdr)) con fun i => .accepted i scid pak

/-- Lines 199-257, up to the next action on a channel. -/
def onPak (s : Ep Q) (pak : UdpPak) : Option (Ep Q) :=
  match Q.headerFromSlice pak.data 16 with
  | .error _ => some (s.log (.fate pak .malformed)).nextCmd
  | .ok hdr =>
    match s.conMap.lookup hdr.dcid with
    | some i =>
      match s.cons[i]? with
      | none => none
      | some r =>
        match r.con.tryAcquire with
        | some c => some { s.modCon i fun _ => c with pc := .route i hdr.dcid pak }
        | none => some (s.log (.fate pak (.noPermit i))).nextCmd
    | none =>
      if hdr.ty = .initial then some (s.accept pak hdr)
      else some (s.log (.fate pak .noRoute)).nextCmd

/-- Lines 259-275. -/
def onNewCon (s : Ep Q) (addr : SocketAddr) (rsp : Nat) : Ep Q :=
  let (scid, cid) := s.cid.cid
  let (config, con) := Q.connect scid addr s.config
  let s := { s with cid, config }
  match con with
  | .error err =>
    ((s.answer rsp (.error (.quiche err))).log (.newCon rsp (.error err))).nextCmd
  | .ok con => s.spawnCon scid addr none con fun i => .newCon i scid rsp

/-- The `match cmd` (line 180). -/
def dispatch (s : Ep Q) : EpCmd → Option (Ep Q)
  | .inPak none => some (s.log .streamEnd).nextCmd
  | .inPak (some (.error _)) => some s.nextCmd
  | .inPak (some (.ok pak)) => s.onPak pak
  | .newCon addr rsp => some (s.onNewCon addr rsp)

/-- `con_cmd_send.send(ConCmd::InPak(pak), g)` of connection `i`: does it succeed? -/
def sendInPak (s : Ep Q) (i : Nat) (pak : UdpPak) : Option (Ep Q × Bool) :=
  match s.cons[i]? with
  | none => none
  | some r => (r.con.sendInPak pak).map fun (c, ok) => (s.modCon i fun _ => c, ok)

/-- Lines 215-218. -/
def route (s : Ep Q) (i : Nat) (dcid : ConnectionId) (pak : UdpPak) : Option (Ep Q) :=
  match s.sendInPak i pak with
  | none => none
  | some (s, true) => some (s.log (.fate pak (.delivered i))).nextCmd
  | some (s, false) =>
    let s := (s.modCon i Con.unmap).log (.fate pak (.conEnded i))
    some { s with conMap := s.conMap.erase dcid }.nextCmd

/-- `con_map.insert(scid, con_cmd_send)`: a sender that it replaces is dropped. -/
def insertCon (s : Ep Q) (scid : ConnectionId) (i : Nat) : Ep Q :=
  let s := match s.conMap.lookup scid with
    | some j => s.modCon j Con.unmap
    | none => s
  { s with conMap := s.conMap.insert scid i }

/-- Line 244. -/
def acceptAcquire (s : Ep Q) (i : Nat) (scid : ConnectionId) (pak : UdpPak) : Option (Ep Q) :=
  match s.cons[i]? with
  | none => none
  | some r =>
    match r.con.tryAcquire with
    | none => some (s.endTask .panicked)
    | some c => some { s.modCon i fun _ => c with pc := .acceptSend i scid pak }

/-- Lines 245-246. -/
def acceptSend (s : Ep Q) (i : Nat) (scid : ConnectionId) (pak : UdpPak) : Option (Ep Q) :=
  (s.sendInPak i pak).map fun (s, ok) =>
    { (s.log (.fate pak (.created i ok))).insertCon scid i with pc := .inCon i }

/-- Lines 247-254. -/
def sendInCon (s : Ep Q) (i : Nat) : Ep Q :=
  match s.evtGuard with
  | none => s.endTask .panicked
  | some g =>
    let s := { s with evtGuard := none }
    if s.evt.rx then ({ s with evt := s.evt.push (.inCon i) g }.log (.inCon i)).nextCmd
    else ((s.dropGuards [g]).dropCons [i]).nextCmd

/-- Lines 276-277. -/
def answerNewCon (s : Ep Q) (i : Nat) (scid : ConnectionId) (rsp : Nat) : Ep Q :=
  (((s.insertCon scid i).answer rsp (.ok i)).log (.newCon rsp (.ok i))).nextCmd

/-- A step of `ep_task`. -/
def taskStep (s : Ep Q) : Option (Ep Q) :=
  match s.pc with
  | .recv => s.recvCmd
  | .evtGuard cmd => s.acquireEvt cmd
  | .cmd cmd => s.dispatch cmd
  | .route i dcid pak => s.route i dcid pak
  | .accepted i scid pak => s.acceptAcquire i scid pak
  | .acceptSend i scid pak => s.acceptSend i scid pak
  | .inCon i => some (s.sendInCon i)
  | .newCon i scid rsp => some (s.answerNewCon i scid rsp)
  | .ended _ => none

/-! ## `udp_task` -/

/-- `ep_cmd_send.send(cmd, g)`: does it succeed? Otherwise the command and the guard are dropped. -/
def sendCmd (s : Ep Q) (cmd : EpCmd) (g : EpSem) : Ep Q × Bool :=
  if s.cmd.rx then ({ s with cmd := s.cmd.push cmd g }, true)
  else ((s.dropRsps cmd.rsp?.toList).dropGuards [g], false)

/-- `udp_task` at line 140, and at the sends after it received an item. -/
def udpStep (s : Ep Q) : Option (Ep Q) :=
  match s.udpPc, s.udpGuard with
  | .acquire, none =>
    if s.udpLimit = 0 then none
    else some { s with udpLimit := s.udpLimit - 1, udpGuard := some .udpLimit, udpPc := .recv }
  | .send none, some g =>
    some { (({ s with udpGuard := none } : Ep Q).sendCmd (.inPak none) g).1 with udpPc := .ended }
  | .send (some r), some g =>
    match ({ s with udpGuard := none } : Ep Q).sendCmd (.inPak (some r)) g with
    | (s, true) => some { s with udpPc := .acquire }
    | (s, false) => some { s with udpPc := .ended }
  | _, _ => none

/-- `stream_recv(..).await` (line 141) gives `item`. -/
def udpRecv (s : Ep Q) (item : Option (Result UdpPak)) : Option (Ep Q) :=
  match s.udpPc with
  | .recv => some ({ s with udpPc := .send item }.log (.yield item))
  | _ => none

/-! ## The users -/

/-- `connect(addr)` is called. -/
def connect (s : Ep Q) (addr : SocketAddr) : Option (Ep Q) :=
  if s.handle then some { s with connects := s.connects ++ [.acquire addr] } else none

/-- Line 124. -/
def connAcquire (s : Ep Q) (k : Nat) : Option (Ep Q) :=
  match s.connects[k]? with
  | some (.acquire addr) =>
    if s.limit = 0 then none
    else some { s with limit := s.limit - 1, connects := s.connects.set k (.send addr .limit) }
  | _ => none

/-- Line 125. -/
def connSend (s : Ep Q) (k : Nat) : Option (Ep Q) :=
  match s.connects[k]? with
  | some (.send addr g) =>
    match ({ s with connects := s.connects.set k .wait } : Ep Q).sendCmd (.newCon addr k) g with
    | (s, true) => some s
    | (s, false) => some { s with connects := s.connects.set k (.done (.error channelClosed)) }
  | _ => none

/-- Line 126: the future gives the answer; the handles in it are the user's. -/
def connPoll (s : Ep Q) (k : Nat) : Option (Ep Q) :=
  match s.connects[k]? with
  | some (.answered r) =>
    let s := { s with connects := s.connects.set k (.done r) }
    match r with
    | .ok i => some (s.modCon i Con.deliver)
    | .error _ => some s
  | _ => none

/-- The future of the call is dropped, with the answer in its slot. -/
def connCancel (s : Ep Q) (k : Nat) : Option (Ep Q) :=
  match s.connects[k]? with
  | some x =>
    if x.live then
      some { (s.dropGuards x.guard?.toList).dropCons x.con?.toList with
        connects := s.connects.set k .cancelled }
    else none
  | none => none

/-- `QuicheEpRecv::poll_next` finds an event: its guard is dropped, the handles are the user's. -/
def evtPoll (s : Ep Q) : Option (Ep Q) :=
  match s.evt.queue with
  | (.inCon i, g) :: rest =>
    some ((({ s with evt := { s.evt with queue := rest } } : Ep Q).dropGuards [g]).modCon i Con.deliver)
  | [] => none

/-- `QuicheEpRecv` is dropped, with the queued events. -/
def dropRecv (s : Ep Q) : Ep Q :=
  let s := (s.dropGuards s.evt.guards).dropCons (s.evt.queue.map fun | (.inCon i, _) => i)
  { s with evt := s.evt.close }

/-- A step of a party of connection `i`. -/
def conStep (s : Ep Q) (i : Nat) (a : ConAct) : Option (Ep Q) :=
  match s.cons[i]? with
  | none => none
  | some r =>
    if r.con.may a then (r.con.step a).map fun c => s.modCon i fun _ => c else none

end Ep

/-- The steps of an endpoint's parties (module doc). -/
inductive EpAct
  | task
  | udp
  | udpRecv (item : Option (Result UdpPak))
  | connect (addr : SocketAddr)
  | connAcquire (k : Nat)
  | connSend (k : Nat)
  | connPoll (k : Nat)
  | connCancel (k : Nat)
  | evtPoll
  | dropRecv
  | dropEp
  | con (i : Nat) (a : ConAct)
  | otherCid

/-- A packet comes in, and `ep_task` makes `n` steps. -/
def EpAct.packet (data : Bytes) (n : Nat) : List EpAct :=
  [.udp, .udpRecv (some (.ok ⟨.unspecified, data⟩)), .udp] ++ List.replicate n .task

namespace Ep

variable {Q : Quiche}

def step : EpAct → Ep Q → Option (Ep Q)
  | .task, s => s.taskStep
  | .udp, s => s.udpStep
  | .udpRecv item, s => s.udpRecv item
  | .connect addr, s => s.connect addr
  | .connAcquire k, s => s.connAcquire k
  | .connSend k, s => s.connSend k
  | .connPoll k, s => s.connPoll k
  | .connCancel k, s => s.connCancel k
  | .evtPoll, s => s.evtPoll
  | .dropRecv, s => some s.dropRecv
  | .dropEp, s => some { s with handle := false }
  | .con i a, s => s.conStep i a
  | .otherCid, s => some { s with cid := s.cid.cid.2 }

/-- `quiche_ep` (lines 55-79), in a process that called `cid()` before. -/
def quicheEp (cid : CidGen) (config : Q.Config) (h3Config : Option Q.H3Config) : Ep Q where
  cid
  handle := true
  limit := 64
  connects := []
  cmd := .new 64
  evt := .new 64
  udpPc := .acquire
  udpLimit := 64
  udpGuard := none
  pc := .recv
  config
  h3Config
  conMap := ∅
  evtGuard := none
  cmdGuard := none
  cons := []
  trace := []

/-- One endpoint as a system, in a process with other endpoints: it starts as `quiche_ep` makes it,
and every party may step at any time. -/
def sys (Q : Quiche) : Lts (Ep Q) EpAct where
  init s := ∃ n config h3Config, s = quicheEp (.after n) config h3Config
  step := step

end Ep

end Absquic
