import Absquic.Conn.Control

/-!
# The steps of `con_task`, one by one

* `TaskStep`: a step of `con_task`, one constructor for each thing it can do, with the answer of
  quiche that it depends on. In a reachable state there are no others (`taskStep_cases`): no
  `unwrap` panics, and the receive loop does not end.
* `message`, `inboundAfter`, `afterEvent`: what an event of `poll` comes to. All events but `GoAway`
  are handled alike: maybe a message, a new `h3_inbound`, another place.
* `other_step`: what the steps of the other parties leave alone.
-/

namespace Absquic

/-- A call of `with_transport`. -/
def ConObs.isTransport : ConObs → Bool
  | .withTransport _ => true
  | _ => false

/-- An answer of quiche that ends the task. -/
def ConObs.fails : ConObs → Bool
  | .poll (.error err) | .recvBody _ (.error err) | .recvDgram (.error err) => err ≠ .done
  | .poll (.ok (_, .goAway)) => true
  | .send (.error err) => err ≠ .done
  | _ => false

namespace Con

variable {Q : Quiche}

/-! ## The other parties -/

/-- The steps of the other parties leave the locals of `con_task` alone, and nobody makes a new
receiver of the events. -/
theorem other_step {a : ConAct} {c c' : Con Q} (h : step a c = some c') (ha : a ≠ .task) :
    c' = { c with
      now := c'.now, cmd := c'.cmd, evt := c'.evt, handle := c'.handle, evtRecv := c'.evtRecv
      epSend := c'.epSend, epGuard := c'.epGuard, sleepers := c'.sleepers, senders := c'.senders
      calls := c'.calls, trace := c'.trace } ∧ (c'.evt.rx = true → c.evt.rx = true) := by
  cases otherStep_cases h ha with
  | dropRecv => exact ⟨rfl, nofun⟩
  | _ => exact ⟨rfl, id⟩

/-! ## Events of `poll` -/

/-- The message that an event completes. -/
def message (c : Con Q) (stream : UInt64) : H3Event → Option Http3Msg
  | .headers list false => some { headers := msgHeaders list, body := [], reference := stream }
  | .finished => (c.h3Inbound.lookup stream).map fun item =>
      { headers := msgHeaders item.headers, body := item.body, reference := stream }
  | _ => none

/-- `h3_inbound` after an event. -/
def inboundAfter (c : Con Q) (stream : UInt64) : H3Event → HashMap UInt64 H3InboundProgress
  | .headers list true => c.h3Inbound.insert stream { headers := list, body := [] }
  | .finished | .reset _ => c.h3Inbound.erase stream
  | _ => c.h3Inbound

/-- Where `con_task` goes after an event. -/
def afterEvent (stream : UInt64) : H3Event → ConPc
  | .data => .recvBody stream
  | .datagram => .recvDgram stream
  | _ => .h3EvtGuard

/-- An h3 call was made: the new values of the quiche connections, and its line of the trace. -/
def called (c : Con Q) (x : Q.Connection × Q.H3Connection) (o : ConObs) : Con Q :=
  { c with con := x.1, h3Con := some x.2 }.log o

/-- What is put on the event channel, if its receiver exists. -/
def put (c : Con Q) (evt : ConEvt) : List ConObs := if c.evt.rx then [.evt evt] else []

/-- `sendEvt` with a permit. -/
theorem sendEvt_some {c : Con Q} {g : ConSem} (hg : c.evtGuard = some g) (e : ConEvt) :
    ∃ cmd evt, c.sendEvt e = some ({ c with
      cmd, evt, evtGuard := none, trace := c.trace ++ c.put e }, c.evt.rx) ∧
        evt.rx = c.evt.rx := by
  unfold sendEvt put
  rw [hg]
  simp only
  split
  · next hr => exact ⟨c.cmd, c.evt.push e g, by rw [hr]; rfl, rfl⟩
  · next hr =>
    refine ⟨c.cmd.release ([g].count .cmd), c.evt.release ([g].count .evt), ?_, rfl⟩
    rw [Bool.eq_false_iff.mpr hr, List.append_nil]
    rfl

/-! ## `con_task` -/

/-- The steps of `con_task` (module doc). -/
inductive TaskStep (c : Con Q) : Con Q → Prop
  | take {cmd g rest} (hpc : c.pc = .recv) (hq : c.cmd.queue = (cmd, g) :: rest) :
    TaskStep c { c with
      cmd := { c.cmd with queue := rest }
      pc := .cmd cmd
      cmdGuard := some g
      shouldSend := false }
  | dispatch {cmd d sleepers cmdGuard} (hpc : c.pc = .cmd cmd) :
    TaskStep c { (c.dispatch cmd).log (.timeout d) with sleepers, cmdGuard, pc := .evtGuard }
  | reserve {evt g} (hpc : c.pc = .evtGuard) (hr : evt.rx = c.evt.rx) :
    TaskStep c { c with evt, evtGuard := some g, pc := .established }
  /-- The connection was established. -/
  | connect {c₁ : Con Q} {cmd evt} (hpc : c.pc = .established) (hn : c.connected = false)
    (he : Q.isEstablished c.con = true) (h1 : c₁ = { c with connected := true }.setupH3)
    (hr : evt.rx = c.evt.rx) :
    TaskStep c ({ c₁ with
      cmd, evt, evtGuard := none, trace := c₁.trace ++ c.put .connected } : Con Q).enterH3
  | skip (hpc : c.pc = .established)
    (hn : c.connected = true ∨ Q.isEstablished c.con = false) : TaskStep c c.enterH3
  | requested (hpc : c.pc = .sendRequest) (hw : c.h3OutboundWait = []) :
    TaskStep c { c with pc := .h3EvtGuard }
  | request {x pc} (hpc : c.pc = .sendRequest) (hp : pc = .sendRequest ∨ pc = .h3EvtGuard) :
    TaskStep c { c.called x .sendRequest with pc }
  | reserveH3 {evt g} (hpc : c.pc = .h3EvtGuard) (hr : evt.rx = c.evt.rx) :
    TaskStep c { c with evt, evtGuard := some g, pc := .poll }
  | pollDone {h3 x} (hpc : c.pc = .poll) (h3c : c.h3Con = some h3)
    (hq : Q.poll c.now c.con h3 = (x, .error .done)) :
    TaskStep c { c.called x (.poll (.error .done)) with pc := .flush }
  | pollErr {h3 x err} (hpc : c.pc = .poll) (h3c : c.h3Con = some h3)
    (hq : Q.poll c.now c.con h3 = (x, .error err)) (he : err ≠ .done) :
    TaskStep c ((c.called x (.poll (.error err))).endTask .returned)
  | goAway {h3 x stream} (hpc : c.pc = .poll) (h3c : c.h3Con = some h3)
    (hq : Q.poll c.now c.con h3 = (x, .ok (stream, .goAway))) :
    TaskStep c ((c.called x (.poll (.ok (stream, .goAway)))).endTask .returned)
  | event {h3 x stream e} (hpc : c.pc = .poll) (h3c : c.h3Con = some h3)
    (hq : Q.poll c.now c.con h3 = (x, .ok (stream, e))) (hg : e ≠ .goAway)
    (hm : c.message stream e = none) :
    TaskStep c { c.called x (.poll (.ok (stream, e))) with
      h3Inbound := c.inboundAfter stream e, pc := afterEvent stream e }
  | message {h3 x stream e msg cmd evt} (hpc : c.pc = .poll) (h3c : c.h3Con = some h3)
    (hq : Q.poll c.now c.con h3 = (x, .ok (stream, e))) (hg : e ≠ .goAway)
    (hm : c.message stream e = some msg) (hr : c.evt.rx = true) (hr' : evt.rx = true) :
    TaskStep c { c.called x (.poll (.ok (stream, e))) with
      cmd, evt, evtGuard := none, h3Inbound := c.inboundAfter stream e, pc := .h3EvtGuard
      trace := c.trace ++ [.poll (.ok (stream, e)), .evt (.http3 msg)] }
  /-- Nobody receives the message. -/
  | lost {h3 x stream e msg} {c₁ : Con Q} {cmd evt m} (hpc : c.pc = .poll)
    (h3c : c.h3Con = some h3) (hq : Q.poll c.now c.con h3 = (x, .ok (stream, e)))
    (hg : e ≠ .goAway) (hm : c.message stream e = some msg) (hr : c.evt.rx = false)
    (hr' : evt.rx = false) (h1 : c₁ = { c.called x (.poll (.ok (stream, e))) with
      cmd, evt, evtGuard := none, h3Inbound := m }) :
    TaskStep c (c₁.endTask .returned)
  | bodyDone {h3 x stream} (hpc : c.pc = .recvBody stream) (h3c : c.h3Con = some h3)
    (hq : Q.recvBody c.now stream c.sendBuf c.con h3 = (x, .error .done)) :
    TaskStep c { c.called x (.recvBody stream (.error .done)) with pc := .h3EvtGuard }
  | bodyErr {h3 x stream err} (hpc : c.pc = .recvBody stream) (h3c : c.h3Con = some h3)
    (hq : Q.recvBody c.now stream c.sendBuf c.con h3 = (x, .error err)) (he : err ≠ .done) :
    TaskStep c ((c.called x (.recvBody stream (.error err))).endTask .returned)
  | chunk {h3 x stream chunk} (hpc : c.pc = .recvBody stream) (h3c : c.h3Con = some h3)
    (hq : Q.recvBody c.now stream c.sendBuf c.con h3 = (x, .ok chunk)) :
    TaskStep c ((c.called x (.recvBody stream (.ok chunk))).pushBody stream chunk)
  | dgramDone {h3 x flow} (hpc : c.pc = .recvDgram flow) (h3c : c.h3Con = some h3)
    (hq : Q.recvDgram c.now c.sendBuf c.con h3 = (x, .error .done)) :
    TaskStep c { c.called x (.recvDgram (.error .done)) with pc := .h3EvtGuard }
  | dgramErr {h3 x flow err} (hpc : c.pc = .recvDgram flow) (h3c : c.h3Con = some h3)
    (hq : Q.recvDgram c.now c.sendBuf c.con h3 = (x, .error err)) (he : err ≠ .done) :
    TaskStep c ((c.called x (.recvDgram (.error err))).endTask .returned)
  | badFlow {h3 x flow newFlow a b} (hpc : c.pc = .recvDgram flow) (h3c : c.h3Con = some h3)
    (hq : Q.recvDgram c.now c.sendBuf c.con h3 = (x, .ok (a, newFlow, b)))
    (hf : flow ≠ newFlow) :
    TaskStep c ((c.called x (.recvDgram (.ok (a, newFlow, b)))).endTask .returned)
  | dgram {h3 x flow a b} (hpc : c.pc = .recvDgram flow) (h3c : c.h3Con = some h3)
    (hq : Q.recvDgram c.now c.sendBuf c.con h3 = (x, .ok (a, flow, b))) :
    TaskStep c (c.called x (.recvDgram (.ok (a, flow, b))))
  | flush (hpc : c.pc = .flush) (hs : c.shouldSend = true) {n : Nat} :
    TaskStep c { c with sendBuf := n, pc := .send }
  | unsent (hpc : c.pc = .flush) (hs : c.shouldSend = false) : TaskStep c c.nextCmd
  | sendDone {con} (hpc : c.pc = .send)
    (hq : Q.send c.now c.sendBuf c.con = (con, .error .done)) :
    TaskStep c ({ c with con }.log (.send (.error .done))).nextCmd
  | sendErr {con err} (hpc : c.pc = .send)
    (hq : Q.send c.now c.sendBuf c.con = (con, .error err)) (he : err ≠ .done) :
    TaskStep c (({ c with con }.log (.send (.error err))).endTask .returned)
  | sent {con data info senders} (hpc : c.pc = .send)
    (hq : Q.send c.now c.sendBuf c.con = (con, .ok (data, info))) :
    TaskStep c { ({ c with con } : Con Q).log (.send (.ok (data, info))) with senders }

theorem erase_of_lookup_none {κ α : Type} [DecidableEq κ] {m : HashMap κ α} {k : κ}
    (h : m.lookup k = none) : m.erase k = m :=
  AList.ext (List.kerase_of_notMem_keys (AList.lookup_eq_none.mp h))

theorem recvCmd_cases {c c' : Con Q} (h : c.recvCmd = some c') (hpc : c.pc = .recv) :
    TaskStep c c' := by
  unfold recvCmd at h
  split at h
  · next hq => cases h; exact .take hpc hq
  · split at h
    · next h0 =>
      have := cmdSenders_pos (c := c) (by rw [hpc]; rfl)
      omega
    · cases h

theorem schedTimeout_cases {c : Con Q} {cmd : ConCmd} (hc : Control c) (hpc : c.pc = .cmd cmd) :
    TaskStep c (c.dispatch cmd).schedTimeout := by
  unfold schedTimeout
  simp only
  split
  · exact @TaskStep.dispatch Q c cmd _ (c.dispatch cmd).sleepers (c.dispatch cmd).cmdGuard hpc
  · split
    · next hg =>
      exact absurd hg ((control_dispatch hc hpc).busy cmd ((pc_dispatch c cmd).trans hpc))
    · exact .dispatch hpc

/-- The permit after `acquireEvt`. -/
theorem acquireEvt_some {c c' : Con Q} {next : ConPc} (h : c.acquireEvt next = some c') :
    ∃ evt g, c' = { c with evt, evtGuard := some g, pc := next } ∧ evt.rx = c.evt.rx := by
  unfold acquireEvt at h
  split at h
  · next g hg =>
    cases h
    exact ⟨c.evt, g, by rw [← hg], rfl⟩
  · obtain ⟨evt, he, rfl⟩ := Option.map_eq_some_iff.mp h
    obtain ⟨-, rfl⟩ := Chan.acquire_eq he
    exact ⟨_, .evt, rfl, rfl⟩

theorem establish_cases {c : Con Q} (hc : Control c) (hpc : c.pc = .established) :
    TaskStep c c.establish := by
  unfold establish
  split
  · next h =>
    rw [Bool.and_eq_true, Bool.not_eq_true'] at h
    obtain ⟨g, hg⟩ := Option.ne_none_iff_exists'.mp (hc.evt (by rw [hpc]; rfl))
    have hs := setupH3_spec { c with connected := true }
    have hg' : ({ c with connected := true } : Con Q).setupH3.evtGuard = some g := by
      rw [hs]
      exact hg
    obtain ⟨cmd, evt, he, hr⟩ := sendEvt_some hg' .connected
    have hrx : ({ c with connected := true } : Con Q).setupH3.evt = c.evt := by rw [hs]
    have hput : ({ c with connected := true } : Con Q).setupH3.put .connected = c.put .connected := by
      unfold put; rw [hrx]
    simp only [he, hput]
    exact .connect hpc h.1 h.2 rfl (hr.trans (congrArg _ hrx))
  · next h =>
    refine .skip hpc ?_
    by_cases hn : c.connected
    · exact .inl hn
    · refine .inr (Bool.eq_false_iff.mpr fun he => h ?_)
      rw [he, Bool.eq_false_iff.mpr hn]
      rfl

theorem sendRequest_cases {c : Con Q} (hpc : c.pc = .sendRequest) (h3 : Q.H3Connection) :
    TaskStep c (c.sendRequest h3) := by
  unfold sendRequest
  split
  · next hw => exact .requested hpc hw
  · next item rest _ =>
    simp only
    split
    · exact .request hpc (.inr rfl)
    · exact @TaskStep.request Q c
        (Q.sendRequest c.now (item.headers.getD []) item.body.isEmpty c.con h3).1 c.pc hpc (.inl hpc)

/-- An event that is not `GoAway`. -/
theorem onEvent_cases {c : Con Q} {h3 : Q.H3Connection} {x : Q.Connection × Q.H3Connection}
    {stream : UInt64} {e : H3Event} (hc : Control c) (hpc : c.pc = .poll)
    (h3c : c.h3Con = some h3) (hq : Q.poll c.now c.con h3 = (x, .ok (stream, e))) :
    TaskStep c ((c.called x (.poll (.ok (stream, e)))).onEvent stream e) := by
  obtain ⟨g, hg⟩ := Option.ne_none_iff_exists'.mp (hc.evt (by rw [hpc]; rfl))
  -- the message, put on the channel or lost
  have hmsg : ∀ msg m, e ≠ .goAway → c.message stream e = some msg → c.inboundAfter stream e = m →
      TaskStep c (({ c.called x (.poll (.ok (stream, e))) with h3Inbound := m } : Con Q).sendHttp3
        msg) := by
    intro msg m hne hm hi
    subst hi
    have hg' : ({ c.called x (.poll (.ok (stream, e))) with
        h3Inbound := c.inboundAfter stream e } : Con Q).evtGuard = some g := hg
    obtain ⟨cmd, evt, he, hr⟩ := sendEvt_some hg' (.http3 msg)
    unfold sendHttp3
    rw [he]
    cases hrx : c.evt.rx with
    | true =>
      have hrx' : (c.called x (.poll (.ok (stream, e)))).evt.rx = true := hrx
      simp only [hrx', put, if_true]
      have := @TaskStep.message Q c _ _ _ _ _ cmd evt hpc h3c hq hne hm hrx (hr.trans hrx)
      have ht : (c.called x (.poll (.ok (stream, e)))).trace ++ [.evt (.http3 msg)] =
          c.trace ++ [.poll (.ok (stream, e)), .evt (.http3 msg)] := List.append_assoc _ [_] [_]
      rwa [ht]
    | false =>
      have hrx' : (c.called x (.poll (.ok (stream, e)))).evt.rx = false := hrx
      simp only [hrx', put, Bool.false_eq_true, if_false, List.append_nil]
      exact .lost hpc h3c hq hne hm hrx (hr.trans hrx) rfl
  cases e with
  | headers list hasBody =>
    unfold onEvent
    cases hasBody with
    | true => exact .event hpc h3c hq nofun rfl
    | false => exact hmsg _ c.h3Inbound nofun rfl rfl
  | finished =>
    unfold onEvent
    dsimp only
    split
    · next hl =>
      have hl : c.h3Inbound.lookup stream = none := hl
      have := TaskStep.event hpc h3c hq nofun (by rw [Con.message, hl]; rfl)
      rwa [inboundAfter, erase_of_lookup_none hl] at this
    · next item hl =>
      have hl : c.h3Inbound.lookup stream = some item := hl
      exact hmsg _ _ nofun (by rw [Con.message, hl]; rfl) rfl
  | data => exact .event hpc h3c hq nofun rfl
  | reset code => exact .event hpc h3c hq nofun rfl
  | datagram => exact .event hpc h3c hq nofun rfl
  | goAway => exact .goAway hpc h3c hq

theorem poll_cases {c : Con Q} {h3 : Q.H3Connection} (hc : Control c) (hpc : c.pc = .poll)
    (h3c : c.h3Con = some h3) : TaskStep c (c.poll h3) := by
  unfold poll
  rcases hq : Q.poll c.now c.con h3 with ⟨x, r⟩
  simp only
  split
  · exact .pollDone hpc h3c hq
  · next err he => exact .pollErr hpc h3c hq he
  · exact onEvent_cases hc hpc h3c hq

theorem recvBody_cases {c : Con Q} {h3 : Q.H3Connection} {stream : UInt64}
    (hpc : c.pc = .recvBody stream) (h3c : c.h3Con = some h3) :
    TaskStep c (c.recvBody h3 stream) := by
  unfold recvBody
  rcases hq : Q.recvBody c.now stream c.sendBuf c.con h3 with ⟨x, r⟩
  simp only
  split
  · exact .bodyDone hpc h3c hq
  · next err he => exact .bodyErr hpc h3c hq he
  · exact .chunk hpc h3c hq

theorem recvDgram_cases {c : Con Q} {h3 : Q.H3Connection} {flow : UInt64}
    (hpc : c.pc = .recvDgram flow) (h3c : c.h3Con = some h3) : TaskStep c (c.recvDgram h3 flow) := by
  unfold recvDgram
  rcases hq : Q.recvDgram c.now c.sendBuf c.con h3 with ⟨x, r⟩
  simp only
  split
  · exact .dgramDone hpc h3c hq
  · next err he => exact .dgramErr hpc h3c hq he
  · split
    · next hf => exact .badFlow hpc h3c hq hf
    · next hf => obtain rfl := not_not.mp hf; exact .dgram hpc h3c hq

theorem send_cases {c : Con Q} (hpc : c.pc = .send) : TaskStep c c.send := by
  unfold send
  rcases hq : Q.send c.now c.sendBuf c.con with ⟨con, r⟩
  simp only
  split
  · exact .sendDone hpc hq
  · next err he => exact .sendErr hpc hq he
  · exact .sent hpc hq

/-- A step of `con_task`. -/
theorem taskStep_cases {c c' : Con Q} (h : c.taskStep = some c') (hc : Control c) :
    TaskStep c c' := by
  unfold taskStep at h
  split at h
  · next hpc => exact recvCmd_cases h hpc
  · next hpc => cases h; exact schedTimeout_cases hc hpc
  · next hpc => obtain ⟨evt, g, rfl, hr⟩ := acquireEvt_some h; exact .reserve hpc hr
  · next hpc => cases h; exact establish_cases hc hpc
  · next hpc => obtain ⟨h3, -, rfl⟩ := Option.map_eq_some_iff.mp h; exact sendRequest_cases hpc h3
  · next hpc => obtain ⟨evt, g, rfl, hr⟩ := acquireEvt_some h; exact .reserveH3 hpc hr
  · next hpc => obtain ⟨h3, h3c, rfl⟩ := Option.map_eq_some_iff.mp h; exact poll_cases hc hpc h3c
  · next hpc => obtain ⟨h3, h3c, rfl⟩ := Option.map_eq_some_iff.mp h; exact recvBody_cases hpc h3c
  · next hpc => obtain ⟨h3, h3c, rfl⟩ := Option.map_eq_some_iff.mp h; exact recvDgram_cases hpc h3c
  · next hpc =>
    cases h
    unfold Con.flush
    split
    · next hs => exact .flush hpc hs
    · next hs => exact .unsent hpc (Bool.eq_false_iff.mpr hs)
  · next hpc => cases h; exact send_cases hpc
  · cases h

/-- A step from a reachable state: of `con_task`, or of another party. -/
theorem reach_cases {a : ConAct} {c c' : Con Q} (h : (sys Q).Reach c) (hs : step a c = some c') :
    a = .task ∧ TaskStep c c' ∨ a ≠ .task ∧ Frame c c' := by
  by_cases ha : a = .task
  · subst ha; exact .inl ⟨rfl, taskStep_cases hs (sys_control h)⟩
  · exact .inr ⟨ha, frame_step hs ha⟩

/-- A condition on the steps of `con_task`. -/
def OnTask (P : Con Q → Prop) (c : Con Q) (a : ConAct) : Prop := a = .task → P c

instance (P : Con Q → Prop) [∀ c, Decidable (P c)] (c : Con Q) (a : ConAct) :
    Decidable (OnTask P c a) :=
  match a with
  | .task => decidable_of_iff (P c) ⟨fun h _ => h, fun h => h rfl⟩
  | .fire _ | .udpSend _ | .http3 _ | .callAcquire _ | .callSend _ | .callCancel _ | .evtPoll
  | .dropRecv | .dropCon | .tick _ | .tryAcquire | .sendInPak _ | .unmap | .deliver => isTrue nofun

/-! ## Parts of a step -/

/-- What `dispatch` leaves alone. -/
theorem dispatch_spec (c : Con Q) (cmd : ConCmd) :
    (∃ con calls h3OutboundWait h3Outbound shouldSend trace, c.dispatch cmd =
      { c with con, calls, h3OutboundWait, h3Outbound, shouldSend, trace }) ∧
    ∃ l, (c.dispatch cmd).trace = c.trace ++ l ∧ ∀ o ∈ l, o = .recv ∨ o = .onTimeout := by
  cases cmd with
  | tick =>
    refine ⟨⟨_, _, _, _, _, _, rfl⟩, [], (List.append_nil _).symm, ?_⟩
    intro o ho
    cases ho
  | timeout => exact ⟨⟨_, _, _, _, _, _, rfl⟩, [.onTimeout], rfl, by simp⟩
  | inPak pak => exact ⟨⟨_, _, _, _, _, _, rfl⟩, [.recv], rfl, by simp⟩
  | http3 item rsp =>
    rw [dispatch]
    split
    · exact ⟨⟨_, _, _, _, _, _, rfl⟩, [], (List.append_nil _).symm, by simp⟩
    · exact ⟨⟨_, _, _, _, _, _, rfl⟩, [], (List.append_nil _).symm, by simp⟩

theorem pushBody_spec (c : Con Q) (stream : UInt64) (chunk : Bytes) :
    ∃ m, c.pushBody stream chunk = { c with h3Inbound := m } := by
  unfold pushBody
  split
  · exact ⟨_, rfl⟩
  · exact ⟨_, rfl⟩

/-- What `setupH3` does, by what `with_transport` answers. -/
theorem setupH3_cases (c : Con Q) :
    c.h3Config = none ∧ c.setupH3 = c ∨
    (∃ cfg con h3, c.h3Config = some cfg ∧ Q.withTransport c.now cfg c.con = (con, .ok h3) ∧
      c.setupH3 =
        { c with con, h3Con := some h3, shouldSend := true }.log (.withTransport true)) ∨
    ∃ cfg con err, c.h3Config = some cfg ∧ Q.withTransport c.now cfg c.con = (con, .error err) ∧
      c.setupH3 = { c with con, h3Con := none }.log (.withTransport false) := by
  unfold setupH3
  split
  · next hn => exact .inl ⟨hn, rfl⟩
  · next cfg hcfg =>
    split
    · next con h3 hw => exact .inr (.inl ⟨cfg, con, h3, hcfg, hw, rfl⟩)
    · next con err hw => exact .inr (.inr ⟨cfg, con, err, hcfg, hw, rfl⟩)

/-- What `setupH3` logs. -/
theorem trace_setupH3 (c : Con Q) : ∃ l, c.setupH3.trace = c.trace ++ l ∧
    (∀ o ∈ l, o.isTransport) ∧ (c.h3Con = none → c.setupH3.h3Con.isSome = true →
      c.setupH3.h3Config ≠ none ∧ .withTransport false ∉ l) := by
  obtain ⟨-, he⟩ | ⟨cfg, con, h3, hcfg, -, he⟩ | ⟨cfg, con, err, -, -, he⟩ := setupH3_cases c
  · rw [he]
    refine ⟨[], (List.append_nil _).symm, by simp, ?_⟩
    intro hn hs
    rw [hn] at hs
    cases hs
  · rw [he]
    refine ⟨[.withTransport true], rfl, by simp [ConObs.isTransport], ?_⟩
    intro _ _
    exact ⟨fun hn => (nomatch hcfg.symm.trans hn), by simp⟩
  · rw [he]
    refine ⟨[.withTransport false], rfl, by simp [ConObs.isTransport], ?_⟩
    intro _ hs
    cases hs

theorem TaskStep.not_over {c c' : Con Q} (h : TaskStep c c') : c.pc.over = false := by
  cases h with
  | take hpc | dispatch hpc | reserve hpc | connect hpc | skip hpc | requested hpc | request hpc
  | reserveH3 hpc | pollDone hpc | pollErr hpc | goAway hpc | event hpc | message hpc | lost hpc
  | bodyDone hpc | bodyErr hpc | chunk hpc | dgramDone hpc | dgramErr hpc | badFlow hpc | dgram hpc
  | flush hpc | unsent hpc | sendDone hpc | sendErr hpc | sent hpc => rw [hpc]; rfl

/-! ## Answers that end the task -/

/-- A step of `con_task` that logs `l`: if it is an answer that ends the task, the task has ended. -/
theorem fails_task {c c' : Con Q} (h : TaskStep c c') : ∃ l, c'.trace = c.trace ++ l ∧
    ∀ o ∈ l, o.fails → c'.pc = .ended .returned := by
  cases h with
  | take | reserve | skip | requested | reserveH3 | flush | unsent =>
    exact ⟨[], (List.append_nil _).symm, by simp⟩
  | @dispatch cmd d =>
    obtain ⟨-, l, hl, ho⟩ := dispatch_spec c cmd
    refine ⟨l ++ [.timeout d], ?_, ?_⟩
    · show (c.dispatch cmd).trace ++ _ = _
      rw [hl, List.append_assoc]
    · intro o hm hf
      rcases List.mem_append.mp hm with hm | hm
      · rcases ho o hm with rfl | rfl <;> cases hf
      · rw [List.mem_singleton.mp hm] at hf; cases hf
  | @connect c₁ _ _ _ _ _ h1 =>
    obtain ⟨l, hl, ho, -⟩ := trace_setupH3 { c with connected := true }
    rw [← h1] at hl
    refine ⟨l ++ c.put .connected, ?_, ?_⟩
    · show c₁.trace ++ _ = _
      rw [hl, List.append_assoc]
    · intro o hm hf
      rcases List.mem_append.mp hm with hm | hm
      · have := ho o hm
        cases o <;> first | cases hf | cases this
      · unfold put at hm
        split at hm
        · rw [List.mem_singleton.mp hm] at hf; cases hf
        · cases hm
  | request => exact ⟨[.sendRequest], rfl, by simp [ConObs.fails]⟩
  | pollDone => exact ⟨[_], rfl, by simp [ConObs.fails]⟩
  | event _ _ _ hg =>
    refine ⟨[_], rfl, ?_⟩
    intro o hm hf
    rw [List.mem_singleton.mp hm] at hf
    simp only [ConObs.fails] at hf
    split at hf <;> simp_all
  | message _ _ _ hg =>
    refine ⟨[_, _], rfl, ?_⟩
    intro o hm hf
    rcases List.mem_cons.mp hm with rfl | hm
    · simp only [ConObs.fails] at hf
      split at hf <;> simp_all
    · rw [List.mem_singleton.mp hm] at hf; cases hf
  | pollErr | goAway | bodyErr | dgramErr | badFlow | sendErr => exact ⟨[_], rfl, fun _ _ _ => rfl⟩
  | lost _ _ _ _ _ _ _ h1 => subst h1; exact ⟨[_], rfl, fun _ _ _ => rfl⟩
  | bodyDone | dgramDone | dgram | sendDone | sent => exact ⟨[_], rfl, by simp [ConObs.fails]⟩
  | @chunk _ x stream chunk =>
    obtain ⟨m, hm⟩ := pushBody_spec (c.called x (.recvBody stream (.ok chunk))) stream chunk
    rw [hm]
    exact ⟨[_], rfl, by simp [ConObs.fails]⟩

/-- After such an answer the task has ended. -/
theorem returned_of_fails {c : Con Q} (h : (sys Q).Reach c) {o : ConObs} (ho : o ∈ c.trace)
    (hf : o.fails) : c.pc = .ended .returned := by
  revert ho hf
  refine h.invariant (I := fun c => o ∈ c.trace → o.fails → c.pc = .ended .returned) ?_ ?_
  · rintro c ⟨h3Config, con, hq⟩
    cases hq
    intro ho
    cases ho
  · intro a c c' hr ih hs ho hf
    rcases reach_cases hr hs with ⟨-, ht⟩ | ⟨-, hfr⟩
    · obtain ⟨l, hl, hlo⟩ := fails_task ht
      rw [hl] at ho
      rcases List.mem_append.mp ho with ho | ho
      · have hov := ht.not_over
        rw [ih ho hf] at hov
        cases hov
      · exact hlo o ho hf
    · obtain ⟨l, hl, hb⟩ := hfr.trace
      rw [hl] at ho
      rcases List.mem_append.mp ho with ho | ho
      · rw [hfr.pc]; exact ih ho hf
      · have := hb o ho
        cases o <;> first | cases hf | cases this

/-! ## Runs of the scripted library -/

/-- A run of `con_task` alone, on a connection with h3 that has the answers `answers`. -/
def scriptedRun (answers : List Answer) (n : Nat) : Option (Con Quiche.scripted) :=
  (quicheCon (Q := Quiche.scripted) (some ()) answers).bind
    ((sys Quiche.scripted).run (List.replicate n .task))

theorem reach_scripted (answers : List Answer) (n : Nat) (p : Con Quiche.scripted → Bool)
    (h : (scriptedRun answers n).any p) : ∃ c, (sys Quiche.scripted).Reach c ∧ p c := by
  obtain ⟨c, hc, hp⟩ := (Option.any_eq_true _ _).mp h
  obtain ⟨c₀, h₀, hr⟩ := Option.bind_eq_some_iff.mp hc
  exact ⟨c, .run ⟨_, _, h₀⟩ hr, hp⟩

end Con
end Absquic
