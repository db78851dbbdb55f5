import Absquic.Conn.Task
import Mathlib.Data.List.Perm.Basic

/-!
# What the steps of a connection do and leave alone

* `OtherStep`: what the steps of the other parties than `con_task` do, with what they check.
* `Frame`: such a step leaves `con_task`'s locals alone.
* `Keeps`, `Body`: a step of `con_task` after it read the timeout leaves the commands, the sleepers
  and the calls alone, or ends the task. `conAfter` is the quiche connection after a step.
-/

namespace Absquic

/-- The places between the read of the timeout (line 208) and the end of the loop body. -/
def ConPc.inBody : ConPc → Bool
  | .recv | .cmd _ | .ended _ => false
  | _ => true

/-- The places where an event's permit is held. -/
def ConPc.hasEvt : ConPc → Bool
  | .established | .poll => true
  | _ => false

/-- The places inside `if let Some(h3_con) = &mut h3_con`. -/
def ConPc.inH3 : ConPc → Bool
  | .sendRequest | .h3EvtGuard | .poll | .recvBody _ | .recvDgram _ => true
  | _ => false

/-- A call of quiche after the timeout was read, or an event. -/
def ConObs.inBody : ConObs → Bool
  | .recv | .onTimeout | .timeout _ | .inPak _ | .udpSend _ => false
  | _ => true

/-- A read of `timeout()`. -/
def ConObs.isTimeout : ConObs → Bool
  | .timeout _ => true
  | _ => false

/-- The packet senders', and `ep_task`'s. -/
def ConObs.byOther : ConObs → Bool
  | .inPak _ | .udpSend _ => true
  | _ => false

namespace Con

variable {Q : Quiche}

/-! ## The other parties -/

/-- What the steps of the other parties than `con_task` do. -/
inductive OtherStep (c : Con Q) : ConAct → Con Q → Prop
  | fire {k s} (hk : c.sleepers[k]? = some s) (hr : c.cmd.rx = true) :
    OtherStep c (.fire k)
      { c with sleepers := c.sleepers.eraseIdx k, cmd := c.cmd.push .timeout s.guard }
  | fireLost {k s} (hk : c.sleepers[k]? = some s) (hr : c.cmd.rx = false) :
    OtherStep c (.fire k)
      (({ c with sleepers := c.sleepers.eraseIdx k } : Con Q).dropGuards [s.guard])
  | udpSend {k s} (hk : c.senders[k]? = some s) :
    OtherStep c (.udpSend k) ({ c with senders := c.senders.eraseIdx k }.log (.udpSend s.pak))
  | http3 {item} (hu : c.handle = .user) :
    OtherStep c (.http3 item) { c with calls := c.calls ++ [.acquire item] }
  | callAcquire {k item} (hk : c.calls[k]? = some (.acquire item)) (hf : 0 < c.cmd.free) :
    OtherStep c (.callAcquire k)
      { c with
        cmd := { c.cmd with free := c.cmd.free - 1 }
        calls := c.calls.set k (.send item .cmd) }
  | callSend {k item g} (hk : c.calls[k]? = some (.send item g)) (hr : c.cmd.rx = true) :
    OtherStep c (.callSend k)
      { c with cmd := c.cmd.push (.http3 item k) g, calls := c.calls.set k .wait }
  | callLost {k item g} (hk : c.calls[k]? = some (.send item g)) (hr : c.cmd.rx = false) :
    OtherStep c (.callSend k)
      { c.dropGuards [g] with calls := c.calls.set k (.done (.error channelClosed)) }
  | callCancel {k x} (hk : c.calls[k]? = some x) (hx : x.live) :
    OtherStep c (.callCancel k)
      { c.dropGuards x.guard?.toList with calls := c.calls.set k .cancelled }
  | evtPoll {e g rest} (hu : c.evtRecv = .user) (hq : c.evt.queue = (e, g) :: rest) :
    OtherStep c .evtPoll (({ c with evt := { c.evt with queue := rest } } : Con Q).dropGuards [g])
  | dropRecv : OtherStep c .dropRecv c.dropRecv
  | dropCon : OtherStep c .dropCon c.dropCon
  | tick {d} : OtherStep c (.tick d) { c with now := c.now + d }
  | tryAcquire (hg : c.epGuard = none) (hf : 0 < c.cmd.free) :
    OtherStep c .tryAcquire
      { c with cmd := { c.cmd with free := c.cmd.free - 1 }, epGuard := some .cmd }
  | sendInPak {pak g} (hg : c.epGuard = some g) (hr : c.cmd.rx = true) :
    OtherStep c (.sendInPak pak)
      ({ c with epGuard := none, cmd := c.cmd.push (.inPak pak) g }.log (.inPak pak))
  | pakLost {pak g} (hg : c.epGuard = some g) (hr : c.cmd.rx = false) :
    OtherStep c (.sendInPak pak) (({ c with epGuard := none } : Con Q).dropGuards [g])
  | unmap : OtherStep c .unmap c.unmap
  | deliver : OtherStep c .deliver c.deliver

theorem sendCmd_rx {c : Con Q} (hr : c.cmd.rx = true) (cmd : ConCmd) (g : ConSem) :
    c.sendCmd cmd g = ({ c with cmd := c.cmd.push cmd g }, true) := if_pos hr

theorem sendCmd_closed {c : Con Q} (hr : c.cmd.rx = false) (cmd : ConCmd) (g : ConSem) :
    c.sendCmd cmd g = ((c.dropRsps cmd.rsp?.toList).dropGuards [g], false) := by
  unfold sendCmd
  rw [if_neg (by rw [hr]; exact Bool.false_ne_true)]

/-- No reply slot is dropped. -/
theorem dropRsps_none (c : Con Q) : c.dropRsps [] = c := by
  have hcalls : (c.dropRsps []).calls = c.calls := by
    refine List.ext_getElem? fun k => ?_
    unfold dropRsps
    simp
  calc c.dropRsps [] = { c with calls := (c.dropRsps []).calls } := rfl
    _ = c := by rw [hcalls]

/-- The reply slot of call `k` is dropped, and then the call ends. -/
theorem calls_dropRsps_set (c : Con Q) (k : Nat) (x : Http3Call) :
    (({ c with calls := c.calls.set k .wait } : Con Q).dropRsps [k]).calls.set k x =
      c.calls.set k x := by
  refine List.ext_getElem? fun j => ?_
  unfold dropRsps
  by_cases hj : k = j
  · simp [hj, List.getElem?_set]
  · simp [hj, Ne.symm hj]

theorem otherStep_cases {a : ConAct} {c c' : Con Q} (h : step a c = some c') (ha : a ≠ .task) :
    OtherStep c a c' := by
  cases a with
  | task => exact absurd rfl ha
  | fire k =>
    change c.fire k = some c' at h
    unfold fire at h
    split at h
    · cases h
    · next s hk =>
      split at h
      · cases h
        by_cases hr : c.cmd.rx
        · rw [sendCmd_rx (c := { c with sleepers := c.sleepers.eraseIdx k }) hr]
          exact .fire hk hr
        · have hr := Bool.eq_false_iff.mpr hr
          rw [sendCmd_closed (c := { c with sleepers := c.sleepers.eraseIdx k }) hr]
          rw [show ConCmd.timeout.rsp?.toList = [] from rfl, dropRsps_none]
          exact .fireLost hk hr
      · cases h
  | udpSend k =>
    change c.udpSend k = some c' at h
    unfold udpSend at h
    split at h
    · cases h
    · next s hk =>
      split at h
      · cases h; exact .udpSend hk
      · cases h
  | http3 item =>
    change c.http3 item = some c' at h
    unfold http3 at h
    split at h
    · next hu => cases h; exact .http3 hu
    · cases h
  | callAcquire k =>
    change c.callAcquire k = some c' at h
    unfold callAcquire at h
    split at h
    · next item hk =>
      obtain ⟨cmd, hc, rfl⟩ := Option.map_eq_some_iff.mp h
      obtain ⟨hf, rfl⟩ := Chan.acquire_eq hc
      exact .callAcquire hk hf
    · cases h
  | callSend k =>
    change c.callSend k = some c' at h
    unfold callSend at h
    split at h
    · next item g hk =>
      by_cases hr : c.cmd.rx
      · rw [sendCmd_rx (c := { c with calls := c.calls.set k .wait }) hr] at h
        cases h
        exact .callSend hk hr
      · have hr := Bool.eq_false_iff.mpr hr
        rw [sendCmd_closed (c := { c with calls := c.calls.set k .wait }) hr] at h
        cases h
        have hset := calls_dropRsps_set c k (.done (.error channelClosed))
        have he := OtherStep.callLost hk hr
        rw [← hset] at he
        exact he
    · cases h
  | callCancel k =>
    change c.callCancel k = some c' at h
    unfold callCancel at h
    split at h
    · next x hk =>
      split at h
      · next hx => cases h; exact .callCancel hk hx
      · cases h
    · cases h
  | evtPoll =>
    change c.evtPoll = some c' at h
    unfold evtPoll at h
    split at h
    · next hu hq => cases h; exact .evtPoll hu hq
    · cases h
  | dropRecv => cases h; exact .dropRecv
  | dropCon => cases h; exact .dropCon
  | tick d => cases h; exact .tick
  | tryAcquire =>
    change c.tryAcquire = some c' at h
    unfold tryAcquire at h
    split at h
    · cases h
    · next hg =>
      obtain ⟨cmd, hc, rfl⟩ := Option.map_eq_some_iff.mp h
      obtain ⟨hf, rfl⟩ := Chan.acquire_eq hc
      exact .tryAcquire hg hf
  | sendInPak pak =>
    obtain ⟨⟨c₁, ok⟩, hc, rfl⟩ := Option.map_eq_some_iff.mp h
    unfold sendInPak at hc
    split at hc
    · cases hc
    · next g hg =>
      by_cases hr : c.cmd.rx
      · rw [sendCmd_rx (c := { c with epGuard := none }) hr] at hc
        cases hc
        exact .sendInPak hg hr
      · have hr := Bool.eq_false_iff.mpr hr
        rw [sendCmd_closed (c := { c with epGuard := none }) hr,
          show (ConCmd.inPak pak).rsp?.toList = [] from rfl, dropRsps_none] at hc
        cases hc
        exact .pakLost hg hr
  | unmap => cases h; exact .unmap
  | deliver => cases h; exact .deliver

/-- What a step of another party than `con_task` leaves alone: the locals of `con_task`; it may
append to the command queue while the receiver exists. -/
structure Frame (c c' : Con Q) : Prop where
  pc : c'.pc = c.pc
  con : c'.con = c.con
  cmdGuard : c'.cmdGuard = c.cmdGuard
  evtGuard : c'.evtGuard = c.evtGuard
  connected : c'.connected = c.connected
  h3Con : c'.h3Con = c.h3Con
  h3OutboundWait : c'.h3OutboundWait = c.h3OutboundWait
  h3Outbound : c'.h3Outbound = c.h3Outbound
  rx : c'.cmd.rx = c.cmd.rx
  queue : ∃ l, c'.cmd.queue = c.cmd.queue ++ l ∧ (c.cmd.rx = false → l = [])
  now : c.now ≤ c'.now
  /-- A sleeper that is gone has sent its command. -/
  sleepers : ∀ s ∈ c.sleepers, s ∈ c'.sleepers ∨
    (c.cmd.rx = true → (.timeout, s.guard) ∈ c'.cmd.queue)
  trace : ∃ l, c'.trace = c.trace ++ l ∧ ∀ o ∈ l, o.byOther

theorem Frame.of_cmd {c c' : Con Q} (h : c' = { c with
    now := c'.now, cmd := c'.cmd, evt := c'.evt, handle := c'.handle, evtRecv := c'.evtRecv
    epSend := c'.epSend, epGuard := c'.epGuard, senders := c'.senders
    calls := c'.calls, trace := c'.trace }) (hr : c'.cmd.rx = c.cmd.rx)
    (hq : c'.cmd.queue = c.cmd.queue) (hn : c.now ≤ c'.now) {l : List ConObs}
    (ht : c'.trace = c.trace ++ l) (hl : ∀ o ∈ l, o.byOther) : Frame c c' := by
  constructor
  case queue => exact ⟨[], by simp [hq], fun _ => rfl⟩
  case sleepers => rw [h]; exact fun s hs => .inl hs
  case trace => exact ⟨l, ht, hl⟩
  all_goals first | (rw [h]; done) | assumption

/-- No line of the trace, no time. -/
theorem Frame.silent {c c' : Con Q} (h : c' = { c with
    cmd := c'.cmd, evt := c'.evt, handle := c'.handle, evtRecv := c'.evtRecv
    epSend := c'.epSend, epGuard := c'.epGuard, senders := c'.senders, calls := c'.calls })
    (hr : c'.cmd.rx = c.cmd.rx) (hq : c'.cmd.queue = c.cmd.queue) : Frame c c' :=
  .of_cmd (by rw [h]) hr hq (by rw [h]) (l := []) (by rw [h, List.append_nil]) nofun

/-- A command is queued, and sleeper `k`, if any, is gone. -/
theorem Frame.push {c : Con Q} (hr : c.cmd.rx = true) {cmd : ConCmd} {g : ConSem}
    {sleepers : List Sleeper} {calls : List Http3Call} {epGuard : Option ConSem}
    {trace : List ConObs} {l : List ConObs} (ht : trace = c.trace ++ l) (hl : ∀ o ∈ l, o.byOther)
    (hs : ∀ s ∈ c.sleepers, s ∈ sleepers ∨ cmd = .timeout ∧ s.guard = g) :
    Frame c { c with cmd := c.cmd.push cmd g, sleepers, calls, epGuard, trace } := by
  refine ⟨rfl, rfl, rfl, rfl, rfl, rfl, rfl, rfl, rfl, ⟨_, rfl, by simp [hr]⟩, Nat.le_refl _,
    fun s hm => ?_, l, ht, hl⟩
  rcases hs s hm with hm | ⟨rfl, rfl⟩
  · exact .inl hm
  · exact .inr fun _ => List.mem_append_right _ (List.mem_singleton.mpr rfl)

/-- The sleepers that stay when sleeper `k` is woken. -/
theorem mem_eraseIdx_or {sleepers : List Sleeper} {k : Nat} {s x : Sleeper}
    (hk : sleepers[k]? = some s) (hx : x ∈ sleepers) : x ∈ sleepers.eraseIdx k ∨ x = s := by
  obtain ⟨hlt, rfl⟩ := List.getElem?_eq_some_iff.mp hk
  rcases List.mem_cons.mp ((List.getElem_cons_eraseIdx_perm hlt).mem_iff.mpr hx) with rfl | hx
  · exact .inr rfl
  · exact .inl hx

/-- The steps of the other parties. -/
theorem frame_step {a : ConAct} {c c' : Con Q} (h : step a c = some c') (ha : a ≠ .task) :
    Frame c c' := by
  cases otherStep_cases h ha with
  | fire hk hr =>
    refine .push hr (l := []) (List.append_nil _).symm nofun fun s hs => ?_
    exact (mem_eraseIdx_or hk hs).imp_right fun he => ⟨rfl, by rw [he]⟩
  | fireLost hk hr =>
    refine ⟨rfl, rfl, rfl, rfl, rfl, rfl, rfl, rfl, rfl, ⟨[], (List.append_nil _).symm, fun _ => rfl⟩,
      Nat.le_refl _, fun s hs => ?_, [], (List.append_nil _).symm, nofun⟩
    exact (mem_eraseIdx_or hk hs).imp_right fun _ h => nomatch hr.symm.trans h
  | udpSend =>
    exact .of_cmd rfl rfl rfl (Nat.le_refl _) (l := [.udpSend _]) rfl (by simp [ConObs.byOther])
  | callSend _ hr =>
    exact .push hr (l := []) (List.append_nil _).symm nofun fun _ hs => .inl hs
  | tick => exact .of_cmd rfl rfl rfl (Nat.le_add_right _ _) (l := []) (List.append_nil _).symm nofun
  | sendInPak _ hr =>
    exact .push hr (l := [.inPak _]) rfl (by simp [ConObs.byOther]) fun _ hs => .inl hs
  | _ => exact .silent rfl rfl rfl

/-- `con_task` went back to waiting for its next command: it read the timeout before. -/
def Waits (c : Con Q) : Prop := c.pc = .recv ∧ c.trace.any (·.isTimeout)
deriving Decidable

theorem Waits.of_frame {c c' : Con Q} (h : Waits c') (hf : Frame c c') : Waits c := by
  obtain ⟨hp, ht⟩ := h
  obtain ⟨l, hl, hb⟩ := hf.trace
  rw [hl, List.any_append, Bool.or_eq_true] at ht
  refine ⟨hf.pc ▸ hp, ht.resolve_right fun ht => ?_⟩
  obtain ⟨o, ho, hot⟩ := List.any_eq_true.mp ht
  have := hb o ho
  cases o <;> cases hot
  cases this

/-! ## `con_task` -/

/-- The quiche connection after the call of quiche, if any, that `con_task` makes in its next
step. -/
def conAfter (c : Con Q) : Q.Connection :=
  match c.pc, c.h3Con with
  | .cmd .timeout, _ => Q.onTimeout c.now c.con
  | .cmd (.inPak pak), _ => Q.recv c.now pak.data pak.addr c.con
  | .established, _ =>
    if !c.connected && Q.isEstablished c.con then
      c.h3Config.elim c.con fun cfg => (Q.withTransport c.now cfg c.con).1
    else c.con
  | .sendRequest, some h3 =>
    match c.h3OutboundWait with
    | [] => c.con
    | item :: _ =>
      (Q.sendRequest c.now (item.headers.getD []) item.body.isEmpty c.con h3).1.1
  | .poll, some h3 => (Q.poll c.now c.con h3).1.1
  | .recvBody stream, some h3 => (Q.recvBody c.now stream c.sendBuf c.con h3).1.1
  | .recvDgram _, some h3 => (Q.recvDgram c.now c.sendBuf c.con h3).1.1
  | .send, _ => (Q.send c.now c.sendBuf c.con).1
  | _, _ => c.con

/-- What `con_task` leaves alone in its loop body (module doc). -/
structure Keeps (c c' : Con Q) : Prop where
  now : c'.now = c.now
  handle : c'.handle = c.handle
  evtRecv : c'.evtRecv = c.evtRecv
  epSend : c'.epSend = c.epSend
  epGuard : c'.epGuard = c.epGuard
  rx : c'.cmd.rx = c.cmd.rx
  queue : c'.cmd.queue = c.cmd.queue
  free : c.cmd.free ≤ c'.cmd.free
  sleepers : c'.sleepers = c.sleepers
  calls : c'.calls = c.calls
  h3OutboundWait : c'.h3OutboundWait = c.h3OutboundWait
  h3Outbound : c'.h3Outbound = c.h3Outbound
  trace : ∃ l, c'.trace = c.trace ++ l ∧ ∀ o ∈ l, o.inBody

/-- A step in the loop body: on to another place, or out of the task. -/
inductive Body (c : Con Q) : Con Q → Prop
  | go {c' : Con Q} (k : Keeps c c') : Body c c'
  | ret {c₁ : Con Q} {exit : Exit} (k : Keeps c c₁) : Body c (c₁.endTask exit)

namespace Keeps

variable {c c' d e : Con Q}

theorem of_eq (h : c' = { c with
    cmd := c'.cmd, evt := c'.evt, senders := c'.senders, pc := c'.pc, con := c'.con
    sendBuf := c'.sendBuf, evtGuard := c'.evtGuard, connected := c'.connected, h3Con := c'.h3Con
    h3Inbound := c'.h3Inbound, shouldSend := c'.shouldSend, cmdGuard := c'.cmdGuard
    trace := c'.trace }) (hr : c'.cmd.rx = c.cmd.rx) (hq : c'.cmd.queue = c.cmd.queue)
    (hf : c.cmd.free ≤ c'.cmd.free) (l : List ConObs) (ht : c'.trace = c.trace ++ l)
    (hl : ∀ o ∈ l, o.inBody) : Keeps c c' := by
  constructor <;> first | (rw [h]; done) | exact hr | exact hq | exact hf | exact ⟨l, ht, hl⟩

theorem trans (h : Keeps c d) (h' : Keeps d e) : Keeps c e := by
  obtain ⟨l, hl, hb⟩ := h.trace
  obtain ⟨l', hl', hb'⟩ := h'.trace
  refine ⟨h'.now.trans h.now, h'.handle.trans h.handle, h'.evtRecv.trans h.evtRecv,
    h'.epSend.trans h.epSend, h'.epGuard.trans h.epGuard, h'.rx.trans h.rx, h'.queue.trans h.queue,
    Nat.le_trans h.free h'.free, h'.sleepers.trans h.sleepers, h'.calls.trans h.calls,
    h'.h3OutboundWait.trans h.h3OutboundWait, h'.h3Outbound.trans h.h3Outbound, l ++ l',
    by rw [hl', hl, List.append_assoc], fun o ho => ?_⟩
  rcases List.mem_append.mp ho with ho | ho
  · exact hb o ho
  · exact hb' o ho

/-- No line of the trace. -/
theorem silent (h : c' = { c with
    cmd := c'.cmd, evt := c'.evt, senders := c'.senders, pc := c'.pc, con := c'.con
    sendBuf := c'.sendBuf, evtGuard := c'.evtGuard, connected := c'.connected, h3Con := c'.h3Con
    h3Inbound := c'.h3Inbound, shouldSend := c'.shouldSend, cmdGuard := c'.cmdGuard })
    (hr : c'.cmd.rx = c.cmd.rx) (hq : c'.cmd.queue = c.cmd.queue)
    (hf : c.cmd.free ≤ c'.cmd.free) : Keeps c c' :=
  of_eq (by rw [h]) hr hq hf [] (by rw [h, List.append_nil]) nofun

end Keeps

theorem Body.trans {c d e : Con Q} (h : Keeps c d) (h' : Body d e) : Body c e := by
  cases h' with
  | go k => exact .go (h.trans k)
  | ret k => exact .ret (h.trans k)

/-- What `sendEvt` changes. -/
theorem sendEvt_spec {c c' : Con Q} {evt : ConEvt} {ok : Bool}
    (h : c.sendEvt evt = some (c', ok)) :
    ok = c.evt.rx ∧ c'.cmd.rx = c.cmd.rx ∧ c'.cmd.queue = c.cmd.queue ∧ c' = { c with
      cmd := c'.cmd, evt := c'.evt, evtGuard := none, trace := c'.trace } := by
  unfold sendEvt at h
  split at h
  · cases h
  · simp only at h
    split at h
    · next hr => cases h; exact ⟨hr.symm, rfl, rfl, rfl⟩
    · next hr => cases h; exact ⟨by simpa using hr, rfl, rfl, rfl⟩

theorem sendEvt_ne_none {c : Con Q} (h : c.evtGuard ≠ none) (evt : ConEvt) :
    c.sendEvt evt ≠ none := by
  unfold sendEvt
  split
  · next hg => exact absurd hg h
  · simp only; split <;> nofun

/-- What `setupH3` leaves alone. -/
theorem setupH3_spec (c : Con Q) : c.setupH3 = { c with
    con := c.setupH3.con, h3Con := c.setupH3.h3Con, shouldSend := c.setupH3.shouldSend
    trace := c.setupH3.trace } := by
  unfold setupH3
  split
  · rfl
  · split <;> rfl

theorem keeps_sendEvt {c c' : Con Q} {evt : ConEvt} {ok : Bool}
    (h : c.sendEvt evt = some (c', ok)) : Keeps c c' := by
  unfold sendEvt at h
  split at h
  · cases h
  · simp only at h
    split at h
    · cases h; exact .of_eq rfl rfl rfl (Nat.le_refl _) [.evt evt] rfl (by simp [ConObs.inBody])
    · cases h; exact .silent rfl rfl rfl (Nat.le_add_right _ _)

theorem keeps_acquireEvt {c c' : Con Q} {next : ConPc} (h : c.acquireEvt next = some c') :
    Keeps c c' := by
  unfold acquireEvt at h
  split at h
  · cases h; exact .silent rfl rfl rfl (Nat.le_refl _)
  · obtain ⟨evt, -, rfl⟩ := Option.map_eq_some_iff.mp h
    exact .silent rfl rfl rfl (Nat.le_refl _)

theorem keeps_setupH3 (c : Con Q) : Keeps c c.setupH3 := by
  unfold setupH3
  split
  · exact .silent rfl rfl rfl (Nat.le_refl _)
  · split
    · exact .of_eq rfl rfl rfl (Nat.le_refl _) [.withTransport true] rfl (by simp [ConObs.inBody])
    · exact .of_eq rfl rfl rfl (Nat.le_refl _) [.withTransport false] rfl (by simp [ConObs.inBody])

theorem body_establish (c : Con Q) : Body c c.establish := by
  unfold establish
  split
  · simp only
    have hs : Keeps c { c with connected := true }.setupH3 :=
      .trans (d := { c with connected := true }) (.silent rfl rfl rfl (Nat.le_refl _))
        (keeps_setupH3 _)
    split
    · exact .ret hs
    · next h =>
      exact .go ((hs.trans (keeps_sendEvt h)).trans (.silent rfl rfl rfl (Nat.le_refl _)))
  · exact .go (.silent rfl rfl rfl (Nat.le_refl _))

theorem keeps_sendRequest (c : Con Q) (h3 : Q.H3Connection) : Keeps c (c.sendRequest h3) := by
  unfold sendRequest
  split
  · exact .silent rfl rfl rfl (Nat.le_refl _)
  · simp only
    split <;> exact .of_eq rfl rfl rfl (Nat.le_refl _) [.sendRequest] rfl (by simp [ConObs.inBody])

theorem body_sendHttp3 (c : Con Q) (item : Http3Msg) : Body c (c.sendHttp3 item) := by
  unfold sendHttp3
  split
  · exact .ret (.silent rfl rfl rfl (Nat.le_refl _))
  · next h => exact .go ((keeps_sendEvt h).trans (.silent rfl rfl rfl (Nat.le_refl _)))
  · next h => exact .ret (keeps_sendEvt h)

theorem body_onEvent (c : Con Q) (stream : UInt64) (e : H3Event) :
    Body c (c.onEvent stream e) := by
  cases e with
  | headers list hasBody =>
    rw [onEvent]
    split
    · exact .go (.silent rfl rfl rfl (Nat.le_refl _))
    · exact body_sendHttp3 c _
  | finished =>
    rw [onEvent]
    split
    · exact .go (.silent rfl rfl rfl (Nat.le_refl _))
    · exact .trans (d := { c with h3Inbound := c.h3Inbound.erase stream })
        (.silent rfl rfl rfl (Nat.le_refl _)) (body_sendHttp3 _ _)
  | data => exact .go (.silent rfl rfl rfl (Nat.le_refl _))
  | reset code => exact .go (.silent rfl rfl rfl (Nat.le_refl _))
  | datagram => exact .go (.silent rfl rfl rfl (Nat.le_refl _))
  | goAway => exact .ret (.silent rfl rfl rfl (Nat.le_refl _))

/-- New values of the quiche connections, and a line of the trace. -/
theorem keeps_quiche (c : Con Q) (con : Q.Connection) (h3 : Option Q.H3Connection) {o : ConObs}
    (ho : o.inBody) : Keeps c ({ c with con, h3Con := h3 }.log o) :=
  .of_eq rfl rfl rfl (Nat.le_refl _) [o] rfl (by simpa using ho)

theorem body_poll (c : Con Q) (h3 : Q.H3Connection) : Body c (c.poll h3) := by
  unfold poll
  simp only
  split
  · exact .go ((keeps_quiche c _ _ rfl).trans (.silent rfl rfl rfl (Nat.le_refl _)))
  · exact .ret (keeps_quiche c _ _ rfl)
  · exact .trans (keeps_quiche c _ _ rfl) (body_onEvent _ _ _)

theorem keeps_pushBody (c : Con Q) (stream : UInt64) (chunk : Bytes) :
    Keeps c (c.pushBody stream chunk) := by
  unfold pushBody
  split <;> exact .silent rfl rfl rfl (Nat.le_refl _)

theorem body_recvBody (c : Con Q) (h3 : Q.H3Connection) (stream : UInt64) :
    Body c (c.recvBody h3 stream) := by
  unfold recvBody
  simp only
  split
  · exact .go ((keeps_quiche c _ _ rfl).trans (.silent rfl rfl rfl (Nat.le_refl _)))
  · exact .ret (keeps_quiche c _ _ rfl)
  · exact .go ((keeps_quiche c _ _ rfl).trans (keeps_pushBody _ _ _))

theorem body_recvDgram (c : Con Q) (h3 : Q.H3Connection) (flow : UInt64) :
    Body c (c.recvDgram h3 flow) := by
  unfold recvDgram
  simp only
  split
  · exact .go ((keeps_quiche c _ _ rfl).trans (.silent rfl rfl rfl (Nat.le_refl _)))
  · exact .ret (keeps_quiche c _ _ rfl)
  · split
    · exact .ret (keeps_quiche c _ _ rfl)
    · exact .go (keeps_quiche c _ _ rfl)

theorem keeps_nextCmd (c : Con Q) : Keeps c c.nextCmd :=
  .silent rfl rfl rfl (Nat.le_add_right _ _)

theorem keeps_flush (c : Con Q) : Keeps c c.flush := by
  unfold flush
  split
  · exact .silent rfl rfl rfl (Nat.le_refl _)
  · exact keeps_nextCmd c

theorem body_send (c : Con Q) : Body c c.send := by
  unfold send
  simp only
  split
  · exact .go ((keeps_quiche c _ c.h3Con rfl).trans (keeps_nextCmd _))
  · exact .ret (keeps_quiche c _ c.h3Con rfl)
  · exact .go ((keeps_quiche c _ c.h3Con rfl).trans (.silent rfl rfl rfl (Nat.le_refl _)))

/-- A step in the loop body. -/
theorem body_taskStep {c c' : Con Q} (h : c.taskStep = some c') (hb : c.pc.inBody) :
    Body c c' := by
  unfold taskStep at h
  split at h
  · next hpc => rw [hpc] at hb; cases hb
  · next hpc => rw [hpc] at hb; cases hb
  · exact .go (keeps_acquireEvt h)
  · cases h; exact body_establish c
  · obtain ⟨h3, -, rfl⟩ := Option.map_eq_some_iff.mp h; exact .go (keeps_sendRequest c h3)
  · exact .go (keeps_acquireEvt h)
  · obtain ⟨h3, -, rfl⟩ := Option.map_eq_some_iff.mp h; exact body_poll c h3
  · obtain ⟨h3, -, rfl⟩ := Option.map_eq_some_iff.mp h; exact body_recvBody c h3 _
  · obtain ⟨h3, -, rfl⟩ := Option.map_eq_some_iff.mp h; exact body_recvDgram c h3 _
  · cases h; exact .go (keeps_flush c)
  · cases h; exact body_send c
  · cases h

/-! ## The quiche connection -/

theorem con_acquireEvt {c c' : Con Q} {next : ConPc} (h : c.acquireEvt next = some c') :
    c'.con = c.con := by
  unfold acquireEvt at h
  split at h
  · cases h; rfl
  · obtain ⟨evt, -, rfl⟩ := Option.map_eq_some_iff.mp h; rfl

theorem con_sendHttp3 (c : Con Q) (item : Http3Msg) : (c.sendHttp3 item).con = c.con := by
  unfold sendHttp3
  split
  · rfl
  · next h => obtain ⟨-, -, -, he⟩ := sendEvt_spec h; rw [he]
  · next h =>
    obtain ⟨-, -, -, he⟩ := sendEvt_spec h
    rw [he]; rfl

theorem con_onEvent (c : Con Q) (stream : UInt64) (e : H3Event) :
    (c.onEvent stream e).con = c.con := by
  cases e with
  | headers list hasBody =>
    rw [onEvent]
    split
    · rfl
    · exact con_sendHttp3 _ _
  | finished =>
    rw [onEvent]
    split
    · rfl
    · exact con_sendHttp3 _ _
  | data => rfl
  | reset code => rfl
  | datagram => rfl
  | goAway => rfl

theorem con_dispatch (c : Con Q) {cmd : ConCmd} (hpc : c.pc = .cmd cmd) :
    (c.dispatch cmd).con = c.conAfter := by
  unfold conAfter
  rw [hpc]
  cases cmd with
  | http3 item rsp => rw [dispatch]; split <;> rfl
  | tick => rfl
  | timeout => rfl
  | inPak pak => rfl

theorem con_schedTimeout (c : Con Q) : c.schedTimeout.con = c.con := by
  unfold schedTimeout
  simp only
  split
  · rfl
  · split <;> rfl

theorem con_setupH3 (c : Con Q) :
    c.setupH3.con = c.h3Config.elim c.con fun cfg => (Q.withTransport c.now cfg c.con).1 := by
  unfold setupH3
  cases c.h3Config with
  | none => rfl
  | some cfg =>
    simp only [Option.elim_some]
    split <;> (next hq => rw [hq]; rfl)

theorem con_establish (c : Con Q) (hpc : c.pc = .established) : c.establish.con = c.conAfter := by
  have ha : c.conAfter = if !c.connected && Q.isEstablished c.con then
      c.h3Config.elim c.con fun cfg => (Q.withTransport c.now cfg c.con).1 else c.con := by
    unfold conAfter; rw [hpc]
  rw [ha]
  unfold establish
  split
  · simp only
    split
    · exact con_setupH3 _
    · next h =>
      obtain ⟨-, -, -, he⟩ := sendEvt_spec h
      rw [he]
      exact con_setupH3 _
  · rfl

theorem con_sendRequest {c : Con Q} {h3 : Q.H3Connection} (hpc : c.pc = .sendRequest)
    (h3c : c.h3Con = some h3) : (c.sendRequest h3).con = c.conAfter := by
  unfold sendRequest conAfter
  rw [hpc, h3c]
  simp only
  cases c.h3OutboundWait with
  | nil => rfl
  | cons item l => simp only; split <;> rfl

theorem con_poll {c : Con Q} {h3 : Q.H3Connection} (hpc : c.pc = .poll)
    (h3c : c.h3Con = some h3) : (c.poll h3).con = c.conAfter := by
  unfold poll conAfter
  rw [hpc, h3c]
  simp only
  split
  · rfl
  · rfl
  · exact con_onEvent _ _ _

theorem con_recvBody {c : Con Q} {h3 : Q.H3Connection} {stream : UInt64}
    (hpc : c.pc = .recvBody stream) (h3c : c.h3Con = some h3) :
    (c.recvBody h3 stream).con = c.conAfter := by
  unfold recvBody conAfter
  rw [hpc, h3c]
  simp only
  split
  · rfl
  · rfl
  · unfold pushBody; split <;> rfl

theorem con_recvDgram {c : Con Q} {h3 : Q.H3Connection} {flow : UInt64}
    (hpc : c.pc = .recvDgram flow) (h3c : c.h3Con = some h3) :
    (c.recvDgram h3 flow).con = c.conAfter := by
  unfold recvDgram conAfter
  rw [hpc, h3c]
  simp only
  split
  · rfl
  · rfl
  · split <;> rfl

theorem con_flush {c : Con Q} (hpc : c.pc = .flush) : c.flush.con = c.conAfter := by
  unfold flush conAfter
  rw [hpc]
  split <;> rfl

theorem con_send {c : Con Q} (hpc : c.pc = .send) : c.send.con = c.conAfter := by
  unfold send conAfter
  rw [hpc]
  simp only
  split <;> rfl

/-- The quiche connection after a step of `con_task`. -/
theorem con_taskStep {c c' : Con Q} (h : c.taskStep = some c') : c'.con = c.conAfter := by
  unfold taskStep at h
  split at h
  · next hpc =>
    unfold recvCmd at h
    have hr : c.conAfter = c.con := by unfold conAfter; rw [hpc]
    split at h
    · cases h; exact hr.symm
    · split at h
      · cases h; exact hr.symm
      · cases h
  · next hpc => cases h; exact (con_schedTimeout _).trans (con_dispatch c hpc)
  · next hpc => exact (con_acquireEvt h).trans (by unfold conAfter; rw [hpc])
  · next hpc => cases h; exact con_establish c hpc
  · next hpc =>
    obtain ⟨h3, h3c, rfl⟩ := Option.map_eq_some_iff.mp h; exact con_sendRequest hpc h3c
  · next hpc => exact (con_acquireEvt h).trans (by unfold conAfter; rw [hpc])
  · next hpc => obtain ⟨h3, h3c, rfl⟩ := Option.map_eq_some_iff.mp h; exact con_poll hpc h3c
  · next hpc => obtain ⟨h3, h3c, rfl⟩ := Option.map_eq_some_iff.mp h; exact con_recvBody hpc h3c
  · next hpc => obtain ⟨h3, h3c, rfl⟩ := Option.map_eq_some_iff.mp h; exact con_recvDgram hpc h3c
  · next hpc => cases h; exact con_flush hpc
  · next hpc => cases h; exact con_send hpc
  · cases h

end Con
end Absquic
