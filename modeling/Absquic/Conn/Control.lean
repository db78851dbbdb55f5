import Absquic.Conn.Steps

/-!
# The control flow of `con_task`

`Control` is what holds of `con_task`'s place and its locals in every reachable state: which guards
and which h3 connection it has where it uses them, so that no `unwrap` panics, and that its receiver
exists exactly while it runs.

The task keeps a clone of its own command sender, so its loop never ends by `recv()` giving `None`
(`Control.exit`): it ends by an early return or not at all.
-/

namespace Absquic

namespace Con

variable {Q : Quiche}

/-- What holds of `con_task` (module doc). -/
structure Control (c : Con Q) : Prop where
  /-- The command receiver is a local of `con_task`. -/
  rx : c.cmd.rx = !c.pc.over
  drained : c.pc.over → c.cmd.queue = [] ∧ c.h3OutboundWait = [] ∧ c.h3Outbound = ∅
  idle : c.pc = .recv → c.cmdGuard = none
  busy : ∀ cmd, c.pc = .cmd cmd → c.cmdGuard ≠ none
  evt : c.pc.hasEvt → c.evtGuard ≠ none
  h3 : c.pc.inH3 → c.h3Con ≠ none
  connected : c.h3Con ≠ none → c.connected
  exit : ∀ e, c.pc = .ended e → e = .returned

theorem Control.frame {c c' : Con Q} (h : Control c) (hf : Frame c c') : Control c' := by
  obtain ⟨l, hl, hn⟩ := hf.queue
  refine ⟨by rw [hf.rx, hf.pc, h.rx], fun ho => ?_, by rw [hf.pc, hf.cmdGuard]; exact h.idle,
    by rw [hf.pc, hf.cmdGuard]; exact h.busy, by rw [hf.pc, hf.evtGuard]; exact h.evt,
    by rw [hf.pc, hf.h3Con]; exact h.h3, by rw [hf.h3Con, hf.connected]; exact h.connected,
    by rw [hf.pc]; exact h.exit⟩
  rw [hf.pc] at ho
  obtain ⟨h1, h2, h3⟩ := h.drained ho
  rw [hl, h1, hn (by rw [h.rx, ho]; rfl), hf.h3OutboundWait, hf.h3Outbound]
  exact ⟨rfl, h2, h3⟩

theorem control_endTask {c : Con Q} (h : c.h3Con ≠ none → c.connected) :
    Control (c.endTask .returned) :=
  ⟨rfl, fun _ => ⟨rfl, rfl, rfl⟩, nofun, nofun, nofun, nofun, h, fun _ he => by cases he; rfl⟩

theorem cmdSenders_pos {c : Con Q} (h : c.pc.over = false) : 0 < c.cmdSenders := by
  unfold cmdSenders
  rw [h]
  simp only [Bool.false_eq_true, if_false]
  omega

theorem control_recvCmd {c c' : Con Q} (h : c.recvCmd = some c') (hc : Control c)
    (hpc : c.pc = .recv) : Control c' := by
  have hr : c.cmd.rx = true := by rw [hc.rx, hpc]; rfl
  unfold recvCmd at h
  split at h
  · cases h
    exact ⟨hr, nofun, nofun, fun _ _ => nofun, nofun, nofun, hc.connected, nofun⟩
  · split at h
    · next h0 => have := cmdSenders_pos (c := c) (by rw [hpc]; rfl); omega
    · cases h

theorem control_dispatch {c : Con Q} {cmd : ConCmd} (hc : Control c) (hpc : c.pc = .cmd cmd) :
    Control (c.dispatch cmd) := by
  have ho : ¬ c.pc.over := by rw [hpc]; nofun
  cases cmd with
  | http3 item rsp =>
    rw [dispatch]
    split <;> exact ⟨hc.rx, fun h => absurd h ho, hc.idle, hc.busy, hc.evt, hc.h3, hc.connected,
      hc.exit⟩
  | tick => exact ⟨hc.rx, hc.drained, hc.idle, hc.busy, hc.evt, hc.h3, hc.connected, hc.exit⟩
  | timeout => exact ⟨hc.rx, hc.drained, hc.idle, hc.busy, hc.evt, hc.h3, hc.connected, hc.exit⟩
  | inPak pak => exact ⟨hc.rx, hc.drained, hc.idle, hc.busy, hc.evt, hc.h3, hc.connected, hc.exit⟩

theorem pc_dispatch (c : Con Q) (cmd : ConCmd) : (c.dispatch cmd).pc = c.pc := by
  cases cmd with
  | http3 item rsp => rw [dispatch]; split <;> rfl
  | tick => rfl
  | timeout => rfl
  | inPak pak => rfl

theorem control_schedTimeout {c : Con Q} {cmd : ConCmd} (hc : Control c) (hpc : c.pc = .cmd cmd) :
    Control c.schedTimeout := by
  have hr : c.cmd.rx = true := by rw [hc.rx, hpc]; rfl
  unfold schedTimeout
  simp only
  split
  · exact ⟨hr, nofun, nofun, nofun, nofun, nofun, hc.connected, nofun⟩
  · split
    · next hg => exact absurd hg (hc.busy cmd hpc)
    · exact ⟨hr, nofun, nofun, nofun, nofun, nofun, hc.connected, nofun⟩

theorem control_acquireEvt {c c' : Con Q} {next : ConPc} (h : c.acquireEvt next = some c')
    (hc : Control c) (hpc : c.pc.over = false) (hn : next = .established ∨ next = .poll)
    (h3 : next = .poll → c.h3Con ≠ none) : Control c' := by
  have hr : c.cmd.rx = true := by rw [hc.rx, hpc]; rfl
  unfold acquireEvt at h
  split at h
  · next hg =>
    cases h
    obtain rfl | rfl := hn
    · exact ⟨hr, nofun, nofun, nofun, fun _ => by rw [hg]; nofun, nofun, hc.connected, nofun⟩
    · exact ⟨hr, nofun, nofun, nofun, fun _ => by rw [hg]; nofun, fun _ => h3 rfl, hc.connected,
        nofun⟩
  · obtain ⟨evt, he, rfl⟩ := Option.map_eq_some_iff.mp h
    obtain rfl | rfl := hn
    · exact ⟨hr, nofun, nofun, nofun, nofun, nofun, hc.connected, nofun⟩
    · exact ⟨hr, nofun, nofun, nofun, nofun, fun _ => h3 rfl, hc.connected, nofun⟩

theorem control_enterH3 {c : Con Q} (hr : c.cmd.rx = true) (hc : c.h3Con ≠ none → c.connected) :
    Control c.enterH3 := by
  unfold enterH3
  cases h3 : c.h3Con with
  | none => exact ⟨hr, nofun, nofun, nofun, nofun, nofun, fun h => absurd rfl h, nofun⟩
  | some x =>
    exact ⟨hr, nofun, nofun, nofun, nofun, fun _ => nofun, fun _ => hc (by rw [h3]; nofun), nofun⟩

theorem control_establish {c : Con Q} (hc : Control c) (hpc : c.pc = .established) :
    Control c.establish := by
  have hr : c.cmd.rx = true := by rw [hc.rx, hpc]; rfl
  unfold establish
  split
  · simp only
    have hs := setupH3_spec { c with connected := true }
    split
    · next h =>
      refine absurd h (sendEvt_ne_none ?_ _)
      rw [hs]
      exact hc.evt (by rw [hpc]; rfl)
    · next c' ok h =>
      obtain ⟨-, hrx, -, he⟩ := sendEvt_spec h
      refine control_enterH3 ?_ fun _ => ?_
      · rw [hrx, hs]; exact hr
      · rw [he, hs]
  · exact control_enterH3 hr hc.connected

/-- New values of the quiche connections, and a line of the trace. -/
theorem control_quiche {c : Con Q} (hc : Control c) (hn : c.h3Con ≠ none) (con : Q.Connection)
    (h3 : Q.H3Connection) (o : ConObs) : Control ({ c with con, h3Con := some h3 }.log o) :=
  ⟨hc.rx, hc.drained, hc.idle, hc.busy, hc.evt, fun _ => nofun, fun _ => hc.connected hn, hc.exit⟩

/-- On to the head of the loop at line 266, or to another place inside the loop that needs no
event's permit. -/
theorem control_loop {c : Con Q} (hc : Control c) (hpc : c.pc.inH3) {pc : ConPc} (hp : pc.inH3)
    (he : pc.hasEvt = false) : Control { c with pc } := by
  have ho : pc.over = false := by cases pc <;> first | rfl | cases hp
  have hr : c.cmd.rx = true := by
    rw [hc.rx]; cases hq : c.pc <;> first | rfl | (rw [hq] at hpc; cases hpc)
  refine ⟨by rw [ho]; exact hr, fun h => ?_, fun h => ?_, fun _ h => ?_, fun h => ?_,
    fun _ => hc.h3 hpc, hc.connected, fun _ h => ?_⟩
  · exact absurd (ho.symm.trans h) nofun
  · rw [show pc = .recv from h] at hp; cases hp
  · rw [show pc = .cmd _ from h] at hp; cases hp
  · exact absurd (he.symm.trans h) nofun
  · rw [show pc = .ended _ from h] at hp; cases hp

theorem control_sendRequest {c : Con Q} {h3 : Q.H3Connection} (hc : Control c)
    (hpc : c.pc = .sendRequest) (h3c : c.h3Con = some h3) : Control (c.sendRequest h3) := by
  have hn : c.h3Con ≠ none := by rw [h3c]; nofun
  have hi : c.pc.inH3 := by rw [hpc]; rfl
  unfold sendRequest
  split
  · exact control_loop hc hi rfl rfl
  · simp only
    split
    · exact control_loop (control_quiche hc hn _ _ _) hi rfl rfl
    · exact control_quiche hc hn _ _ _

theorem control_sendHttp3 {c : Con Q} (hc : Control c) (hpc : c.pc = .poll) (item : Http3Msg) :
    Control (c.sendHttp3 item) := by
  have hr : c.cmd.rx = true := by rw [hc.rx, hpc]; rfl
  unfold sendHttp3
  split
  · next h => exact absurd h (sendEvt_ne_none (hc.evt (by rw [hpc]; rfl)) _)
  · next c' h =>
    obtain ⟨-, hrx, -, he⟩ := sendEvt_spec h
    rw [he]
    exact ⟨hrx.trans hr, nofun, nofun, nofun, nofun, fun _ => hc.h3 (by rw [hpc]; rfl),
      hc.connected, nofun⟩
  · next c' h =>
    obtain ⟨-, -, -, he⟩ := sendEvt_spec h
    refine control_endTask ?_
    rw [he]
    exact hc.connected

theorem control_onEvent {c : Con Q} (hc : Control c) (hpc : c.pc = .poll) (stream : UInt64)
    (e : H3Event) : Control (c.onEvent stream e) := by
  have hi : c.pc.inH3 := by rw [hpc]; rfl
  -- `h3_inbound` plays no part
  have hm : ∀ m, Control { c with h3Inbound := m } := fun m =>
    ⟨hc.rx, hc.drained, hc.idle, hc.busy, hc.evt, hc.h3, hc.connected, hc.exit⟩
  cases e with
  | headers list hasBody =>
    rw [onEvent]
    split
    · exact control_loop (hm (c.h3Inbound.insert stream { headers := list, body := [] })) hi rfl rfl
    · exact control_sendHttp3 hc hpc _
  | finished =>
    rw [onEvent]
    split
    · exact control_loop hc hi rfl rfl
    · exact control_sendHttp3 (hm (c.h3Inbound.erase stream)) hpc _
  | data => exact control_loop hc hi rfl rfl
  | reset code => exact control_loop (hm (c.h3Inbound.erase stream)) hi rfl rfl
  | datagram => exact control_loop hc hi rfl rfl
  | goAway => exact control_endTask hc.connected

theorem control_poll {c : Con Q} {h3 : Q.H3Connection} (hc : Control c) (hpc : c.pc = .poll)
    (h3c : c.h3Con = some h3) : Control (c.poll h3) := by
  have hn : c.h3Con ≠ none := by rw [h3c]; nofun
  unfold poll
  simp only
  split
  · exact ⟨(control_quiche hc hn _ _ _).rx.trans (by rw [log, hpc]; rfl), nofun, nofun, nofun, nofun,
      nofun, fun _ => hc.connected hn, nofun⟩
  · exact control_endTask fun _ => hc.connected hn
  · exact control_onEvent (control_quiche hc hn _ _ _) hpc _ _

theorem control_pushBody {c : Con Q} (hc : Control c) (stream : UInt64) (chunk : Bytes) :
    Control (c.pushBody stream chunk) := by
  unfold pushBody
  split
  · exact hc
  · exact ⟨hc.rx, hc.drained, hc.idle, hc.busy, hc.evt, hc.h3, hc.connected, hc.exit⟩

theorem control_recvBody {c : Con Q} {h3 : Q.H3Connection} {stream : UInt64} (hc : Control c)
    (hpc : c.pc = .recvBody stream) (h3c : c.h3Con = some h3) :
    Control (c.recvBody h3 stream) := by
  have hn : c.h3Con ≠ none := by rw [h3c]; nofun
  have hi : c.pc.inH3 := by rw [hpc]; rfl
  unfold recvBody
  simp only
  split
  · exact control_loop (control_quiche hc hn _ _ _) hi rfl rfl
  · exact control_endTask fun _ => hc.connected hn
  · exact control_pushBody (control_quiche hc hn _ _ _) _ _

theorem control_recvDgram {c : Con Q} {h3 : Q.H3Connection} {flow : UInt64} (hc : Control c)
    (hpc : c.pc = .recvDgram flow) (h3c : c.h3Con = some h3) : Control (c.recvDgram h3 flow) := by
  have hn : c.h3Con ≠ none := by rw [h3c]; nofun
  have hi : c.pc.inH3 := by rw [hpc]; rfl
  unfold recvDgram
  simp only
  split
  · exact control_loop (control_quiche hc hn _ _ _) hi rfl rfl
  · exact control_endTask fun _ => hc.connected hn
  · split
    · exact control_endTask fun _ => hc.connected hn
    · exact control_quiche hc hn _ _ _

theorem control_nextCmd {c : Con Q} (hr : c.cmd.rx = true) (hc : c.h3Con ≠ none → c.connected) :
    Control c.nextCmd :=
  ⟨hr, nofun, fun _ => rfl, nofun, nofun, nofun, hc, nofun⟩

theorem control_flush {c : Con Q} (hc : Control c) (hpc : c.pc = .flush) : Control c.flush := by
  have hr : c.cmd.rx = true := by rw [hc.rx, hpc]; rfl
  unfold flush
  split
  · exact ⟨hr, nofun, nofun, nofun, nofun, nofun, hc.connected, nofun⟩
  · exact control_nextCmd hr hc.connected

theorem control_send {c : Con Q} (hc : Control c) (hpc : c.pc = .send) : Control c.send := by
  have hr : c.cmd.rx = true := by rw [hc.rx, hpc]; rfl
  unfold send
  simp only
  split
  · exact control_nextCmd hr hc.connected
  · exact control_endTask hc.connected
  · exact ⟨hc.rx, hc.drained, hc.idle, hc.busy, hc.evt, hc.h3, hc.connected, hc.exit⟩

theorem control_taskStep {c c' : Con Q} (h : c.taskStep = some c') (hc : Control c) :
    Control c' := by
  unfold taskStep at h
  split at h
  · next hpc => exact control_recvCmd h hc hpc
  · next cmd hpc =>
    cases h
    exact control_schedTimeout (control_dispatch hc hpc) ((pc_dispatch c cmd).trans hpc)
  · next hpc => exact control_acquireEvt h hc (by rw [hpc]; rfl) (.inl rfl) nofun
  · next hpc => cases h; exact control_establish hc hpc
  · next hpc =>
    obtain ⟨h3, h3c, rfl⟩ := Option.map_eq_some_iff.mp h; exact control_sendRequest hc hpc h3c
  · next hpc =>
    exact control_acquireEvt h hc (by rw [hpc]; rfl) (.inr rfl) fun _ => hc.h3 (by rw [hpc]; rfl)
  · next hpc =>
    obtain ⟨h3, h3c, rfl⟩ := Option.map_eq_some_iff.mp h; exact control_poll hc hpc h3c
  · next hpc =>
    obtain ⟨h3, h3c, rfl⟩ := Option.map_eq_some_iff.mp h; exact control_recvBody hc hpc h3c
  · next hpc =>
    obtain ⟨h3, h3c, rfl⟩ := Option.map_eq_some_iff.mp h; exact control_recvDgram hc hpc h3c
  · next hpc => cases h; exact control_flush hc hpc
  · next hpc => cases h; exact control_send hc hpc
  · cases h

theorem control_step {a : ConAct} {c c' : Con Q} (h : step a c = some c') (hc : Control c) :
    Control c' := by
  by_cases ha : a = .task
  · subst ha; exact control_taskStep h hc
  · exact hc.frame (frame_step h ha)

/-- `con_task`'s control flow, in every reachable state. -/
theorem sys_control {c : Con Q} (h : (sys Q).Reach c) : Control c := by
  refine h.invariant (fun c hi => ?_) fun a c c' _ hc hs => control_step (Q := Q) (a := a) (c := c) hs hc
  obtain ⟨h3Config, con, hq⟩ := hi
  cases hq
  exact ⟨rfl, nofun, fun _ => rfl, nofun, nofun, nofun, fun h => absurd rfl h, nofun⟩

end Con
end Absquic
