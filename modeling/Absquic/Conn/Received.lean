import Absquic.Conn.Events
import Absquic.Conn.Outside
import Absquic.Lib.Fifo

/-!
# What the user of a connection is given

`evts` is the event channel, a queue of the connection's system: each function of `con_task` puts
there what it logs (`Emits`). So `QuicheConRecv` gives the events that `con_task` put, in order and
each once, and `None` only when there will not be another (`received_events`). When `con_task` is over
it gives what is queued, and then `None` (`yields_over`).
-/

namespace Absquic
namespace Con

variable {Q : Quiche} {c c' : Con Q}

/-! ## What is put -/

/-- A step puts on the event channel what it logs, and nothing without a receiver. -/
structure Emits (c c' : Con Q) : Prop where
  rx : c'.evt.rx = c.evt.rx
  queue : ∃ l, c'.trace = c.trace ++ l ∧
    c'.evt.queue.map Prod.fst = c.evt.queue.map Prod.fst ++ l.filterMap (·.evt?) ∧
    (c.evt.rx = false → l.filterMap (·.evt?) = [])

namespace Emits

theorem silent (hr : c'.evt.rx = c.evt.rx) (hq : c'.evt.queue = c.evt.queue)
    (ht : c'.trace = c.trace) : Emits c c' :=
  ⟨hr, [], by rw [ht, List.append_nil], by rw [hq]; exact (List.append_nil _).symm, fun _ => rfl⟩

/-- The step logs something else than an event. -/
theorem obs {o : ConObs} (hr : c'.evt.rx = c.evt.rx) (hq : c'.evt.queue = c.evt.queue)
    (ht : c'.trace = c.trace ++ [o]) (ho : o.evt? = none) : Emits c c' := by
  have hn : [o].filterMap (·.evt?) = [] := List.filterMap_cons_none ho
  exact ⟨hr, [o], ht, by rw [hq, hn, List.append_nil], fun _ => hn⟩

theorem trans {d : Con Q} (h : Emits c d) (h' : Emits d c') : Emits c c' := by
  obtain ⟨l, hl, hq, hn⟩ := h.queue
  obtain ⟨l', hl', hq', hn'⟩ := h'.queue
  refine ⟨h'.rx.trans h.rx, l ++ l', by rw [hl', hl, List.append_assoc],
    by rw [hq', hq, List.filterMap_append, List.append_assoc], fun hr => ?_⟩
  rw [List.filterMap_append, hn hr, hn' (h.rx.trans hr)]
  rfl

end Emits

theorem emits_endTask (c : Con Q) (exit : Exit) : Emits c (c.endTask exit) := .silent rfl rfl rfl

theorem emits_dispatch (c : Con Q) (cmd : ConCmd) : Emits c (c.dispatch cmd) := by
  cases cmd with
  | tick => exact .silent rfl rfl rfl
  | timeout => exact .obs rfl rfl rfl rfl
  | inPak pak => exact .obs rfl rfl rfl rfl
  | http3 item rsp =>
    unfold dispatch
    dsimp only
    split <;> exact .silent rfl rfl rfl

theorem emits_schedTimeout (c : Con Q) : Emits c c.schedTimeout := by
  have hlog : Emits c (c.log (.timeout (Q.timeout c.now c.con))) := .obs rfl rfl rfl rfl
  unfold schedTimeout
  dsimp only
  split
  · exact hlog.trans (.silent rfl rfl rfl)
  · split
    · exact hlog.trans (emits_endTask _ _)
    · exact hlog.trans (.silent rfl rfl rfl)

theorem emits_recvCmd (h : c.recvCmd = some c') : Emits c c' := by
  unfold recvCmd at h
  split at h
  · cases h; exact .silent rfl rfl rfl
  · split at h
    · cases h; exact emits_endTask _ _
    · cases h

theorem emits_acquireEvt {next : ConPc} (h : c.acquireEvt next = some c') : Emits c c' := by
  unfold acquireEvt at h
  split at h
  · cases h; exact .silent rfl rfl rfl
  · obtain ⟨evt, he, rfl⟩ := Option.map_eq_some_iff.mp h
    obtain ⟨-, rfl⟩ := Chan.acquire_eq he
    exact .silent rfl rfl rfl

theorem emits_sendEvt {e : ConEvt} {ok : Bool} (h : c.sendEvt e = some (c', ok)) : Emits c c' := by
  unfold sendEvt at h
  split at h
  · cases h
  · next g hg =>
    dsimp only at h
    split at h
    · next hr =>
      cases h
      refine ⟨rfl, [.evt e], rfl, ?_, fun hn => nomatch hn.symm.trans hr⟩
      show (c.evt.queue ++ [(e, g)]).map Prod.fst = _
      rw [List.map_append]
      rfl
    · cases h; exact .silent rfl rfl rfl

theorem emits_setupH3 (c : Con Q) : Emits c c.setupH3 := by
  obtain ⟨-, he⟩ | ⟨cfg, con, h3, -, -, he⟩ | ⟨cfg, con, err, -, -, he⟩ := setupH3_cases c
  · rw [he]; exact .silent rfl rfl rfl
  · rw [he]; exact .obs rfl rfl rfl rfl
  · rw [he]; exact .obs rfl rfl rfl rfl

theorem emits_establish (c : Con Q) : Emits c c.establish := by
  unfold establish
  split
  · have hs : Emits c { c with connected := true }.setupH3 :=
      (Emits.silent rfl rfl rfl : Emits c { c with connected := true }).trans (emits_setupH3 _)
    dsimp only
    split
    · exact hs.trans (emits_endTask _ _)
    · next h => exact (hs.trans (emits_sendEvt h)).trans (.silent rfl rfl rfl)
  · exact .silent rfl rfl rfl

theorem emits_sendRequest (c : Con Q) (h3 : Q.H3Connection) : Emits c (c.sendRequest h3) := by
  unfold sendRequest
  split
  · exact .silent rfl rfl rfl
  · dsimp only
    split
    · exact .obs (o := .sendRequest) rfl rfl rfl rfl
    · exact .obs (o := .sendRequest) rfl rfl rfl rfl

theorem emits_sendHttp3 (c : Con Q) (item : Http3Msg) : Emits c (c.sendHttp3 item) := by
  unfold sendHttp3
  split
  · exact emits_endTask _ _
  · next h => exact (emits_sendEvt h).trans (.silent rfl rfl rfl)
  · next h => exact (emits_sendEvt h).trans (emits_endTask _ _)

theorem emits_onEvent (c : Con Q) (stream : UInt64) (e : H3Event) :
    Emits c (c.onEvent stream e) := by
  cases e with
  | headers list hasBody =>
    unfold onEvent
    dsimp only
    split
    · exact .silent rfl rfl rfl
    · exact emits_sendHttp3 _ _
  | finished =>
    unfold onEvent
    dsimp only
    split
    · exact .silent rfl rfl rfl
    · exact (Emits.silent rfl rfl rfl :
        Emits c { c with h3Inbound := c.h3Inbound.erase stream }).trans (emits_sendHttp3 _ _)
  | goAway => exact emits_endTask _ _
  | data => exact .silent rfl rfl rfl
  | reset code => exact .silent rfl rfl rfl
  | datagram => exact .silent rfl rfl rfl

/-- A call of quiche. -/
theorem emits_call (c : Con Q) (con : Q.Connection) (h3 : Option Q.H3Connection) {o : ConObs}
    (ho : o.evt? = none) : Emits c ({ c with con, h3Con := h3 }.log o) := .obs rfl rfl rfl ho

theorem emits_poll (c : Con Q) (h3 : Q.H3Connection) : Emits c (c.poll h3) := by
  unfold poll
  dsimp only
  split
  · exact .obs rfl rfl rfl rfl
  · exact (emits_call c _ _ rfl).trans (emits_endTask _ _)
  · exact (emits_call c _ _ rfl).trans (emits_onEvent _ _ _)

theorem emits_pushBody (c : Con Q) (stream : UInt64) (chunk : Bytes) :
    Emits c (c.pushBody stream chunk) := by
  unfold pushBody
  split <;> exact .silent rfl rfl rfl

theorem emits_recvBody (c : Con Q) (h3 : Q.H3Connection) (stream : UInt64) :
    Emits c (c.recvBody h3 stream) := by
  unfold recvBody
  dsimp only
  split
  · exact .obs rfl rfl rfl rfl
  · exact (emits_call c _ _ rfl).trans (emits_endTask _ _)
  · exact (emits_call c _ _ rfl).trans (emits_pushBody _ _ _)

theorem emits_recvDgram (c : Con Q) (h3 : Q.H3Connection) (flow : UInt64) :
    Emits c (c.recvDgram h3 flow) := by
  unfold recvDgram
  dsimp only
  split
  · exact .obs rfl rfl rfl rfl
  · exact (emits_call c _ _ rfl).trans (emits_endTask _ _)
  · split
    · exact (emits_call c _ _ rfl).trans (emits_endTask _ _)
    · exact emits_call c _ _ rfl

theorem emits_flush (c : Con Q) : Emits c c.flush := by
  unfold flush
  split <;> exact .silent rfl rfl rfl

theorem emits_send (c : Con Q) : Emits c c.send := by
  unfold send
  dsimp only
  split
  · exact .obs rfl rfl rfl rfl
  · exact (emits_call c _ c.h3Con rfl).trans (emits_endTask _ _)
  · exact .obs rfl rfl rfl rfl

theorem emits_task (h : c.taskStep = some c') : Emits c c' := by
  unfold taskStep at h
  split at h
  · exact emits_recvCmd h
  · cases h; exact (emits_dispatch c _).trans (emits_schedTimeout _)
  · exact emits_acquireEvt h
  · cases h; exact emits_establish c
  · obtain ⟨h3, -, rfl⟩ := Option.map_eq_some_iff.mp h; exact emits_sendRequest c h3
  · exact emits_acquireEvt h
  · obtain ⟨h3, -, rfl⟩ := Option.map_eq_some_iff.mp h; exact emits_poll c h3
  · obtain ⟨h3, -, rfl⟩ := Option.map_eq_some_iff.mp h; exact emits_recvBody c h3 _
  · obtain ⟨h3, -, rfl⟩ := Option.map_eq_some_iff.mp h; exact emits_recvDgram c h3 _
  · cases h; exact emits_flush c
  · cases h; exact emits_send c
  · cases h

/-! ## The channel -/

/-- The event that the user takes in the step. -/
def receives (a : ConAct) (c _ : Con Q) : List ConEvt :=
  match a with
  | .evtPoll => (c.evt.queue.head?.map Prod.fst).toList
  | _ => []

/-- The events that the step puts on the channel. -/
def emitted (_ : ConAct) (c c' : Con Q) : List ConEvt := c'.events.drop c.events.length

/-- The event channel. -/
def evts (Q : Quiche) : Fifo (Con Q) ConAct ConEvt where
  queue c := c.evt.queue.map Prod.fst
  live c := c.evt.rx
  puts := emitted
  takes := receives

theorem emitted_eq {l : List ConObs} {a : ConAct} (h : c'.trace = c.trace ++ l) :
    emitted a c c' = l.filterMap (·.evt?) := by
  unfold emitted
  rw [events_append h, List.drop_left]

/-- What a step of another party does to the event channel, other than to take from it. -/
theorem evts_other_step {a : ConAct} (hs : step a c = some c') (ha : a ≠ .task) (hp : a ≠ .evtPoll)
    (hl : c'.evt.rx = true) : c'.evt.rx = c.evt.rx ∧ c'.evt.queue = c.evt.queue := by
  cases otherStep_cases hs ha with
  | evtPoll => exact absurd rfl hp
  | dropRecv => cases hl
  | _ => exact ⟨rfl, rfl⟩

theorem emitted_other {a : ConAct} (hs : step a c = some c') (ha : a ≠ .task) :
    emitted a c c' = [] := by
  obtain ⟨l, hl, hb⟩ := (frame_step hs ha).trace
  rw [emitted_eq hl, List.filterMap_eq_nil_iff]
  intro o ho
  have := hb o ho
  cases o <;> first | rfl | cases this

/-- Nothing is queued without a receiver. -/
theorem evt_closed (h : (sys Q).Reach c) : c.evt.rx = false → c.evt.queue = [] := by
  refine h.invariant (I := fun c => c.evt.rx = false → c.evt.queue = []) ?_ ?_
  · rintro c ⟨h3Config, con, hq⟩
    cases hq
    intro hr
    cases hr
  · intro a c c' hr hi hs hx
    by_cases ha : a = .task
    · subst ha
      obtain ⟨hrx, l, -, hq, hn⟩ := emits_task hs
      have hx := hrx.symm.trans hx
      rw [hi hx, hn hx] at hq
      exact List.map_eq_nil_iff.mp hq
    · cases otherStep_cases (c := c) hs ha with
      | evtPoll _ hq => rw [hi hx] at hq; cases hq
      | dropRecv => rfl
      | _ => exact hi hx

theorem evts_lawful (Q : Quiche) : (evts Q).Lawful (sys Q) := by
  constructor
  case flow =>
    intro a c c' hr hs hl
    show c.evt.rx = true ∧ receives a c c' ++ c'.evt.queue.map Prod.fst =
      c.evt.queue.map Prod.fst ++ emitted a c c'
    by_cases ha : a = .task
    · subst ha
      obtain ⟨hrx, l, ht, hq, -⟩ := emits_task hs
      exact ⟨hrx ▸ hl, by rw [emitted_eq ht, hq]; rfl⟩
    · rw [emitted_other hs ha, List.append_nil]
      by_cases hp : a = .evtPoll
      · subst hp
        cases otherStep_cases (a := .evtPoll) (c := c) hs ha with
        | evtPoll _ hq => exact ⟨hl, by unfold receives; rw [hq]; rfl⟩
      · obtain ⟨hrx, hq⟩ := evts_other_step hs ha hp hl
        have hn : receives a c c' = [] := by cases a <;> first | rfl | exact absurd rfl hp
        exact ⟨hrx ▸ hl, by rw [hn, hq]; rfl⟩
  case closes =>
    intro a c c' hr hs hl
    cases a with
    | evtPoll =>
      cases otherStep_cases (c := c) (a := .evtPoll) hs (by rintro ⟨⟩) with
      | evtPoll _ hq =>
        rw [evt_closed hr hl] at hq
        cases hq
    | _ => rfl

/-- `got` are the events that the user took (module doc). -/
structure Received (c : Con Q) (got : List ConEvt) : Prop where
  inOrder : got <+: c.events
  /-- Until the user drops the receiver, an event that it did not take is queued. -/
  all : c.evt.rx = true → got ++ c.evt.queue.map Prod.fst = c.events
  /-- Once a poll gives `None`, all events were taken and there will not be another. -/
  ended : c.evt.rx = true → c.evtEnded = true → got = c.events ∧
    ∀ c', (sys Q).Steps (fun _ => True) c c' → c'.events = c.events

/-- A task that is over puts no event. -/
theorem events_over (h : (sys Q).Reach c) (ho : c.pc.over = true)
    (hs : (sys Q).Steps (fun _ => True) c c') : c'.events = c.events := by
  suffices hi : (sys Q).Reach c' ∧ c'.pc.over = true ∧ c'.events = c.events from hi.2.2
  refine hs.invariant (I := fun d => (sys Q).Reach d ∧ d.pc.over = true ∧ d.events = c.events)
    ?_ ⟨h, ho, rfl⟩
  rintro a d d' - ⟨hr, ho, he⟩ hst
  refine ⟨.step a hr hst, over_step (c := d) hst ho, ?_⟩
  rcases reach_cases hr hst with ⟨-, ht⟩ | ⟨-, hf⟩
  · exact nomatch ho.symm.trans ht.not_over
  · obtain ⟨l, hl, hb⟩ := hf.trace
    rw [events_append hl, List.filterMap_eq_nil_iff.mpr, List.append_nil, he]
    intro o hm
    have := hb o hm
    cases o <;> first | rfl | cases this

theorem trace_grows {a : ConAct} (hs : step a c = some c') : ∃ l, c'.trace = c.trace ++ l := by
  by_cases ha : a = .task
  · subst ha
    obtain ⟨-, l, hl, -⟩ := emits_task hs
    exact ⟨l, hl⟩
  · obtain ⟨l, hl, -⟩ := (frame_step hs ha).trace
    exact ⟨l, hl⟩

/-- The events of the trace, after a step. -/
theorem events_next {a : ConAct} (hs : step a c = some c') : c'.events = c.events ++ emitted a c c' := by
  obtain ⟨l, hl⟩ := trace_grows hs
  rw [emitted_eq hl, events_append hl]

/-- The events that a run puts are those of the trace. -/
theorem put_evts {as : List ConAct} {c₀ : Con Q} (h₀ : (sys Q).init c₀)
    (hr : (sys Q).run as c₀ = some c) : (evts Q).put (sys Q) as c₀ = c.events := by
  refine Lts.init_gather (I := fun c l => l = c.events) (fun a c c' l h he hs => ?_) h₀ hr ?_
  · rw [events_next hs, he]
    rfl
  · obtain ⟨h3Config, con, hq⟩ := h₀
    cases hq
    rfl

/-- What the user took of the events. -/
theorem kept_evts {as : List ConAct} {c₀ : Con Q} (h₀ : (sys Q).init c₀)
    (hr : (sys Q).run as c₀ = some c) :
    (evts Q).Kept c c.events ((evts Q).taken (sys Q) as c₀) := by
  have hk := (evts_lawful Q).run (.init h₀) hr
  have hq₀ : (evts Q).queue c₀ = [] := by
    obtain ⟨h3Config, con, hq⟩ := h₀
    cases hq
    rfl
  rwa [hq₀, List.nil_append, put_evts h₀ hr] at hk

/-- What the user takes from `QuicheConRecv`, in every run. -/
theorem received_events {as : List ConAct} {c₀ : Con Q} (h₀ : (sys Q).init c₀)
    (hr : (sys Q).run as c₀ = some c) : Received c ((evts Q).taken (sys Q) as c₀) := by
  have hk := kept_evts h₀ hr
  refine ⟨hk.inOrder, hk.all, fun hrx he => ?_⟩
  obtain ⟨hq, ho⟩ := Bool.and_eq_true_iff.mp he
  refine ⟨?_, fun c' hs => events_over (.run h₀ hr) ho hs⟩
  rw [← hk.all hrx, show (evts Q).queue c = [] by
    rw [evts, List.map_eq_nil_iff]; exact List.isEmpty_iff.mp hq, List.append_nil]

/-! ## The end of the stream -/

/-- Polls of `QuicheConRecv` give `evts`, and then `None` for ever. -/
inductive Yields : List ConEvt → Con Q → Prop
  | done {c : Con Q} (h : ∀ c', (sys Q).Steps (fun _ => True) c c' → c'.pollNext = .ready none) :
    Yields [] c
  | next {c c' : Con Q} {evt evts} (hp : c.pollNext = .ready (some evt)) (hs : c.evtPoll = some c')
    (h : Yields evts c') : Yields (evt :: evts) c

/-- A connection that gets two messages, before the peer goes away. -/
def threeEvents : List ConEvt :=
  [.connected, .http3 ⟨[([1], [2])], [], 0⟩, .http3 ⟨[], [], 4⟩]

/-- The user takes `Connected` while the messages are queued, and then the messages and the end. -/
theorem received_events_three : ∃ c c' : Con Quiche.scripted,
    (c.events = threeEvents ∧ c.evt.queue.map Prod.fst = threeEvents.tail ∧
      Received c [.connected]) ∧ c'.evtEnded = true ∧ Received c' threeEvents := by
  obtain ⟨c₀, h₀⟩ : ∃ c₀, quicheCon (Q := Quiche.scripted) (some ())
      [.poll (.ok (0, .headers [⟨[1], [2]⟩] false)), .poll (.ok (4, .headers [] false)),
        .poll (.ok (0, .goAway))] = some c₀ := ⟨_, rfl⟩
  have hrun : ((sys Quiche.scripted).run ([.deliver] ++ List.replicate 9 .task ++ [.evtPoll])
      c₀).any fun c => decide (c.events = threeEvents ∧
        c.evt.queue.map Prod.fst = threeEvents.tail) := by cases h₀; decide +kernel
  have hrun' : ((sys Quiche.scripted).run ([.deliver] ++ List.replicate 9 .task ++ [.evtPoll] ++
      [.task, .task, .evtPoll, .evtPoll]) c₀).any fun c => c.evtEnded := by cases h₀; decide +kernel
  obtain ⟨c, hr, hc⟩ := (Option.any_eq_true _ _).mp hrun
  obtain ⟨c', hr', hc'⟩ := (Option.any_eq_true _ _).mp hrun'
  obtain ⟨hev, hq⟩ := of_decide_eq_true hc
  have hgot : (evts Quiche.scripted).taken (sys Quiche.scripted)
      ([.deliver] ++ List.replicate 9 .task ++ [.evtPoll]) c₀ = [.connected] := by
    cases h₀; decide +kernel
  have hgot' : (evts Quiche.scripted).taken (sys Quiche.scripted) ([.deliver] ++
      List.replicate 9 .task ++ [.evtPoll] ++ [.task, .task, .evtPoll, .evtPoll]) c₀ =
        threeEvents := by
    cases h₀; decide +kernel
  have hreach : (sys Quiche.scripted).init c₀ := ⟨_, _, h₀⟩
  exact ⟨c, c', ⟨hev, hq, hgot ▸ received_events hreach hr⟩, hc',
    hgot' ▸ received_events hreach hr'⟩

end Con
end Absquic
