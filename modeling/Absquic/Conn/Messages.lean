import Absquic.Conn.Inbound
import Absquic.Conn.Received

/-!
# The messages that the user receives

What the user takes from `QuicheConRecv`, stream by stream: the messages of a stream are what its own
events come to (`inbox`), in their order and each once, whatever happens on the other streams and
whatever quiche answers (`received_messages`). This is so in every run: with resets, trailers, datagrams
and errors, and also if the user drops the receiver, which then misses messages at the end only.
-/

namespace Absquic.Con

variable {Q : Quiche} {c c' : Con Q}

/-- What all streams' events come to. -/
def assembled (c : Con Q) : List Http3Msg :=
  (inboxes.out c.streamEvents).map fun x => x.2.toMsg x.1

/-- The messages among the events that the user took. -/
def taken (got : List ConEvt) : List Http3Msg := got.filterMap (·.msg?)

/-- What the user has of a stream (module doc). -/
structure StreamReceived (c : Con Q) (got : List ConEvt) (stream : UInt64) : Prop where
  inOrder : (taken got).filter (·.reference = stream) <+:
    (inbox.out (own stream c.streamEvents)).map (·.toMsg stream)
  all : c.evt.rx = true → c.evt.queue = [] → (taken got).filter (·.reference = stream) =
    (inbox.out (own stream c.streamEvents)).map (·.toMsg stream)

/-- The trace only grows, and has no event once the receiver was dropped. -/
theorem trace_step {a : ConAct} (hs : step a c = some c') : ∃ l, c'.trace = c.trace ++ l ∧
    (c'.evt.rx = false → l.filterMap (·.evt?) = []) := by
  by_cases ha : a = .task
  · subst ha
    obtain ⟨hrx, l, hl, -, hn⟩ := emits_task hs
    exact ⟨l, hl, fun hx => hn (hrx.symm.trans hx)⟩
  · obtain ⟨l, hl, hb⟩ := (frame_step hs ha).trace
    refine ⟨l, hl, fun _ => List.filterMap_eq_nil_iff.mpr fun o ho => ?_⟩
    have := hb o ho
    cases o <;> first | rfl | cases this

theorem assembled_grows {l : List ConObs} (h : c'.trace = c.trace ++ l) :
    c.assembled <+: c'.assembled := by
  unfold assembled
  rw [streamEvents_append h]
  exact (Mealy.out_grows _ _ _).map _

/-- The messages that were put on the event channel. -/
theorem messages_assembled (h : (sys Q).Reach c) : c.messages <+: c.assembled := by
  refine h.invariant (I := fun c => c.messages <+: c.assembled) ?_ fun a c c' hr hi hs => ?_
  · rintro c ⟨h3Config, con, hq⟩
    cases hq
    exact List.nil_prefix
  · cases hrx : c'.evt.rx with
    | true =>
      have hall : c'.messages = c'.assembled := (sys_inbound (.step a hr hs)).messages hrx
      exact hall ▸ List.prefix_rfl
    | false =>
      obtain ⟨l, hl, hn⟩ := trace_step hs
      have hm : c'.messages = c.messages := by
        rw [messages_append hl, hn hrx]
        exact List.append_nil _
      rw [hm]
      exact hi.trans (assembled_grows hl)

/-- What all streams come to, stream by stream. -/
theorem assembled_stream (c : Con Q) (stream : UInt64) : c.assembled.filter (·.reference = stream) =
    (inbox.out (own stream c.streamEvents)).map (·.toMsg stream) := by
  unfold assembled
  rw [List.filter_map, ← inbox.own_out_each]
  exact map_filter_fst _ fun k (x : H3InboundProgress) => x.toMsg k

/-- See the module doc. -/
theorem received_messages {as : List ConAct} {c₀ : Con Q} (h₀ : (sys Q).init c₀)
    (hr : (sys Q).run as c₀ = some c) (stream : UInt64) :
    StreamReceived c ((evts Q).taken (sys Q) as c₀) stream := by
  have h : (sys Q).Reach c := .run h₀ hr
  have hk := kept_evts h₀ hr
  constructor
  · have htaken : taken ((evts Q).taken (sys Q) as c₀) <+: c.messages := hk.inOrder.filterMap _
    rw [← assembled_stream]
    exact (htaken.trans (messages_assembled h)).filter _
  · intro hrx hq
    have hall : (evts Q).taken (sys Q) as c₀ = c.events := by
      have hnone : (evts Q).queue c = [] := congrArg (List.map Prod.fst) hq
      have hall := hk.all hrx
      rwa [hnone, List.append_nil] at hall
    rw [hall]
    exact messages_of h hrx stream

/-- Two requests at a time, of which one is reset after the first part of its body; the user takes all
events. -/
theorem received_messages_two : ∃ (c : Con Quiche.scripted) (got : List ConEvt),
    (taken got).map (·.reference) = [4] ∧ StreamReceived c got 0 ∧ StreamReceived c got 4 := by
  obtain ⟨c₀, h₀⟩ : ∃ c₀, quicheCon (Q := Quiche.scripted) (some ())
    [.poll (.ok (0, .headers [⟨[1], [2]⟩] true)), .poll (.ok (4, .headers [⟨[3], [4]⟩] false)),
      .poll (.ok (0, .data)), .recvBody (.ok [5]), .poll (.ok (0, .reset 7))] = some c₀ := ⟨_, rfl⟩
  obtain ⟨as, has⟩ : ∃ as : List ConAct,
    as = .deliver :: List.replicate 18 .task ++ [.evtPoll, .evtPoll] := ⟨_, rfl⟩
  have hrun : ((sys Quiche.scripted).run as c₀).isSome &&
      decide ((taken ((evts Quiche.scripted).taken (sys Quiche.scripted) as c₀)).map (·.reference) =
        [4]) := by subst has; cases h₀; decide +kernel
  obtain ⟨hr, hgot⟩ := Bool.and_eq_true_iff.mp hrun
  obtain ⟨c, hr⟩ := Option.isSome_iff_exists.mp hr
  exact ⟨c, _, of_decide_eq_true hgot, received_messages ⟨_, _, h₀⟩ hr 0,
    received_messages ⟨_, _, h₀⟩ hr 4⟩

end Absquic.Con
