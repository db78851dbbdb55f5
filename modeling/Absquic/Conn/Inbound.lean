import Absquic.Conn.Events
import Absquic.Lib.Mealy

/-!
# The messages of the streams

What `con_task` learns of its streams (`streamEvents`) is an interleaving: the events of `poll` and
the chunks of `recv_body`, each with its stream. `inbox` is what one stream's own events come to,
and `Inbound` says that `con_task` is a copy of it for every stream: `h3_inbound` holds the states
of the copies, and the messages that were put on the event channel are their outputs.

* `reassembly`: streams whose events have the usual shape give one message each when they are
  complete, whatever the interleaving.
* `trailers_iff`: what becomes of a message with trailers.
* `reset_ends`: a reset that `recv_body` reports ends the task.
-/

namespace Absquic

/-- What `con_task` learns of a stream: an event of `poll`, or a chunk of its body. -/
inductive StreamEvent
  | headers (list : List H3Header) (hasBody : Bool)
  | data
  | chunk (bytes : Bytes)
  | finished
  | reset (code : UInt64)
  deriving DecidableEq

namespace StreamEvent

/-- The body of a message. -/
def isBody : StreamEvent → Bool
  | .data | .chunk _ => true
  | _ => false

def chunk? : StreamEvent → Option Bytes
  | .chunk bytes => some bytes
  | _ => none

end StreamEvent

/-- The events that are about a stream: the number of `Datagram` is a flow id. -/
def H3Event.stream? : H3Event → Option StreamEvent
  | .headers list hasBody => some (.headers list hasBody)
  | .data => some .data
  | .finished => some .finished
  | .reset code => some (.reset code)
  | .datagram | .goAway => none

def ConObs.stream? : ConObs → Option (UInt64 × StreamEvent)
  | .poll (.ok (stream, e)) => e.stream?.map (stream, ·)
  | .recvBody stream (.ok chunk) => some (stream, .chunk chunk)
  | _ => none

/-- The stream of which `recv_body` reports that it was reset, and the code. -/
def ConObs.bodyReset? : ConObs → Option (UInt64 × UInt64)
  | .recvBody stream (.error (.transport (.streamReset code))) => some (stream, code)
  | _ => none

def ConEvt.msg? : ConEvt → Option Http3Msg
  | .http3 msg => some msg
  | .connected => none

/-! ## One stream -/

/-- What the events of one stream come to: the message so far, and the messages. -/
def inbox : Mealy (Option H3InboundProgress) StreamEvent H3InboundProgress where
  init := none
  step
    | _, .headers list true => (some { headers := list, body := [] }, none)
    | p, .headers list false => (p, some { headers := list, body := [] })
    | p, .data => (p, none)
    | p, .chunk bytes => (p.map fun item => { item with body := item.body ++ [bytes] }, none)
    | p, .finished => (none, p)
    | _, .reset _ => (none, none)

/-- The message of a stream, as it is put on the channel. -/
def H3InboundProgress.toMsg (stream : UInt64) (item : H3InboundProgress) : Http3Msg :=
  { headers := Con.msgHeaders item.headers, body := item.body, reference := stream }

/-- While the body comes in. -/
theorem inbox_body (list : List H3Header) {ds : List StreamEvent} (hd : ∀ e ∈ ds, e.isBody) :
    inbox.exec (.headers list true :: ds) =
      (some { headers := list, body := ds.filterMap (·.chunk?) }, []) := by
  induction ds using List.reverseRecOn with
  | nil => rfl
  | append_singleton ds e ih =>
    have ih := ih fun e he => hd e (List.mem_append_left _ he)
    have he : e.isBody := hd e (by simp)
    rw [← List.cons_append, Mealy.exec_concat, Mealy.final, Mealy.out, ih]
    cases e with
    | data => simp [inbox, StreamEvent.chunk?]
    | chunk bytes => simp [inbox, StreamEvent.chunk?]
    | _ => cases he

/-- The events of a stream, as a request or a response without trailers makes them. -/
inductive Shape : List StreamEvent → Prop
  | none : Shape []
  | bare (list : List H3Header) {fin : List StreamEvent} (hf : fin = [] ∨ fin = [.finished]) :
    Shape (.headers list false :: fin)
  | body (list : List H3Header) {ds fin : List StreamEvent} (hd : ∀ e ∈ ds, e.isBody)
    (hf : fin = [] ∨ fin = [.finished] ∨ ∃ code, fin = [.reset code]) :
    Shape (.headers list true :: (ds ++ fin))

/-- The message of a stream with these events, if it is complete. -/
def whole? : List StreamEvent → Option H3InboundProgress
  | .headers list false :: _ => some { headers := list, body := [] }
  | .headers list true :: es =>
    if es.getLast? = some .finished then some { headers := list, body := es.filterMap (·.chunk?) }
    else none
  | _ => none

/-- Does the event complete the message of a stream with the events `own`? -/
def completes (own : List StreamEvent) : StreamEvent → Bool
  | .headers _ false => true
  | .finished => match own with
    | .headers _ true :: _ => true
    | _ => false
  | _ => false

theorem out_shape {es : List StreamEvent} (h : Shape es) : inbox.out es = (whole? es).toList := by
  cases h with
  | none => rfl
  | bare list hf => rcases hf with rfl | rfl <;> rfl
  | @body list ds fin hd hf =>
    have hb := inbox_body list hd
    rcases hf with rfl | rfl | ⟨code, rfl⟩
    · rw [List.append_nil, Mealy.out, hb]
      have hl : ds.getLast? ≠ some .finished := by
        intro hl
        exact absurd (hd _ (List.mem_of_getLast? hl)) (by simp [StreamEvent.isBody])
      simp [whole?, hl]
    · rw [← List.cons_append, Mealy.out_concat, Mealy.final, Mealy.out, hb]
      simp [whole?, inbox, StreamEvent.chunk?]
    · rw [← List.cons_append, Mealy.out_concat, Mealy.final, Mealy.out, hb]
      simp [whole?, inbox]

/-- Which of the events gives the message. -/
theorem step_shape {es pre post : List StreamEvent} {e : StreamEvent} (h : Shape es)
    (he : es = pre ++ e :: post) :
    (inbox.step (inbox.final pre) e).2.isSome = completes es e := by
  cases h with
  | none => simp at he
  | @bare list fin hf =>
    cases pre with
    | nil =>
      obtain ⟨rfl, -⟩ := List.cons_eq_cons.mp he
      rfl
    | cons x pre =>
      obtain ⟨rfl, hfin⟩ := List.cons_eq_cons.mp he
      rcases hf with rfl | rfl
      · simp at hfin
      · obtain ⟨rfl, rfl, rfl⟩ : pre = [] ∧ e = .finished ∧ post = [] := by
          cases pre with
          | nil => simpa [eq_comm] using hfin
          | cons y pre => simp at hfin
        rfl
  | @body list ds fin hd hf =>
    cases pre with
    | nil =>
      obtain ⟨rfl, -⟩ := List.cons_eq_cons.mp he
      rfl
    | cons x pre =>
      obtain ⟨rfl, hsplit⟩ := List.cons_eq_cons.mp he
      rcases List.append_eq_append_iff.mp hsplit with ⟨mid, rfl, hfin⟩ | ⟨mid, rfl, hmid⟩
      · -- after the body
        have hm : mid = [] ∧ fin = [e] := by
          rcases hf with rfl | rfl | ⟨code, rfl⟩ <;> cases mid <;> simp_all
        obtain ⟨rfl, rfl⟩ := hm
        rw [List.append_nil, Mealy.final, inbox_body list hd]
        rcases hf with hf | hf | ⟨code, hf⟩ <;> cases hf <;> rfl
      · cases mid with
        | nil =>
          have hpre : ∀ e ∈ pre, e.isBody := fun e he => hd e (by simpa using he)
          rw [Mealy.final, inbox_body list hpre]
          rcases hf with rfl | rfl | ⟨code, rfl⟩
          · simp at hmid
          · obtain ⟨rfl, -⟩ := List.cons_eq_cons.mp hmid; rfl
          · obtain ⟨rfl, -⟩ := List.cons_eq_cons.mp hmid; rfl
        | cons y mid =>
          obtain ⟨rfl, -⟩ := List.cons_eq_cons.mp hmid
          have hy : e.isBody := hd e (by simp)
          cases e with
          | data => rfl
          | chunk bytes => rfl
          | _ => cases hy

namespace Con

variable {Q : Quiche} {c c' : Con Q}

/-- What `con_task` learned of its streams, in order. -/
def streamEvents (c : Con Q) : List (UInt64 × StreamEvent) := c.trace.filterMap (·.stream?)

/-- The messages that were put on the event channel, in order. -/
def messages (c : Con Q) : List Http3Msg := c.events.filterMap (·.msg?)

theorem streamEvents_append {l : List ConObs} (h : c'.trace = c.trace ++ l) :
    c'.streamEvents = c.streamEvents ++ l.filterMap (·.stream?) := by
  unfold streamEvents
  rw [h, List.filterMap_append]

theorem messages_append {l : List ConObs} (h : c'.trace = c.trace ++ l) :
    c'.messages = c.messages ++ (l.filterMap (·.evt?)).filterMap (·.msg?) := by
  unfold messages
  rw [events_append h, List.filterMap_append]

/-- A copy of `inbox` for every stream. -/
abbrev inboxes : Mealy (UInt64 → Option H3InboundProgress) (UInt64 × StreamEvent)
    (UInt64 × H3InboundProgress) := inbox.each UInt64

/-- `con_task` is a copy of `inbox` for every stream (module doc). -/
structure Inbound (c : Con Q) : Prop where
  partials : c.pc.over = false → ∀ stream,
    c.h3Inbound.lookup stream = inboxes.final c.streamEvents stream
  messages : c.evt.rx = true →
    c.messages = (inboxes.out c.streamEvents).map fun x => x.2.toMsg x.1

/-- A step that is about no stream. -/
theorem Inbound.keep (h : Inbound c)
    (hp : c'.pc.over = false → c.pc.over = false ∧ c'.h3Inbound = c.h3Inbound)
    (hr : c'.evt.rx = true → c.evt.rx = true) {l : List ConObs} (ht : c'.trace = c.trace ++ l)
    (hl : ∀ o ∈ l, o.stream? = none ∧ o.evt?.bind (·.msg?) = none) : Inbound c' := by
  have hs : c'.streamEvents = c.streamEvents := by
    rw [streamEvents_append ht, List.filterMap_eq_nil_iff.mpr fun o ho => (hl o ho).1,
      List.append_nil]
  have hm : c'.messages = c.messages := by
    rw [messages_append ht, List.filterMap_filterMap,
      List.filterMap_eq_nil_iff.mpr fun o ho => (hl o ho).2, List.append_nil]
  constructor
  · intro ho stream
    obtain ⟨hov, he⟩ := hp ho
    rw [he, hs]
    exact h.partials hov stream
  · intro hx
    rw [hm, hs]
    exact h.messages (hr hx)

/-- An event of `poll`, as `inbox` takes it. -/
theorem inbox_event {stream : UInt64} {e : H3Event} {x : StreamEvent} (hx : e.stream? = some x)
    (s : UInt64) : (c.inboundAfter stream e).lookup s = (if s = stream then
      (inbox.step (c.h3Inbound.lookup stream) x).1 else c.h3Inbound.lookup s) := by
  cases e with
  | headers list hasBody =>
    cases hx
    cases hasBody with
    | true =>
      by_cases hs : s = stream
      · subst hs; rw [if_pos rfl]; exact AList.lookup_insert _
      · rw [if_neg hs]; exact AList.lookup_insert_ne hs
    | false =>
      by_cases hs : s = stream
      · subst hs; rw [if_pos rfl]; rfl
      · rw [if_neg hs]; rfl
  | data =>
    cases hx
    by_cases hs : s = stream
    · subst hs; rw [if_pos rfl]; rfl
    · rw [if_neg hs]; rfl
  | finished | reset code =>
    cases hx
    by_cases hs : s = stream
    · subst hs; rw [if_pos rfl]; exact AList.lookup_erase _ _
    · rw [if_neg hs]; exact AList.lookup_erase_ne hs
  | datagram | goAway => cases hx

theorem inbox_message {stream : UInt64} {e : H3Event} {x : StreamEvent}
    (hx : e.stream? = some x) : c.message stream e =
      (inbox.step (c.h3Inbound.lookup stream) x).2.map (·.toMsg stream) := by
  cases e with
  | headers list hasBody => cases hx; cases hasBody <;> rfl
  | finished => cases hx; rfl
  | data | reset code => cases hx; rfl
  | datagram | goAway => cases hx

/-- The event of a stream, and the message that it completes. -/
theorem inbound_step (stream : UInt64) (x : StreamEvent) (out : List Http3Msg) (h : Inbound c)
    (ho : c.pc.over = false) (hs : c'.streamEvents = c.streamEvents ++ [(stream, x)])
    (hp : ∀ s, c'.h3Inbound.lookup s = (if s = stream then
      (inbox.step (c.h3Inbound.lookup stream) x).1 else c.h3Inbound.lookup s))
    (hr : c'.evt.rx = true → c.evt.rx = true) (hm : c'.messages = c.messages ++ out)
    (hout : out = (inbox.step (c.h3Inbound.lookup stream) x).2.toList.map (·.toMsg stream)) :
    Inbound c' := by
  have hst := h.partials ho
  constructor
  · intro _ s
    rw [hs, Mealy.final_concat, hp, inbox.each_step, ← hst, ← hst]
  · intro hx
    rw [hs, Mealy.out_concat, List.map_append, hm, h.messages (hr hx), hout, Mealy.step_each,
      hst stream, inbox.final_each]
    cases (inbox.step (inbox.final (own stream c.streamEvents)) x).2 <;> rfl

theorem inbound_task (h : Inbound c) (ht : TaskStep c c') : Inbound c' := by
  have hov := ht.not_over
  -- the end of the task
  have hend : ∀ {d : Con Q} {o : ConObs}, d.pc.over = true → (d.evt.rx = true → c.evt.rx = true) →
      d.trace = c.trace ++ [o] → o.stream? = none ∧ o.evt?.bind (·.msg?) = none → Inbound d := by
    intro d o hd hr ht ho
    exact h.keep (fun hn => absurd (hd.symm.trans hn) (by simp)) hr ht (by simpa using ho)
  cases ht with
  | take | skip | requested | flush | unsent =>
    exact h.keep (l := []) (fun _ => ⟨hov, rfl⟩) id (List.append_nil _).symm (by simp)
  | reserve _ hr | reserveH3 _ hr =>
    exact h.keep (l := []) (fun _ => ⟨hov, rfl⟩) (fun hx => hr ▸ hx) (List.append_nil _).symm
      (by simp)
  | @dispatch cmd d sleepers cmdGuard hpc =>
    obtain ⟨⟨con, calls, wait, out, send, trace, he⟩, l, hl, hlo⟩ := dispatch_spec c cmd
    refine h.keep (l := l ++ [.timeout d]) (fun _ => ⟨hov, by rw [he]; rfl⟩)
      (by rw [he]; exact id) ?_ ?_
    · show (c.dispatch cmd).trace ++ _ = _
      rw [hl, List.append_assoc]
    · intro o ho
      rcases List.mem_append.mp ho with ho | ho
      · rcases hlo o ho with rfl | rfl <;> exact ⟨rfl, rfl⟩
      · rw [List.mem_singleton.mp ho]; exact ⟨rfl, rfl⟩
  | @connect c₁ _ _ _ _ _ h1 hr =>
    obtain ⟨l, hl, ho, -⟩ := trace_setupH3 { c with connected := true }
    rw [← h1] at hl
    refine h.keep (l := l ++ c.put .connected) (fun _ => ⟨hov, ?_⟩) (fun hx => hr ▸ hx) ?_ ?_
    · show c₁.h3Inbound = _
      rw [h1, setupH3_spec]
    · show c₁.trace ++ _ = _
      rw [hl, List.append_assoc]
    · intro o hm
      rcases List.mem_append.mp hm with hm | hm
      · have := ho o hm
        cases o <;> first | exact ⟨rfl, rfl⟩ | cases this
      · unfold put at hm
        split at hm
        · rw [List.mem_singleton.mp hm]; exact ⟨rfl, rfl⟩
        · cases hm
  | request | pollDone | bodyDone | dgramDone | dgram | sendDone | sent =>
    exact h.keep (fun _ => ⟨hov, rfl⟩) id rfl (by simp [ConObs.stream?, ConObs.evt?])
  | pollErr | goAway | bodyErr | dgramErr | badFlow | sendErr => exact hend rfl id rfl ⟨rfl, rfl⟩
  | @event h3 x stream e hpc _ _ hg hm =>
    cases hx : e.stream? with
    | none =>
      have he : e = .datagram := by cases e <;> simp_all [H3Event.stream?]
      subst he
      exact h.keep (fun _ => ⟨hov, rfl⟩) id rfl
        (by simp [ConObs.stream?, ConObs.evt?, H3Event.stream?])
    | some x =>
      rw [inbox_message hx] at hm
      refine inbound_step stream x [] h hov ?_ (inbox_event hx) id ?_ ?_
      · rw [streamEvents_append (c := c) (l := [_]) rfl]; simp [ConObs.stream?, hx]
      · rw [messages_append (c := c) (l := [_]) rfl]; rfl
      · rw [Option.map_eq_none_iff.mp hm]; rfl
  | @message h3 x stream e msg _ _ hpc _ _ hg hm hr hr' =>
    cases hx : e.stream? with
    | none => cases e <;> simp_all [H3Event.stream?, Con.message]
    | some x =>
      rw [inbox_message hx] at hm
      refine inbound_step stream x [msg] h hov ?_ (inbox_event hx) (fun _ => hr) ?_ ?_
      · rw [streamEvents_append rfl]; simp [ConObs.stream?, hx]
      · rw [messages_append rfl]; rfl
      · obtain ⟨item, hi, rfl⟩ := Option.map_eq_some_iff.mp hm
        rw [hi]
        rfl
  | @lost h3 x stream e msg c₁ cmd evt m hpc h3c hq hg hm hr hr' h1 =>
    subst h1
    constructor
    · intro ho
      cases ho
    · intro hx
      exact absurd (hr'.symm.trans hx) (by simp)
  | @chunk h3 x stream chunk hpc =>
    refine inbound_step stream (.chunk chunk) [] h hov ?_ ?_ ?_ ?_ rfl
    · obtain ⟨m, hm⟩ := pushBody_spec (c.called x (.recvBody stream (.ok chunk))) stream chunk
      rw [hm, streamEvents_append rfl]
      rfl
    · intro s
      unfold pushBody
      split
      · next hl =>
        have hl : c.h3Inbound.lookup stream = none := hl
        by_cases hs : s = stream
        · subst hs; rw [if_pos rfl, hl]; exact hl
        · rw [if_neg hs]; rfl
      · next item hl =>
        have hl : c.h3Inbound.lookup stream = some item := hl
        by_cases hs : s = stream
        · subst hs; rw [if_pos rfl, hl]; exact AList.lookup_insert _
        · rw [if_neg hs]; exact AList.lookup_insert_ne hs
    · obtain ⟨m, hm⟩ := pushBody_spec (c.called x (.recvBody stream (.ok chunk))) stream chunk
      rw [hm]
      exact id
    · obtain ⟨m, hm⟩ := pushBody_spec (c.called x (.recvBody stream (.ok chunk))) stream chunk
      rw [hm, messages_append rfl]
      rfl

theorem sys_inbound (h : (sys Q).Reach c) : Inbound c := by
  refine h.invariant ?_ ?_
  · rintro c ⟨h3Config, con, hq⟩
    cases hq
    exact ⟨fun _ _ => rfl, fun _ => rfl⟩
  · intro a c c' hr hi hs
    rcases reach_cases hr hs with ⟨-, ht⟩ | ⟨ha, hf⟩
    · exact inbound_task hi ht
    · obtain ⟨he, hx⟩ := other_step hs ha
      obtain ⟨l, hl, hb⟩ := hf.trace
      refine hi.keep (fun ho => ⟨hf.pc ▸ ho, by rw [he]⟩) hx hl ?_
      intro o ho
      have := hb o ho
      cases o <;> first | exact ⟨rfl, rfl⟩ | cases this

/-- The messages of one stream are what its own events come to. -/
theorem messages_of (h : (sys Q).Reach c) (hr : c.evt.rx = true) (stream : UInt64) :
    c.messages.filter (·.reference = stream) =
      (inbox.out (own stream c.streamEvents)).map (·.toMsg stream) := by
  rw [(sys_inbound h).messages hr, List.filter_map, ← inbox.own_out_each]
  exact map_filter_fst _ fun k (x : H3InboundProgress) => x.toMsg k

/-- Messages under any interleaving of the streams: one for every stream that is complete, with its
own headers and body, in the order of the completing events. -/
theorem reassembly (h : (sys Q).Reach c) (hr : c.evt.rx = true)
    (hs : ∀ stream, Shape (own stream c.streamEvents)) :
    (∀ stream, c.messages.filter (·.reference = stream) =
      ((whole? (own stream c.streamEvents)).map (·.toMsg stream)).toList) ∧
    c.messages.map (·.reference) =
      (c.streamEvents.filter fun x => completes (own x.1 c.streamEvents) x.2).map Prod.fst := by
  constructor
  · intro stream
    rw [messages_of h hr, out_shape (hs stream)]
    cases whole? (own stream c.streamEvents) <;> rfl
  · rw [(sys_inbound h).messages hr, List.map_map]
    refine Eq.trans ?_ (inbox.keys_out_each ?_)
    · rfl
    · intro pre stream e post he
      have hown : own stream c.streamEvents = own stream pre ++ e :: own stream post := by
        rw [he, own_append, show (stream, e) :: post = [(stream, e)] ++ post from rfl, own_append,
          own_singleton, if_pos rfl]
        rfl
      exact step_shape (hs stream) hown

/-- Two requests and the beginning of a third, interleaved: the second is complete first. -/
theorem reassembly_two : ∃ c : Con Quiche.scripted,
    (c.messages.filter (·.reference = 0)).map (·.body) = [[[5], [6], [7]]] ∧
      c.messages.map (·.reference) = [4, 0] := by
  obtain ⟨c, hr, hc⟩ := reach_scripted
    [.poll (.ok (0, .headers [⟨[1], [2]⟩] true)),
      .poll (.ok (4, .headers [⟨[3], [4]⟩] false)), .poll (.ok (0, .data)), .recvBody (.ok [5]),
      .recvBody (.ok [6]), .poll (.ok (8, .headers [] true)), .poll (.ok (4, .finished)),
      .poll (.ok (0, .data)), .recvBody (.ok [7]), .poll (.ok (0, .finished))] 27
    (fun c => decide (c.evt.rx = true ∧ c.streamEvents =
      [(0, .headers [⟨[1], [2]⟩] true), (4, .headers [⟨[3], [4]⟩] false), (0, .data), (0, .chunk [5]),
        (0, .chunk [6]), (8, .headers [] true), (4, .finished), (0, .data), (0, .chunk [7]),
        (0, .finished)]))
    (by decide +kernel)
  obtain ⟨hrx, hev⟩ := of_decide_eq_true hc
  have hs : ∀ stream, Shape (own stream c.streamEvents) := by
    intro stream
    rw [hev]
    by_cases h0 : stream = 0
    · subst h0
      exact @Shape.body _ [.data, .chunk [5], .chunk [6], .data, .chunk [7]] [.finished] (by decide)
        (.inr (.inl rfl))
    · by_cases h4 : stream = 4
      · subst h4
        exact .bare _ (.inr rfl)
      · by_cases h8 : stream = 8
        · subst h8
          exact @Shape.body _ [] [] (by decide) (.inl rfl)
        · simp [own, Ne.symm h0, Ne.symm h4, Ne.symm h8, Shape.none]
  obtain ⟨h1, h2⟩ := reassembly hr hrx hs
  rw [hev] at h1 h2
  refine ⟨c, ?_, h2⟩
  rw [h1 0]
  rfl

/-! ## Trailers -/

/-- What is promised of a stream with trailers: one message, with the headers of the first field
section, maybe with those of the trailers after them, and the whole body. -/
def OneMessage (c : Con Q) (stream : UInt64) (list trailers : List H3Header) (chunks : List Bytes) :
    Prop :=
  ∃ msg, c.messages.filter (·.reference = stream) = [msg] ∧
    (msg.headers = msgHeaders list ∨ msg.headers = msgHeaders list ++ msgHeaders trailers) ∧
    msg.body.flatten = chunks.flatten

/-- The outputs for a stream with trailers. -/
theorem out_trailers (list trailers : List H3Header) (hasBody : Bool) {ds : List StreamEvent}
    (hd : ∀ e ∈ ds, e.isBody) :
    inbox.out (.headers list true :: (ds ++ [.headers trailers hasBody, .finished])) =
      if hasBody then [{ headers := trailers, body := [] }]
      else [{ headers := trailers, body := [] },
        { headers := list, body := ds.filterMap (·.chunk?) }] := by
  have hb := inbox_body list hd
  have he : .headers list true :: (ds ++ [.headers trailers hasBody, .finished]) =
      (.headers list true :: ds) ++ [.headers trailers hasBody] ++ [StreamEvent.finished] := by simp
  rw [he, Mealy.out_concat, Mealy.final_concat, Mealy.out_concat, Mealy.final, Mealy.out, hb]
  cases hasBody <;> rfl

/-- A message with trailers is one message, with its whole body, if and only if the trailers are
reported as if a body came after them, no body came before them, and nothing is lost by the trailers
in place of the headers. -/
theorem trailers_iff (h : (sys Q).Reach c) (hr : c.evt.rx = true) {stream : UInt64}
    {list trailers : List H3Header} {hasBody : Bool} {ds : List StreamEvent}
    (hd : ∀ e ∈ ds, e.isBody)
    (ho : own stream c.streamEvents =
      .headers list true :: (ds ++ [.headers trailers hasBody, .finished])) :
    c.OneMessage stream list trailers (ds.filterMap (·.chunk?)) ↔
      hasBody = true ∧ (ds.filterMap (·.chunk?)).flatten = [] ∧
        (msgHeaders trailers = msgHeaders list ∨ msgHeaders list = []) := by
  unfold OneMessage
  rw [messages_of h hr, ho, out_trailers list trailers hasBody hd]
  cases hasBody with
  | false =>
    constructor
    · rintro ⟨msg, hm, -⟩
      simp at hm
    · rintro ⟨hf, -⟩
      cases hf
  | true =>
    constructor
    · rintro ⟨msg, hm, hh, hbody⟩
      obtain rfl := List.singleton_inj.mp hm
      refine ⟨rfl, hbody.symm, ?_⟩
      rcases hh with hh | hh
      · exact .inl hh
      · exact .inr (List.append_left_eq_self.mp hh.symm)
    · rintro ⟨-, hbody, hh⟩
      refine ⟨_, rfl, ?_, hbody.symm⟩
      rcases hh with hh | hh
      · exact .inl hh
      · exact .inr (by rw [hh]; rfl)

/-- A message with an empty chunk of body that ends with its own headers once more. -/
theorem trailers_iff_same : ∃ c : Con Quiche.scripted,
    c.OneMessage 0 [⟨[1], [2]⟩] [⟨[1], [2]⟩] [[]] := by
  obtain ⟨c, hr, hc⟩ := reach_scripted
    [.poll (.ok (0, .headers [⟨[1], [2]⟩] true)), .poll (.ok (0, .data)), .recvBody (.ok []),
      .poll (.ok (0, .headers [⟨[1], [2]⟩] true)), .poll (.ok (0, .finished))] 15
    (fun c => decide (c.evt.rx = true ∧ own 0 c.streamEvents = [.headers [⟨[1], [2]⟩] true, .data,
      .chunk [], .headers [⟨[1], [2]⟩] true, .finished]))
    (by decide +kernel)
  obtain ⟨hrx, hev⟩ := of_decide_eq_true hc
  exact ⟨c, (@trailers_iff _ c hr hrx 0 [⟨[1], [2]⟩] [⟨[1], [2]⟩] true [.data, .chunk []] (by decide)
    hev).mpr ⟨rfl, rfl, .inl rfl⟩⟩

/-- The body before the trailers is lost. -/
theorem not_trailers : ¬ ∀ (Q : Quiche) (c : Con Q), (sys Q).Reach c → c.evt.rx = true →
    ∀ stream list trailers hasBody ds, (∀ e ∈ ds, e.isBody) → own stream c.streamEvents =
      .headers list true :: (ds ++ [.headers trailers hasBody, .finished]) →
        c.OneMessage stream list trailers (ds.filterMap (·.chunk?)) := by
  intro h
  obtain ⟨c, hr, hc⟩ := reach_scripted
    [.poll (.ok (0, .headers [] true)), .poll (.ok (0, .data)), .recvBody (.ok [1]),
      .poll (.ok (0, .headers [] true)), .poll (.ok (0, .finished))] 15
    (fun c => decide (c.evt.rx = true ∧ own 0 c.streamEvents =
        [.headers [] true, .data, .chunk [1], .headers [] true, .finished] ∧
      c.messages.filter (·.reference = 0) = [{ headers := [], body := [], reference := 0 }]))
    (by decide +kernel)
  obtain ⟨hrx, hev, hm⟩ := of_decide_eq_true hc
  obtain ⟨msg, hm', -, hbody⟩ := h _ c hr hrx 0 [] [] true [.data, .chunk [1]] (by decide) hev
  rw [hm] at hm'
  obtain rfl := List.singleton_inj.mp hm'
  cases hbody

/-! ## A reset that `recv_body` reports -/

/-- The resets that `recv_body` reported, with their codes. -/
def bodyResets (c : Con Q) : List (UInt64 × UInt64) := c.trace.filterMap (·.bodyReset?)

/-- What `con_task` would have learned if such a report were a `Reset` event. -/
def resetEvents (c : Con Q) : List (UInt64 × StreamEvent) :=
  c.trace.filterMap fun o => match o.bodyReset? with
    | some (stream, code) => some (stream, .reset code)
    | none => o.stream?

/-- What is promised when `recv_body` reports a reset of the stream: the task goes on, what came of
the message is dropped, and the other streams' messages are those of any run that differs only in
that the reset was a `Reset` event. -/
structure StaysOnStream (c : Con Q) (stream : UInt64) : Prop where
  running : c.pc.over = false
  discarded : c.h3Inbound.lookup stream = inboxes.final c.resetEvents stream
  others : ∀ {Q' : Quiche} {d : Con Q'}, (sys Q').Reach d → d.evt.rx = true →
    d.streamEvents = c.resetEvents →
      c.messages.filter (·.reference ≠ stream) = d.messages.filter (·.reference ≠ stream)

/-- The other streams' messages do not depend on the events of this one. -/
theorem messages_other {Q' : Quiche} {d : Con Q'} {stream : UInt64} (hc : (sys Q).Reach c)
    (hd : (sys Q').Reach d) (hrc : c.evt.rx = true) (hrd : d.evt.rx = true)
    (he : c.streamEvents.filter (·.1 ≠ stream) = d.streamEvents.filter (·.1 ≠ stream)) :
    c.messages.filter (·.reference ≠ stream) = d.messages.filter (·.reference ≠ stream) := by
  have hout : ∀ l : List (UInt64 × StreamEvent),
      ((inboxes.out l).map fun x => x.2.toMsg x.1).filter (·.reference ≠ stream) =
        (inboxes.out (l.filter (·.1 ≠ stream))).map fun x => x.2.toMsg x.1 := by
    intro l
    rw [List.filter_map, ← inbox.filter_out_each fun k => k ≠ stream]
    rfl
  rw [(sys_inbound hc).messages hrc, (sys_inbound hd).messages hrd, hout, hout, he]

/-- A reset that `recv_body` reports ends the task, in every run. -/
theorem reset_ends (h : (sys Q).Reach c) {stream code : UInt64} (hm : (stream, code) ∈ c.bodyResets) :
    c.pc = .ended .returned ∧ ¬ c.StaysOnStream stream := by
  obtain ⟨o, ho, hreset⟩ := List.mem_filterMap.mp hm
  have hf : o.fails := by
    unfold ConObs.bodyReset? at hreset
    split at hreset
    · rfl
    · cases hreset
  have hpc := returned_of_fails h ho hf
  refine ⟨hpc, ?_⟩
  intro hs
  have := hs.running
  rw [hpc] at this
  cases this

/-- A stream that is reset in the middle of a DATA frame. -/
theorem reset_ends_first : ∃ c : Con Quiche.scripted, (0, 7) ∈ c.bodyResets ∧
    c.pc = .ended .returned := by
  obtain ⟨c, hr, hc⟩ := reach_scripted
    [.poll (.ok (0, .headers [] true)), .poll (.ok (0, .data)),
      .recvBody (.error (.transport (.streamReset 7)))] 10
    (fun c => decide ((0, 7) ∈ c.bodyResets))
    (by decide +kernel)
  have hm := of_decide_eq_true hc
  exact ⟨c, hm, (reset_ends hr hm).1⟩

/-- The task does not go on. -/
theorem not_stays_on_stream : ¬ ∀ (Q : Quiche) (c : Con Q), (sys Q).Reach c →
    ∀ stream code, (stream, code) ∈ c.bodyResets → c.StaysOnStream stream := by
  intro h
  obtain ⟨c, hr, hc⟩ := reach_scripted
    [.poll (.ok (0, .headers [] true)), .poll (.ok (0, .data)),
      .recvBody (.error (.transport (.streamReset 7)))] 10
    (fun c => decide ((0, 7) ∈ c.bodyResets ∧ c.pc = .ended .returned))
    (by decide +kernel)
  obtain ⟨hm, hpc⟩ := of_decide_eq_true hc
  have := (h _ c hr 0 7 hm).running
  rw [hpc] at this
  cases this

end Con
end Absquic
