import Absquic.Conn.Inversion

/-!
# The order of a connection's events

`events` is what was put on the event channel. `Evts` follows it along a run: nothing while
`connected` is not set, then `Connected` first (or nothing at all, when nobody receives), and http3
events only where there is an h3 connection, which needs a config and a `with_transport` that
succeeded. `event_order` puts it together.
-/

namespace Absquic

/-- The event that was put on the channel. -/
def ConObs.evt? : ConObs → Option ConEvt
  | .evt e => some e
  | _ => none

namespace Con

variable {Q : Quiche} {c c' : Con Q}

/-- The events that were put on the event channel, in order. -/
def events (c : Con Q) : List ConEvt := c.trace.filterMap (·.evt?)

theorem events_append {l : List ConObs} (h : c'.trace = c.trace ++ l) :
    c'.events = c.events ++ l.filterMap (·.evt?) := by
  unfold events
  rw [h, List.filterMap_append]

theorem events_put (c : Con Q) (e : ConEvt) :
    (c.put e).filterMap (·.evt?) = if c.evt.rx then [e] else [] := by
  unfold put
  split <;> rfl

/-- What holds of the events (module doc). -/
structure Evts (c : Con Q) : Prop where
  before : c.connected = false → c.events = [] ∧ ∀ ok, .withTransport ok ∉ c.trace
  after : c.connected = true → (c.events = [] ∧ c.evt.rx = false) ∨
    ∃ msgs : List Http3Msg, c.events = .connected :: msgs.map .http3
  without : c.h3Con.isSome = false → ∀ msg, .http3 msg ∉ c.events
  h3 : c.h3Con.isSome = true → c.h3Config ≠ none ∧ .withTransport false ∉ c.trace

/-- A step that puts nothing on the event channel, and does not set up h3. -/
theorem Evts.keep (h : Evts c) (hn : c'.connected = c.connected)
    (hr : c'.evt.rx = true → c.evt.rx = true) (h3 : c'.h3Con.isSome = c.h3Con.isSome)
    (hc : c'.h3Config = c.h3Config) {l : List ConObs} (ht : c'.trace = c.trace ++ l)
    (hl : ∀ o ∈ l, o.evt? = none ∧ o.isTransport = false) : Evts c' := by
  have he : c'.events = c.events := by
    rw [events_append ht, List.filterMap_eq_nil_iff.mpr fun o ho => (hl o ho).1, List.append_nil]
  have hw : ∀ ok, .withTransport ok ∈ c'.trace → .withTransport ok ∈ c.trace := by
    intro ok hm
    rw [ht] at hm
    refine (List.mem_append.mp hm).resolve_right fun hm => ?_
    exact absurd (hl _ hm).2.symm Bool.false_ne_true
  constructor
  · intro hf
    obtain ⟨h1, h2⟩ := h.before (hn ▸ hf)
    exact ⟨he.trans h1, fun ok hm => h2 ok (hw ok hm)⟩
  · intro hf
    rw [he]
    refine (h.after (hn ▸ hf)).imp_left fun ⟨h1, h2⟩ => ⟨h1, ?_⟩
    exact Bool.eq_false_iff.mpr fun hx => Bool.eq_false_iff.mp h2 (hr hx)
  · intro hf
    rw [he]
    exact h.without (h3 ▸ hf)
  · intro hf
    obtain ⟨h1, h2⟩ := h.h3 (h3 ▸ hf)
    exact ⟨hc ▸ h1, fun hm => h2 (hw _ hm)⟩

/-- An h3 call. -/
theorem Evts.called (h : Evts c) (h3 : c.h3Con ≠ none) {o : ConObs} (ht : c'.trace = c.trace ++ [o])
    (hn : c'.connected = c.connected) (hr : c'.evt.rx = c.evt.rx) (h3' : c'.h3Con.isSome = true)
    (hc : c'.h3Config = c.h3Config) (ho : o.evt? = none ∧ o.isTransport = false) : Evts c' := by
  refine h.keep hn (fun hx => hr ▸ hx) ?_ hc ht (by simpa using ho)
  rw [h3', Option.isSome_iff_ne_none.mpr h3]

/-- The connection is established: `Connected` comes first. -/
theorem events_connect {c₁ : Con Q} (h : Evts c) (hn : c.connected = false)
    (h1 : c₁ = { c with connected := true }.setupH3)
    (ht : c'.trace = c₁.trace ++ c.put .connected) :
    c'.events = if c.evt.rx then [.connected] else [] := by
  obtain ⟨l, hl, ho, -⟩ := trace_setupH3 { c with connected := true }
  rw [← h1] at hl
  have hl : c₁.trace = c.trace ++ l := hl
  have hnone : l.filterMap (·.evt?) = [] := by
    rw [List.filterMap_eq_nil_iff]
    intro o hm
    have := ho o hm
    cases o <;> first | rfl | cases this
  rw [hl, List.append_assoc] at ht
  rw [events_append ht, (h.before hn).1, List.filterMap_append, hnone, events_put]
  rfl

theorem evts_connect {c₁ : Con Q} (h : Evts c) (hc : Control c) (hn : c.connected = false)
    (h1 : c₁ = { c with connected := true }.setupH3) (hr : c'.evt.rx = c.evt.rx)
    (ht : c'.trace = c₁.trace ++ c.put .connected) (hn' : c'.connected = c₁.connected)
    (h3' : c'.h3Con = c₁.h3Con) (hc' : c'.h3Config = c₁.h3Config) : Evts c' := by
  have hconn : c'.connected = true := by rw [hn', h1, setupH3_spec]
  have h3 : c.h3Con = none := by
    by_contra h3
    exact Bool.eq_false_iff.mp hn (hc.connected h3)
  have hev := events_connect h hn h1 ht
  constructor
  · intro hf
    rw [hconn] at hf
    cases hf
  · intro _
    rw [hev, hr]
    cases c.evt.rx with
    | false => exact .inl ⟨rfl, rfl⟩
    | true => exact .inr ⟨[], rfl⟩
  · intro _ msg
    rw [hev]
    split <;> simp
  · intro hs
    obtain ⟨l, hl, -, hh⟩ := trace_setupH3 { c with connected := true }
    rw [← h1] at hl hh
    obtain ⟨hcfg, hl'⟩ := hh h3 (h3' ▸ hs)
    refine ⟨hc' ▸ hcfg, ?_⟩
    rw [ht, hl]
    intro hm
    rcases List.mem_append.mp hm with hm | hm
    · rcases List.mem_append.mp hm with hm | hm
      · exact (h.before hn).2 _ hm
      · exact hl' hm
    · unfold put at hm
      split at hm <;> simp at hm

/-- A message is put on the channel. -/
theorem evts_message {x : Q.Connection × Q.H3Connection} {o : ConObs} {msg : Http3Msg}
    {cmd : Chan ConSem ConCmd} {evt : Chan ConSem ConEvt}
    {m : HashMap UInt64 H3InboundProgress} {pc : ConPc} (h : Evts c) (hc : Control c)
    (h3 : c.h3Con ≠ none) (ho : o.evt? = none ∧ o.isTransport = false) (hr : c.evt.rx = true) :
    Evts { c.called x o with
      cmd, evt, evtGuard := none, h3Inbound := m, pc
      trace := c.trace ++ [o, .evt (.http3 msg)] } := by
  have hconn := hc.connected h3
  have hev : ∀ c' : Con Q, c'.trace = c.trace ++ [o, .evt (.http3 msg)] →
      c'.events = c.events ++ [.http3 msg] := by
    intro c' ht
    rw [events_append ht, List.filterMap_cons, List.filterMap_cons]
    simp only [ho.1]
    rfl
  constructor
  · intro hf
    exact absurd (hconn.symm.trans hf) (by simp)
  · intro _
    refine .inr ?_
    obtain ⟨-, hx⟩ | ⟨msgs, hm⟩ := h.after hconn
    · exact absurd (hr.symm.trans hx) (by simp)
    · refine ⟨msgs ++ [msg], ?_⟩
      rw [hev _ rfl, hm]
      simp
  · intro hs
    cases hs
  · intro _
    obtain ⟨h1, h2⟩ := h.h3 (Option.isSome_iff_ne_none.mpr h3)
    refine ⟨h1, fun hm => ?_⟩
    rw [show ({ c.called x o with
      cmd, evt, evtGuard := none, h3Inbound := m, pc, trace := c.trace ++ [o, .evt (.http3 msg)] } :
        Con Q).trace = c.trace ++ [o, .evt (.http3 msg)] from rfl, List.mem_append] at hm
    rcases hm with hm | hm
    · exact h2 hm
    · simp only [List.mem_cons, List.not_mem_nil, or_false, reduceCtorEq] at hm
      rw [← hm] at ho
      simp [ConObs.isTransport] at ho

theorem evts_task (h : Evts c) (hc : Control c) (ht : TaskStep c c') : Evts c' := by
  have h3 : ∀ {pc}, c.pc = pc → pc.inH3 = true → c.h3Con ≠ none := by
    intro pc hpc hp
    exact hc.h3 (hpc ▸ hp)
  -- a step that only changes other locals
  have hsame : ∀ {d : Con Q}, d.connected = c.connected → d.evt.rx = c.evt.rx →
      d.h3Con = c.h3Con → d.h3Config = c.h3Config → d.trace = c.trace → Evts d := by
    intro d h1 h2 h3 h4 h5
    exact h.keep (l := []) h1 (fun hx => h2 ▸ hx) (by rw [h3]) h4 (by rw [h5, List.append_nil])
      (by simp)
  cases ht with
  | take | skip | requested | flush | unsent => exact hsame rfl rfl rfl rfl rfl
  | reserve _ hr | reserveH3 _ hr => exact hsame rfl hr rfl rfl rfl
  | @dispatch cmd d sleepers cmdGuard hpc =>
    obtain ⟨⟨con, calls, wait, out, send, trace, he⟩, l, hl, hlo⟩ := dispatch_spec c cmd
    refine h.keep (l := l ++ [.timeout d]) (by rw [he]; rfl) (by rw [he]; exact id) (by rw [he]; rfl)
      (by rw [he]; rfl) ?_ ?_
    · show (c.dispatch cmd).trace ++ _ = _
      rw [hl, List.append_assoc]
    · intro o ho
      rcases List.mem_append.mp ho with ho | ho
      · rcases hlo o ho with rfl | rfl <;> exact ⟨rfl, rfl⟩
      · rw [List.mem_singleton.mp ho]; exact ⟨rfl, rfl⟩
  | connect _ hn _ h1 hr => exact evts_connect h hc hn h1 hr rfl rfl rfl rfl
  | request hpc => exact h.called (h3 hpc rfl) rfl rfl rfl rfl rfl ⟨rfl, rfl⟩
  | pollDone hpc | event hpc | pollErr hpc | goAway hpc =>
    exact h.called (h3 hpc rfl) rfl rfl rfl rfl rfl ⟨rfl, rfl⟩
  | bodyDone hpc | bodyErr hpc | dgramDone hpc | dgramErr hpc | badFlow hpc | dgram hpc =>
    exact h.called (h3 hpc rfl) rfl rfl rfl rfl rfl ⟨rfl, rfl⟩
  | @chunk _ x stream chunk hpc =>
    obtain ⟨m, hm⟩ := pushBody_spec (c.called x (.recvBody stream (.ok chunk))) stream chunk
    rw [hm]
    exact h.called (h3 hpc rfl) rfl rfl rfl rfl rfl ⟨rfl, rfl⟩
  | message hpc _ _ _ _ hr => exact evts_message h hc (h3 hpc rfl) ⟨rfl, rfl⟩ hr
  | lost hpc _ _ _ _ hr hr' h1 =>
    subst h1
    exact h.called (h3 hpc rfl) rfl rfl (hr'.trans hr.symm) rfl rfl ⟨rfl, rfl⟩
  | sendDone | sent | sendErr =>
    exact h.keep (l := [_]) rfl id rfl rfl rfl (by simp [ConObs.evt?, ConObs.isTransport])

theorem evts_other {a : ConAct} (h : Evts c) (hs : step a c = some c') (ha : a ≠ .task) :
    Evts c' := by
  obtain ⟨he, hr⟩ := other_step hs ha
  obtain ⟨l, hl, hb⟩ := (frame_step hs ha).trace
  refine h.keep (by rw [he]) hr (by rw [he]) (by rw [he]) hl fun o ho => ?_
  have := hb o ho
  cases o with
  | inPak pak => exact ⟨rfl, rfl⟩
  | udpSend pak => exact ⟨rfl, rfl⟩
  | _ => cases this

theorem sys_evts (h : (sys Q).Reach c) : Evts c := by
  refine h.invariant ?_ ?_
  · rintro c ⟨h3Config, con, hq⟩
    cases hq
    exact ⟨fun _ => ⟨rfl, by simp⟩, nofun, fun _ => by simp [events], nofun⟩
  · intro a c c' hr he hs
    rcases reach_cases hr hs with ⟨-, ht⟩ | ⟨ha, -⟩
    · exact evts_task he (sys_control hr) ht
    · exact evts_other (Q := Q) (c := c) he hs ha

/-- The step does not observe that the connection is established. -/
def Unestablished (c : Con Q) (a : ConAct) : Prop :=
  a = .task → c.pc = .established → Q.isEstablished c.con = false

instance (c : Con Q) (a : ConAct) : Decidable (Unestablished c a) :=
  match a with
  | .task => decidable_of_iff (c.pc = .established → Q.isEstablished c.con = false)
      ⟨fun h _ => h, fun h => h rfl⟩
  | .fire _ | .udpSend _ | .http3 _ | .callAcquire _ | .callSend _ | .callCancel _ | .evtPoll
  | .dropRecv | .dropCon | .tick _ | .tryAcquire | .sendInPak _ | .unmap | .deliver => isTrue nofun

/-- As long as no step observed it. -/
theorem not_connected (h : (sys Q).ReachIf Unestablished c) : c.connected = false := by
  refine h.invariant (I := fun c => c.connected = false) ?_ ?_
  · rintro c ⟨h3Config, con, hq⟩
    cases hq
    rfl
  · intro a c c' hr hn hu hs
    rcases reach_cases hr hs with ⟨ha, ht⟩ | ⟨-, hf⟩
    · cases ht with
      | connect hpc _ he =>
        have := hu ha hpc
        rw [he] at this
        cases this
      | dispatch =>
        obtain ⟨⟨_, _, _, _, _, _, he⟩, -⟩ := dispatch_spec c ‹_›
        rw [he]
        exact hn
      | @chunk _ x stream chunk =>
        obtain ⟨m, hm⟩ := pushBody_spec (c.called x (.recvBody stream (.ok chunk))) stream chunk
        rw [hm]
        exact hn
      | lost _ _ _ _ _ _ _ h1 => subst h1; exact hn
      | _ => exact hn
    · exact hf.connected.trans hn

/-- The events of a connection: nothing, or `Connected` and then http3 events. `Connected` is put on
the channel in the first iteration that observes the connection established, if the receiver is
alive; no http3 event without a config, or after `with_transport` failed. -/
theorem event_order (h : (sys Q).Reach c) :
    (c.events = [] ∨ ∃ msgs : List Http3Msg, c.events = .connected :: msgs.map .http3) ∧
    ((sys Q).ReachIf Unestablished c → c.pc = .established → Q.isEstablished c.con = true →
      ∃ c', c.taskStep = some c' ∧ c'.events = if c.evt.rx then [.connected] else []) ∧
    (c.h3Config = none ∨ .withTransport false ∈ c.trace → ∀ msg, .http3 msg ∉ c.events) := by
  have hev := sys_evts h
  refine ⟨?_, fun hu hpc hest => ?_, fun hno => ?_⟩
  · cases hn : c.connected with
    | false => exact .inl (hev.before hn).1
    | true => exact (hev.after hn).imp_left (·.1)
  · have hn := not_connected hu
    obtain ⟨c', hs⟩ : ∃ c', c.taskStep = some c' := ⟨c.establish, by unfold taskStep; rw [hpc]⟩
    refine ⟨c', hs, ?_⟩
    have ht := taskStep_cases hs (sys_control h)
    cases ht with
    | connect _ hn _ h1 => exact events_connect hev hn h1 rfl
    | skip _ hskip =>
      rw [hn, hest] at hskip
      simp at hskip
    | _ hpc' => rw [hpc] at hpc'; cases hpc'
  · refine hev.without (Bool.eq_false_iff.mpr fun h3 => ?_)
    obtain ⟨h1, h2⟩ := hev.h3 h3
    exact hno.elim h1 h2

/-- A connection without h3, in its first iteration. -/
theorem event_order_first : ∃ c c' : Con Quiche.scripted, c.taskStep = some c' ∧ c.events = [] ∧
    c'.events = [.connected] ∧ ∀ msg, .http3 msg ∉ c.events := by
  obtain ⟨c₀, h₀⟩ : ∃ c₀, quicheCon (Q := Quiche.scripted) none [] = some c₀ := ⟨_, rfl⟩
  obtain ⟨c, hr, hc⟩ := Lts.ReachIf.of_run_any (S := sys Quiche.scripted) (C := Unestablished)
    (List.replicate 3 .task)
    (fun c => decide (c.pc = .established ∧ c.events = [] ∧ c.evt.rx = true ∧ c.h3Config.isNone))
    ⟨_, _, h₀⟩ (by cases h₀; decide +kernel)
  obtain ⟨hpc, hev, hrx, hcfg⟩ := of_decide_eq_true hc
  obtain ⟨-, hfirst, hno⟩ := event_order hr.reach
  obtain ⟨c', hs, he⟩ := hfirst hr hpc rfl
  rw [if_pos hrx] at he
  exact ⟨c, c', hs, hev, he, hno (.inl (Option.isNone_iff_eq_none.mp hcfg))⟩

end Con
end Absquic
