import Absquic.Conn.Inversion

/-!
# Datagrams of the peer

The loop at lines 357-376 reads the queued datagrams and drops them, as long as their flow id is
that of the event. `Datagrams` is what is assumed of the queue; `Drained` is what holds while the
loop runs, with any steps of the other parties in between: what was read had that flow id, or the
task has ended. So the queue is dropped without harm if and only if all its datagrams have the flow
id of the first (`datagrams_iff`).
-/

namespace Absquic

/-- A queued datagram, as `recv_dgram` gives it: its length, its flow id, and the id's length. -/
abbrev Dgram := Nat × UInt64 × Nat

/-- What is assumed of the datagrams that are queued in a connection: `poll` reports the flow id of
the first one, and `recv_dgram` gives them in order, and then `Done`. -/
structure Quiche.Datagrams (Q : Quiche) (queue : Q.Connection → Q.H3Connection → List Dgram) :
    Prop where
  poll : ∀ {now con h3 con' h3' flow}, Q.poll now con h3 = ((con', h3'), .ok (flow, .datagram)) →
    ∃ a b rest, queue con' h3' = (a, flow, b) :: rest
  recvDgram : ∀ now len {con h3 x rest}, queue con h3 = x :: rest →
    ∃ con' h3', Q.recvDgram now len con h3 = ((con', h3'), .ok x) ∧ queue con' h3' = rest
  done : ∀ now len {con h3}, queue con h3 = [] →
    ∃ con' h3', Q.recvDgram now len con h3 = ((con', h3'), .error .done) ∧ queue con' h3' = []

namespace Con

variable {Q : Quiche} {queue : Q.Connection → Q.H3Connection → List Dgram} {c d : Con Q}

/-- The queued datagrams. -/
def dgrams (queue : Q.Connection → Q.H3Connection → List Dgram) (c : Con Q) : List Dgram :=
  match c.h3Con with
  | none => []
  | some h3 => queue c.con h3

/-- `con_task` handles the event in `c`, and is in its datagram loop until `d`; the other parties may
step in between. -/
def Draining (flow : UInt64) (c d : Con Q) : Prop :=
  ∃ c₁, c.taskStep = some c₁ ∧ (sys Q).StepsIf (fun s _ => s.pc = .recvDgram flow) c₁ d

/-- The inbound, outbound and event state is the same. -/
structure Same (c d : Con Q) : Prop where
  h3Inbound : d.h3Inbound = c.h3Inbound
  h3OutboundWait : d.h3OutboundWait = c.h3OutboundWait
  h3Outbound : d.h3Outbound = c.h3Outbound
  evtGuard : d.evtGuard = c.evtGuard
  connected : d.connected = c.connected

/-- What is promised when `con_task` handles the event in `c`: its datagram loop leaves the state
alone and goes on until the queue is empty, and then the poll loop goes on. -/
structure DropsDgrams (queue : Q.Connection → Q.H3Connection → List Dgram) (flow : UInt64)
    (c : Con Q) : Prop where
  safe : ∀ d, Draining flow c d → c.Same d ∧
    (d.pc = .recvDgram flow ∨ d.pc = .h3EvtGuard ∧ d.dgrams queue = [])
  drains : ∃ d, Draining flow c d ∧ d.pc = .h3EvtGuard ∧ d.dgrams queue = []

/-- What holds in the datagram loop, if it started in `c` with the datagrams `all`: it has read some
of them, all of the event's flow, or it has met another flow and ended the task. -/
def Drained (queue : Q.Connection → Q.H3Connection → List Dgram) (flow : UInt64) (all : List Dgram)
    (c d : Con Q) : Prop :=
  (c.Same d ∧ d.h3Con ≠ none ∧
    (d.pc = .recvDgram flow ∨ d.pc = .h3EvtGuard ∧ d.dgrams queue = []) ∧
    ∃ read, all = read ++ d.dgrams queue ∧ ∀ x ∈ read, x.2.1 = flow) ∨
  d.pc = .ended .returned ∧ ∃ x ∈ all, x.2.1 ≠ flow

theorem Same.trans {e : Con Q} (h : c.Same d) (h' : d.Same e) : c.Same e :=
  ⟨h'.h3Inbound.trans h.h3Inbound, h'.h3OutboundWait.trans h.h3OutboundWait,
    h'.h3Outbound.trans h.h3Outbound, h'.evtGuard.trans h.evtGuard, h'.connected.trans h.connected⟩

theorem dgrams_some {h3 : Q.H3Connection} (h3c : c.h3Con = some h3) :
    c.dgrams queue = queue c.con h3 := by
  unfold dgrams
  rw [h3c]

/-- What `recv_dgram` answers. -/
theorem dgram_answer (hq : Q.Datagrams queue) {now : Instant} {len : Nat} {con : Q.Connection}
    {h3 : Q.H3Connection} {x : Q.Connection × Q.H3Connection} {r : Except H3Error Dgram}
    (hr : Q.recvDgram now len con h3 = (x, r)) :
    queue con h3 = [] ∧ queue x.1 x.2 = [] ∧ r = .error .done ∨
      ∃ y, queue con h3 = y :: queue x.1 x.2 ∧ r = .ok y := by
  cases hl : queue con h3 with
  | nil =>
    obtain ⟨con', h3', hr', hnil⟩ := hq.done now len hl
    rw [hr] at hr'
    cases hr'
    exact .inl ⟨rfl, hnil, rfl⟩
  | cons y rest =>
    obtain ⟨con', h3', hr', hrest⟩ := hq.recvDgram now len hl
    rw [hr] at hr'
    cases hr'
    exact .inr ⟨y, by rw [hrest], rfl⟩

/-- One round of the loop. -/
theorem drained_task (hq : Q.Datagrams queue) {flow : UInt64} {all : List Dgram} {e : Con Q}
    (hpc : d.pc = .recvDgram flow) (hd : Drained queue flow all c d) (ht : TaskStep d e) :
    Drained queue flow all c e := by
  obtain ⟨hs, -, -, read, hall, hread⟩ | ⟨hend, -⟩ := hd
  · have hflow : ∀ {flow'}, d.pc = .recvDgram flow' → flow' = flow := by
      intro flow' hpc'
      rw [hpc] at hpc'
      cases hpc'
      rfl
    cases ht with
    | dgramDone _ h3c hr =>
      obtain ⟨hl, hnil, -⟩ | ⟨y, -, hy⟩ := dgram_answer hq hr
      · refine .inl ⟨hs.trans ⟨rfl, rfl, rfl, rfl, rfl⟩, nofun, .inr ⟨rfl, hnil⟩, read, ?_, hread⟩
        rw [hall, dgrams_some h3c, hl, dgrams_some (c := { d.called _ _ with pc := _ }) rfl]
        exact congrArg _ hnil.symm
      · cases hy
    | dgramErr _ h3c hr he =>
      obtain ⟨-, -, hdone⟩ | ⟨y, -, hy⟩ := dgram_answer hq hr
      · cases hdone; exact absurd rfl he
      · cases hy
    | @badFlow h3 x flow' newFlow a b hpc' h3c hr hne =>
      obtain ⟨-, -, hdone⟩ | ⟨y, hl, hy⟩ := dgram_answer hq hr
      · cases hdone
      · cases hy
        rw [hflow hpc'] at hne
        refine .inr ⟨rfl, (a, newFlow, b), ?_, Ne.symm hne⟩
        rw [hall, dgrams_some h3c, hl]
        simp
    | @dgram h3 x flow' a b hpc' h3c hr =>
      obtain ⟨-, -, hdone⟩ | ⟨y, hl, hy⟩ := dgram_answer hq hr
      · cases hdone
      · cases hy
        obtain rfl := hflow hpc'
        refine .inl ⟨hs.trans ⟨rfl, rfl, rfl, rfl, rfl⟩, nofun, .inl hpc, read ++ [(a, flow', b)],
          ?_, ?_⟩
        · rw [hall, dgrams_some h3c, hl, dgrams_some (c := d.called x _) rfl, List.append_assoc]
          rfl
        · intro y hy
          rcases List.mem_append.mp hy with hy | hy
          · exact hread y hy
          · rw [List.mem_singleton.mp hy]
    | _ hpc' => rw [hpc] at hpc'; cases hpc'
  · rw [hpc] at hend
    cases hend

theorem drained_other {flow : UInt64} {all : List Dgram} {a : ConAct} {e : Con Q}
    (hd : Drained queue flow all c d) (hs : step a d = some e) (ha : a ≠ .task) :
    Drained queue flow all c e := by
  have hf := frame_step hs ha
  obtain ⟨he, -⟩ := other_step hs ha
  have hdg : e.dgrams queue = d.dgrams queue := by
    unfold dgrams
    rw [hf.h3Con, hf.con]
  unfold Drained
  rw [hf.pc, hf.h3Con, hdg]
  refine hd.imp_left fun ⟨hsame, h3, hp, hread⟩ => ⟨hsame.trans ?_, h3, hp, hread⟩
  exact ⟨by rw [he], hf.h3OutboundWait, hf.h3Outbound, hf.evtGuard, hf.connected⟩

/-- While the loop runs. -/
theorem drained_steps (hq : Q.Datagrams queue) {flow : UInt64} {all : List Dgram} {e : Con Q}
    (hr : (sys Q).Reach d)
    (hs : (sys Q).StepsIf (fun s _ => s.pc = .recvDgram flow) d e)
    (hd : Drained queue flow all c d) : Drained queue flow all c e := by
  have hi := hs.invariant (I := fun d => (sys Q).Reach d ∧ Drained queue flow all c d) ?_ ⟨hr, hd⟩
  · exact hi.2
  · rintro a s s' hpc ⟨hr, hd⟩ hst
    refine ⟨.step a hr hst, ?_⟩
    rcases reach_cases hr hst with ⟨-, ht⟩ | ⟨ha, -⟩
    · exact drained_task hq hpc hd ht
    · exact drained_other (Q := Q) (d := s) hd hst ha

/-- If all the flow ids are that of the event, `con_task` itself empties the queue. -/
theorem drains_alone (hq : Q.Datagrams queue) {flow : UInt64} (all : List Dgram)
    (hall : ∀ x ∈ all, x.2.1 = flow) {h3 : Q.H3Connection} (hpc : d.pc = .recvDgram flow)
    (h3c : d.h3Con = some h3) (hl : queue d.con h3 = all) :
    ∃ e, (sys Q).StepsIf (fun s _ => s.pc = .recvDgram flow) d e ∧ e.pc = .h3EvtGuard ∧
      e.dgrams queue = [] := by
  induction all generalizing d h3 with
  | nil =>
    obtain ⟨con', h3', hr, hnil⟩ := hq.done d.now d.sendBuf hl
    have hst : d.taskStep =
        some { d.called (con', h3') (.recvDgram (.error .done)) with pc := .h3EvtGuard } := by
      unfold taskStep
      rw [hpc, h3c]
      simp only [Option.map_some, Con.recvDgram, hr]
      rfl
    exact ⟨_, .head (a := .task) hpc hst (.refl _), rfl, hnil⟩
  | cons x rest ih =>
    obtain ⟨a, flow', b⟩ := x
    obtain rfl : flow' = flow := hall _ List.mem_cons_self
    obtain ⟨con', h3', hr, hrest⟩ := hq.recvDgram d.now d.sendBuf hl
    have hst : d.taskStep = some (d.called (con', h3') (.recvDgram (.ok (a, flow', b)))) := by
      unfold taskStep
      rw [hpc, h3c]
      simp only [Option.map_some, Con.recvDgram, hr, ne_eq, not_true, if_false]
      rfl
    obtain ⟨e, he, hpce, hnil⟩ := ih (fun y hy => hall y (List.mem_cons_of_mem _ hy))
      (d := d.called (con', h3') (.recvDgram (.ok (a, flow', b)))) hpc rfl hrest
    exact ⟨e, .head (a := .task) hpc hst he, hpce, hnil⟩

section Event

variable {h3 h3' : Q.H3Connection} {con' : Q.Connection} {flow : UInt64}

/-- `con_task` takes the event. -/
theorem dgram_event (hpc : c.pc = .poll) (h3c : c.h3Con = some h3)
    (hp : Q.poll c.now c.con h3 = ((con', h3'), .ok (flow, .datagram))) :
    c.taskStep = some { c.called (con', h3') (.poll (.ok (flow, .datagram))) with
      pc := .recvDgram flow } := by
  unfold taskStep
  rw [hpc, h3c]
  simp only [Option.map_some, Con.poll, hp]
  rfl

/-- What holds until the loop ends. -/
theorem drained_draining (hq : Q.Datagrams queue) (h : (sys Q).Reach c) (hpc : c.pc = .poll)
    (h3c : c.h3Con = some h3)
    (hp : Q.poll c.now c.con h3 = ((con', h3'), .ok (flow, .datagram))) (hd : Draining flow c d) :
    Drained queue flow (queue con' h3') c d := by
  obtain ⟨c₁, hc₁, hs⟩ := hd
  have hst := dgram_event hpc h3c hp
  rw [hst] at hc₁
  cases hc₁
  exact drained_steps hq (.step (a := .task) h hst) hs
    (.inl ⟨⟨rfl, rfl, rfl, rfl, rfl⟩, nofun, .inl rfl, [], rfl, by simp⟩)

/-- A queue that can be emptied holds datagrams of one flow. -/
theorem flow_of_drops (hq : Q.Datagrams queue) (h : (sys Q).Reach c) (hpc : c.pc = .poll)
    (h3c : c.h3Con = some h3)
    (hp : Q.poll c.now c.con h3 = ((con', h3'), .ok (flow, .datagram)))
    (hdrop : DropsDgrams queue flow c) : ∀ x ∈ queue con' h3', x.2.1 = flow := by
  intro x hx
  obtain ⟨d, hd, hpcd, hnil⟩ := hdrop.drains
  obtain ⟨-, -, -, read, hall, hread⟩ | ⟨hend, -⟩ := drained_draining hq h hpc h3c hp hd
  · rw [hnil, List.append_nil] at hall
    exact hread x (hall ▸ hx)
  · rw [hpcd] at hend
    cases hend

/-- The queued datagrams are dropped without harm if and only if they all have the flow id of the
first one, which is that of the event. -/
theorem datagrams_iff (hq : Q.Datagrams queue) (h : (sys Q).Reach c) (hpc : c.pc = .poll)
    (h3c : c.h3Con = some h3)
    (hp : Q.poll c.now c.con h3 = ((con', h3'), .ok (flow, .datagram))) :
    DropsDgrams queue flow c ↔ ∀ x ∈ queue con' h3', x.2.1 = flow := by
  constructor
  · exact flow_of_drops hq h hpc h3c hp
  · intro hall
    constructor
    · intro d hd
      obtain ⟨hs, -, hpcd, -⟩ | ⟨-, x, hx, hne⟩ := drained_draining hq h hpc h3c hp hd
      · exact ⟨hs, hpcd⟩
      · exact absurd (hall x hx) hne
    · obtain ⟨e, he, hpce, hnil⟩ := drains_alone hq _ hall
        (d := { c.called (con', h3') (.poll (.ok (flow, .datagram))) with pc := .recvDgram flow })
        rfl rfl rfl
      exact ⟨e, ⟨_, dgram_event hpc h3c hp, he⟩, hpce, hnil⟩

end Event

/-- A library whose connections are established and hold datagrams. -/
def receiving : Quiche :=
  { Quiche.inert ([] : List Dgram) with
    isEstablished := fun _ => true
    poll := fun _ (con : List Dgram) h3 => match con with
      | (_, flow, _) :: _ => ((con, h3), .ok (flow, .datagram))
      | [] => ((con, h3), .error .done)
    recvDgram := fun _ _ (con : List Dgram) h3 => match con with
      | x :: con => ((con, h3), .ok x)
      | [] => ((con, h3), .error .done) }

theorem receiving_datagrams : receiving.Datagrams fun con _ => con := by
  constructor
  · intro now con h3 con' h3' flow hp
    cases con with
    | nil => cases hp
    | cons x rest => cases hp; exact ⟨_, _, _, rfl⟩
  · intro now len con h3 x rest hl
    cases hl
    exact ⟨_, _, rfl, rfl⟩
  · intro now len con h3 hl
    cases hl
    exact ⟨_, _, rfl, rfl⟩

/-- Some run has the task poll with `dgrams` queued. -/
theorem reach_receiving (dgrams : List Dgram)
    (h : ((quicheCon (Q := receiving) (some ()) dgrams).bind
      ((sys receiving).run (List.replicate 6 .task))).any fun c => decide (c.pc = .poll ∧
        c.h3Con.isSome ∧ (show List Dgram from c.con) = dgrams)) :
    ∃ (c : Con receiving) (h3 : Unit), (sys receiving).Reach c ∧ c.pc = .poll ∧
      c.h3Con = some h3 ∧ c.con = dgrams := by
  rcases h₀ : quicheCon (Q := receiving) (some ()) dgrams with _ | c₀
  · rw [h₀] at h
    cases h
  · rw [h₀] at h
    obtain ⟨c, hr, hc⟩ := Lts.Reach.of_run_any (S := sys receiving) _ _ ⟨_, _, h₀⟩ h
    obtain ⟨hpc, h3c, hcon⟩ := of_decide_eq_true hc
    obtain ⟨h3, h3c⟩ := Option.isSome_iff_exists.mp h3c
    exact ⟨c, h3, hr, hpc, h3c, hcon⟩

/-- Two datagrams of one flow. -/
theorem datagrams_iff_same : ∃ c : Con receiving, DropsDgrams (fun con _ => con) 0 c := by
  obtain ⟨c, h3, hr, hpc, h3c, hcon⟩ := reach_receiving [(1, 0, 1), (5, 0, 1)] (by decide +kernel)
  have hp : receiving.poll c.now c.con h3 =
      ((([(1, 0, 1), (5, 0, 1)] : List Dgram), h3), .ok (0, .datagram)) := by rw [hcon]; rfl
  exact ⟨c, (datagrams_iff receiving_datagrams hr hpc h3c hp).mpr (by decide)⟩

/-- A second datagram of another flow ends the task. -/
theorem not_drops_dgrams : ¬ ∀ (Q : Quiche) (queue : Q.Connection → Q.H3Connection → List Dgram),
    Q.Datagrams queue → ∀ c : Con Q, (sys Q).Reach c → ∀ h3 con' h3' flow, c.pc = .poll →
      c.h3Con = some h3 → Q.poll c.now c.con h3 = ((con', h3'), .ok (flow, .datagram)) →
        DropsDgrams queue flow c := by
  intro h
  obtain ⟨c, h3, hr, hpc, h3c, hcon⟩ := reach_receiving [(1, 0, 1), (5, 4, 1)] (by decide +kernel)
  have hp : receiving.poll c.now c.con h3 =
      ((([(1, 0, 1), (5, 4, 1)] : List Dgram), h3), .ok (0, .datagram)) := by rw [hcon]; rfl
  have hall := flow_of_drops receiving_datagrams hr hpc h3c hp
    (h receiving _ receiving_datagrams c hr h3 _ _ 0 hpc h3c hp)
  exact absurd (hall (5, 4, 1) (by simp)) (by decide)

end Con
end Absquic
