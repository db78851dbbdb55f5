import Absquic.Ep.Dead
import Absquic.Udp

/-!
# An endpoint on a udp socket

`Bound` is an endpoint and the socket that it was made with: `udp_task` owns `TokioUdpRecv` and polls
it in `stream_recv`, and drops it when it ends; a packet sender of a connection calls `Udp::send`.
Anybody may close the socket, ask for its address or send on it.

* An endpoint on a socket is an endpoint (`reach_ep`), and the socket is a socket (`steps_udp`).
* After `InPak(None)` nothing comes in and nothing goes out (`Cut`).
* Who then asks for a connection gets an error, if quiche refuses it (`no_connect`).
-/

namespace Absquic

/-- An endpoint on a udp socket (module doc). -/
structure Bound (Q : Quiche) where
  ep : Ep Q
  udp : TokioUdp

inductive BoundAct
  /-- A step of a party of the endpoint, without the socket. -/
  | ep (a : EpAct)
  /-- `udp_task` polls the stream. -/
  | poll
  | sockPoll (r : SockPoll)
  /-- Sender `k` of connection `i` hands its packet to `Udp::send`. -/
  | udpSend (i k : Nat)
  /-- A step of another party of the socket. -/
  | udp (a : UdpAct)

/-- The steps of an endpoint's parties in which the socket has no part. -/
def EpAct.alone : EpAct → Bool
  | .udpRecv _ | .con _ (.udpSend _) => false
  | _ => true

namespace Bound

variable {Q : Quiche}

/-- If `udp_task` has ended, the receiver is dropped. -/
def dropRecv (b : Bound Q) : Bound Q :=
  match b.ep.udpPc with
  | .ended => { b with udp := b.udp.dropRecv }
  | _ => b

def stepEp (b : Bound Q) (a : EpAct) : Option (Bound Q) :=
  if a.alone then (b.ep.step a).map fun ep => dropRecv { b with ep } else none

/-- The socket is at `udp` after a step of the poll: if the poll is over, `udp_task` has the item. -/
def polled (b : Bound Q) (udp : TokioUdp) : Option (Bound Q) :=
  match udp.recv with
  | .ready item => (b.ep.udpRecv item).map fun ep => { ep, udp }
  | _ => some { b with udp }

def poll (b : Bound Q) : Option (Bound Q) :=
  match b.ep.udpPc with
  | .recv => b.udp.poll.bind b.polled
  | _ => none

def sockPoll (b : Bound Q) (r : SockPoll) : Option (Bound Q) :=
  match b.ep.udpPc with
  | .recv => (b.udp.sockPoll r).bind b.polled
  | _ => none

def udpSend (b : Bound Q) (i k : Nat) : Option (Bound Q) :=
  match b.ep.cons[i]?.bind (·.con.senders[k]?) with
  | none => none
  | some s => (b.ep.conStep i (.udpSend k)).map fun ep => { ep, udp := b.udp.send s.pak }

def stepUdp (b : Bound Q) (a : UdpAct) : Option (Bound Q) :=
  if a.other then (b.udp.step a).map fun udp => { b with udp } else none

def step : BoundAct → Bound Q → Option (Bound Q)
  | .ep a, b => b.stepEp a
  | .poll, b => b.poll
  | .sockPoll r, b => b.sockPoll r
  | .udpSend i k, b => b.udpSend i k
  | .udp a, b => b.stepUdp a

/-- An endpoint on a socket as a system: both as they are made, and any party may step. -/
def sys (Q : Quiche) : Lts (Bound Q) BoundAct where
  init b := (Ep.sys Q).init b.ep ∧ b.udp = .bind
  step := step

/-- The condition on the steps of the endpoint's parties. -/
def On (C : Ep Q → EpAct → Prop) (b : Bound Q) : BoundAct → Prop
  | .ep a => C b.ep a
  | _ => True

instance (C : Ep Q → EpAct → Prop) [∀ s a, Decidable (C s a)] (b : Bound Q) (a : BoundAct) :
    Decidable (On C b a) := by
  unfold On; split <;> infer_instance

variable {b b' : Bound Q}

/-! ## The two components -/

theorem dropRecv_ep (b : Bound Q) : b.dropRecv.ep = b.ep := by
  unfold dropRecv; split <;> rfl

/-- The steps of the two components in a step. -/
structure Parts (b b' : Bound Q) (a : BoundAct) : Prop where
  ep : b'.ep = b.ep ∨ ∃ e, Ep.step e b.ep = some b'.ep ∧ (a = .ep e ∨ e ≠ .task)
  udp : TokioUdp.sys.Steps (fun _ => True) b.udp b'.udp
  dropped : (b.ep.udpPc = .ended → b.udp.recv = .dropped) →
    b'.ep.udpPc = .ended → b'.udp.recv = .dropped

/-- The steps of the whole, with what they check. -/
inductive Step (b : Bound Q) : BoundAct → Bound Q → Prop
  | ep {e ep} (he : Ep.step e b.ep = some ep) : Step b (.ep e) (dropRecv { b with ep })
  /-- A poll of the stream that is not over, or gave `Pending`. -/
  | polls {a p udp} (hp : p ≠ .dropRecv) (hpc : b.ep.udpPc = .recv)
    (hu : TokioUdp.step p b.udp = some udp) : Step b a { b with udp }
  /-- A poll of the stream that gives an item. -/
  | item {a p udp item ep} (hp : p ≠ .dropRecv) (hpc : b.ep.udpPc = .recv)
    (hu : TokioUdp.step p b.udp = some udp) (he : Ep.step (.udpRecv item) b.ep = some ep) :
    Step b a { ep, udp }
  | udpSend {i k pak ep} (he : Ep.step (.con i (.udpSend k)) b.ep = some ep) :
    Step b (.udpSend i k) { ep, udp := b.udp.send pak }
  | udp {a udp} (ha : a.other) (hu : TokioUdp.step a b.udp = some udp) :
    Step b (.udp a) { b with udp }

theorem polled_cases {udp : TokioUdp} {p : UdpAct} {a : BoundAct} (hp : p ≠ .dropRecv)
    (hpc : b.ep.udpPc = .recv) (hu : TokioUdp.step p b.udp = some udp)
    (h : b.polled udp = some b') : Step b a b' := by
  unfold polled at h
  split at h
  · obtain ⟨ep, he, rfl⟩ := Option.map_eq_some_iff.mp h
    exact .item hp hpc hu he
  · cases h
    exact .polls hp hpc hu

theorem step_cases {a : BoundAct} (h : step a b = some b') : Step b a b' := by
  cases a with
  | ep a =>
    change b.stepEp a = some b' at h
    unfold stepEp at h
    split at h
    · obtain ⟨ep, he, rfl⟩ := Option.map_eq_some_iff.mp h
      exact .ep he
    · cases h
  | poll =>
    change b.poll = some b' at h
    unfold poll at h
    split at h
    · next hpc =>
      obtain ⟨u, hu, h⟩ := Option.bind_eq_some_iff.mp h
      exact polled_cases (p := .poll) nofun hpc hu h
    · cases h
  | sockPoll r =>
    change b.sockPoll r = some b' at h
    unfold sockPoll at h
    split at h
    · next hpc =>
      obtain ⟨u, hu, h⟩ := Option.bind_eq_some_iff.mp h
      exact polled_cases (p := .sockPoll r) nofun hpc hu h
    · cases h
  | udpSend i k =>
    change b.udpSend i k = some b' at h
    unfold udpSend at h
    split at h
    · cases h
    · obtain ⟨ep, he, rfl⟩ := Option.map_eq_some_iff.mp h
      exact .udpSend he
  | udp a =>
    change b.stepUdp a = some b' at h
    unfold stepUdp at h
    split at h
    · next ha =>
      obtain ⟨u, hu, rfl⟩ := Option.map_eq_some_iff.mp h
      exact .udp ha hu
    · cases h

theorem parts_step {a : BoundAct} (hs : step a b = some b') : Parts b b' a := by
  cases step_cases hs with
  | @ep e ep he =>
    refine ⟨.inr ⟨e, by rw [dropRecv_ep]; exact he, .inl rfl⟩, ?_, fun _ hd => ?_⟩
    · unfold dropRecv
      split
      · exact .one (a := .dropRecv) trivial rfl
      · exact .refl _
    · rw [dropRecv_ep] at hd
      unfold dropRecv
      rw [hd]
      rfl
  | polls _ hpc hu =>
    refine ⟨.inl rfl, .one trivial hu, fun _ hd => ?_⟩
    rw [show b.ep.udpPc = .ended from hd] at hpc
    cases hpc
  | @item _ _ _ item ep _ hpc hu he =>
    refine ⟨.inr ⟨.udpRecv item, he, .inr nofun⟩, .one trivial hu, fun _ hd => ?_⟩
    change b.ep.udpRecv item = some ep at he
    rw [Ep.udpRecv, hpc] at he
    cases he
    cases hd
  | @udpSend i k pak ep he =>
    refine ⟨.inr ⟨.con i (.udpSend k), he, .inr nofun⟩, .one (a := .send pak) trivial rfl,
      fun hd hd' => hd ?_⟩
    change b.ep.conStep i (.udpSend k) = some ep at he
    unfold Ep.conStep at he
    split at he
    · cases he
    · split at he
      · obtain ⟨c, -, rfl⟩ := Option.map_eq_some_iff.mp he
        exact hd'
      · cases he
  | udp ha hu =>
    exact ⟨.inl rfl, .one trivial hu, fun hd hd' => (TokioUdp.recv_other ha hu).trans (hd hd')⟩

/-- A run of the whole is a run of the endpoint. -/
theorem reachIf_ep {C : Ep Q → EpAct → Prop} (hc : ∀ s a, a ≠ .task → C s a)
    (h : (sys Q).ReachIf (On C) b) : (Ep.sys Q).ReachIf C b.ep := by
  induction h with
  | init hi => exact .init hi.1
  | @step b b' a _ hon hs ih =>
    rcases (parts_step hs).ep with he | ⟨e, he, rfl | hn⟩
    · rw [he]; exact ih
    · exact .step e ih hon he
    · exact .step e ih (hc _ e hn) he

theorem steps_ep (h : (sys Q).Steps (fun _ => True) b b') :
    (Ep.sys Q).Steps (fun _ => True) b.ep b'.ep := by
  refine h.relates (R := fun b b' => (Ep.sys Q).Steps (fun _ => True) b.ep b'.ep)
    (fun _ => .refl _) (fun _ _ _ => .trans) fun a b b' _ hs => ?_
  rcases (parts_step hs).ep with he | ⟨e, he, -⟩
  · rw [he]; exact .refl _
  · exact .one (a := e) trivial he

theorem steps_udp (h : (sys Q).Steps (fun _ => True) b b') :
    TokioUdp.sys.Steps (fun _ => True) b.udp b'.udp :=
  h.relates (R := fun b b' => TokioUdp.sys.Steps (fun _ => True) b.udp b'.udp)
    (fun _ => .refl _) (fun _ _ _ => .trans) fun _ _ _ _ hs => (parts_step hs).udp

theorem reach_ep (h : (sys Q).Reach b) : (Ep.sys Q).Reach b.ep :=
  (reachIf_ep (C := fun _ _ => True) (fun _ _ _ => trivial)
    (.of_reach (fun _ a => by cases a <;> trivial) h)).reach

/-- Once `udp_task` has ended, the receiver is dropped. -/
theorem sys_dropped (h : (sys Q).Reach b) : b.ep.udpPc = .ended → b.udp.recv = .dropped := by
  refine h.invariant (I := fun b => b.ep.udpPc = .ended → b.udp.recv = .dropped)
    (fun b hb he => ?_) fun a b b' _ hi hs => (parts_step hs).dropped hi
  obtain ⟨n, config, h3Config, he'⟩ := hb.1
  rw [he'] at he
  cases he

/-! ## After `InPak(None)` -/

/-- What happens after `b` brings no packet in, and no datagram out. -/
structure Cut (b b' : Bound Q) : Prop where
  queued : b'.ep.queued = []
  inPaks : ∀ (i : Nat) r, b.ep.cons.length ≤ i → b'.ep.cons[i]? = some r → r.con.inPaks = []
  mute : b.udp.Mute b'.udp

/-- After `InPak(None)`, and once the sends on their way are over, a connection that is created gets
no packet, and `Udp::send` refuses its packets. -/
theorem cut (h : (sys Q).Reach b) (ho : b.ep.dead) (hc : ∀ x ∈ b.udp.calls, x.holds = false)
    (hs : (sys Q).Steps (fun _ => True) b b') : Cut b b' := by
  have hr := reach_ep h
  have he := steps_ep hs
  have ho' : b'.ep.dead := Ep.dead_keep (Ep.trace_prefix hr he) ho
  refine ⟨(Ep.deaf (hr.steps he) ho').queued, fun i r hi hri => Ep.Deaf.inPaks hr ho he hi hri, ?_⟩
  exact TokioUdp.mute ⟨sys_dropped h (Ep.deaf hr ho).udpPc, hc⟩ (steps_udp hs)

/-- In a run in which quiche refuses the connections that are asked for after `InPak(None)`, who asks
for one then gets an error. And if the answers given before had been taken when `InPak(None)` was
handled, no call has a connection to return. -/
theorem no_connect (h : (sys Q).ReachIf (On Ep.Refuses) b) : b.ep.NoConnect ∧
    ((sys Q).ReachIf (On Ep.Settled) b → b.ep.dead →
      ∀ (k : Nat) i, b.ep.connects[k]? ≠ some (.answered (.ok i))) := by
  refine ⟨Ep.noConnect (reachIf_ep (fun s a ha => ?_) h), fun h ho k i =>
    Ep.none_answered (reachIf_ep (fun s a ha => ?_) h) ho k i⟩
  · cases a <;> first | exact absurd rfl ha | rfl
  · cases a <;> first | exact absurd rfl ha | exact ⟨rfl, rfl⟩

/-- A library whose `connect` refuses. -/
def refusing : Quiche := { Quiche.inert () with connect := fun _ _ _ => ((), .error .done) }

/-- `udp_task` hands on what it received, and `ep_task` handles it. -/
def handOn : List BoundAct := .ep .udp :: List.replicate 3 (.ep .task)

/-- `connect()` is called, and `ep_task` makes `n` steps. -/
def connecting (n : Nat) : List BoundAct :=
  [.ep (.connect .unspecified), .ep (.connAcquire 0), .ep (.connSend 0)] ++
    List.replicate n (.ep .task)

/-- The stream ends after an error of the socket, and then `connect()` fails. -/
theorem no_connect_refusing : ∃ b : Bound refusing,
    b.ep.dead ∧ b.ep.late ≠ [] ∧ b.ep.NoConnect ∧
      ∀ (k : Nat) i, b.ep.connects[k]? ≠ some (.answered (.ok i)) := by
  obtain ⟨b, hr, hb⟩ := Lts.ReachIf.of_run_any (S := sys refusing) (C := On Ep.Settled)
    ([.ep .udp, .poll, .poll, .poll, .poll, .sockPoll (.err 5), .poll, .poll] ++ handOn ++
      [.ep .udp, .poll, .poll] ++ handOn ++ connecting 3)
    (fun b => b.ep.dead && !b.ep.late.isEmpty) (s := ⟨_, _⟩) ⟨⟨0, (), none, rfl⟩, rfl⟩
    (by decide +kernel)
  obtain ⟨ho, hl⟩ := Bool.and_eq_true_iff.mp hb
  have hn := no_connect (hr.mono fun b a h => by cases a <;> first | exact h.1 | trivial)
  exact ⟨b, ho, fun he => (by rw [he] at hl; cases hl), hn.1, hn.2 hr ho⟩

/-- A `NewCon` that was answered with a connection. -/
def gaveCon : EpObs → Bool
  | .newCon _ (.ok _) => true
  | _ => false

/-- The socket is closed and `InPak(None)` handled; then `connect()` gives a connection. -/
theorem not_no_connect :
    ¬ ∀ (Q : Quiche) (b : Bound Q), (sys Q).Reach b → b.ep.NoConnect := by
  intro h
  obtain ⟨b, hr, hb⟩ := Lts.Reach.of_run_any (S := sys (Quiche.inert ()))
    ([.udp .closeImmediate, .udp (.close 0), .udp (.close 0), .ep .udp, .poll, .poll] ++ handOn ++
      connecting 4)
    (fun b => b.ep.dead && b.ep.late.any gaveCon) (s := ⟨_, _⟩)
    ⟨⟨0, (), none, rfl⟩, rfl⟩ (by decide +kernel)
  obtain ⟨o, ho, hok⟩ := List.any_eq_true.mp (Bool.and_eq_true_iff.mp hb).2
  cases o with
  | newCon rsp result =>
    obtain ⟨⟨err, rfl⟩, -⟩ := (h _ b hr).fails _ _ ho
    cases hok
  | _ => cases hok

end Bound
end Absquic
