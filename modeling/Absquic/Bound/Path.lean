import Absquic.Bound
import Absquic.Conn.Pacing
import Absquic.Ep.Path

/-!
# From the socket to quiche

A run of an endpoint on a socket is a run of the endpoint (`epRun`): a poll of the stream that gives
an item is its `udpRecv`. The packets that the stream yields are the datagrams that arrived at the
socket (`yielded_eq`), so what was shown of the way of a packet through the endpoint holds from the
socket to `recv` of quiche (`received_datagrams`).
-/

namespace Absquic
namespace Bound

variable {Q : Quiche} {b b' : Bound Q}

/-! ## The run of the endpoint -/

/-- The step of the endpoint in a step of the whole. -/
def epAct (a : BoundAct) (_ b' : Bound Q) : List EpAct :=
  match a with
  | .ep e => [e]
  | .poll | .sockPoll _ =>
    match b'.udp.recv with
    | .ready item => [.udpRecv item]
    | _ => []
  | .udpSend i k => [.con i (.udpSend k)]
  | .udp _ => []

/-- The run of the endpoint in a run of the whole. -/
def epRun (as : List BoundAct) (b : Bound Q) : List EpAct := (sys Q).gather epAct as b

/-- A poll of the stream. -/
theorem epAct_polled {a : BoundAct} {udp : TokioUdp} (ha : a = .poll ∨ ∃ r, a = .sockPoll r)
    (h : b.polled udp = some b') : (Ep.sys Q).run (epAct a b b') b.ep = some b'.ep := by
  have hact : epAct a b b' = match b'.udp.recv with
      | .ready item => [.udpRecv item]
      | _ => [] := by
    rcases ha with rfl | ⟨r, rfl⟩ <;> rfl
  rw [hact]
  unfold polled at h
  split at h
  · next item hr =>
    obtain ⟨ep, he, rfl⟩ := Option.map_eq_some_iff.mp h
    dsimp only
    rw [hr]
    exact Lts.run_one (S := Ep.sys Q) (a := .udpRecv item) he
  · next hn =>
    cases h
    dsimp only
    split
    · next item hr => exact absurd hr (hn item)
    · rfl

theorem epAct_step {a : BoundAct} (h : step a b = some b') :
    (Ep.sys Q).run (epAct a b b') b.ep = some b'.ep := by
  have hone : ∀ {e : EpAct} {ep : Ep Q}, Ep.step e b.ep = some ep →
      (Ep.sys Q).run [e] b.ep = some ep := fun he => Lts.run_one he
  cases a with
  | ep e =>
    change b.stepEp e = some b' at h
    unfold stepEp at h
    split at h
    · obtain ⟨ep, he, rfl⟩ := Option.map_eq_some_iff.mp h
      rw [dropRecv_ep]
      exact hone he
    · cases h
  | poll =>
    change b.poll = some b' at h
    unfold Bound.poll at h
    split at h
    · obtain ⟨u, -, h⟩ := Option.bind_eq_some_iff.mp h
      exact epAct_polled (.inl rfl) h
    · cases h
  | sockPoll r =>
    change b.sockPoll r = some b' at h
    unfold Bound.sockPoll at h
    split at h
    · obtain ⟨u, -, h⟩ := Option.bind_eq_some_iff.mp h
      exact epAct_polled (.inr ⟨r, rfl⟩) h
    · cases h
  | udpSend i k =>
    change b.udpSend i k = some b' at h
    unfold Bound.udpSend at h
    split at h
    · cases h
    · obtain ⟨ep, he, rfl⟩ := Option.map_eq_some_iff.mp h
      exact hone he
  | udp a =>
    change b.stepUdp a = some b' at h
    unfold stepUdp at h
    split at h
    · obtain ⟨u, -, rfl⟩ := Option.map_eq_some_iff.mp h
      rfl
    · cases h

/-- A run of the whole is a run of the endpoint (module doc). -/
theorem run_ep {as : List BoundAct} {b₀ : Bound Q} (h : (sys Q).run as b₀ = some b) :
    (Ep.sys Q).run (epRun as b₀) b₀.ep = some b.ep :=
  Lts.run_part (g := Bound.ep) (fun _ _ _ hs => epAct_step hs) h

/-! ## Inbound -/

/-- The datagram that arrives at the socket in the step. -/
def arrives (a : BoundAct) (_ _ : Bound Q) : List UdpPak :=
  match a with
  | .sockPoll (.pak pak) => [pak]
  | _ => []

/-- The datagrams that arrive at the socket in a run. -/
def arrived (as : List BoundAct) (b : Bound Q) : List UdpPak := (sys Q).gather arrives as b

/-- The item, if any, that a poll of the stream hands on. -/
theorem yielded_polled {udp : TokioUdp} (h : (Ep.sys Q).Reach b.ep) (hp : b.polled udp = some b')
    {l : List UdpPak} (hl : ∀ item, udp.recv = .ready item → (EpAct.udpRecv item).pak?.toList = l)
    (hn : (∀ item, udp.recv ≠ .ready item) → l = []) : b'.ep.yielded = b.ep.yielded ++ l := by
  unfold polled at hp
  split at hp
  · next item hr =>
    obtain ⟨ep, he, rfl⟩ := Option.map_eq_some_iff.mp hp
    rw [← hl item hr]
    exact Ep.yielded_step (a := .udpRecv item) h he
  · next hr =>
    cases hp
    rw [hn hr, List.append_nil]

/-- A poll that is not of the socket gives no packet. -/
theorem poll_no_pak {u u' : TokioUdp} (h : u.poll = some u') {item : Option (Result UdpPak)}
    (hr : u'.recv = .ready item) : (EpAct.udpRecv item).pak? = none := by
  cases TokioUdp.poll_cases h with
  | shut => cases hr; rfl
  | wake =>
    rw [TokioUdp.wake_eq] at hr
    cases hr
    rfl
  | poll | load | register | reload | store => cases hr

theorem yielded_next {a : BoundAct} (h : (sys Q).Reach b) (hs : step a b = some b') :
    b'.ep.yielded = b.ep.yielded ++ arrives a b b' := by
  have hr := reach_ep h
  cases a with
  | ep e =>
    change b.stepEp e = some b' at hs
    unfold stepEp at hs
    split at hs
    · next ha =>
      obtain ⟨ep, he, rfl⟩ := Option.map_eq_some_iff.mp hs
      rw [dropRecv_ep]
      have hn : e.pak? = none := by cases e <;> first | rfl | cases ha
      have hy := Ep.yielded_step hr he
      rwa [hn] at hy
    · cases hs
  | poll =>
    change b.poll = some b' at hs
    unfold Bound.poll at hs
    split at hs
    · obtain ⟨u, hu, hp⟩ := Option.bind_eq_some_iff.mp hs
      exact yielded_polled hr hp (fun item hi => by rw [poll_no_pak hu hi]; rfl) fun _ => rfl
    · cases hs
  | sockPoll r =>
    change b.sockPoll r = some b' at hs
    unfold Bound.sockPoll at hs
    split at hs
    · obtain ⟨u, hu, hp⟩ := Option.bind_eq_some_iff.mp hs
      refine yielded_polled hr hp (fun item hi => ?_) fun hn => ?_
      · cases TokioUdp.step_cases (a := .sockPoll r) hu with
        | pending => cases hi
        | err => cases hi
        | pak => cases hi; rfl
      · cases TokioUdp.step_cases (a := .sockPoll r) hu with
        | pending => rfl
        | err => rfl
        | pak => exact absurd rfl (hn _)
    · cases hs
  | udpSend i k =>
    change b.udpSend i k = some b' at hs
    unfold Bound.udpSend at hs
    split at hs
    · cases hs
    · obtain ⟨ep, he, rfl⟩ := Option.map_eq_some_iff.mp hs
      exact Ep.yielded_step (a := .con i (.udpSend k)) hr he
  | udp a =>
    change b.stepUdp a = some b' at hs
    unfold stepUdp at hs
    split at hs
    · obtain ⟨u, -, rfl⟩ := Option.map_eq_some_iff.mp hs
      exact (List.append_nil _).symm
    · cases hs

/-- The packets of the stream are the datagrams that arrived. -/
theorem yielded_eq {as : List BoundAct} {b₀ : Bound Q} (h₀ : (sys Q).init b₀)
    (hr : (sys Q).run as b₀ = some b) : b.ep.yielded = arrived as b₀ := by
  refine Lts.init_gather (I := fun b l => b.ep.yielded = l) (fun a b b' l h hl hs => ?_) h₀ hr ?_
  · rw [← hl]
    exact yielded_next h hs
  · obtain ⟨n, config, h3Config, he⟩ := h₀.1
    rw [he]
    rfl

/-- What became of the datagrams `paks` that arrived (module doc): `fed` is what quiche was given for
connection `r`. -/
structure Inbound (b : Bound Q) (paks : List UdpPak) (r : EpCon Q) (fed : List UdpPak) : Prop where
  /-- Datagrams that arrived, with their bytes and source, in the order of their arrival, each
  once, -/
  arrived : fed.Sublist paks
  /-- with the id of the connection, but for the packet that it was created for. -/
  own : ∀ pak ∈ fed, (∃ hdr, r.origin = some (pak, hdr)) ∨
    ∃ hdr, Q.headerFromSlice pak.data 16 = .ok hdr ∧ hdr.dcid = r.scid
  /-- None of those that `ep_task` put on the connection's channel is skipped: as long as its task
  runs, what was not given waits there. -/
  inOrder : fed <+: r.con.inPaks
  all : r.con.pc.over = false → fed ++ r.con.backlog = r.con.inPaks
  /-- And each datagram that arrived had its fate, is in the hand of `ep_task`, or is on its way
  there. -/
  flow : b.ep.fates.map Prod.fst ++ b.ep.pc.pak?.toList ++ b.ep.inbound = paks

/-- From the socket to quiche, in every run. -/
theorem received_datagrams {as : List BoundAct} {b₀ : Bound Q} (h₀ : (sys Q).init b₀)
    (hr : (sys Q).run as b₀ = some b) {i : Nat} {r : EpCon Q} (hi : b.ep.cons[i]? = some r) :
    Inbound b (arrived as b₀) r (Ep.fed i (epRun as b₀) b₀.ep) := by
  have hfed := Ep.fed_exact h₀.1 (run_ep hr) hi
  have hy := yielded_eq h₀ hr
  exact ⟨hy ▸ hfed.stream, hfed.own, hfed.inOrder, hfed.all,
    hy ▸ (Ep.sys_routing (reach_ep (.run h₀ hr))).flow⟩

/-- A datagram arrives, and `ep_task` makes `n` steps. -/
def arrival (data : Bytes) (n : Nat) : List BoundAct :=
  [.ep .udp, .poll, .poll, .poll, .poll, .sockPoll (.pak ⟨.unspecified, data⟩), .ep .udp] ++
    List.replicate n (.ep .task)

/-- An Initial packet and one with the id of the connection it created arrive, and `con_task` handles
them. -/
def twoArrivals : List BoundAct :=
  arrival [] 6 ++ arrival (cidOf 0) 4 ++ List.replicate 16 (.ep (.con 0 .task))

theorem received_datagrams_two : ∃ (b : Bound (Quiche.inert ())) (r : EpCon (Quiche.inert ())),
    b.ep.cons[0]? = some r ∧ Inbound b [⟨.unspecified, []⟩, ⟨.unspecified, cidOf 0⟩] r
      [⟨.unspecified, []⟩, ⟨.unspecified, cidOf 0⟩] := by
  obtain ⟨b₀, h₀⟩ : ∃ b₀ : Bound (Quiche.inert ()), b₀ = ⟨Ep.quicheEp (.after 0) () none, .bind⟩ :=
    ⟨_, rfl⟩
  have hrun : ((sys (Quiche.inert ())).run twoArrivals b₀).any fun b => b.ep.cons[0]?.isSome := by
    subst h₀; decide +kernel
  obtain ⟨b, hr, hb⟩ := (Option.any_eq_true _ _).mp hrun
  obtain ⟨r, hi⟩ := Option.isSome_iff_exists.mp hb
  have harr : arrived twoArrivals b₀ = [⟨.unspecified, []⟩, ⟨.unspecified, cidOf 0⟩] := by
    subst h₀; decide +kernel
  have hfed : Ep.fed 0 (epRun twoArrivals b₀) b₀.ep =
      [⟨.unspecified, []⟩, ⟨.unspecified, cidOf 0⟩] := by
    subst h₀; decide +kernel
  have hin := received_datagrams ⟨⟨0, (), none, by rw [h₀]⟩, by rw [h₀]⟩ hr hi
  rw [harr, hfed] at hin
  exact ⟨b, r, hi, hin⟩

end Bound
end Absquic
