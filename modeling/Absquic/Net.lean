import Absquic.Bound.Sent
import Mathlib.Logic.Function.Basic

/-!
# Endpoints on a network

Hosts, each of them an endpoint on a socket (`Bound`) with an address. Of the network only what udp
promises is assumed: a datagram that arrives at a host is one that was put on a socket with the host's
address as its destination; it arrives with its bytes, and the address of that socket as its source.
It may arrive late, out of order, more than once or never. Nobody else sends on the socket of an
endpoint: `QuicheEpFactory::bind` gives its handle to the endpoint alone.

Then every datagram that arrives, and so every packet that quiche is given, and every one for which
a connection is accepted, comes from a connection of the host that it names as its source: the bytes
are those that `send` of quiche gave there for this host (`genuine`).
-/

namespace Absquic

/-- A step of some host; in a `deliver` step, datagram `m` of host `l` arrives at host `k`. -/
inductive NetAct (ι : Type)
  | host (k : ι) (a : BoundAct)
  | deliver (l k : ι) (m : Nat)

/-- A step that needs no datagram, of somebody who does not send on the socket. -/
def BoundAct.silent : BoundAct → Bool
  | .sockPoll (.pak _) | .udp (.send _) => false
  | _ => true

namespace Net

variable {ι : Type} {Q : Quiche} {addr : ι → SocketAddr}

/-- The host that makes a step, and its step. -/
def atHost (addr : ι → SocketAddr) : NetAct ι → (ι → Bound Q) → Option (ι × BoundAct)
  | .host k a, _ => if a.silent then some (k, a) else none
  | .deliver l k m, s => (s l).udp.datagrams[m]?.bind fun pak =>
      if pak.addr = addr k then some (k, .sockPoll (.pak ⟨addr l, pak.data⟩)) else none

variable {s s' : ι → Bound Q}

/-- What the network and the hosts do not do. -/
theorem atHost_spec {a : NetAct ι} {k : ι} {b : BoundAct} (h : atHost addr a s = some (k, b)) :
    (∀ pak, b ≠ .udp (.send pak)) ∧ ∀ pak, b = .sockPoll (.pak pak) →
      ∃ l, pak.addr = addr l ∧ ⟨addr k, pak.data⟩ ∈ (s l).udp.datagrams := by
  unfold atHost at h
  cases a with
  | host j a =>
    dsimp only at h
    split at h
    · next ha =>
      cases h
      constructor
      · rintro pak rfl
        cases ha
      · rintro pak rfl
        cases ha
    · cases h
  | deliver l j m =>
    obtain ⟨pak, hm, h⟩ := Option.bind_eq_some_iff.mp h
    split at h
    · next hd =>
      cases h
      refine ⟨nofun, fun p hp => ?_⟩
      cases hp
      exact ⟨l, rfl, hd ▸ List.mem_of_getElem? hm⟩
    · cases h

variable [DecidableEq ι]

def step (addr : ι → SocketAddr) (a : NetAct ι) (s : ι → Bound Q) : Option (ι → Bound Q) :=
  (atHost addr a s).bind fun (k, b) => (Bound.step b (s k)).map (Function.update s k)

/-- The hosts as a system: each as its endpoint and its socket are made. -/
def sys (Q : Quiche) (addr : ι → SocketAddr) : Lts (ι → Bound Q) (NetAct ι) where
  init s := ∀ k, (Bound.sys Q).init (s k)
  step := step addr

/-- The step of host `k` in a step of the whole. -/
def hostAct (addr : ι → SocketAddr) (k : ι) (a : NetAct ι) (s _ : ι → Bound Q) : List BoundAct :=
  match atHost addr a s with
  | some (j, b) => if j = k then [b] else []
  | none => []

/-- The run of host `k` in a run of the whole. -/
def hostRun (addr : ι → SocketAddr) (k : ι) (as : List (NetAct ι)) (s : ι → Bound Q) :
    List BoundAct :=
  (sys Q addr).gather (hostAct addr k) as s

/-- What `recv` of quiche was given for connection `i` of host `k` in a run. -/
def fed (addr : ι → SocketAddr) (k : ι) (i : Nat) (as : List (NetAct ι)) (s : ι → Bound Q) :
    List UdpPak :=
  Ep.fed i (Bound.epRun (hostRun addr k as s) (s k)) (s k).ep

/-- `pak`, at host `k`, is a packet for it from a connection of the host that `pak` names as its
source. -/
def Genuine (addr : ι → SocketAddr) (s : ι → Bound Q) (k : ι) (pak : UdpPak) : Prop :=
  ∃ l, pak.addr = addr l ∧ ∃ (j : Nat) (q : EpCon Q), (s l).ep.cons[j]? = some q ∧
    ⟨addr k, pak.data⟩ ∈ q.con.produced.map (·.pak)

theorem step_cases {a : NetAct ι} (h : step addr a s = some s') : ∃ k b t,
    atHost addr a s = some (k, b) ∧ Bound.step b (s k) = some t ∧ s' = Function.update s k t := by
  obtain ⟨⟨k, b⟩, hk, h⟩ := Option.bind_eq_some_iff.mp h
  obtain ⟨t, ht, rfl⟩ := Option.map_eq_some_iff.mp h
  exact ⟨k, b, t, hk, ht, rfl⟩

/-! ## A host -/

theorem hostAct_step (k : ι) {a : NetAct ι} (h : step addr a s = some s') :
    (Bound.sys Q).run (hostAct addr k a s s') (s k) = some (s' k) := by
  obtain ⟨j, b, t, hj, ht, rfl⟩ := step_cases h
  unfold hostAct
  rw [hj]
  dsimp only
  by_cases hjk : j = k
  · subst hjk
    rw [if_pos rfl, Function.update_self]
    exact Lts.run_one (S := Bound.sys Q) ht
  · rw [if_neg hjk, Function.update_of_ne fun hk => hjk hk.symm]
    rfl

theorem run_host (k : ι) {as : List (NetAct ι)} {s₀ : ι → Bound Q}
    (h : (sys Q addr).run as s₀ = some s) :
    (Bound.sys Q).run (hostRun addr k as s₀) (s₀ k) = some (s k) :=
  Lts.run_part (g := fun s => s k) (fun _ _ _ hs => hostAct_step k hs) h

/-- Nobody but the endpoint sends on the socket of host `k`. -/
theorem hostRun_silent (k : ι) (as : List (NetAct ι)) (s : ι → Bound Q) :
    ∀ b ∈ hostRun addr k as s, ∀ pak, b ≠ .udp (.send pak) := by
  intro b hb
  obtain ⟨a, -, t, t', hb⟩ := Lts.mem_gather hb
  unfold hostAct at hb
  split at hb
  · next j b' hj =>
    split at hb
    · rw [List.mem_singleton.mp hb]
      exact (atHost_spec hj).1
    · cases hb
  · cases hb

/-! ## The network -/

/-- The datagrams that a host put on its socket stay. -/
theorem datagrams_keep {a : NetAct ι} (h : step addr a s = some s') (l : ι) :
    (s l).udp.datagrams ⊆ (s' l).udp.datagrams := by
  obtain ⟨k, b, t, -, ht, rfl⟩ := step_cases h
  by_cases hl : l = k
  · subst hl
    rw [Function.update_self]
    exact (Bound.parts_step ht).udp.invariant (I := fun u => (s l).udp.datagrams ⊆ u.datagrams)
      (fun _ _ _ _ hi hs _ hm => (TokioUdp.datagrams_keep hs).subset (hi hm)) (List.Subset.refl _)
  · rw [Function.update_of_ne hl]
    exact List.Subset.refl _

/-- What arrives at host `k` was put on a socket, for this host. -/
theorem arrived_datagram {as : List (NetAct ι)} {s₀ : ι → Bound Q} (h₀ : (sys Q addr).init s₀)
    (hr : (sys Q addr).run as s₀ = some s) (k : ι) :
    ∀ pak ∈ Bound.arrived (hostRun addr k as s₀) (s₀ k),
      ∃ l, pak.addr = addr l ∧ ⟨addr k, pak.data⟩ ∈ (s l).udp.datagrams := by
  rw [Bound.arrived, hostRun, Lts.gather_part (T := Bound.sys Q) (g := fun s => s k)
    (p := hostAct addr k) (fun _ _ _ hs => hostAct_step k hs) hr]
  refine Lts.init_gather (I := fun s (l : List UdpPak) => ∀ pak ∈ l,
    ∃ l, pak.addr = addr l ∧ ⟨addr k, pak.data⟩ ∈ (s l).udp.datagrams)
    (fun a s s' l h hl hs pak hp => ?_) h₀ hr (fun pak hp => nomatch hp)
  suffices hsent : ∃ l, pak.addr = addr l ∧ ⟨addr k, pak.data⟩ ∈ (s l).udp.datagrams by
    obtain ⟨l, ha, hm⟩ := hsent
    exact ⟨l, ha, datagrams_keep hs l hm⟩
  rcases List.mem_append.mp hp with hp | hp
  · exact hl pak hp
  · have hstep := hostAct_step k hs
    unfold hostAct at hp hstep
    split at hp
    · next j b hj =>
      rw [hj] at hstep
      dsimp only at hstep
      split at hp
      · next hjk =>
        subst hjk
        rw [if_pos rfl] at hstep
        rw [Lts.gather_one hstep] at hp
        unfold Bound.arrives at hp
        split at hp
        · rw [List.mem_singleton.mp hp]
          exact (atHost_spec hj).2 _ rfl
        · cases hp
      · cases hp
    · cases hp

/-- Every packet at host `k` is genuine (module doc). -/
structure Integrity (addr : ι → SocketAddr) (s : ι → Bound Q) (k : ι) (fed : Nat → List UdpPak) :
    Prop where
  arrived : ∀ pak ∈ (s k).ep.yielded, Genuine addr s k pak
  accepted : ∀ (i : Nat) r, (s k).ep.cons[i]? = some r → ∀ pak hdr, r.origin = some (pak, hdr) →
    Genuine addr s k pak
  fed : ∀ (i : Nat) r, (s k).ep.cons[i]? = some r → ∀ pak ∈ fed i, Genuine addr s k pak

/-- In every run of the hosts on the network. -/
theorem genuine {as : List (NetAct ι)} {s₀ : ι → Bound Q} (h₀ : (sys Q addr).init s₀)
    (hr : (sys Q addr).run as s₀ = some s) (k : ι) :
    Integrity addr s k fun i => fed addr k i as s₀ := by
  have hhost := run_host k hr
  have hyield := Bound.yielded_eq (h₀ k) hhost
  have harrived : ∀ pak ∈ (s k).ep.yielded, Genuine addr s k pak := by
    intro pak hp
    rw [hyield] at hp
    obtain ⟨l, hl, hm⟩ := arrived_datagram h₀ hr k pak hp
    exact ⟨l, hl, Bound.produced_of_datagram (h₀ l) (run_host l hr) (hostRun_silent l as s₀) _ hm⟩
  have hreach : (Ep.sys Q).Reach (s k).ep := Bound.reach_ep (.run (h₀ k) hhost)
  refine ⟨harrived, fun i r hi pak hdr ho => harrived pak (Ep.origin_yielded hreach hi ho),
    fun i r hi pak hp => harrived pak ?_⟩
  exact (Ep.fed_exact (h₀ k).1 (Bound.run_ep hhost) hi).stream.subset hp

/-- A library whose `connect` gives a connection that sends a packet to its peer. -/
def calling : Quiche :=
  { Con.sending with connect := fun _ peer _ => ((), .ok [([7], ⟨peer, 0⟩)]) }

/-- Two hosts. -/
def twoHosts (k : Bool) : SocketAddr := { SocketAddr.unspecified with port := if k then 1 else 0 }

/-- Host `true` connects to host `false`, which accepts a connection for its first packet. -/
def call : List (NetAct Bool) :=
  (Bound.connecting 4).map (.host true) ++
    List.replicate 6 (.host true (.ep (.con 0 .task))) ++
    [.host true (.udpSend 0 0), .host true (.udp (.sendTo 0 (.ok ())))] ++
    [.host false (.ep .udp)] ++ List.replicate 4 (.host false .poll) ++
    [.deliver true false 0, .host false (.ep .udp)] ++
    List.replicate 6 (.host false (.ep .task)) ++
    List.replicate 8 (.host false (.ep (.con 0 .task)))

theorem genuine_call : ∃ (s₀ s : Bool → Bound calling) (as : List (NetAct Bool)),
    (∃ r, (s false).ep.cons[0]? = some r) ∧
      fed twoHosts false 0 as s₀ = [⟨twoHosts true, [7]⟩] ∧
      Integrity twoHosts s false fun i => fed twoHosts false i as s₀ := by
  obtain ⟨s₀, h₀⟩ : ∃ s₀ : Bool → Bound calling,
      s₀ = fun _ => ⟨Ep.quicheEp (.after 0) () none, .bind⟩ := ⟨_, rfl⟩
  have hrun : ((sys calling twoHosts).run call s₀).any fun s => (s false).ep.cons[0]?.isSome := by
    subst h₀; decide +kernel
  obtain ⟨s, hr, hs⟩ := (Option.any_eq_true _ _).mp hrun
  have hfed : fed twoHosts false 0 call s₀ = [⟨twoHosts true, [7]⟩] := by
    subst h₀; decide +kernel
  exact ⟨s₀, s, call, Option.isSome_iff_exists.mp hs, hfed,
    genuine (fun k => by rw [h₀]; exact ⟨⟨0, (), none, rfl⟩, rfl⟩) hr false⟩

end Net
end Absquic
