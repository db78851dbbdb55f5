import Absquic.Bound.Path
import Absquic.Ep.Served
import Absquic.Udp.Stream

/-!
# A socket that was closed

`close_immediate` sets a flag and wakes whoever waits; so does the stream itself after an error. Once
that is done (`TokioUdp.Shut`), in every fair run of an endpoint on the socket the receiving side
comes to its end (`closes`): `udp_task` reads the flag, ends, and drops the receiver; `ep_task` has
handled every packet that came before, and then `InPak(None)`.

The run is fair if the tasks go on and the user takes events, and if `udp_task` polls the stream when it
comes to wait for it and when its waker is woken (`due`). The rank of a poll (`RecvPc.rank`) goes down with
each of its steps: at most one item more comes before `None`.
-/

namespace Absquic

/-- How many steps of polls it is to `None`, if the flag is set. -/
def RecvPc.rank : RecvPc → Nat
  | .dropped => 0
  | .load | .reload => 1
  | .new | .register | .pending | .ready _ => 2
  | .wake _ => 3
  | .store _ => 4
  | .sock => 5

namespace TokioUdp

variable {u u' : TokioUdp}

/-- Who closed the stream has set the flag, and woken. -/
def Shut (u : TokioUdp) : Prop := .done ∈ u.closers ∨ u.Failed

theorem trace_keep {a : UdpAct} (hs : step a u = some u') : u.trace <+: u'.trace := by
  cases step_cases hs with
  | load | register | reload | store | err | dropRecv | closeImmediate | closeStore | sendErr | addr
  | localAddr | dropCall => exact List.prefix_rfl
  | poll | shut | pending | pak | send | sendTo => exact List.prefix_append _ _
  | wake =>
    rw [wake_eq]
    exact (List.prefix_append _ _).trans (List.prefix_append _ _)
  | @closeWake k =>
    obtain ⟨l, hl, -⟩ := trace_closed u (u.closers.set k .done)
    exact ⟨l, hl.symm⟩

/-- A call of `close_immediate` that has returned has. -/
theorem done_keep {a : UdpAct} (hs : step a u = some u') (h : .done ∈ u.closers) :
    .done ∈ u'.closers := by
  have hset : ∀ {k : Nat} {x y : ClosePc}, u.closers[k]? = some x → x ≠ .done →
      .done ∈ u.closers.set k y := by
    intro k x y hk hx
    obtain ⟨j, hj⟩ := List.getElem?_of_mem h
    have hjk : k ≠ j := by
      rintro rfl
      rw [hj] at hk
      exact hx (Option.some.inj hk).symm
    exact List.mem_of_getElem? ((List.getElem?_set_ne hjk).trans hj)
  cases step_cases hs with
  | closeImmediate => exact List.mem_append_left _ h
  | closeStore hk => exact hset hk (by rintro ⟨⟩)
  | closeWake hk => exact hset hk (by rintro ⟨⟩)
  | wake => rw [wake_eq]; exact h
  | _ => exact h

theorem Shut.keep {a : UdpAct} (h : Shut u) (hs : step a u = some u') : Shut u' := by
  refine h.imp (done_keep hs) ?_
  rintro ⟨err, he⟩
  exact ⟨err, (trace_keep hs).subset he⟩

theorem Shut.shutdown (h : Shut u) (hr : sys.Reach u) : u.shutdown = true := by
  rcases h with hd | ⟨err, he⟩
  · exact (sys_wakes hr).stored _ hd (by rintro ⟨⟩)
  · exact (sys_late hr).shut (List.any_eq_true.mpr ⟨_, he, rfl⟩)

/-- A parked reader was woken. -/
theorem Shut.woken (h : Shut u) (hr : sys.Reach u) (hp : u.recv = .pending) :
    .woken u.polls ∈ u.trace := by
  rcases h with hd | hf
  · exact (sys_wakes hr).woken (.inr hp) hd
  · have hw := sys_failed hr hf
    rw [hp] at hw
    cases hw

/-- A step of a poll, after the flag was set. -/
theorem rank_poll {p : UdpAct} (hp : p = .poll ∨ ∃ x, p = .sockPoll x) (hs : step p u = some u')
    (hset : u.shutdown = true) : u'.recv = .ready none ∨ u'.recv.rank < u.recv.rank := by
  have hlt : ∀ {pc : RecvPc} {m : Nat}, u.recv = pc → m < pc.rank → m < u.recv.rank := by
    rintro pc m rfl hm
    exact hm
  cases step_cases hs with
  | poll hr =>
    refine .inr ?_
    rcases hr with hr | hr | ⟨item, hr⟩
    · exact hlt hr (Nat.lt_succ_self 1)
    · exact hlt hr (Nat.lt_succ_self 1)
    · exact hlt hr (Nat.lt_succ_self 1)
  | load _ hn | reload _ hn => rw [hset] at hn; cases hn
  | shut => exact .inl rfl
  | register hr => exact .inr (hlt hr (Nat.lt_succ_self 1))
  | store hr => exact .inr (hlt hr (Nat.lt_succ_self 3))
  | wake hr => exact .inr (hlt hr (Nat.lt_succ_self 2))
  | pending hr | err hr | pak hr => exact .inr (hlt hr (by simp [RecvPc.rank, yield, log]))
  | _ => rcases hp with hp | ⟨x, hp⟩ <;> cases hp

end TokioUdp

/-- The steps of a poll of the stream. -/
def BoundAct.polls : BoundAct → Prop
  | .poll | .sockPoll _ => True
  | _ => False

namespace Bound

variable {Q : Quiche} {b b' : Bound Q}

/-- A step of a poll, with what becomes of its item. -/
theorem polls_cases {a : BoundAct} (ha : a.polls) (hs : step a b = some b') :
    b.ep.udpPc = .recv ∧ (∃ p, (p = .poll ∨ ∃ x, p = .sockPoll x) ∧
      TokioUdp.step p b.udp = some b'.udp) ∧
        ∀ item, b'.udp.recv = .ready item → b'.ep.udpPc = .send item := by
  have hitem : ∀ {u : TokioUdp}, b.polled u = some b' → b'.udp = u ∧
      ∀ item, b'.udp.recv = .ready item → b'.ep.udpPc = .send item := by
    intro u hp
    unfold polled at hp
    split at hp
    · next item hr =>
      obtain ⟨ep, he, rfl⟩ := Option.map_eq_some_iff.mp hp
      refine ⟨rfl, fun item' hr' => ?_⟩
      obtain rfl : item = item' := by
        rw [show u.recv = .ready item' from hr'] at hr
        cases hr
        rfl
      unfold Ep.udpRecv at he
      split at he
      · cases he; rfl
      · cases he
    · next hn =>
      cases hp
      exact ⟨rfl, fun item hr => absurd hr (hn item)⟩
  cases a with
  | poll =>
    change b.poll = some b' at hs
    unfold Bound.poll at hs
    split at hs
    · next hpc =>
      obtain ⟨u, hu, hp⟩ := Option.bind_eq_some_iff.mp hs
      obtain ⟨rfl, hi⟩ := hitem hp
      exact ⟨hpc, ⟨.poll, .inl rfl, hu⟩, hi⟩
    · cases hs
  | sockPoll x =>
    change b.sockPoll x = some b' at hs
    unfold Bound.sockPoll at hs
    split at hs
    · next hpc =>
      obtain ⟨u, hu, hp⟩ := Option.bind_eq_some_iff.mp hs
      obtain ⟨rfl, hi⟩ := hitem hp
      exact ⟨hpc, ⟨.sockPoll x, .inr ⟨x, rfl⟩, hu⟩, hi⟩
    · cases hs
  | _ => cases ha

/-- The other steps leave the receiver, unless `udp_task` has ended. -/
theorem recv_still {a : BoundAct} (ha : ¬ a.polls) (hs : step a b = some b')
    (hu : b'.ep.udpPc ≠ .ended) : b'.udp.recv = b.udp.recv := by
  cases a with
  | poll | sockPoll => exact absurd trivial ha
  | ep e =>
    change b.stepEp e = some b' at hs
    unfold stepEp at hs
    split at hs
    · obtain ⟨ep, -, rfl⟩ := Option.map_eq_some_iff.mp hs
      rw [dropRecv_ep] at hu
      unfold dropRecv
      split
      · next he => exact absurd he hu
      · rfl
    · cases hs
  | udpSend i k =>
    change b.udpSend i k = some b' at hs
    unfold Bound.udpSend at hs
    split at hs
    · cases hs
    · obtain ⟨ep, -, rfl⟩ := Option.map_eq_some_iff.mp hs
      rfl
  | udp a =>
    change b.stepUdp a = some b' at hs
    unfold stepUdp at hs
    split at hs
    · next ha =>
      obtain ⟨u, hst, rfl⟩ := Option.map_eq_some_iff.mp hs
      exact TokioUdp.recv_other ha hst
    · cases hs

/-- And `udp_task`, while it waits for the stream. -/
theorem waits_still {a : BoundAct} (h : (sys Q).Reach b) (ha : ¬ a.polls) (hs : step a b = some b')
    (hu : b.ep.udpPc = .recv) : b'.ep.udpPc = .recv := by
  have hep : ∀ {e : EpAct}, (∀ item, e ≠ .udpRecv item) → Ep.step e b.ep = some b'.ep →
      b'.ep.udpPc = .recv := by
    intro e he hst
    rcases Ep.reach_cases (reach_ep h) hst with ⟨rfl, ht⟩ | ⟨hn, -⟩
    · exact (Ep.udpPc_task ht).trans hu
    · generalize b'.ep = s' at hst
      cases Ep.otherStep_cases hst hn (Ep.sys_control (reach_ep h)).rx with
      | udpAcquire => rfl
      | udpEnd hp | udpSend hp => rw [hu] at hp; cases hp
      | udpRecv => exact absurd rfl (he _)
      | _ => exact hu
  cases a with
  | poll | sockPoll => exact absurd trivial ha
  | ep e =>
    change b.stepEp e = some b' at hs
    unfold stepEp at hs
    split at hs
    · next hal =>
      obtain ⟨ep, he, rfl⟩ := Option.map_eq_some_iff.mp hs
      refine hep (e := e) ?_ (by rw [dropRecv_ep]; exact he)
      rintro item rfl
      cases hal
    · cases hs
  | udpSend i k =>
    change b.udpSend i k = some b' at hs
    unfold Bound.udpSend at hs
    split at hs
    · cases hs
    · obtain ⟨ep, he, rfl⟩ := Option.map_eq_some_iff.mp hs
      exact hep (e := .con i (.udpSend k)) (by rintro item ⟨⟩) he
  | udp a =>
    change b.stepUdp a = some b' at hs
    unfold stepUdp at hs
    split at hs
    · obtain ⟨u, -, rfl⟩ := Option.map_eq_some_iff.mp hs
      exact hu
    · cases hs

theorem reach_udp (h : (sys Q).Reach b) : TokioUdp.sys.Reach b.udp := by
  refine h.invariant (I := fun b => TokioUdp.sys.Reach b.udp) (fun b hb => ?_)
    fun a b b' _ hi hs => hi.steps (parts_step hs).udp
  exact .init (show TokioUdp.sys.init b.udp from And.right hb)

/-! ## Fair runs -/

/-- `udp_task` has to poll the stream: it waits for it, and if its last poll was parked, that one was
woken. -/
def due (b : Bound Q) : Prop :=
  b.ep.udpPc = .recv ∧ (b.udp.recv = .pending → .woken b.udp.polls ∈ b.udp.trace)

/-- The parties that have to go on (module doc). -/
structure FairRun (r : (sys Q).Execution) : Prop where
  task : r.Fair fun a => a = .ep .task
  udp : r.Fair fun a => a = .ep .udp
  user : r.Fair fun a => a = .ep .evtPoll
  poll : ∀ n, (∀ m ≥ n, due (r.state m)) → ∃ m ≥ n, r.Moves BoundAct.polls m

theorem epAct_toList (a : BoundAct) (b b' : Bound Q) :
    (epAct a b b').head?.toList = epAct a b b' := by
  unfold epAct
  split
  · rfl
  · split <;> rfl
  · split <;> rfl
  · rfl
  · rfl

/-- The endpoint in an infinite run of the whole. -/
def epPart (r : (sys Q).Execution) : (Ep.sys Q).Execution :=
  r.part (g := Bound.ep) (f := fun a b b' => (epAct a b b').head?) (fun _ h => h.1)
    fun a b b' hs => by rw [epAct_toList]; exact epAct_step hs

theorem fair_ep {r : (sys Q).Execution} {e : EpAct} (he : e.alone) (h : r.Fair fun a => a = .ep e) :
    (epPart r).Fair fun a => a = e := by
  refine h.part _ _ (fun n hen => ?_) ?_
  · obtain ⟨a, rfl, hs⟩ := hen
    refine ⟨.ep a, rfl, ?_⟩
    show ((r.state n).stepEp a).isSome
    unfold stepEp
    rw [if_pos he, Option.isSome_map]
    exact hs
  · rintro a b b' rfl -
    exact ⟨e, rfl, rfl⟩

theorem FairRun.ep {r : (sys Q).Execution} (h : FairRun r) : Ep.FairRun (epPart r) :=
  ⟨fair_ep rfl h.task, fair_ep rfl h.udp, fair_ep rfl h.user⟩

namespace FairRun

variable {r : (sys Q).Execution}

/-- What was closed stays so. -/
theorem shut {n : Nat} (hc : (r.state n).udp.Shut) {m : Nat} (hm : m ≥ n) : (r.state m).udp.Shut := by
  refine r.keeps (P := fun b : Bound Q => b.udp.Shut) hc (fun _ _ _ _ hs ih => ?_) m hm
  exact (parts_step hs).udp.invariant (I := TokioUdp.Shut) (fun _ _ _ _ hi hs => hi.keep hs) ih

/-- It does not go on for ever. -/
theorem stops (h : FairRun r) {n : Nat} (hc : (r.state n).udp.Shut) :
    ∃ m ≥ n, (r.state m).ep.udpPc = .ended := by
  by_contra hno
  have hne : ∀ m ≥ n, (r.state m).ep.udpPc ≠ .ended := fun m hm hu => hno ⟨m, hm, hu⟩
  have hnone : ∀ m ≥ n, (r.state m).ep.udpPc ≠ .send none := by
    intro m hm hu
    obtain ⟨k, hk, he⟩ := h.ep.ends (n := m) hu
    exact hne k (hm.trans hk) he
  refine Lts.Execution.no_descent (M := r.Moves BoundAct.polls) (n := n)
    (f := fun m => (r.state m).udp.recv.rank) (fun m hm => ?_) (fun m hm ha => ?_) fun m hm ha => ?_
  · -- it comes to wait for the stream, and has to poll until it does
    by_contra hstill
    obtain ⟨k, hk, hu | hu⟩ := h.ep.waits m
    · have hwait : ∀ j ≥ k, (r.state j).ep.udpPc = .recv :=
        r.keeps (P := fun b : Bound Q => b.ep.udpPc = .recv) hu fun j hj a ha hs ih =>
          waits_still (r.reach j) (fun hp => hstill ⟨j, by omega, a, ha, hp⟩) hs ih
      obtain ⟨j, hj, hp⟩ := h.poll k fun j hj => ⟨hwait j hj, fun hp =>
        (shut hc (by omega)).woken (reach_udp (r.reach j)) hp⟩
      exact hstill ⟨j, by omega, hp⟩
    · exact hne k (by omega) hu
  · rcases r.step m with ⟨-, hs⟩ | ⟨a, hact, hs⟩
    · rw [hs]
    · have hrecv := recv_still (fun hp => ha ⟨a, hact, hp⟩) hs (hne (m + 1) (by omega))
      exact le_of_eq (congrArg RecvPc.rank hrecv)
  · obtain ⟨a, hact, hp⟩ := ha
    obtain ⟨-, ⟨p, hp, hst⟩, hitem⟩ := polls_cases hp (Lts.Execution.step_act hact)
    have hset := (shut hc hm).shutdown (reach_udp (r.reach m))
    rcases TokioUdp.rank_poll hp hst hset with hr | hlt
    · exact absurd (hitem none hr) (hnone (m + 1) (by omega))
    · exact hlt

end FairRun

/-- The receiving side has come to its end. -/
structure Over (b : Bound Q) : Prop where
  /-- `udp_task` has ended, and has dropped the receiver. -/
  udpPc : b.ep.udpPc = .ended
  recv : b.udp.recv = .dropped
  /-- `ep_task` has handled every packet that the stream gave, -/
  fates : b.ep.fates.map Prod.fst = b.ep.yielded
  /-- and `InPak(None)` -/
  dead : b.ep.dead
  /-- after all of them. -/
  before : b.ep.early.filterMap (·.fate?) = b.ep.fates

theorem over_of_dead (h : (sys Q).Reach b) (hd : b.ep.dead) : Over b := by
  have hr := reach_ep h
  have hdeaf := Ep.deaf hr hd
  refine ⟨hdeaf.udpPc, sys_dropped h hdeaf.udpPc, ?_, hd, Ep.early_fates hr⟩
  have hflow := (Ep.sys_routing hr).flow
  rw [hdeaf.inbound, hdeaf.hand, List.append_nil] at hflow
  exact (List.append_nil _).symm.trans hflow

/-- See the module doc. -/
theorem closes {r : (sys Q).Execution} (h : FairRun r) {n : Nat} (hc : (r.state n).udp.Shut) :
    ∃ m ≥ n, ∀ k ≥ m, Over (r.state k) := by
  obtain ⟨i, hi, hu⟩ := h.stops hc
  obtain ⟨m, hm, hd⟩ := h.ep.dead (n := i) hu
  refine ⟨m, hi.trans hm, fun k hk => over_of_dead (r.reach k) ?_⟩
  obtain ⟨j, rfl⟩ := Nat.exists_eq_add_of_le hk
  have hsteps := steps_ep (.run (r.run_acts m j) fun _ _ => trivial)
  exact Ep.dead_keep (Ep.trace_prefix (reach_ep (r.reach m)) hsteps) hd

/-- A packet comes, then the reader is parked, and the socket is closed. -/
def parkedClose : List BoundAct :=
  arrival [7] 0 ++ .ep .udp :: List.replicate 4 .poll ++
    [.sockPoll .pending, .udp .closeImmediate, .udp (.close 0), .udp (.close 0)]

/-- Then the tasks go on, and the user takes the event. -/
def parkedClosed : List BoundAct :=
  parkedClose ++ [.poll, .poll, .ep .udp] ++ List.replicate 9 (.ep .task) ++ [.ep .evtPoll]

theorem closes_parked : ∃ r : (sys (Quiche.inert ())).Execution,
    (r.state parkedClose.length).udp.recv.waits ∧
      ∃ m ≥ parkedClose.length, ∀ k ≥ m, Over (r.state k) := by
  obtain ⟨b₀, h₀⟩ : ∃ b₀ : Bound (Quiche.inert ()), b₀ = ⟨Ep.quicheEp (.after 0) () none, .bind⟩ :=
    ⟨_, rfl⟩
  have hrun : ((sys (Quiche.inert ())).run parkedClose b₀).any (fun b =>
        b.udp.recv.waits && b.udp.closers.any fun x => decide (x = .done)) ∧
      ((sys (Quiche.inert ())).run parkedClosed b₀).any (fun b => b.ep.udpPc.done &&
        [BoundAct.ep .task, .ep .udp, .ep .evtPoll].all fun a => (step a b).isNone) := by
    subst h₀; decide +kernel
  obtain ⟨d, hd, hat⟩ := (Option.any_eq_true _ _).mp hrun.1
  obtain ⟨b, hb, hend⟩ := (Option.any_eq_true _ _).mp hrun.2
  obtain ⟨hwaits, hdone⟩ := Bool.and_eq_true_iff.mp hat
  obtain ⟨hover, hend⟩ := Bool.and_eq_true_iff.mp hend
  have hinit : (sys (Quiche.inert ())).init b₀ := ⟨⟨0, (), none, by rw [h₀]⟩, by rw [h₀]⟩
  obtain ⟨r, hr⟩ : ∃ r, r = Lts.Execution.ofRun hinit (Option.isSome_iff_exists.mpr ⟨b, hb⟩) :=
    ⟨_, rfl⟩
  have hfair : ∀ a ∈ [BoundAct.ep .task, .ep .udp, .ep .evtPoll], r.Fair fun x => x = a := by
    intro a ha
    subst hr
    exact Lts.Execution.fair_ofRun_act hinit hb (List.all_eq_true.mp hend _ ha)
  have hpoll : ∀ n, (∀ m ≥ n, due (r.state m)) → ∃ m ≥ n, r.Moves BoundAct.polls m := by
    intro n hall
    have hlast : r.state (n + parkedClosed.length) = b := by
      subst hr
      exact Lts.Execution.state_ofRun_end hinit hb n
    have hu := (hall _ (Nat.le_add_right n parkedClosed.length)).1
    rw [hlast] at hu
    rw [hu] at hover
    cases hover
  have hstate : r.state parkedClose.length = d := by
    subst hr
    refine Lts.Execution.state_ofRun hinit _ ?_
    rw [show parkedClosed.take parkedClose.length = parkedClose from rfl]
    exact hd
  obtain ⟨x, hx, hxd⟩ := List.any_eq_true.mp hdone
  obtain rfl := of_decide_eq_true hxd
  exact ⟨r, hstate ▸ hwaits, closes
    ⟨hfair _ (by simp), hfair _ (by simp), hfair _ (by simp), hpoll⟩ (hstate ▸ .inl hx)⟩

end Bound
end Absquic
