import Absquic.Ep.Permits
import Absquic.Ep.Slots

/-!
# An application that connects between two events

`App` is an endpoint with one application task: it takes an event from `QuicheEpRecv`, then awaits
`connect(addr)`, then takes the next event. `ep_task` acquires a permit of the event channel before
every command, `NewCon` included, and it emits an event with that permit. So when 64 events are queued
while the application awaits, `ep_task` cannot handle the `NewCon` that the application waits for
(`Deadlock`), and nobody can leave that state (`deadlock_keep`).

`Room` is the condition on the steps under which this does not come about (`no_deadlock`): `ep_task`
never emits a 64th event while the application awaits.
-/

namespace Absquic

/-- The call has no answer yet. -/
def ConnectCall.pending : ConnectCall → Bool
  | .acquire _ | .send _ _ | .wait => true
  | _ => false

/-- The call waits for its answer. -/
def ConnectCall.waits : ConnectCall → Bool
  | .wait => true
  | _ => false

/-- `ep_task` is about to emit an event. -/
def EpPc.emits : EpPc → Bool
  | .inCon _ => true
  | _ => false

/-- An endpoint and its application (module doc). -/
structure App (Q : Quiche) where
  ep : Ep Q
  /-- The `connect()` call that the application awaits. -/
  call : Option Nat

inductive AppAct
  /-- A step of a party other than the application. -/
  | ep (a : EpAct)
  /-- The application takes an event and calls `connect(addr)`. -/
  | take (addr : SocketAddr)
  | acquire
  | send
  /-- The call's future is ready: the application goes on. -/
  | resume

/-- The steps that the application does not make. -/
def EpAct.background : EpAct → Bool
  | .task | .udp | .udpRecv _ | .con _ _ | .otherCid => true
  | _ => false

namespace App

variable {Q : Quiche}

def stepEp (p : App Q) (a : EpAct) : Option (App Q) :=
  if a.background then (p.ep.step a).map fun ep => { p with ep } else none

def take (p : App Q) (addr : SocketAddr) : Option (App Q) :=
  match p.call with
  | some _ => none
  | none => (p.ep.evtPoll.bind (·.connect addr)).map fun ep => ⟨ep, some p.ep.connects.length⟩

def acquire (p : App Q) : Option (App Q) :=
  p.call.bind fun k => (p.ep.connAcquire k).map fun ep => { p with ep }

def send (p : App Q) : Option (App Q) :=
  p.call.bind fun k => (p.ep.connSend k).map fun ep => { p with ep }

def resume (p : App Q) : Option (App Q) :=
  p.call.bind fun k =>
    match p.ep.connects[k]? with
    | some (.done _) => some { p with call := none }
    | _ => (p.ep.connPoll k).map fun ep => ⟨ep, none⟩

def step : AppAct → App Q → Option (App Q)
  | .ep a, p => p.stepEp a
  | .take addr, p => p.take addr
  | .acquire, p => p.acquire
  | .send, p => p.send
  | .resume, p => p.resume

def sys (Q : Quiche) : Lts (App Q) AppAct where
  init p := (Ep.sys Q).init p.ep ∧ p.call = none
  step := step

/-- The call that the application awaits has no answer yet. -/
def pending (p : App Q) : Bool :=
  (p.call.bind (p.ep.connects[·]?)).any (·.pending)

/-- `ep_task` is blocked on a permit of the event channel. -/
def epBlocked (s : Ep Q) : Bool :=
  match s.pc with
  | .evtGuard m => (s.acquireEvt m).isNone
  | _ => false

/-- The application is blocked on the answer of its call. -/
def appBlocked (p : App Q) : Bool := (p.call.bind (p.ep.connects[·]?)).any (·.waits)

/-- Each waits for the other. -/
def Deadlock (p : App Q) : Prop := epBlocked p.ep ∧ p.appBlocked
deriving Decidable

/-- The condition on a step: `ep_task` emits no 64th event while the application awaits. -/
def Room (p : App Q) : AppAct → Prop
  | .ep .task => p.ep.pc.emits && p.pending → p.ep.evt.queue.length < 63
  | _ => True

instance (p : App Q) (a : AppAct) : Decidable (Room p a) := by
  unfold Room; split <;> infer_instance

/-! ## What the steps do to the events and to the calls -/

section Ep

open Ep

variable {s s' : Ep Q}

theorem queue_task (ht : TaskStep s s') : s'.evt.queue = s.evt.queue ∨
    s.pc.emits ∧ s'.evt.queue.length = s.evt.queue.length + 1 := by
  cases ht with
  | inCon hpc =>
    exact .inr ⟨by rw [hpc]; rfl, List.length_append⟩
  | put => exact .inl (by rw [insertCon_eq]; rfl)
  | @refuseNew addr rsp config err =>
    refine .inl ?_
    show (Ep.answer { s with cid := s.cid.cid.2, config } rsp (.error (.quiche err))).evt.queue = _
    rw [answer_eq]
  | @answerNew i scid rsp =>
    refine .inl ?_
    show ((s.insertCon scid i).answer rsp (.ok i)).evt.queue = _
    rw [answer_eq, insertCon_eq]
  | _ => exact .inl rfl

/-- `ep_task` only answers calls. -/
theorem connects_task (ht : TaskStep s s') (k : Nat) : s'.connects[k]? = s.connects[k]? ∨
    ∃ r, s'.connects[k]? = some (.answered r) := by
  rcases answers_task ht with ⟨rsp, r, ha⟩ | ⟨hc, -, -⟩
  · by_cases hw : s.connects[rsp]? = some .wait
    · rw [ha.wait hw]
      by_cases hk : rsp = k
      · subst hk
        exact .inr ⟨_, List.getElem?_set_self (List.getElem?_eq_some_iff.mp hw).1⟩
      · exact .inl (List.getElem?_set_ne hk)
    · exact .inl (by rw [ha.gone hw])
  · exact .inl (by rw [hc])

/-- The other parties leave the events and the calls alone. -/
theorem background_step {a : EpAct} (hr : s.cmd.rx = true) (hb : a.background) (ha : a ≠ .task)
    (hs : s.step a = some s') : s'.evt = s.evt ∧ s'.connects = s.connects ∧ s'.pc = s.pc ∧
      s'.evtGuard = s.evtGuard := by
  cases otherStep_cases hs ha hr with
  | udpAcquire | udpEnd | udpSend | udpRecv | con | otherCid => exact ⟨rfl, rfl, rfl, rfl⟩
  | _ => cases hb

end Ep

/-! ## The runs -/

variable {p p' : App Q}

/-- The endpoint moves by its own steps. -/
theorem step_steps {a : AppAct} (h : step a p = some p') :
    (Ep.sys Q).Steps (fun _ => True) p.ep p'.ep := by
  cases a with
  | ep a =>
    change p.stepEp a = some p' at h
    unfold stepEp at h
    split at h
    · obtain ⟨ep, hs, rfl⟩ := Option.map_eq_some_iff.mp h
      exact .one (a := a) trivial hs
    · cases h
  | take addr =>
    change p.take addr = some p' at h
    unfold take at h
    split at h
    · cases h
    · obtain ⟨ep, hs, rfl⟩ := Option.map_eq_some_iff.mp h
      obtain ⟨t, ht, hs⟩ := Option.bind_eq_some_iff.mp hs
      exact .trans (.one (a := .evtPoll) trivial ht) (.one (a := .connect addr) trivial hs)
  | acquire =>
    obtain ⟨k, -, h⟩ := Option.bind_eq_some_iff.mp h
    obtain ⟨ep, hs, rfl⟩ := Option.map_eq_some_iff.mp h
    exact .one (a := .connAcquire k) trivial hs
  | send =>
    obtain ⟨k, -, h⟩ := Option.bind_eq_some_iff.mp h
    obtain ⟨ep, hs, rfl⟩ := Option.map_eq_some_iff.mp h
    exact .one (a := .connSend k) trivial hs
  | resume =>
    obtain ⟨k, -, h⟩ := Option.bind_eq_some_iff.mp h
    split at h
    · cases h; exact .refl _
    · obtain ⟨ep, hs, rfl⟩ := Option.map_eq_some_iff.mp h
      exact .one (a := .connPoll k) trivial hs

theorem reach_ep (h : (sys Q).Reach p) : (Ep.sys Q).Reach p.ep := by
  induction h with
  | init hi => exact .init hi.1
  | @step p p' a _ hs ih => exact ih.steps (step_steps (p := p) (a := a) hs)

/-- While the application awaits, at most 63 events are queued. -/
def Paced (p : App Q) : Prop := p.pending → p.ep.evt.queue.length ≤ 63

theorem pending_of {p : App Q} {k : Nat} {x : ConnectCall} (hc : p.call = some k)
    (hk : p.ep.connects[k]? = some x) (hx : x.pending) : p.pending := by
  unfold pending
  rw [hc, Option.bind_some, hk]
  exact hx

/-- A background step answers calls, but makes none. -/
theorem pending_background {a : EpAct} {ep : Ep Q} (hr : (Ep.sys Q).Reach p.ep) (hb : a.background)
    (hs : p.ep.step a = some ep) (hp : ({ p with ep } : App Q).pending) : p.pending := by
  obtain ⟨x, hx, hxp⟩ := (Option.any_eq_true _ _).mp hp
  obtain ⟨k, hc, hk⟩ := Option.bind_eq_some_iff.mp hx
  have hsame : ep.connects[k]? = p.ep.connects[k]? := by
    rcases Ep.reach_cases hr hs with ⟨-, ht⟩ | ⟨ha, -⟩
    · refine (connects_task ht k).resolve_right fun ⟨r, hr⟩ => ?_
      rw [show ep.connects[k]? = some x from hk] at hr
      cases hr
      cases hxp
    · rw [(background_step (Ep.sys_control hr).rx hb ha hs).2.1]
  exact pending_of hc (hsame ▸ hk) hxp

theorem paced_ep {a : EpAct} {ep : Ep Q} (hr : (Ep.sys Q).Reach p.ep) (hi : Paced p)
    (hc : Room p (.ep a)) (hb : a.background) (hs : p.ep.step a = some ep) :
    Paced { p with ep } := by
  intro hp
  have hpp := pending_background hr hb hs hp
  rcases Ep.reach_cases hr hs with ⟨rfl, ht⟩ | ⟨ha, -⟩
  · rcases queue_task ht with hq | ⟨he, hq⟩
    · show ep.evt.queue.length ≤ 63
      rw [hq]
      exact hi hpp
    · have := hc (by rw [he, hpp]; rfl)
      show ep.evt.queue.length ≤ 63
      omega
  · show ep.evt.queue.length ≤ 63
    rw [(background_step (Ep.sys_control hr).rx hb ha hs).1]
    exact hi hpp

/-- The application took one of at most 64 events. -/
theorem queue_take {addr : SocketAddr} {t ep : Ep Q} (hr : (Ep.sys Q).Reach p.ep)
    (ht : p.ep.evtPoll = some t) (hs : t.connect addr = some ep) : ep.evt.queue.length ≤ 63 := by
  have hl := (Ep.sys_ledger hr).evt
  unfold Ep.evtPoll at ht
  split at ht
  · next hq =>
    cases ht
    unfold Ep.connect at hs
    split at hs
    · cases hs
      rw [hq, List.length_cons] at hl
      show List.length _ ≤ 63
      simp only [Ep.modCon, Ep.dropGuards, Chan.queue_release]
      omega
    · cases hs
  · cases ht

theorem paced_step {a : AppAct} (hr : (sys Q).Reach p) (hi : Paced p) (hc : Room p a)
    (hs : step a p = some p') : Paced p' := by
  have hre := reach_ep hr
  cases a with
  | ep a =>
    change p.stepEp a = some p' at hs
    unfold stepEp at hs
    split at hs
    · next hb =>
      obtain ⟨ep, hst, rfl⟩ := Option.map_eq_some_iff.mp hs
      exact paced_ep hre hi hc hb hst
    · cases hs
  | take addr =>
    change p.take addr = some p' at hs
    unfold take at hs
    split at hs
    · cases hs
    · obtain ⟨ep, hst, rfl⟩ := Option.map_eq_some_iff.mp hs
      obtain ⟨t, ht, hst⟩ := Option.bind_eq_some_iff.mp hst
      exact fun _ => queue_take hre ht hst
  | acquire =>
    obtain ⟨k, hk, hs⟩ := Option.bind_eq_some_iff.mp hs
    obtain ⟨ep, hs, rfl⟩ := Option.map_eq_some_iff.mp hs
    unfold Ep.connAcquire at hs
    split at hs
    · next hx =>
      split at hs
      · cases hs
      · cases hs; exact fun _ => hi (pending_of hk hx rfl)
    · cases hs
  | send =>
    obtain ⟨k, hk, hs⟩ := Option.bind_eq_some_iff.mp hs
    obtain ⟨ep, hs, rfl⟩ := Option.map_eq_some_iff.mp hs
    unfold Ep.connSend at hs
    split at hs
    · next hx =>
      rw [Ep.sendCmd_eq (s := { p.ep with connects := p.ep.connects.set k .wait })
        (Ep.sys_control hre).rx] at hs
      cases hs
      exact fun _ => hi (pending_of hk hx rfl)
    · cases hs
  | resume =>
    obtain ⟨k, -, hs⟩ := Option.bind_eq_some_iff.mp hs
    split at hs
    · cases hs; exact fun hp => (nomatch hp)
    · obtain ⟨ep, -, rfl⟩ := Option.map_eq_some_iff.mp hs; exact fun hp => (nomatch hp)

/-- `ep_task` is blocked only when 64 events are queued. -/
theorem queue_epBlocked {s : Ep Q} (hr : (Ep.sys Q).Reach s) (hb : epBlocked s) :
    s.evt.queue.length = 64 := by
  have hl := (Ep.sys_ledger hr).evt
  unfold epBlocked at hb
  split at hb
  · next m hpc =>
    unfold Ep.acquireEvt at hb
    split at hb
    · cases hb
    · next hg =>
      have hf : s.evt.free = 0 := by
        refine Nat.eq_zero_of_not_pos fun hp => ?_
        obtain ⟨ch, hch⟩ := Option.isSome_iff_exists.mp (Chan.acquire_isSome.mpr hp)
        rw [hch] at hb
        cases hb
      rw [hg, hf] at hl
      simpa using hl
  · cases hb

/-- Nobody leaves the deadlock. -/
theorem deadlock_keep {a : AppAct} (hr : (sys Q).Reach p) (hd : p.Deadlock)
    (hs : step a p = some p') : p'.Deadlock := by
  obtain ⟨he, ha⟩ := hd
  obtain ⟨x, hx, hw⟩ := (Option.any_eq_true _ _).mp ha
  obtain ⟨k, hk, hxk⟩ := Option.bind_eq_some_iff.mp hx
  obtain rfl : x = .wait := by cases x <;> first | rfl | cases hw
  cases a with
  | ep a =>
    change p.stepEp a = some p' at hs
    unfold stepEp at hs
    split at hs
    · next hb =>
      obtain ⟨ep, hst, rfl⟩ := Option.map_eq_some_iff.mp hs
      by_cases hat : a = .task
      · subst hat
        have hst : p.ep.taskStep = some ep := hst
        unfold epBlocked at he
        split at he
        · next m hpc =>
          rw [Ep.taskStep, hpc] at hst
          rw [show p.ep.acquireEvt m = some ep from hst] at he
          cases he
        · cases he
      · obtain ⟨h1, h2, h3, h4⟩ := background_step (Ep.sys_control (reach_ep hr)).rx hb hat hst
        refine ⟨?_, ?_⟩
        · unfold epBlocked Ep.acquireEvt at he ⊢
          rw [h3, h4, h1]
          cases hpc : p.ep.pc with
          | evtGuard m =>
            rw [hpc] at he
            cases hg : p.ep.evtGuard with
            | some g => rw [hg] at he; cases he
            | none =>
              rw [hg] at he
              simpa using he
          | _ => rw [hpc] at he; cases he
        · unfold appBlocked at ha ⊢
          rw [h2]
          exact ha
    · cases hs
  | take addr =>
    change p.take addr = some p' at hs
    rw [take, hk] at hs
    cases hs
  | acquire =>
    change p.acquire = some p' at hs
    rw [acquire, hk, Option.bind_some, Ep.connAcquire, hxk] at hs
    cases hs
  | send =>
    change p.send = some p' at hs
    rw [send, hk, Option.bind_some, Ep.connSend, hxk] at hs
    cases hs
  | resume =>
    change p.resume = some p' at hs
    rw [resume, hk, Option.bind_some, hxk] at hs
    simp [Ep.connPoll, hxk] at hs

/-- In a run whose steps meet the condition the two do not wait for each other. -/
theorem no_deadlock (h : (sys Q).ReachIf Room p) : ¬ p.Deadlock := by
  rintro ⟨he, ha⟩
  have hp : Paced p := h.invariant (fun p hi hp => by
    obtain ⟨-, hc⟩ := hi
    unfold pending at hp
    rw [hc] at hp
    cases hp) fun a p p' hr hi hc hs => paced_step hr hi hc hs
  obtain ⟨x, hx, hw⟩ := (Option.any_eq_true _ _).mp ha
  have hlen := hp ((Option.any_eq_true _ _).mpr ⟨x, hx, by cases x <;> first | rfl | cases hw⟩)
  rw [queue_epBlocked (reach_ep h.reach) he] at hlen
  exact absurd hlen (by decide)

/-- Two connections come in while the application awaits its call. -/
theorem no_deadlock_two : ∃ p : App (Quiche.inert ()),
    p.appBlocked ∧ p.ep.evt.queue.length = 2 ∧ ¬ p.Deadlock := by
  obtain ⟨p, hr, h⟩ := Lts.ReachIf.of_run_any (S := sys (Quiche.inert ())) (C := Room)
    ((EpAct.packet [] 6).map .ep ++ [.take .unspecified] ++
      (List.replicate 2 ((EpAct.packet [] 6).map .ep)).flatten ++ [.acquire, .send])
    (fun p => p.appBlocked && decide (p.ep.evt.queue.length = 2)) (s := ⟨_, none⟩)
    ⟨⟨0, (), none, rfl⟩, rfl⟩ (by decide +kernel)
  obtain ⟨hb, hl⟩ := Bool.and_eq_true_iff.mp h
  exact ⟨p, hb, of_decide_eq_true hl, no_deadlock hr⟩

/-- While the application awaits its call, 64 connections come in. -/
theorem not_no_deadlock : ¬ ∀ (Q : Quiche) (p : App Q), (sys Q).Reach p → ¬ p.Deadlock := by
  intro h
  obtain ⟨p, hr, hd⟩ := Lts.Reach.of_run_any (S := sys (Quiche.inert ()))
    ((EpAct.packet [] 6).map .ep ++ [.take .unspecified] ++
      (List.replicate 64 ((EpAct.packet [] 6).map .ep)).flatten ++ [.acquire, .send, .ep .task])
    (fun p => decide p.Deadlock) (s := ⟨_, none⟩) ⟨⟨0, (), none, rfl⟩, rfl⟩ (by decide +kernel)
  exact h _ p hr (of_decide_eq_true hd)

end App
end Absquic
