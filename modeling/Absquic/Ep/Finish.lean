import Absquic.Ep.Control

/-!
# The end of the tasks

`ep_task` and each `con_task` keep a clone of the sender of the channel they receive from
(`ep_cmd_send`, `con_cmd_send`), so `recv` never gives `None` to them (`not_closed`). When the users
have gone (`Gone`), `ep_task` waits and nobody is left to wake it (`waits_keep`).
-/

namespace Absquic

/-- `udp_task` has ended. -/
def UdpPc.over : UdpPc → Bool
  | .ended => true
  | _ => false

/-- `ep_task` is in its receive loop. -/
def EpPc.isRecv : EpPc → Bool
  | .recv => true
  | _ => false

/-- The user has dropped the handles, no `http3()` is in progress, no sleeper is left, and no command
is queued. -/
def Con.Gone {Q : Quiche} (c : Con Q) : Prop :=
  c.handle = .dropped ∧ c.evtRecv = .dropped ∧ (∀ x ∈ c.calls, x.live = false) ∧ c.sleepers = [] ∧
    c.cmd.queue = []
deriving Decidable

/-- `con_task` is blocked in its receive loop. -/
def Con.Blocked {Q : Quiche} (c : Con Q) : Prop := c.pc = .recv ∧ c.taskStep.isNone
deriving Decidable

namespace Ep

variable {Q : Quiche} {s s' : Ep Q}

/-- The users have gone: the handles are dropped, `udp_task` has ended, no `connect()` is in progress,
no command is queued, and so it is for the connections. -/
def Gone (s : Ep Q) : Prop :=
  s.handle = false ∧ s.evt.rx = false ∧ s.udpPc.over = true ∧ (∀ x ∈ s.connects, x.live = false) ∧
    s.cmd.queue = [] ∧ ∀ r ∈ s.cons, r.con.Gone
deriving Decidable

/-- `ep_task` is blocked in its receive loop. -/
def Blocked (s : Ep Q) : Prop := s.pc.isRecv ∧ s.taskStep.isNone
deriving Decidable

/-- The tasks of an endpoint end when their users have gone. -/
def Finishes (s₀ : Ep Q) : Prop :=
  ∀ s, (sys Q).Steps (fun _ => True) s₀ s → s.Gone → ¬ s.Blocked ∧ ∀ r ∈ s.cons, ¬ r.con.Blocked

/-! ## No loop ends -/

/-- The receive loop of a task of a reachable state has not ended. -/
theorem not_closed (h : (sys Q).Reach s) :
    s.pc.over = false ∧ ∀ r ∈ s.cons, r.con.pc ≠ .ended .closed := by
  refine ⟨(sys_control h).running, fun r hr hc => ?_⟩
  obtain ⟨i, hi⟩ := List.mem_iff_getElem?.mp hr
  cases (Con.sys_control (cons_reach h hi)).exit _ hc

/-- `ep_task` waits, and nobody has a sender with which to wake it. -/
structure Abandoned (s : Ep Q) : Prop where
  pc : s.pc = .recv
  handle : s.handle = false
  udp : s.udpPc.over = true
  connects : ∀ x ∈ s.connects, x.live = false
  queue : s.cmd.queue = []

theorem Abandoned.blocked (h : Abandoned s) : s.Blocked := by
  have hsend : s.cmdSenders ≠ 0 := by
    unfold cmdSenders; rw [h.pc]; simp [EpPc.over]
  refine ⟨by rw [h.pc]; rfl, ?_⟩
  unfold taskStep
  rw [h.pc]
  simp [recvCmd, h.queue, hsend]

theorem abandoned_of_gone (hg : s.Gone) (hb : s.Blocked) : Abandoned s := by
  obtain ⟨hh, -, hu, hc, hq, -⟩ := hg
  refine ⟨?_, hh, hu, hc, hq⟩
  have := hb.1
  cases hpc : s.pc <;> first | rfl | (rw [hpc] at this; cases this)

/-- A call that has not ended is needed. -/
theorem Abandoned.no_call (h : Abandoned s) {k : Nat} {x : ConnectCall} (hk : s.connects[k]? = some x)
    (hx : x.live = true) : False := by
  have := h.connects x (List.mem_of_getElem? hk)
  rw [hx] at this
  cases this

/-- No step ends the wait. -/
theorem abandoned_step {a : EpAct} (h : Abandoned s) (hs : step a s = some s') : Abandoned s' := by
  cases a with
  | task =>
    have hs : s.taskStep = some s' := hs
    have hb := h.blocked.2
    rw [hs] at hb
    cases hb
  | udp =>
    have hs : s.udpStep = some s' := hs
    have hu := h.udp
    unfold udpStep at hs
    cases hp : s.udpPc <;> rw [hp] at hu <;> first | cases hu; done | (rw [hp] at hs; cases hs)
  | udpRecv item =>
    have hs : s.udpRecv item = some s' := hs
    have hu := h.udp
    unfold udpRecv at hs
    split at hs
    · next hp => rw [hp] at hu; cases hu
    · cases hs
  | connect addr =>
    have hs : s.connect addr = some s' := hs
    unfold connect at hs
    rw [h.handle] at hs
    cases hs
  | connAcquire k =>
    have hs : s.connAcquire k = some s' := hs
    unfold connAcquire at hs
    split at hs
    · next hk => exact (h.no_call hk rfl).elim
    · cases hs
  | connSend k =>
    have hs : s.connSend k = some s' := hs
    unfold connSend at hs
    split at hs
    · next hk => exact (h.no_call hk rfl).elim
    · cases hs
  | connPoll k =>
    have hs : s.connPoll k = some s' := hs
    unfold connPoll at hs
    split at hs
    · next hk => exact (h.no_call hk rfl).elim
    · cases hs
  | connCancel k =>
    have hs : s.connCancel k = some s' := hs
    unfold connCancel at hs
    split at hs
    · next hk =>
      split at hs
      · next hx => exact (h.no_call hk hx).elim
      · cases hs
    · cases hs
  | evtPoll =>
    have hs : s.evtPoll = some s' := hs
    unfold evtPoll at hs
    split at hs
    · cases hs; exact ⟨h.pc, h.handle, h.udp, h.connects, h.queue⟩
    · cases hs
  | dropRecv | otherCid => cases hs; exact ⟨h.pc, h.handle, h.udp, h.connects, h.queue⟩
  | dropEp => cases hs; exact ⟨h.pc, rfl, h.udp, h.connects, h.queue⟩
  | con i a =>
    have hs : s.conStep i a = some s' := hs
    unfold conStep at hs
    split at hs
    · cases hs
    · split at hs
      · obtain ⟨c, -, rfl⟩ := Option.map_eq_some_iff.mp hs
        exact ⟨h.pc, h.handle, h.udp, h.connects, h.queue⟩
      · cases hs

/-- `ep_task` waits forever. -/
theorem waits_keep (hg : s.Gone) (hb : s.Blocked) (h : (sys Q).Steps (fun _ => True) s s') :
    s'.Blocked :=
  (h.invariant (I := Abandoned) (fun a s _ _ hi hs => abandoned_step (a := a) (s := s) hi hs)
    (abandoned_of_gone hg hb)).blocked

/-! ## Every endpoint -/

/-- The users drop their handles, and the udp stream ends. -/
theorem gone_run (n : Nat) (config : Q.Config) (h3Config : Option Q.H3Config) :
    ∃ s, (sys Q).Steps (fun _ => True) (quicheEp (.after n) config h3Config) s ∧ s.Gone ∧
      s.Blocked := by
  have hrun : ((sys Q).run [.dropEp, .dropRecv, .udp, .udpRecv none, .udp, .task, .task, .task]
      (quicheEp (.after n) config h3Config)).any (fun s => decide (s.Gone ∧ s.Blocked)) = true := rfl
  obtain ⟨s, hs, hp⟩ := (Option.any_eq_true _ _).mp hrun
  exact ⟨s, .run hs fun _ _ => trivial, of_decide_eq_true hp⟩

/-- The tasks of no endpoint end when their users have gone. -/
theorem not_finishes (n : Nat) (config : Q.Config) (h3Config : Option Q.H3Config) :
    ¬ Finishes (quicheEp (.after n) config h3Config) ∧
      ∀ s, (sys Q).Steps (fun _ => True) (quicheEp (.after n) config h3Config) s →
        s.pc.over = false ∧ (∀ r ∈ s.cons, r.con.pc ≠ .ended .closed) ∧
          (s.Gone → s.Blocked → ∀ s', (sys Q).Steps (fun _ => True) s s' → s'.Blocked) := by
  refine ⟨fun hf => ?_, fun s hs => ?_⟩
  · obtain ⟨s, hs, hg, hb⟩ := gone_run n config h3Config
    exact (hf s hs hg).1 hb
  · have hc := not_closed (.steps (.init ⟨n, config, h3Config, rfl⟩) hs)
    exact ⟨hc.1, hc.2, fun hg hb s' => waits_keep hg hb⟩

/-- With a connection that was made and dropped: both tasks wait. -/
theorem not_finishes_connected : ∃ s : Ep (Quiche.inert ()), (sys (Quiche.inert ())).Reach s ∧
    s.Gone ∧ s.Blocked ∧ ∃ r ∈ s.cons, r.con.Blocked := by
  obtain ⟨s, hr, hs⟩ := Lts.Reach.of_run_any (S := sys (Quiche.inert ()))
    ([.connect .unspecified, .connAcquire 0, .connSend 0, .task, .task, .task, .task, .connPoll 0] ++
      List.replicate 6 (.con 0 .task) ++ [.con 0 .dropCon, .con 0 .dropRecv, .dropEp, .dropRecv, .udp,
        .udpRecv none, .udp, .task, .task, .task])
    (fun s => decide (s.Gone ∧ s.Blocked ∧ ∃ r ∈ s.cons, r.con.Blocked)) ⟨0, (), none, rfl⟩
    (by decide +kernel)
  exact ⟨s, hr, of_decide_eq_true hs⟩

end Ep
end Absquic
