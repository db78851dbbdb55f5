import Absquic.Conn.Outbound

/-!
# Output is flushed

A call of quiche may queue output that only `send` takes out (`ConObs.queues`); `send` has taken out
all of it when it returns `Done`. `Flushed`: when `con_task` waits for a command, or has ended
otherwise than by an error of `send`, there is no such call after the last `Done`.

`should_send` is set for the commands that call quiche at once, and by `with_transport` when it
succeeds. So the h3 part leaves its output unsent if it runs for an `Http3` command, and if it
returns. `flushes` is that the step does not do so: then everything is flushed (`flushed_of_flushes`),
and a step that does leaves the next state, or the one after it, unflushed (`unflushed_soon`).
-/

namespace Absquic

/-- The calls that may queue output. -/
def ConObs.queues : ConObs → Bool
  | .recv | .onTimeout | .withTransport _ | .sendRequest | .poll _ | .recvBody _ _ => true
  | _ => false

/-- `send` has nothing more to send. -/
def ConObs.sendsAll : ConObs → Bool
  | .send (.error err) => err = .done
  | _ => false

/-- `send` failed. -/
def ConObs.sendFails : ConObs → Bool
  | .send (.error err) => err ≠ .done
  | _ => false

namespace Con

variable {Q : Quiche}

/-- Output may be left in the quiche connection. -/
def unsent (c : Con Q) : Bool := c.trace.unanswered ConObs.queues ConObs.sendsAll

/-- When `con_task` waits, or has ended otherwise than by an error of `send`, nothing is left. -/
def Flushed (c : Con Q) : Prop :=
  c.pc = .recv ∨ c.pc.over ∧ c.trace.any ConObs.sendFails = false → c.unsent = false

/-- `with_transport` is called next, and fails. -/
def transportFails (c : Con Q) : Bool :=
  !c.connected && Q.isEstablished c.con &&
    c.h3Config.any fun cfg => !(Q.withTransport c.now cfg c.con).2.isOk

/-- The next step of `con_task` is not one after which output is left: not the end of the h3 part
without `should_send`, nor one of its early returns. -/
def flushes (c : Con Q) : Bool :=
  match c.pc, c.h3Con with
  | .established, _ => !c.transportFails || c.shouldSend
  | .poll, some h3 =>
    match (Q.poll c.now c.con h3).2 with
    | .error err => err = .done && c.shouldSend
    | .ok (stream, e) => e ≠ .goAway && ((c.message stream e).isNone || c.evt.rx)
  | .recvBody stream, some h3 =>
    match (Q.recvBody c.now stream c.sendBuf c.con h3).2 with
    | .error err => err = .done
    | .ok _ => true
  | .recvDgram flow, some h3 =>
    match (Q.recvDgram c.now c.sendBuf c.con h3).2 with
    | .error err => err = .done
    | .ok (_, newFlow, _) => flow = newFlow
  | _, _ => true

/-! ## The trace -/

/-- Lines that are no calls of the list change nothing. -/
theorem unsent_quiet (t : List ConObs) {l : List ConObs}
    (hl : ∀ o ∈ l, o.queues = false ∧ o.sendsAll = false) :
    (t ++ l).unanswered ConObs.queues ConObs.sendsAll =
      t.unanswered ConObs.queues ConObs.sendsAll := by
  have hany : l.any ConObs.sendsAll = false :=
    List.any_eq_false.mpr fun o ho => by simp [(hl o ho).2]
  have hun : l.unanswered ConObs.queues ConObs.sendsAll = false := by
    refine List.unanswered_eq_false.mpr ?_
    rintro pre o post rfl hq
    rw [(hl o (by simp)).1] at hq
    cases hq
  rw [List.unanswered_append, hany, hun, Bool.not_false, Bool.and_true, Bool.or_false]

/-- A call that may queue output. -/
theorem unsent_call (t : List ConObs) {o : ConObs} (hq : o.queues = true) :
    (t ++ [o]).unanswered ConObs.queues ConObs.sendsAll = true := by
  rw [List.unanswered_append]
  simp [List.unanswered, hq]

/-- The `Done` of `send`. -/
theorem unsent_done (t : List ConObs) :
    (t ++ [ConObs.send (.error .done)]).unanswered ConObs.queues ConObs.sendsAll = false := by
  rw [List.unanswered_append]
  simp [List.unanswered, ConObs.sendsAll, ConObs.queues]

/-- While the task runs, `send` has not failed. -/
theorem no_sendFails {c : Con Q} (h : (sys Q).Reach c) (ho : c.pc.over = false) :
    c.trace.any ConObs.sendFails = false := by
  refine List.any_eq_false.mpr fun o hm hf => ?_
  have hfails : o.fails := by
    unfold ConObs.sendFails at hf
    split at hf
    · exact hf
    · cases hf
  rw [returned_of_fails h hm hfails] at ho
  cases ho

/-! ## The invariant -/

/-- At each place: is output left only if `should_send` is set, or none at all? Inside the h3 part,
and while `send` is called, anything may be left. -/
def Owed (c : Con Q) : Prop :=
  match c.pc with
  | .recv | .cmd _ => c.unsent = false
  | .evtGuard | .established | .flush => c.unsent = true → c.shouldSend = true
  | .ended _ => c.trace.any ConObs.sendFails = true
  | _ => True

theorem owed_dispatch (c : Con Q) {cmd : ConCmd} (h : c.unsent = false) :
    (c.dispatch cmd).unsent = true → (c.dispatch cmd).shouldSend = true := by
  cases cmd with
  | tick | timeout | inPak => exact fun _ => rfl
  | http3 item rsp =>
    intro hu
    have ht : (c.dispatch (.http3 item rsp)).trace = c.trace := by
      rw [dispatch]
      split <;> rfl
    unfold unsent at h hu
    rw [ht, h] at hu
    cases hu

theorem owed_enterH3 {c : Con Q} (h : c.h3Con = none → c.unsent = true → c.shouldSend = true) :
    Owed c.enterH3 := by
  unfold enterH3
  cases hh : c.h3Con with
  | none => exact h hh
  | some h3 => trivial

theorem put_quiet (c : Con Q) (e : ConEvt) :
    ∀ o ∈ c.put e, o.queues = false ∧ o.sendsAll = false := by
  intro o ho
  unfold put at ho
  split at ho
  · rw [List.mem_singleton.mp ho]
    exact ⟨rfl, rfl⟩
  · cases ho

/-- The connection was established. -/
theorem owed_connect {c c₁ : Con Q} {cmd : Chan ConSem ConCmd} {evt : Chan ConSem ConEvt}
    (hpc : c.pc = .established) (hn : c.connected = false) (he : Q.isEstablished c.con = true)
    (h1 : c₁ = { c with connected := true }.setupH3) (hf : c.flushes = true) (ho : Owed c) :
    Owed ({ c₁ with
      cmd, evt, evtGuard := none, trace := c₁.trace ++ c.put .connected } : Con Q).enterH3 := by
  have ho : c.unsent = true → c.shouldSend = true := by unfold Owed at ho; rwa [hpc] at ho
  refine owed_enterH3 fun hnone hu => ?_
  have hnone : c₁.h3Con = none := hnone
  have hu : c₁.unsent = true := (unsent_quiet c₁.trace (c.put_quiet .connected)).symm.trans hu
  show c₁.shouldSend = true
  obtain ⟨-, hs⟩ | ⟨cfg, con, h3, -, -, hs⟩ | ⟨cfg, con, err, hcfg, hw, hs⟩ :=
    setupH3_cases { c with connected := true }
  · rw [← h1] at hs
    subst hs
    exact ho hu
  · rw [← h1] at hs
    subst hs
    cases hnone
  · rw [← h1] at hs
    subst hs
    -- `with_transport` failed
    have hcfg : c.h3Config = some cfg := hcfg
    have hw : Q.withTransport c.now cfg c.con = (con, .error err) := hw
    have hfail : c.transportFails = true := by
      unfold transportFails
      rw [hn, he, hcfg, Option.any_some, hw]
      rfl
    unfold flushes at hf
    rw [hpc, hfail] at hf
    exact hf

/-- Inside the h3 part, or while `send` is called. -/
theorem owed_of_free {c : Con Q} {p : ConPc} (hpc : c.pc = p) (hfree : p.inH3 || p = .send) :
    Owed c := by
  unfold Owed
  rw [hpc]
  cases p <;> trivial

/-- A step of `con_task`. -/
theorem owed_task {c c' : Con Q} (h : TaskStep c c') (hf : c.flushes = true) (ho : Owed c) :
    Owed c' := by
  cases h with
  | take hpc => unfold Owed at ho; rw [hpc] at ho; exact ho
  | @dispatch cmd d _ _ hpc =>
    have hu : c.unsent = false := by unfold Owed at ho; rwa [hpc] at ho
    intro hu'
    have hq := unsent_quiet (c.dispatch cmd).trace (l := [.timeout d])
      (by simp [ConObs.queues, ConObs.sendsAll])
    exact owed_dispatch c hu (hq.symm.trans hu')
  | reserve hpc => unfold Owed at ho; rw [hpc] at ho; exact ho
  | connect hpc hn he h1 => exact owed_connect hpc hn he h1 hf ho
  | skip hpc =>
    unfold Owed at ho
    rw [hpc] at ho
    exact owed_enterH3 fun _ => ho
  | requested | reserveH3 | message | bodyDone | dgramDone | flush => trivial
  | request _ hp => rcases hp with rfl | rfl <;> exact owed_of_free rfl rfl
  | pollDone hpc h3c hq =>
    unfold flushes at hf
    rw [hpc, h3c] at hf
    simp only [hq, decide_true, Bool.true_and] at hf
    exact fun _ => hf
  | pollErr hpc h3c hq he =>
    unfold flushes at hf
    rw [hpc, h3c] at hf
    simp [hq, he] at hf
  | goAway hpc h3c hq =>
    unfold flushes at hf
    rw [hpc, h3c] at hf
    simp [hq] at hf
  | @event _ _ stream e => cases e <;> trivial
  | lost hpc h3c hq hg hm hr =>
    unfold flushes at hf
    rw [hpc, h3c] at hf
    simp [hq, hm, hr] at hf
  | bodyErr hpc h3c hq he =>
    unfold flushes at hf
    rw [hpc, h3c] at hf
    simp [hq, he] at hf
  | @chunk _ x stream chunk hpc =>
    obtain ⟨m, hm⟩ := pushBody_spec (c.called x (.recvBody stream (.ok chunk))) stream chunk
    rw [hm]
    exact owed_of_free (p := .recvBody stream) hpc rfl
  | dgramErr hpc h3c hq he =>
    unfold flushes at hf
    rw [hpc, h3c] at hf
    simp [hq, he] at hf
  | badFlow hpc h3c hq hne =>
    unfold flushes at hf
    rw [hpc, h3c] at hf
    simp [hq, hne] at hf
  | @dgram _ _ flow _ _ hpc => exact owed_of_free (p := .recvDgram flow) hpc rfl
  | unsent hpc hs =>
    unfold Owed at ho
    rw [hpc] at ho
    exact Bool.eq_false_iff.mpr fun hu => by rw [ho hu] at hs; cases hs
  | sendDone => exact unsent_done c.trace
  | sendErr _ _ he =>
    show List.any _ _ = true
    simp [ConObs.sendFails, he, endTask, log, dropRsps, dropGuards]
  | sent hpc => exact owed_of_free (p := .send) hpc rfl

/-- A step of another party. -/
theorem owed_other {a : ConAct} {c c' : Con Q} (h : step a c = some c') (ha : a ≠ .task)
    (ho : Owed c) : Owed c' := by
  have hf := frame_step h ha
  obtain ⟨he, -⟩ := other_step h ha
  obtain ⟨l, hl, hb⟩ := hf.trace
  have hu : c'.unsent = c.unsent := by
    unfold unsent
    rw [hl]
    refine unsent_quiet c.trace fun o hm => ?_
    have := hb o hm
    cases o <;> first | exact ⟨rfl, rfl⟩ | cases this
  have hs : c'.shouldSend = c.shouldSend := by rw [he]
  have hany : c.trace.any ConObs.sendFails = true → c'.trace.any ConObs.sendFails = true := by
    intro hany
    rw [hl, List.any_append, hany]
    rfl
  unfold Owed at ho ⊢
  rw [hf.pc, hu, hs]
  split at ho
  all_goals first | exact ho | exact hany ho

/-- In every run in which no step leaves output in the h3 part, the output is flushed before the
task waits or ends. -/
theorem flushed_of_flushes {c : Con Q} (h : (sys Q).ReachIf (OnTask (·.flushes)) c) :
    c.Flushed := by
  have ho : Owed c := by
    refine h.invariant (I := Owed) ?_ ?_
    · rintro c ⟨h3Config, con, hq⟩
      cases hq
      rfl
    · intro a c c' hr ho hf hs
      rcases reach_cases hr hs with ⟨ha, ht⟩ | ⟨ha, -⟩
      · exact owed_task ht (hf ha) ho
      · exact owed_other (Q := Q) (c := c) hs ha ho
  rintro (hpc | ⟨hov, hnf⟩)
  · unfold Owed at ho
    rwa [hpc] at ho
  · unfold Owed at ho
    cases hpc : c.pc <;> rw [hpc] at ho hov <;> first | (cases hov; done) | skip
    rw [hnf] at ho
    cases ho

/-! ## The other steps -/

/-- The `poll` that gave the event of a datagram loop may have queued output. -/
theorem unsent_recvDgram {c : Con Q} (h : (sys Q).Reach c) {flow : UInt64}
    (hpc : c.pc = .recvDgram flow) : c.unsent = true := by
  refine h.invariant (I := fun c => ∀ flow, c.pc = .recvDgram flow → c.unsent = true) ?_ ?_ flow hpc
  · rintro c ⟨h3Config, con, hq⟩
    cases hq
    nofun
  · intro a c c' hr ih hs flow hpc
    rcases reach_cases hr hs with ⟨-, ht⟩ | ⟨-, hf⟩
    · cases ht with
      | event => exact unsent_call c.trace rfl
      | request _ hp => rcases hp with rfl | rfl <;> cases hpc
      | @chunk _ x stream chunk hpc' =>
        obtain ⟨m, hm⟩ := pushBody_spec (c.called x (.recvBody stream (.ok chunk))) stream chunk
        rw [hm] at hpc
        have hpc : c.pc = .recvDgram flow := hpc
        rw [hpc] at hpc'
        cases hpc'
      | @dgram _ x flow' a b hpc' =>
        refine (unsent_quiet c.trace (l := [.recvDgram (.ok (a, flow', b))]) ?_).trans (ih _ hpc')
        simp [ConObs.queues, ConObs.sendsAll]
      | sent hpc' =>
        have hpc : c.pc = .recvDgram flow := hpc
        rw [hpc] at hpc'
        cases hpc'
      | connect | skip => unfold enterH3 at hpc; split at hpc <;> cases hpc
      | _ => cases hpc
    · obtain ⟨l, hl, hb⟩ := hf.trace
      rw [hf.pc] at hpc
      unfold unsent
      rw [hl]
      refine (unsent_quiet c.trace fun o hm => ?_).trans (ih flow hpc)
      have := hb o hm
      cases o <;> first | exact ⟨rfl, rfl⟩ | cases this

/-- The end of the loop body without `should_send`. -/
theorem unflushed_flush {c : Con Q} (hpc : c.pc = .flush) (hs : c.shouldSend = false)
    (hu : c.unsent = true) : ∃ d, (d = c ∨ c.taskStep = some d) ∧ ¬ d.Flushed := by
  refine ⟨c.nextCmd, .inr ?_, fun hf => ?_⟩
  · unfold taskStep Con.flush
    rw [hpc, hs]
    rfl
  · have hu' : c.nextCmd.unsent = false := hf (.inl rfl)
    rw [show c.nextCmd.unsent = c.unsent from rfl, hu] at hu'
    cases hu'

/-- A return after the line `o`. -/
theorem unflushed_endTask {c d : Con Q} {o : ConObs} (hr : (sys Q).Reach c)
    (hov : c.pc.over = false) (ht : d.trace = c.trace ++ [o]) (ho : o.sendFails = false)
    (hu : o.queues = true ∨ c.unsent = true ∧ o.sendsAll = false) :
    ¬ (d.endTask .returned).Flushed := by
  intro hf
  have hnf : (d.endTask .returned).trace.any ConObs.sendFails = false := by
    show d.trace.any _ = false
    rw [ht, List.any_append, no_sendFails hr hov, List.any_cons, ho]
    rfl
  have hun : d.unsent = false := hf (.inr ⟨rfl, hnf⟩)
  unfold unsent at hun
  rw [ht] at hun
  rcases hu with hq | ⟨hu, hq⟩
  · rw [unsent_call c.trace hq] at hun
    cases hun
  · unfold unsent at hu
    rw [List.unanswered_append, hu] at hun
    simp [hq] at hun

/-- A step that leaves output: the task ends at once or waits after the next step, and is not
flushed. -/
theorem unflushed_soon {c c' : Con Q} (hr : (sys Q).Reach c) (h : c.taskStep = some c')
    (hf : c.flushes = false) : ∃ d, (d = c' ∨ c'.taskStep = some d) ∧ ¬ d.Flushed := by
  have ht := taskStep_cases h (sys_control hr)
  have hov := ht.not_over
  have hpc' : ∀ {pc : ConPc}, c.pc = pc → pc ≠ .established → pc ≠ .poll →
      (∀ stream, pc ≠ .recvBody stream) → (∀ flow, pc ≠ .recvDgram flow) → False := by
    intro pc hpc h1 h2 h3 h4
    unfold flushes at hf
    rw [hpc] at hf
    split at hf <;> simp_all
  cases ht with
  | take hpc | dispatch hpc | reserve hpc | requested hpc | request hpc | reserveH3 hpc | flush hpc
  | unsent hpc | sendDone hpc | sendErr hpc | sent hpc =>
    exact (hpc' hpc nofun nofun nofun nofun).elim
  | skip hpc hn =>
    unfold flushes transportFails at hf
    rw [hpc] at hf
    rcases hn with hn | hn <;> simp [hn] at hf
  | @connect c₁ cmd evt hpc hn he h1 =>
    unfold flushes at hf
    rw [hpc, Bool.or_eq_false_iff] at hf
    obtain ⟨htf, hs⟩ := hf
    unfold transportFails at htf
    rw [hn, he] at htf
    obtain ⟨hcfg, -⟩ | ⟨cfg, con, h3, hcfg, hw, -⟩ | ⟨cfg, con, err, hcfg, hw, hset⟩ :=
      setupH3_cases { c with connected := true }
    · have hcfg : c.h3Config = none := hcfg
      rw [hcfg] at htf
      cases htf
    · have hcfg : c.h3Config = some cfg := hcfg
      have hw : Q.withTransport c.now cfg c.con = (con, .ok h3) := hw
      rw [hcfg, Option.any_some, hw] at htf
      cases htf
    · rw [← h1] at hset
      subst hset
      exact unflushed_flush rfl hs
        ((unsent_quiet _ (c.put_quiet .connected)).trans (unsent_call c.trace rfl))
  | pollDone hpc h3c hq =>
    unfold flushes at hf
    rw [hpc, h3c] at hf
    simp only [hq, decide_true, Bool.true_and] at hf
    exact unflushed_flush rfl hf (unsent_call c.trace rfl)
  | pollErr | goAway => exact ⟨_, .inl rfl, unflushed_endTask hr hov rfl rfl (.inl rfl)⟩
  | lost _ _ _ _ _ _ _ h1 =>
    subst h1
    exact ⟨_, .inl rfl, unflushed_endTask hr hov rfl rfl (.inl rfl)⟩
  | bodyErr => exact ⟨_, .inl rfl, unflushed_endTask hr hov rfl rfl (.inl rfl)⟩
  | dgramErr hpc | badFlow hpc =>
    exact ⟨_, .inl rfl, unflushed_endTask hr hov rfl rfl (.inr ⟨unsent_recvDgram hr hpc, rfl⟩)⟩
  | event hpc h3c hq hg hm =>
    unfold flushes at hf
    rw [hpc, h3c] at hf
    simp [hq, hg, hm] at hf
  | message hpc h3c hq hg hm hrx =>
    unfold flushes at hf
    rw [hpc, h3c] at hf
    simp [hq, hg, hrx] at hf
  | bodyDone hpc h3c hq | chunk hpc h3c hq | dgramDone hpc h3c hq | dgram hpc h3c hq =>
    unfold flushes at hf
    rw [hpc, h3c] at hf
    simp [hq] at hf

/-- A connection with h3, through its first command. -/
theorem flushed_of_flushes_tick : ∃ c : Con Quiche.scripted, c.pc = .recv ∧ c.trace.length = 5 ∧
    c.unsent = false := by
  obtain ⟨c₀, h₀⟩ : ∃ c₀, quicheCon (Q := Quiche.scripted) (some ()) ([] : List Answer) = some c₀ :=
    ⟨_, rfl⟩
  obtain ⟨c, hr, hc⟩ := Lts.ReachIf.of_run_any (S := sys Quiche.scripted)
    (C := OnTask (·.flushes)) (List.replicate 9 .task)
    (fun (c : Con Quiche.scripted) => decide (c.pc = .recv ∧ c.trace.length = 5)) ⟨_, _, h₀⟩
    (by cases h₀; decide +kernel)
  obtain ⟨hpc, hl⟩ := of_decide_eq_true hc
  exact ⟨c, hpc, hl, flushed_of_flushes hr (.inl hpc)⟩

/-- A request on an h3 connection is not flushed. -/
theorem not_flushed : ¬ ∀ (Q : Quiche) (c : Con Q), (sys Q).Reach c → c.Flushed := by
  intro h
  obtain ⟨c₀, h₀⟩ : ∃ c₀, quicheCon (Q := Quiche.scripted) (some ()) ([] : List Answer) = some c₀ :=
    ⟨_, rfl⟩
  obtain ⟨c, hr, hc⟩ := Lts.Reach.of_run_any (S := sys Quiche.scripted)
    ([.deliver, .http3 ⟨[], [], u64Max⟩, .callAcquire 0, .callSend 0] ++ List.replicate 17 .task)
    (fun (c : Con Quiche.scripted) => decide (c.pc = .recv ∧ c.unsent = true)) ⟨_, _, h₀⟩
    (by cases h₀; decide +kernel)
  obtain ⟨hpc, hu⟩ := of_decide_eq_true hc
  rw [h _ c hr (.inl hpc)] at hu
  cases hu

end Con
end Absquic
