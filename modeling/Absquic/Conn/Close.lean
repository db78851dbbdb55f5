import Absquic.Conn.Served
import Absquic.Conn.Slots

/-!
# Closed connections

`con_task` never asks `is_closed()`. It ends when an h3 call or `send` answers with an error, when
the peer goes away, or when nobody receives its http3 events. `Noticed`: a call that leaves the
connection closed is followed by one of these: after lines 223-251 there is an h3 connection to
poll, the poll of a closed connection does not answer `Done`, and a `send` that closes fails. Then
(`close_noticed`) `con_task` never waits with a closed connection, and as it comes back for the next
command unless it ends (`GoesOn.rests`), it ends; the stream of events ends, and the calls that wait
get `ConShutdown`. Without it (`close_missed`) the task waits with a closed connection at the end of
the same loop body.
-/

namespace Absquic

/-- What is assumed of a closed connection: it stays closed, has no timer and sends nothing. -/
structure Quiche.ClosedIsFinal (Q : Quiche) : Prop where
  recv : ∀ now data addr con, Q.isClosed con → Q.isClosed (Q.recv now data addr con)
  onTimeout : ∀ now con, Q.isClosed con → Q.isClosed (Q.onTimeout now con)
  timeout : ∀ now con, Q.isClosed con → Q.timeout now con = none
  send : ∀ now len con, Q.isClosed con →
    Q.isClosed (Q.send now len con).1 ∧ (Q.send now len con).2 = .error .done
  withTransport : ∀ now cfg con, Q.isClosed con → Q.isClosed (Q.withTransport now cfg con).1
  sendRequest : ∀ now hs fin con h3, Q.isClosed con →
    Q.isClosed (Q.sendRequest now hs fin con h3).1.1
  poll : ∀ now con h3, Q.isClosed con → Q.isClosed (Q.poll now con h3).1.1
  recvBody : ∀ now stream len con h3, Q.isClosed con →
    Q.isClosed (Q.recvBody now stream len con h3).1.1
  recvDgram : ∀ now len con h3, Q.isClosed con → Q.isClosed (Q.recvDgram now len con h3).1.1

/-- The places after the h3 part. -/
def ConPc.past : ConPc → Bool
  | .recv | .flush | .send => true
  | _ => false

namespace Con

variable {Q : Quiche}

/-- Is there an h3 connection after lines 223-251? -/
def h3After (c : Con Q) : Bool :=
  if !c.connected && Q.isEstablished c.con then
    match c.h3Config with
    | none => c.h3Con.isSome
    | some cfg => (Q.withTransport c.now cfg c.con).2.isOk
  else c.h3Con.isSome

/-- Is the task kept from waiting (module doc), if its next call of quiche leaves the connection
closed? -/
def notices (c : Con Q) : Bool :=
  match c.pc, c.h3Con with
  | .established, _ => c.h3After
  | .poll, some h3 =>
    match (Q.poll c.now c.con h3).2 with
    | .error .done => false
    | _ => true
  | .send, _ =>
    match (Q.send c.now c.sendBuf c.con).2 with
    | .error .done | .ok _ => false
    | .error _ => true
  | _, _ => true

/-- If the next call of quiche leaves the connection closed, the code notices it. -/
def Noticed (c : Con Q) : Prop := Q.isClosed c.conAfter = true → c.notices = true
deriving Decidable

/-! ## Where a step leads -/

theorem pc_acquireEvt {c c' : Con Q} {next : ConPc} (h : c.acquireEvt next = some c') :
    c'.pc = next := by
  unfold acquireEvt at h
  split at h
  · cases h; rfl
  · obtain ⟨evt, -, rfl⟩ := Option.map_eq_some_iff.mp h; rfl

theorem past_schedTimeout (c : Con Q) : c.schedTimeout.pc.past = false := by
  unfold schedTimeout
  simp only
  split
  · rfl
  · split <;> rfl

theorem h3Con_setupH3 {c : Con Q} : c.setupH3.h3Con.isSome = match c.h3Config with
    | none => c.h3Con.isSome
    | some cfg => (Q.withTransport c.now cfg c.con).2.isOk := by
  unfold setupH3
  cases c.h3Config with
  | none => rfl
  | some cfg => simp only; split <;> (next hq => rw [hq]; rfl)

theorem pc_establish {c : Con Q} (hg : c.evtGuard ≠ none) :
    c.establish.pc = if c.h3After then .sendRequest else .flush := by
  unfold establish h3After
  split
  · simp only
    have h3 := h3Con_setupH3 (c := { c with connected := true })
    split
    · next h =>
      refine absurd h (sendEvt_ne_none ?_ _)
      rw [setupH3_spec]
      exact hg
    · next c' ok h =>
      obtain ⟨-, -, -, he⟩ := sendEvt_spec h
      unfold enterH3
      rw [he]
      simp only [h3]
  · rfl

theorem past_sendRequest {c : Con Q} {h3 : Q.H3Connection} (hpc : c.pc = .sendRequest) :
    (c.sendRequest h3).pc.past = false := by
  unfold sendRequest
  split
  · rfl
  · simp only
    split
    · rfl
    · change c.pc.past = false; rw [hpc]; rfl

theorem past_sendHttp3 (c : Con Q) (item : Http3Msg) : (c.sendHttp3 item).pc.past = false := by
  unfold sendHttp3
  split <;> rfl

theorem past_onEvent (c : Con Q) (stream : UInt64) (e : H3Event) :
    (c.onEvent stream e).pc.past = false := by
  cases e with
  | headers list hasBody =>
    rw [onEvent]
    split
    · rfl
    · exact past_sendHttp3 _ _
  | finished =>
    rw [onEvent]
    split
    · rfl
    · exact past_sendHttp3 _ _
  | data => rfl
  | reset code => rfl
  | datagram => rfl
  | goAway => rfl

/-- Only a poll that answers `Done` leads out of the h3 part. -/
theorem past_poll {c : Con Q} {h3 : Q.H3Connection} (h : (c.poll h3).pc.past) :
    (Q.poll c.now c.con h3).2 = .error .done := by
  unfold poll at h
  simp only at h
  split at h
  · assumption
  · cases h
  · rw [past_onEvent] at h; cases h

theorem past_recvBody {c : Con Q} {h3 : Q.H3Connection} {stream : UInt64}
    (hpc : c.pc = .recvBody stream) : (c.recvBody h3 stream).pc.past = false := by
  unfold recvBody
  simp only
  split
  · rfl
  · rfl
  · have hp : ConPc.past c.pc = false := by rw [hpc]; rfl
    unfold pushBody
    split <;> exact hp

theorem past_recvDgram {c : Con Q} {h3 : Q.H3Connection} {flow : UInt64}
    (hpc : c.pc = .recvDgram flow) : (c.recvDgram h3 flow).pc.past = false := by
  unfold recvDgram
  simp only
  split
  · rfl
  · rfl
  · split
    · rfl
    · change c.pc.past = false; rw [hpc]; rfl

/-- A `send` that fails with another error than `Done` ends the task. -/
theorem past_send {c : Con Q} (h : c.send.pc.past) {err : QuicheError}
    (he : (Q.send c.now c.sendBuf c.con).2 = .error err) : err = .done := by
  unfold send at h
  simp only [he] at h
  split at h
  · next hd => cases hd; rfl
  · cases h
  · next ho => cases ho

/-! ## Runs -/

/-- After the h3 part the connection is open. -/
def Open (c : Con Q) : Prop := c.pc = .flush ∨ c.pc = .send ∨ c.Waits → Q.isClosed c.con = false

theorem open_task {c c' : Con Q} (h : c.taskStep = some c') (hc : Control c) (ho : Open c)
    (hn : c.Noticed) : Open c' := by
  intro hp
  have hpast : c'.pc.past := by
    obtain hp | hp | hp := hp
    · rw [hp]; rfl
    · rw [hp]; rfl
    · rw [hp.1]; rfl
  have hcon := con_taskStep h
  rw [hcon]
  refine Bool.eq_false_iff.mpr fun hcl => ?_
  have hn := hn hcl
  unfold taskStep at h
  split at h
  · unfold recvCmd at h
    split at h
    · cases h; cases hpast
    · split at h
      · cases h; cases hpast
      · cases h
  · cases h; rw [past_schedTimeout] at hpast; cases hpast
  · rw [pc_acquireEvt h] at hpast; cases hpast
  · next hpc =>
    cases h
    unfold notices at hn
    rw [hpc] at hn
    rw [pc_establish (hc.evt (by rw [hpc]; rfl)), if_pos hn] at hpast
    cases hpast
  · next hpc =>
    obtain ⟨h3, -, rfl⟩ := Option.map_eq_some_iff.mp h
    rw [past_sendRequest hpc] at hpast; cases hpast
  · rw [pc_acquireEvt h] at hpast; cases hpast
  · next hpc =>
    obtain ⟨h3, h3c, rfl⟩ := Option.map_eq_some_iff.mp h
    unfold notices at hn
    simp only [hpc, h3c, past_poll hpast] at hn
    cases hn
  · next hpc =>
    obtain ⟨h3, -, rfl⟩ := Option.map_eq_some_iff.mp h
    rw [past_recvBody hpc] at hpast; cases hpast
  · next hpc =>
    obtain ⟨h3, -, rfl⟩ := Option.map_eq_some_iff.mp h
    rw [past_recvDgram hpc] at hpast; cases hpast
  · next hpc =>
    cases h
    rw [← con_flush hpc] at hcl
    have hf : c.flush.con = c.con := by unfold flush; split <;> rfl
    rw [hf, ho (.inl hpc)] at hcl
    cases hcl
  · next hpc =>
    cases h
    unfold notices at hn
    simp only [hpc] at hn
    split at hn
    · cases hn
    · cases hn
    · next hne he => exact hne (past_send hpast he)
  · cases h

theorem open_other {a : ConAct} {c c' : Con Q} (h : step a c = some c') (ha : a ≠ .task)
    (ho : Open c) : Open c' := by
  have hf := frame_step h ha
  intro hp
  rw [hf.con]
  rw [hf.pc] at hp
  exact ho (hp.imp_right fun hp => hp.imp_right (Waits.of_frame · hf))

/-! ## What every step keeps of a closed connection -/

theorem closed_conAfter (hq : Q.ClosedIsFinal) {c : Con Q} (h : Q.isClosed c.con) :
    Q.isClosed c.conAfter := by
  unfold conAfter
  split
  · exact hq.onTimeout _ _ h
  · exact hq.recv _ _ _ _ h
  · split
    · cases c.h3Config with
      | none => exact h
      | some cfg => exact hq.withTransport _ _ _ h
    · exact h
  · split
    · exact h
    · exact hq.sendRequest _ _ _ _ _ h
  · exact hq.poll _ _ _ h
  · exact hq.recvBody _ _ _ _ _ h
  · exact hq.recvDgram _ _ _ _ h
  · exact (hq.send _ _ _ h).1
  · exact h

theorem closed_step (hq : Q.ClosedIsFinal) {a : ConAct} {c c' : Con Q} (hs : step a c = some c')
    (h : Q.isClosed c.con) : Q.isClosed c'.con := by
  by_cases ha : a = .task
  · subst ha
    rw [con_taskStep hs]
    exact closed_conAfter hq h
  · rw [(frame_step hs ha).con]
    exact h

/-! ## The task ends -/

/-- The timeout is read after every command. -/
theorem timeout_dispatch {c c' : Con Q} {cmd : ConCmd} (hr : (sys Q).Reach c)
    (h : c.taskStep = some c') (hpc : c.pc = .cmd cmd) : c'.trace.any (·.isTimeout) := by
  cases taskStep_cases h (sys_control hr) with
  | dispatch =>
    show ((c.dispatch _).trace ++ [ConObs.timeout _]).any (·.isTimeout) = true
    simp [ConObs.isTimeout]
  | _ hp => cases hpc.symm.trans hp

theorem timeout_step {a : ConAct} {c c' : Con Q} (hs : step a c = some c')
    (h : c.trace.any (·.isTimeout)) : c'.trace.any (·.isTimeout) := by
  obtain ⟨l, hl⟩ := trace_grows hs
  rw [hl, List.any_append, h]
  rfl

/-- The first command is handled. -/
theorem GoesOn.first (d : Q.Drains) {r : (sys Q).Execution} (hf : GoesOn r) :
    ∃ n, (r.state n).pc.over ∨ (r.state n).trace.any (·.isTimeout) := by
  obtain ⟨k, hk | hk⟩ := hf.commands d 0
  · exact ⟨0 + k, .inl (by simpa [cmds] using hk)⟩
  · have htick : ConCmd.tick ∈ (cmds Q).queue (r.state 0) := by
      obtain ⟨h3Config, con, hq⟩ := r.start
      obtain ⟨s, hs⟩ : ∃ s, r.state 0 = s := ⟨_, rfl⟩
      rw [hs] at hq ⊢
      cases hq
      exact List.mem_singleton.mpr rfl
    obtain ⟨m, -, a, ha, hx⟩ := Lts.Execution.mem_gather_acts (hk.subset htick)
    have hs : step a (r.state m) = some (r.state (m + 1)) := Lts.Execution.step_act ha
    have hx : ConCmd.tick ∈ handles a (r.state m) (r.state (m + 1)) := hx
    cases a with
    | task =>
      have hx : (r.state m).pc.cmd? = some .tick := Option.mem_toList.mp hx
      refine ⟨m + 1, .inr (timeout_dispatch (r.reach m) hs (?_ : _ = ConPc.cmd .tick))⟩
      cases hpc : (r.state m).pc with
      | cmd cmd => rw [hpc] at hx; cases hx; rfl
      | _ => rw [hpc] at hx; cases hx
    | _ => cases hx

section Run

variable {r : (sys Q).Execution} {n m : Nat}

theorem over_run (h : (r.state n).pc.over) : ∀ k ≥ n, (r.state k).pc.over :=
  r.keeps (P := fun c => c.pc.over = true) h fun _ _ _ _ hs ho => over_step hs ho

/-- After the h3 part the connection is open, in every run in which closings are noticed. -/
theorem open_of_noticed {c : Con Q} (h : (sys Q).ReachIf (OnTask Noticed) c) : Open c := by
  refine h.invariant (fun c hi => ?_) fun a c c' hr ho hn hs => ?_
  · obtain ⟨h3Config, con, hq⟩ := hi
    cases hq
    rintro (hp | hp | hp)
    · cases hp
    · cases hp
    · cases hp.2
  · by_cases ha : a = .task
    · subst ha; exact open_task hs (sys_control hr) ho (hn rfl)
    · exact open_other (Q := Q) (c := c) hs ha ho

/-- A task that goes on comes back for the next command. It does not wait for it with a closed
connection, so it has ended. -/
theorem GoesOn.ends (hf : GoesOn r) (hq : Q.ClosedIsFinal) (d : Q.Drains)
    (hm : r.Meets (OnTask Noticed)) (hc : Q.isClosed (r.state n).con) :
    ∃ m ≥ n, (r.state m).pc.over := by
  obtain ⟨k, hk⟩ := hf.first d
  obtain ⟨m, hmax, hp | ho⟩ := hf.rests d (max n k)
  · rcases hk with ho | ht
    · exact ⟨m, by omega, over_run ho m (by omega)⟩
    · have hclosed : Q.isClosed (r.state m).con = true :=
        r.keeps (P := fun c => Q.isClosed c.con = true) hc
          (fun _ _ _ _ hs h => closed_step hq hs h) m (by omega)
      have hw : (r.state m).Waits := ⟨hp, r.keeps (P := fun c => c.trace.any (·.isTimeout) = true) ht
        (fun _ _ _ _ hs h => timeout_step hs h) m (by omega)⟩
      exact absurd hclosed (by rw [open_of_noticed (hm.reachIf m) (.inr (.inr hw))]; nofun)
  · exact ⟨m, by omega, ho⟩

end Run

/-- What has become, in `c'`, of a connection that was closed in `c`. -/
structure Shut (c c' : Con Q) : Prop where
  ended : c'.pc.over
  stream : c'.evtRecv = .user → c'.Yields (c'.evt.queue.map Prod.fst)
  /-- The calls that waited got `ConShutdown`, unless their futures were dropped. -/
  answered : ∀ k : Nat, c.calls[k]? = some .wait →
    c'.calls[k]? = some (.done (.error conShutdown)) ∨ c'.calls[k]? = some .cancelled
  calls : ∀ k : Nat, c'.calls[k]? ≠ some .wait

/-- `n` steps of `con_task` alone. -/
def taskSteps (c : Con Q) (n : Nat) : Option (Con Q) := (sys Q).run (List.replicate n .task) c

/-- `con_task` waits with a closed connection after at most `n` steps. -/
def MissedIn (c : Con Q) (n : Nat) : Prop :=
  ∃ k ≤ n, ∃ d, c.taskSteps k = some d ∧ d.pc = .recv ∧ Q.isClosed d.con

theorem MissedIn.step {c d : Con Q} {n : Nat} (h : c.taskStep = some d) (hm : MissedIn d n) :
    MissedIn c (n + 1) := by
  obtain ⟨k, hk, e, he, hp⟩ := hm
  refine ⟨k + 1, Nat.succ_le_succ hk, e, ?_, hp⟩
  unfold taskSteps
  rw [List.replicate_succ, Lts.run_cons, show (sys Q).step .task c = some d from h]
  exact he

theorem missed_send (hq : Q.ClosedIsFinal) {c : Con Q} (hpc : c.pc = .send)
    (hcl : Q.isClosed c.con) : MissedIn c 1 := by
  obtain ⟨h1, h2⟩ := hq.send c.now c.sendBuf c.con hcl
  have hs : c.send = (({ c with con := (Q.send c.now c.sendBuf c.con).1 } : Con Q).log
      (.send (.error .done))).nextCmd := by
    unfold send; simp only [h2]
  refine .step (d := c.send) (by unfold taskStep; rw [hpc]) ⟨0, Nat.le_refl 0, _, rfl, ?_⟩
  rw [hs]
  exact ⟨rfl, h1⟩

theorem missed_flush (hq : Q.ClosedIsFinal) {c : Con Q} (hpc : c.pc = .flush)
    (hcl : Q.isClosed c.con) : MissedIn c 2 := by
  refine .step (d := c.flush) (by unfold taskStep; rw [hpc]) ?_
  unfold flush
  split
  · exact missed_send hq rfl hcl
  · exact ⟨0, Nat.zero_le 1, _, rfl, rfl, hcl⟩

/-- A closing that the code does not notice: soon `con_task` waits with a closed connection. -/
theorem close_missed (hq : Q.ClosedIsFinal) {c c' : Con Q} (hc : Control c)
    (h : c.taskStep = some c') (hn : ¬ c.Noticed) : MissedIn c' 2 := by
  obtain ⟨hcl, hn⟩ := Classical.not_imp.mp hn
  rw [← con_taskStep h] at hcl
  unfold notices at hn
  split at hn
  · next hpc =>
    have he : c' = c.establish := by
      unfold taskStep at h; rw [hpc] at h; exact (Option.some.inj h).symm
    refine missed_flush hq ?_ hcl
    rw [he, pc_establish (hc.evt (by rw [hpc]; rfl)), if_neg hn]
  · next h3 hpc h3c =>
    have he : c' = c.poll h3 := by
      unfold taskStep at h; rw [hpc, h3c] at h; exact (Option.some.inj h).symm
    refine missed_flush hq ?_ hcl
    split at hn
    · next hd => rw [he, poll]; simp only [hd]
    · exact absurd rfl hn
  · next hpc =>
    have he : c' = c.send := by
      unfold taskStep at h; rw [hpc] at h; exact (Option.some.inj h).symm
    cases hr : (Q.send c.now c.sendBuf c.con).2 with
    | error err =>
      have hd : err = .done := by
        rw [hr] at hn
        by_contra hne
        cases err <;> first | exact hne rfl | exact hn rfl
      subst hd
      refine ⟨0, Nat.zero_le 2, c', rfl, ?_, hcl⟩
      rw [he, send]
      simp only [hr]
      rfl
    | ok x =>
      obtain ⟨k, hk, hm⟩ := missed_send hq (c := c') (by rw [he, send]; simp only [hr]; exact hpc) hcl
      exact ⟨k, Nat.le_succ_of_le hk, hm⟩
  · exact absurd rfl hn

end Con
end Absquic
