import Absquic.Conn.Commands
import Absquic.Conn.Permits
import Absquic.Conn.Received
import Absquic.Lib.Live
import Mathlib.Data.Prod.Lex
import Mathlib.Order.RelClasses

/-!
# Every command is handled

`con_task` waits for a command, and for a permit of the event channel; all else it does in loops over
calls of quiche. Those that are made until they give `Done` end (`Quiche.Drains`). The loop at lines
255-261 has no way out but `StreamBlocked`, and nothing is assumed of `send_request`; that the task
comes out of it again is assumed of the run (`FairRun.requests`). If the task is scheduled, too, and
the user, who is given the handles, polls for events, then what is on the command channel at any time
is handled later, in its order, or the task ends (`commands_served`); so every packet that `ep_task`
put there is given to quiche.

The rank of a state is the place of the task, then what is left of the loop it is in, then the place in
the loop's body. Each step of the task brings it down until a command is taken, and no other party
changes it. The task can be blocked at a full event channel alone, and then the user has an event to
take.
-/

namespace Absquic

/-- The calls that are to be made until they give `Done` do give it: each of their other answers uses up
something of what there was. -/
structure Quiche.Drains (Q : Quiche) where
  /-- What is left to read, by `poll`, `recv_body` and `recv_dgram`. -/
  left : Q.Connection → Q.H3Connection → Nat
  /-- The packets that are left to send. -/
  unsent : Q.Connection → Nat
  poll : ∀ {now con h3 x e}, Q.poll now con h3 = (x, .ok e) → left x.1 x.2 < left con h3
  body : ∀ {now stream len con h3 x bytes}, Q.recvBody now stream len con h3 = (x, .ok bytes) →
    left x.1 x.2 < left con h3
  bodyDone : ∀ {now stream len con h3 x}, Q.recvBody now stream len con h3 = (x, .error .done) →
    left x.1 x.2 ≤ left con h3
  dgram : ∀ {now len con h3 x d}, Q.recvDgram now len con h3 = (x, .ok d) →
    left x.1 x.2 < left con h3
  dgramDone : ∀ {now len con h3 x}, Q.recvDgram now len con h3 = (x, .error .done) →
    left x.1 x.2 ≤ left con h3
  send : ∀ {now len con con' pak}, Q.send now len con = (con', .ok pak) → unsent con' < unsent con

/-- The places of `con_task`, by how far the next command is. -/
def ConPc.phase : ConPc → Nat
  | .evtGuard => 7
  | .established => 6
  | .sendRequest => 5
  | .h3EvtGuard | .poll | .recvBody _ | .recvDgram _ => 4
  | .flush => 3
  | .send => 2
  | .recv => 1
  | .cmd _ | .ended _ => 0

/-- The places in the loop at line 266. -/
def ConPc.sub : ConPc → Nat
  | .recvBody _ | .recvDgram _ => 2
  | .h3EvtGuard => 1
  | _ => 0

namespace Con

variable {Q : Quiche} {c c' : Con Q}

/-! ## The rank -/

/-- What is left of the loop that the task is in; `w` is how long the one at lines 255-261 lasts. -/
def work (d : Q.Drains) (w : Nat) (c : Con Q) : Nat :=
  match c.pc with
  | .sendRequest => w
  | .h3EvtGuard | .poll | .recvBody _ | .recvDgram _ => c.h3Con.elim 0 (d.left c.con)
  | .send => d.unsent c.con
  | _ => 0

/-- See the module doc. -/
def rank (d : Q.Drains) (w : Nat) (c : Con Q) : Nat ×ₗ Nat ×ₗ Nat :=
  toLex (c.pc.phase, toLex (c.work d w, c.pc.sub))

variable {w w' : Nat}

theorem rank_of_phase (d : Q.Drains) {p q : ConPc} (hp : c.pc = p) (hq : c'.pc = q)
    (h : q.phase < p.phase) : rank d w' c' < rank d w c := by
  subst hp hq
  exact Prod.Lex.toLex_lt_toLex.mpr (.inl h)

theorem rank_of_work (d : Q.Drains) (hp : c'.pc.phase = c.pc.phase) (h : c'.work d w' < c.work d w) :
    rank d w' c' < rank d w c :=
  Prod.Lex.toLex_lt_toLex.mpr (.inr ⟨hp, Prod.Lex.toLex_lt_toLex.mpr (.inl h)⟩)

theorem rank_of_sub (d : Q.Drains) (hp : c'.pc.phase = c.pc.phase) (hw : c'.work d w' ≤ c.work d w)
    (h : c'.pc.sub < c.pc.sub) : rank d w' c' < rank d w c := by
  rcases hw.lt_or_eq with hw | hw
  · exact rank_of_work d hp hw
  · exact Prod.Lex.toLex_lt_toLex.mpr (.inr ⟨hp, Prod.Lex.toLex_lt_toLex.mpr (.inr ⟨hw, h⟩)⟩)

/-- In the loop at line 266. -/
theorem work_loop (d : Q.Drains) (hp : c.pc.phase = 4) {h3 : Q.H3Connection}
    (h3c : c.h3Con = some h3) : c.work d w = d.left c.con h3 := by
  unfold work
  rw [h3c]
  cases hpc : c.pc with
  | h3EvtGuard | poll | recvBody | recvDgram => rfl
  | _ => rw [hpc] at hp; cases hp

/-- A step of the task, while it has no command in its hand. -/
theorem rank_task (d : Q.Drains) (hr : (sys Q).Reach c) (hs : c.taskStep = some c')
    (hc : c.pc.cmd? = none) (hw : c.pc = .sendRequest → w' < w) : rank d w' c' < rank d w c := by
  -- a call in the loop at line 266 that uses something up
  have hloop : ∀ {e : Con Q} {h3 : Q.H3Connection} {x : Q.Connection × Q.H3Connection},
      c.pc.phase = 4 → c.h3Con = some h3 → d.left x.1 x.2 < d.left c.con h3 → e.pc.phase = 4 →
      e.con = x.1 → e.h3Con = some x.2 → rank d w' e < rank d w c := by
    intro e h3 x hp h3c hlt hp' hcon h3c'
    refine rank_of_work d (hp'.trans hp.symm) ?_
    rwa [work_loop d hp h3c, work_loop d hp' h3c', hcon]
  -- one that gives `Done`
  have hdone : ∀ {e : Con Q} {h3 : Q.H3Connection} {x : Q.Connection × Q.H3Connection},
      c.pc.phase = 4 → c.pc.sub = 2 → c.h3Con = some h3 → d.left x.1 x.2 ≤ d.left c.con h3 →
      e.pc = .h3EvtGuard → e.con = x.1 → e.h3Con = some x.2 → rank d w' e < rank d w c := by
    intro e h3 x hp hs h3c hle hp' hcon h3c'
    have hp'' : e.pc.phase = 4 := by rw [hp']; rfl
    refine rank_of_sub d (hp''.trans hp.symm) ?_ (by rw [hp', hs]; decide)
    rwa [work_loop d hp h3c, work_loop d hp'' h3c', hcon]
  cases taskStep_cases hs (sys_control hr) with
  | dispatch hp => rw [hp] at hc; cases hc
  | @request x pc hp hpc =>
    rcases hpc with rfl | rfl
    · refine rank_of_work d (by rw [hp]) ?_
      unfold work
      rw [hp]
      exact hw hp
    · exact rank_of_phase d hp (q := .h3EvtGuard) rfl (by decide)
  | take hp | reserve hp | requested hp | pollDone hp | flush hp =>
    exact rank_of_phase d hp rfl (by simp [ConPc.phase])
  | unsent hp | sendDone hp => exact rank_of_phase d hp (q := .recv) rfl (by simp [ConPc.phase])
  | pollErr hp | goAway hp | lost hp | bodyErr hp | dgramErr hp | badFlow hp | sendErr hp =>
    exact rank_of_phase d hp (q := .ended .returned) rfl (by simp [ConPc.phase])
  | connect hp =>
    refine rank_of_phase d hp (q := (if _ then .sendRequest else .flush)) rfl ?_
    split <;> decide
  | skip hp =>
    refine rank_of_phase d hp (q := (if _ then .sendRequest else .flush)) rfl ?_
    split <;> decide
  | reserveH3 hp =>
    refine rank_of_sub d (by rw [hp]; rfl) (le_of_eq ?_) (by rw [hp]; exact Nat.zero_lt_one)
    unfold work
    rw [hp]
  | @event h3 x stream e hp h3c hq =>
    refine hloop (by rw [hp]; rfl) h3c (d.poll hq) ?_ rfl rfl
    cases e <;> rfl
  | message hp h3c hq => exact hloop (by rw [hp]; rfl) h3c (d.poll hq) rfl rfl rfl
  | bodyDone hp h3c hq =>
    exact hdone (by rw [hp]; rfl) (by rw [hp]; rfl) h3c (d.bodyDone hq) rfl rfl rfl
  | dgramDone hp h3c hq =>
    exact hdone (by rw [hp]; rfl) (by rw [hp]; rfl) h3c (d.dgramDone hq) rfl rfl rfl
  | @chunk h3 x stream chunk hp h3c hq =>
    obtain ⟨m, hm⟩ := pushBody_spec (c.called x (.recvBody stream (.ok chunk))) stream chunk
    have hphase : c.pc.phase = 4 := by rw [hp]; rfl
    refine hloop hphase h3c (d.body hq) ?_ ?_ ?_ <;> rw [hm]
    · exact hphase
    · rfl
    · rfl
  | dgram hp h3c hq =>
    have hphase : c.pc.phase = 4 := by rw [hp]; rfl
    exact hloop hphase h3c (d.dgram hq) hphase rfl rfl
  | sent hp hq =>
    refine rank_of_work d rfl ?_
    unfold work log
    dsimp only
    rw [hp]
    exact d.send hq

/-! ## Stuck -/

/-- `con_task` waits for a permit of the event channel, which is full. -/
structure Stalled (c : Con Q) : Prop where
  pc : c.pc = .evtGuard ∨ c.pc = .h3EvtGuard
  guard : c.evtGuard = none
  full : c.evt.free = 0

/-- `con_task` cannot make a step. -/
inductive Stuck (c : Con Q) : Prop
  | recv (hpc : c.pc = .recv) (hq : c.cmd.queue = [])
  | permit (hb : c.Stalled)
  | ended (ho : c.pc.over = true)

theorem acquireEvt_stuck {next : ConPc} (h : c.acquireEvt next = none) :
    c.evtGuard = none ∧ c.evt.free = 0 := by
  unfold acquireEvt at h
  split at h
  · cases h
  · next hg =>
    refine ⟨hg, Nat.eq_zero_of_not_pos fun hf => ?_⟩
    rw [Option.map_eq_none_iff] at h
    have hs := Chan.acquire_isSome.mpr hf
    rw [h] at hs
    cases hs

theorem stuck_of_none (hc : Control c) (h : c.taskStep = none) : Stuck c := by
  have h3 : c.pc.inH3 → ∀ {f : Q.H3Connection → Con Q}, c.h3Con.map f ≠ none := by
    intro hp f hn
    exact hc.h3 hp (Option.map_eq_none_iff.mp hn)
  unfold taskStep at h
  split at h
  · next hpc =>
    unfold recvCmd at h
    split at h
    · cases h
    · next hq => exact .recv hpc hq
  · cases h
  · next hpc =>
    obtain ⟨hg, hf⟩ := acquireEvt_stuck h
    exact .permit ⟨.inl hpc, hg, hf⟩
  · cases h
  · next hpc => exact absurd h (h3 (by rw [hpc]; rfl))
  · next hpc =>
    obtain ⟨hg, hf⟩ := acquireEvt_stuck h
    exact .permit ⟨.inr hpc, hg, hf⟩
  · next hpc => exact absurd h (h3 (by rw [hpc]; rfl))
  · next hpc => exact absurd h (h3 (by rw [hpc]; rfl))
  · next hpc => exact absurd h (h3 (by rw [hpc]; rfl))
  · cases h
  · cases h
  · next hpc => exact .ended (by rw [hpc]; rfl)

theorem none_of_stuck (h : Stuck c) : c.taskStep = none := by
  cases h with
  | recv hpc hq =>
    rw [taskStep, hpc]
    show c.recvCmd = none
    unfold recvCmd
    rw [hq]
    have hpos := cmdSenders_pos (c := c) (by rw [hpc]; rfl)
    exact if_neg (by omega)
  | permit hb =>
    obtain ⟨hpc, hg, hf⟩ := hb
    have hn : ∀ next, c.acquireEvt next = none := by
      intro next
      unfold acquireEvt Chan.acquire
      rw [hg, if_pos hf]
      rfl
    rcases hpc with hpc | hpc <;> rw [taskStep, hpc] <;> exact hn _
  | ended ho =>
    cases hpc : c.pc with
    | ended e => rw [taskStep, hpc]
    | _ => rw [hpc] at ho; cases ho

/-- Nobody but `con_task` takes a permit of the event channel. -/
theorem free_other {a : ConAct} (hs : step a c = some c') (ha : a ≠ .task) :
    c.evt.free ≤ c'.evt.free := by
  cases otherStep_cases hs ha with
  | fireLost | callLost | callCancel | evtPoll | dropRecv | pakLost => exact Nat.le_add_right _ _
  | _ => exact Nat.le_refl _

theorem stuck_other {a : ConAct} (hs : step a c = some c') (ha : a ≠ .task) (h : Stuck c') :
    Stuck c := by
  have hf := frame_step hs ha
  cases h with
  | recv hpc hq =>
    obtain ⟨l, hl, -⟩ := hf.queue
    exact .recv (hf.pc ▸ hpc) (List.append_eq_nil_iff.mp (hl.symm.trans hq)).1
  | permit hb =>
    exact .permit ⟨hf.pc ▸ hb.pc, hf.evtGuard ▸ hb.guard,
      Nat.le_zero.mp (hb.full ▸ free_other hs ha)⟩
  | ended ho => exact .ended (hf.pc ▸ ho)

theorem taskStep_isSome (h : (sys Q).Reach c) : c.taskStep.isSome ↔ ¬ Stuck c := by
  constructor
  · intro hs hb
    rw [none_of_stuck hb] at hs
    cases hs
  · refine fun hb => Option.isSome_iff_ne_none.mpr fun hn => hb ?_
    exact stuck_of_none (sys_control h) hn

/-- Nobody else blocks `con_task`, -/
theorem taskStep_keep {a : ConAct} (h : (sys Q).Reach c) (hs : step a c = some c') (ha : a ≠ .task)
    (ht : c.taskStep.isSome) : c'.taskStep.isSome := by
  rw [taskStep_isSome (.step a h hs)]
  exact fun hb => (taskStep_isSome h).mp ht (stuck_other hs ha hb)

/-- or moves it, -/
theorem still_steps (hs : (sys Q).Steps (fun a => a ≠ .task) c c') :
    c'.pc = c.pc ∧ c'.con = c.con ∧ c'.h3Con = c.h3Con := by
  refine hs.invariant (I := fun e => e.pc = c.pc ∧ e.con = c.con ∧ e.h3Con = c.h3Con)
    (fun a e e' ha ⟨hp, hc, h3⟩ hs => ?_) ⟨rfl, rfl, rfl⟩
  have hf := frame_step hs ha
  exact ⟨hf.pc.trans hp, hf.con.trans hc, hf.h3Con.trans h3⟩

/-- or raises its rank. -/
theorem rank_still (d : Q.Drains) (hs : (sys Q).Steps (fun a => a ≠ .task) c c')
    (hw : c.pc = .sendRequest → w' ≤ w) : rank d w' c' ≤ rank d w c := by
  obtain ⟨hp, hc, h3⟩ := still_steps hs
  have hwork : c'.work d w' ≤ c.work d w := by
    unfold work
    rw [hp, hc, h3]
    cases hpc : c.pc with
    | sendRequest => exact hw hpc
    | _ => exact le_rfl
  unfold rank
  rw [hp]
  exact Prod.Lex.toLex_le_toLex.mpr (.inr ⟨rfl, Prod.Lex.toLex_mono ⟨hwork, le_rfl⟩⟩)

theorem rank_taken (d : Q.Drains) (h : (sys Q).Reach c) (hs : step .task c = some c')
    (ht : (cmds Q).takes .task c c' = []) (hw : c.pc = .sendRequest → w' < w) :
    rank d w' c' < rank d w c := by
  refine rank_task d h hs ?_ hw
  have ht : c.pc.cmd?.toList = [] := ht
  exact Option.toList_eq_nil_iff.mp ht

/-- Unless it waits for a permit, it goes on until all commands are handled. -/
theorem taskStep_of_permit (h : (sys Q).Reach c) (hn : ¬ c.Stalled) :
    (cmds Q).live c = false ∨ (cmds Q).queue c = [] ∨ c.taskStep.isSome := by
  by_cases hb : Stuck c
  · cases hb with
    | recv hpc hq =>
      refine .inr (.inl ?_)
      show c.pc.cmd?.toList ++ c.cmd.queue.map Prod.fst = []
      rw [hpc, hq]
      rfl
    | permit hb => exact absurd hb hn
    | ended ho => exact .inl (by simp [cmds, ho])
  · exact .inr (.inr ((taskStep_isSome h).mpr hb))

/-! ## The user -/

/-- A receiver that was dropped is gone. -/
theorem rx_of_dropped (h : (sys Q).Reach c) : c.evtRecv = .dropped → c.evt.rx = false := by
  refine h.invariant (I := fun c => c.evtRecv = .dropped → c.evt.rx = false) ?_ ?_
  · rintro c ⟨h3Config, con, hq⟩ hd
    cases hq
    cases hd
  · intro a c c' _ hi hs hd
    by_cases ha : a = .task
    · subst ha
      rw [(emits_task hs).rx]
      exact hi ((outer_taskStep hs).evtRecv ▸ hd)
    · cases otherStep_cases (c := c) hs ha with
      | dropRecv => rfl
      | deliver => cases hd
      | _ => exact hi hd

theorem given_step {a : ConAct} (hs : step a c = some c') (h : c.evtRecv ≠ .inFlight) :
    c'.evtRecv ≠ .inFlight := by
  by_cases ha : a = .task
  · subst ha
    rwa [(outer_taskStep hs).evtRecv]
  · cases otherStep_cases hs ha with
    | dropRecv | deliver => nofun
    | _ => exact h

/-- Who was given the connection can take what is queued. -/
theorem evtPoll_isSome (h : (sys Q).Reach c) (hg : c.evtRecv ≠ .inFlight) (hq : c.evt.queue ≠ []) :
    c.evtPoll.isSome := by
  have hu : c.evtRecv = .user := by
    cases hr : c.evtRecv with
    | user => rfl
    | inFlight => exact absurd hr hg
    | dropped => exact absurd (evt_closed h (rx_of_dropped h hr)) hq
  unfold evtPoll
  rw [hu]
  cases hc : c.evt.queue with
  | nil => exact absurd hc hq
  | cons x rest => rfl

/-- If the channel is full, the user has an event to take. -/
theorem evtPoll_of_full (h : (sys Q).Reach c) (hg : c.evtRecv ≠ .inFlight) (hf : c.evt.free = 0) :
    c.evtPoll.isSome := by
  have hlen := (sys_ledger h).evt
  have hguard : c.evtGuard.toList.length ≤ 1 := by
    cases c.evtGuard with
    | none => exact Nat.zero_le 1
    | some => exact le_rfl
  refine evtPoll_isSome h hg fun hq => ?_
  rw [hq, hf, List.length_nil] at hlen
  omega

/-- Its permit comes back. -/
theorem free_evtPoll (h : (sys Q).Reach c) (hs : step .evtPoll c = some c') : 0 < c'.evt.free := by
  cases otherStep_cases hs (by rintro ⟨⟩) with
  | @evtPoll e g rest hu hq =>
    have hg : g = .evt := (sys_ledger h).evtTag g (by
      unfold evtSide Chan.guards
      rw [hq]
      exact List.mem_append_left _ List.mem_cons_self)
    subst hg
    exact Nat.succ_pos _

/-- A run in which `con_task` goes on. -/
structure GoesOn (r : (sys Q).Execution) : Prop where
  task : r.Fair fun a => a = .task
  /-- It does not wait for a permit of the event channel for ever. -/
  permit : ∀ n, ∃ m ≥ n, ¬ (r.state m).Stalled
  /-- The loop at lines 255-261 ends. -/
  requests : ∀ n, ∃ m ≥ n, (r.state m).pc ≠ .sendRequest

/-- The parties of the connection that have to go on. -/
structure FairRun (r : (sys Q).Execution) : Prop where
  task : r.Fair fun a => a = .task
  /-- The user polls its receiver, as long as it has one, -/
  user : r.Fair fun a => a = .evtPoll
  /-- which it is given. -/
  given : ∃ n, (r.state n).evtRecv ≠ .inFlight
  /-- The loop at lines 255-261 ends. -/
  requests : ∀ n, ∃ m ≥ n, (r.state m).pc ≠ .sendRequest

/-- The event channel does not stay full. -/
theorem FairRun.permit {r : (sys Q).Execution} (h : FairRun r) (n : Nat) :
    ∃ m ≥ n, 0 < (r.state m).evt.free := by
  by_contra hn
  have hfull : ∀ m ≥ n, (r.state m).evt.free = 0 := fun m hm =>
    Nat.eq_zero_of_not_pos fun hf => hn ⟨m, hm, hf⟩
  obtain ⟨k, hk⟩ := h.given
  have hgiven : ∀ m ≥ k, (r.state m).evtRecv ≠ .inFlight :=
    r.keeps (P := fun c => c.evtRecv ≠ .inFlight) hk fun _ _ _ _ hs ih => given_step hs ih
  obtain ⟨m, hm, hmove⟩ := h.user (max n k) fun m hm => ⟨.evtPoll, rfl,
    evtPoll_of_full (r.reach m) (hgiven m (by omega)) (hfull m (by omega))⟩
  exact absurd (hfull (m + 1) (by omega)) (free_evtPoll (r.reach m) hmove.step).ne'

theorem FairRun.goesOn {r : (sys Q).Execution} (h : FairRun r) : GoesOn r := by
  refine ⟨h.task, fun n => ?_, h.requests⟩
  obtain ⟨m, hm, hf⟩ := h.permit n
  exact ⟨m, hm, fun hb => hf.ne' hb.full⟩

/-! ## Handled -/

/-- What was on its way at time `n` has arrived at time `n + k`. -/
structure Served (r : (sys Q).Execution) (n k : Nat) : Prop where
  cmds : (cmds Q).queue (r.state n) <+: (cmds Q).taken (sys Q) (r.acts n k) (r.state n)
  paks : (r.state n).inPaks <+: (sys Q).gather feeds (r.acts 0 (n + k)) (r.state 0)

/-- The packets among the commands that were handled. -/
theorem served_of_cmds {r : (sys Q).Execution} {n k : Nat} (ho : (r.state n).pc.over = false)
    (h : (cmds Q).queue (r.state n) <+: (cmds Q).taken (sys Q) (r.acts n k) (r.state n)) :
    Served r n k := by
  have hfed : Fed (r.state n) ((sys Q).gather feeds (r.acts 0 n) (r.state 0)) :=
    Lts.init_gather (fun _ _ _ _ h hl hs => hl.next h hs) r.start (r.run_to n) (fed_init r.start)
  have hsplit : (sys Q).gather feeds (r.acts 0 (n + k)) (r.state 0) =
      (sys Q).gather feeds (r.acts 0 n) (r.state 0) ++
        ((cmds Q).taken (sys Q) (r.acts n k) (r.state n)).filterMap (·.pak?) := by
    rw [r.gather_to, Fifo.taken, Lts.filterMap_gather]
    congr 1
    exact Lts.gather_congr (fun a c c' _ => (filterMap_handles a c c').symm) _ _
  refine ⟨h, ?_⟩
  rw [hsplit, ← hfed.all ho]
  exact (List.prefix_append_right_inj _).mpr (h.filterMap _)

/-- Between the steps of the task. -/
theorem still_next {r : (sys Q).Execution} {n : Nat} (h : ¬ r.Moves (fun a => a = .task) n) :
    (sys Q).Steps (fun a => a ≠ .task) (r.state n) (r.state (n + 1)) := by
  rcases r.step n with ⟨-, hs⟩ | ⟨a, ha, hs⟩
  · rw [hs]
    exact .refl _
  · exact .one (fun he => h ⟨a, ha, he⟩) hs

theorem enabled_task (c : Con Q) :
    (sys Q).Enabled (fun a => a = .task) c ↔ c.taskStep.isSome := by
  refine ⟨?_, fun hs => ⟨.task, rfl, hs⟩⟩
  rintro ⟨a, rfl, hs⟩
  exact hs

/-- What is on the command channel is taken. -/
theorem GoesOn.commands (d : Q.Drains) {r : (sys Q).Execution} (hf : GoesOn r) (n : Nat) :
    ∃ k, (cmds Q).live (r.state (n + k)) = false ∨
      (cmds Q).queue (r.state n) <+: (cmds Q).taken (sys Q) (r.acts n k) (r.state n) := by
  obtain ⟨w, hw⟩ := Lts.Execution.exists_countdown (M := fun m => (r.state m).pc = .sendRequest)
    hf.requests
  refine (cmds_lawful Q).served hf.task (f := fun m => rank d (w m) (r.state m)) (fun m hq => ?_)
    (fun a c c' hr ha hs he => ?_) (fun m hm => rank_still d (still_next hm) fun hp => (hw m hp).le)
    (fun m a ha hs ht => ?_) n
  · obtain ⟨k, hk, hb⟩ := hf.permit m
    exact ⟨k, hk, (taskStep_of_permit (r.reach k) hb).imp_right fun h =>
      h.imp_right (enabled_task _).mpr⟩
  · exact (enabled_task c').mpr (taskStep_keep hr hs ha ((enabled_task c).mp he))
  · subst ha
    exact rank_taken d (r.reach m) hs ht (hw m)

/-- A step of the task that takes no command leaves none in its hand. -/
theorem cmd?_next (hr : (sys Q).Reach c) (hs : c.taskStep = some c') (hn : c.pc ≠ .recv) :
    c'.pc.cmd? = none := by
  have ht := taskStep_cases hs (sys_control hr)
  cases hpc : c.pc with
  | recv => exact absurd hpc hn
  | cmd m =>
    cases ht with
    | dispatch => rfl
    | _ hp => cases hpc.symm.trans hp
  | ended e => rw [taskStep, hpc] at hs; cases hs
  | _ => exact cmd?_body ht (by rw [hpc]; rfl)

/-- The task comes back for the next command, or ends. -/
theorem GoesOn.rests (d : Q.Drains) {r : (sys Q).Execution} (hf : GoesOn r) (n : Nat) :
    ∃ m ≥ n, (r.state m).pc = .recv ∨ (r.state m).pc.over := by
  by_contra hno
  have hrecv : ∀ m ≥ n, (r.state m).pc ≠ .recv := fun m hm hp => hno ⟨m, hm, .inl hp⟩
  have hover : ∀ m ≥ n, ¬ (r.state m).pc.over := fun m hm hp => hno ⟨m, hm, .inr hp⟩
  obtain ⟨w, hw⟩ := Lts.Execution.exists_countdown (M := fun m => (r.state m).pc = .sendRequest)
    hf.requests
  -- it handles the command that it has, and then its rank goes down
  refine hf.task.descent (n := n)
    (f := fun m => toLex ((r.state m).pc.cmd?.toList.length, rank d (w m) (r.state m)))
    (fun m hm => ?_) (fun m _ he hp => ?_) (fun m _ hp => ?_) fun m hm hp => ?_
  · obtain ⟨k, hk, hn⟩ := hf.permit m
    refine ⟨k, hk, (enabled_task _).mpr ((taskStep_isSome (r.reach k)).mpr fun hb => ?_)⟩
    cases hb with
    | recv hp _ => exact hrecv k (hm.trans hk) hp
    | permit hb => exact hn hb
    | ended ho => exact hover k (hm.trans hk) ho
  · rcases r.step m with ⟨-, hs⟩ | ⟨a, ha, hs⟩
    · rwa [hs]
    · exact (enabled_task _).mpr (taskStep_keep (r.reach m) hs (fun h => hp ⟨a, ha, h⟩)
        ((enabled_task _).mp he))
  · have hst := still_next hp
    refine Prod.Lex.toLex_le_toLex.mpr (.inr ⟨?_, rank_still d hst fun hpc => (hw m hpc).le⟩)
    rw [(still_steps hst).1]
  · have hnext := cmd?_next (r.reach m) hp.step (hrecv m hm)
    refine Prod.Lex.toLex_lt_toLex.mpr ?_
    cases hc : (r.state m).pc.cmd? with
    | some cmd => exact .inl (by rw [hnext]; exact Nat.zero_lt_one)
    | none => exact .inr ⟨by rw [hnext], rank_task d (r.reach m) hp.step hc (hw m)⟩

/-- See the module doc. -/
theorem commands_served (d : Q.Drains) {r : (sys Q).Execution} (hf : FairRun r) (n : Nat) :
    ∃ k, (r.state (n + k)).pc.over ∨ Served r n k := by
  cases ho : (r.state n).pc.over with
  | true => exact ⟨0, .inl ho⟩
  | false =>
    obtain ⟨k, hk⟩ := hf.goesOn.commands d n
    exact ⟨k, hk.imp (fun hl => by simpa [cmds] using hl) (served_of_cmds ho)⟩

/-- The answers that a connection of `Quiche.scripted` holds are what is left to read. -/
def scriptedDrains : Quiche.scripted.Drains where
  left con _ := (show List Answer from con).length
  unsent _ := 0
  poll {_ con _ _ _} h := by
    rcases con with _ | ⟨r | r | r, con⟩
    case cons.poll => cases h; exact Nat.lt_succ_self _
    all_goals cases h
  body {_ _ _ con _ _ _} h := by
    rcases con with _ | ⟨r | r | r, con⟩
    case cons.recvBody => cases h; exact Nat.lt_succ_self _
    all_goals cases h
  bodyDone {_ _ _ con _ _} h := by
    rcases con with _ | ⟨r | r | r, con⟩
    case cons.recvBody => cases h; exact Nat.le_succ _
    all_goals cases h; exact Nat.le_refl _
  dgram {_ _ con _ _ _} h := by
    rcases con with _ | ⟨r | r | r, con⟩
    case cons.recvDgram => cases h; exact Nat.lt_succ_self _
    all_goals cases h
  dgramDone {_ _ con _ _} h := by
    rcases con with _ | ⟨r | r | r, con⟩
    case cons.recvDgram => cases h; exact Nat.le_succ _
    all_goals cases h; exact Nat.le_refl _
  send h := by cases h

/-- A packet comes in before `con_task` is scheduled, which then handles the first `Tick`, with a body
to read, and the packet. -/
def twoCmds : List ConAct :=
  [.deliver, .tryAcquire, .sendInPak ⟨.unspecified, [7]⟩] ++ List.replicate 22 .task ++ [.evtPoll]

theorem commands_served_two : ∃ r : (sys Quiche.scripted).Execution,
    (r.state 3).inPaks = [⟨.unspecified, [7]⟩] ∧
      ∃ k, (r.state (3 + k)).pc.over ∨ Served r 3 k := by
  have hrun : (quicheCon (Q := Quiche.scripted) (some ())
      [.poll (.ok (0, .data)), .recvBody (.ok [1]), .recvBody (.error .done)]).any fun c₀ =>
      decide (((sys Quiche.scripted).run (twoCmds.take 3) c₀).any fun c =>
        decide (c.inPaks = [⟨.unspecified, [7]⟩])) &&
      ((sys Quiche.scripted).run twoCmds c₀).any fun c =>
        c.taskStep.isNone && c.evtPoll.isNone && decide (c.evtRecv = .user ∧ c.pc = .recv) := by
    decide +kernel
  obtain ⟨c₀, h₀, h⟩ := (Option.any_eq_true _ _).mp hrun
  obtain ⟨h3, h⟩ := Bool.and_eq_true_iff.mp h
  obtain ⟨d, hd, h3⟩ := (Option.any_eq_true _ _).mp (of_decide_eq_true h3)
  obtain ⟨c, hc, h⟩ := (Option.any_eq_true _ _).mp h
  obtain ⟨h, hu⟩ := Bool.and_eq_true_iff.mp h
  obtain ⟨ht, hp⟩ := Bool.and_eq_true_iff.mp h
  have hinit : (sys Quiche.scripted).init c₀ := ⟨_, _, h₀⟩
  obtain ⟨hu, hpc⟩ := of_decide_eq_true hu
  refine ⟨.ofRun hinit (Option.isSome_iff_exists.mpr ⟨c, hc⟩), ?_,
    commands_served scriptedDrains ⟨?_, ?_, ?_, fun n => ?_⟩ 3⟩
  · rw [Lts.Execution.state_ofRun hinit _ hd]
    exact of_decide_eq_true h3
  · exact Lts.Execution.fair_ofRun_act hinit hc ht
  · exact Lts.Execution.fair_ofRun_act hinit hc hp
  · refine ⟨0 + twoCmds.length, ?_⟩
    rw [Lts.Execution.state_ofRun_end hinit hc, hu]
    nofun
  · refine ⟨n + twoCmds.length, Nat.le_add_right .., ?_⟩
    rw [Lts.Execution.state_ofRun_end hinit hc, hpc]
    nofun

end Con
end Absquic
