import Absquic.Ep.Commands
import Absquic.Ep.Permits
import Absquic.Ep.Stall
import Absquic.Lib.Live

/-!
# Every packet has its fate, every call its answer

`ep_task` waits for a command, and for a permit of the event channel before it looks at it. If the
tasks are scheduled and the user polls for events, then for every packet that the stream yielded
`ep_task` decides what becomes of it, and every `connect()` call that waits is answered, or cancelled
(`packets_served`). It asks nothing of quiche: `ep_task` has no loop over calls of quiche, and never waits for
a connection.

`udp_task` stops when 64 packets are on their way. It does not stop for good: again and again it
waits for the next packet, or it ends with the stream (`receives`).
-/

namespace Absquic

/-- How many steps it is to the next command. -/
def EpPc.rank : EpPc → Nat
  | .recv => 6
  | .evtGuard _ => 5
  | .cmd _ => 4
  | .route _ _ _ | .accepted _ _ _ | .newCon _ _ _ => 3
  | .acceptSend _ _ _ => 2
  | .inCon _ => 1
  | .ended _ => 0

/-- `udp_task` has something to put on the channel. -/
def UdpPc.isSend : UdpPc → Bool
  | .send _ => true
  | _ => false

/-- `udp_task` has a permit. -/
def UdpPc.holds : UdpPc → Bool
  | .recv | .send _ => true
  | .acquire | .ended => false

namespace Ep

variable {Q : Quiche} {s s' : Ep Q}

/-! ## `ep_task` -/

theorem rank_task (h : (sys Q).Reach s) (ht : TaskStep s s') (hn : handles .task s s' = []) :
    s'.pc.rank < s.pc.rank := by
  cases hand_task h ht with
  | done hpc hp =>
    have hb : s.pc.isRecv = false := by
      cases hq : s.pc <;> first | rfl | exact absurd hq hpc
    refine absurd ?_ (inHand_busy h hb)
    have hn : (if s'.pc.isRecv then s.inHand.toList else []) = [] := hn
    rw [hp] at hn
    exact Option.toList_eq_nil_iff.mp hn
  | take hpc hq hp | busy hi hp =>
    cases ht with
    | take hpc | reserved hpc | reserve hpc | accept hpc | route hpc | permit hpc | put hpc
    | spawnNew hpc =>
      rw [hpc]
      exact Nat.lt_succ_self _
    | _ => cases hp

/-- `ep_task` cannot make a step. -/
inductive Stuck (s : Ep Q) : Prop
  | recv (hpc : s.pc = .recv) (hq : s.cmd.queue = [])
  | permit {cmd : EpCmd} (hpc : s.pc = .evtGuard cmd) (hg : s.evtGuard = none)
    (hf : s.evt.free = 0)

theorem stuck_iff (h : (sys Q).Reach s) : s.taskStep = none ↔ Stuck s := by
  constructor
  · intro hs
    by_cases he : s.evtGuard = none → 0 < s.evt.free
    · obtain ⟨hpc, hq⟩ := only_waits h he hs
      exact .recv hpc hq
    · obtain ⟨hg, hf⟩ := Classical.not_imp.mp he
      have hevt : s.pc.hasEvt = false :=
        Bool.eq_false_of_not_eq_true fun hp => (sys_control h).evt hp hg
      cases hpc : s.pc with
      | recv =>
        unfold taskStep recvCmd at hs
        rw [hpc] at hs
        dsimp only at hs
        split at hs
        · cases hs
        · next hq => exact .recv hpc hq
      | evtGuard cmd => exact .permit hpc hg (Nat.eq_zero_of_not_pos hf)
      | ended e =>
        have hrun := (sys_control h).running
        rw [hpc] at hrun
        cases hrun
      | _ => rw [hpc] at hevt; cases hevt
  · intro hb
    cases hb with
    | recv hpc hq =>
      have hsend : s.cmdSenders ≠ 0 := by
        unfold cmdSenders; rw [hpc]; simp [EpPc.over]
      unfold taskStep recvCmd
      rw [hpc]
      dsimp only
      rw [hq]
      exact if_neg hsend
    | permit hpc hg hf =>
      unfold taskStep acquireEvt Chan.acquire
      rw [hpc]
      dsimp only
      rw [hg, if_pos hf]
      rfl

theorem enabled_task (h : (sys Q).Reach s) :
    (sys Q).Enabled (fun a => a = .task) s ↔ ¬ Stuck s := by
  rw [← stuck_iff h]
  constructor
  · rintro ⟨a, rfl, hs⟩ hn
    change s.taskStep.isSome at hs
    rw [hn] at hs
    cases hs
  · exact fun hn => ⟨.task, rfl, Option.isSome_iff_ne_none.mpr hn⟩

/-- Nobody but `ep_task` takes a permit of the event channel. -/
theorem free_other {a : EpAct} (hs : step a s = some s') (ha : a ≠ .task) (hr : s.cmd.rx = true) :
    s.evt.free ≤ s'.evt.free := by
  cases otherStep_cases hs ha hr with
  | connCancel | evtPoll | dropRecv => exact Nat.le_add_right _ _
  | _ => exact Nat.le_refl _

theorem stuck_other {a : EpAct} (hs : step a s = some s') (ha : a ≠ .task) (hr : s.cmd.rx = true)
    (h : Stuck s') : Stuck s := by
  have hf := frame_step hs ha hr
  cases h with
  | recv hpc hq =>
    obtain ⟨l, hl⟩ := hf.queue
    exact .recv (hf.pc ▸ hpc) (List.append_eq_nil_iff.mp (hl.symm.trans hq)).1
  | permit hpc hg hfree =>
    exact .permit (hf.pc ▸ hpc) (hf.evtGuard ▸ hg) (Nat.le_zero.mp (hfree ▸ free_other hs ha hr))

/-! ## The user -/

/-- The user can take what is queued. -/
theorem evtPoll_isSome (hq : s.evt.queue ≠ []) : s.evtPoll.isSome := by
  unfold evtPoll
  cases hc : s.evt.queue with
  | nil => exact absurd hc hq
  | cons x rest => rfl

/-- If the event channel is full, there is an event to take. -/
theorem evtPoll_of_full (h : (sys Q).Reach s) (hf : s.evt.free = 0) : s.evtPoll.isSome := by
  have hlen := (sys_ledger h).evt
  have hguard : s.evtGuard.toList.length ≤ 1 := by
    cases s.evtGuard with
    | none => exact Nat.zero_le 1
    | some => exact le_rfl
  refine evtPoll_isSome fun hq => ?_
  rw [hq, hf, List.length_nil] at hlen
  omega

/-- Its permit comes back. -/
theorem free_evtPoll (h : (sys Q).Reach s) (hs : step .evtPoll s = some s') : 0 < s'.evt.free := by
  cases otherStep_cases hs nofun (sys_control h).rx with
  | @evtPoll i g rest hq =>
    have hg : g = .evt := (sys_ledger h).evtTag g (by
      unfold evtSide Chan.guards
      rw [hq]
      exact List.mem_append_left _ List.mem_cons_self)
    subst hg
    exact Nat.succ_pos _

/-! ## `udp_task` -/

theorem udpGuard_task (ht : TaskStep s s') : s'.udpGuard = s.udpGuard := by
  cases ht with
  | @put i scid pak r c ok =>
    rw [insertCon_eq ((s.modCon i fun _ => c).log (.fate pak (.created i ok))) scid i]
    rfl
  | @refuseNew addr rsp config err =>
    rw [answer_eq { s with cid := s.cid.cid.2, config } rsp (.error (.quiche err))]
    rfl
  | @answerNew i scid rsp =>
    have hi : (s.insertCon scid i).udpGuard = s.udpGuard := by rw [insertCon_eq s scid i]
    unfold answerNewCon
    rw [answer_eq (s.insertCon scid i) rsp (.ok i)]
    exact hi
  | _ => rfl

/-- It has a permit from line 140 to the send. -/
theorem udp_guard (h : (sys Q).Reach s) : s.udpGuard.isSome = s.udpPc.holds := by
  refine h.invariant (I := fun s => s.udpGuard.isSome = s.udpPc.holds) ?_ ?_
  · rintro s ⟨n, config, h3Config, rfl⟩
    rfl
  · intro a s s' hr hi hs
    rcases reach_cases hr hs with ⟨rfl, ht⟩ | ⟨ha, -⟩
    · rw [udpPc_task ht, udpGuard_task ht]
      exact hi
    · cases otherStep_cases hs ha (sys_control hr).rx with
      | udpAcquire | udpEnd | udpSend => rfl
      | udpRecv hu => exact hi.trans (by rw [hu]; rfl)
      | _ => exact hi

theorem udpStep_send (h : (sys Q).Reach s) (hu : s.udpPc.isSend) : s.udpStep.isSome := by
  have hg := udp_guard h
  cases hpc : s.udpPc with
  | send item =>
    rw [hpc] at hg
    obtain ⟨g, hg⟩ := Option.isSome_iff_exists.mp hg
    unfold udpStep
    rw [hpc, hg]
    cases item with
    | none => rfl
    | some r =>
      dsimp only
      rw [sendCmd_eq (by exact (sys_control h).rx)]
      rfl
  | _ => rw [hpc] at hu; cases hu

theorem udpStep_acquire (h : (sys Q).Reach s) (hu : s.udpPc = .acquire) (hf : s.udpLimit ≠ 0) :
    s.udpStep.isSome := by
  have hg := udp_guard h
  have hn : s.udpGuard = none := by
    cases hg' : s.udpGuard with
    | none => rfl
    | some g => rw [hg', hu] at hg; cases hg
  unfold udpStep
  rw [hu, hn]
  dsimp only
  rw [if_neg hf]
  rfl

/-- What a step of its own does to its place. -/
theorem udpPc_udp (h : (sys Q).Reach s) (hs : step .udp s = some s') :
    s.udpPc = .acquire ∧ s'.udpPc = .recv ∨ s.udpPc.isSend ∧ s'.udpPc.isSend = false := by
  cases otherStep_cases hs nofun (sys_control h).rx with
  | udpAcquire hu => exact .inl ⟨hu, rfl⟩
  | udpEnd hu | udpSend hu => exact .inr ⟨by rw [hu]; rfl, rfl⟩

/-- After the `None` of the stream it ends. -/
theorem udpPc_none (h : (sys Q).Reach s) (hs : step .udp s = some s') (hu : s.udpPc = .send none) :
    s'.udpPc = .ended := by
  cases otherStep_cases hs (by rintro ⟨⟩) (sys_control h).rx with
  | udpEnd => rfl
  | udpAcquire hp | udpSend hp => rw [hu] at hp; cases hp

/-- Nobody else moves it, unless it waits for the stream. -/
theorem udpPc_other {a : EpAct} (h : (sys Q).Reach s) (hs : step a s = some s') (ha : a ≠ .udp)
    (hu : s.udpPc ≠ .recv) : s'.udpPc = s.udpPc := by
  rcases reach_cases h hs with ⟨rfl, ht⟩ | ⟨hat, -⟩
  · exact udpPc_task ht
  · cases otherStep_cases hs hat (sys_control h).rx with
    | udpAcquire | udpEnd | udpSend => exact absurd rfl ha
    | udpRecv hr => exact absurd hr hu
    | _ => rfl

/-! ## The end of the stream -/

/-- When `udp_task` has ended, `InPak(None)` was put on the channel. -/
theorem put_none {as : List EpAct} {s₀ : Ep Q} (h₀ : (sys Q).init s₀)
    (hr : (sys Q).run as s₀ = some s) :
    s.udpPc = .ended → .inPak none ∈ (cmds Q).put (sys Q) as s₀ := by
  refine Lts.init_gather (f := putCmd) (I := fun s l => s.udpPc = .ended → .inPak none ∈ l)
    (fun a s s' l h hl hs hu => ?_) h₀ hr ?_
  · rcases reach_cases h hs with ⟨rfl, ht⟩ | ⟨ha, -⟩
    · exact List.mem_append_left _ (hl (udpPc_task ht ▸ hu))
    · cases otherStep_cases hs ha (sys_control h).rx with
      | udpEnd hp =>
        refine List.mem_append_right _ ?_
        unfold putCmd
        rw [hp]
        exact List.mem_cons_self
      | udpAcquire | udpSend | udpRecv => cases hu
      | _ => exact List.mem_append_left _ (hl hu)
  · obtain ⟨n, config, h3Config, rfl⟩ := h₀
    intro hu
    cases hu

/-- `ep_task` is busy with `InPak(None)` at two places. -/
theorem inHand_none (h : s.inHand = some (.inPak none)) :
    s.pc = .evtGuard (.inPak none) ∨ s.pc = .cmd (.inPak none) := by
  unfold inHand at h
  cases hpc : s.pc with
  | evtGuard cmd =>
    rw [hpc] at h
    exact .inl (congrArg _ (Option.some.inj h))
  | cmd cmd =>
    rw [hpc] at h
    exact .inr (congrArg _ (Option.some.inj h))
  | inCon i =>
    rw [hpc] at h
    obtain ⟨r, -, ho⟩ := Option.bind_eq_some_iff.mp h
    obtain ⟨x, -, hx⟩ := Option.map_eq_some_iff.mp ho
    cases hx
  | newCon i scid rsp =>
    rw [hpc] at h
    obtain ⟨r, -, hx⟩ := Option.map_eq_some_iff.mp h
    cases hx
  | _ => rw [hpc] at h; cases h

/-- When `ep_task` is done with it, the end of the stream is noted. -/
theorem dead_task (ht : TaskStep s s') (hi : s.inHand = some (.inPak none)) (hp : s'.pc.isRecv) :
    s'.dead := by
  rcases inHand_none hi with hc | hc
  · cases ht with
    | reserved hpc | reserve hpc => cases hp
    | take hpc | streamEnd hpc | streamErr hpc | drop hpc | refuse hpc | accept hpc | route hpc
    | deliver hpc | conEnded hpc | permit hpc | put hpc | inCon hpc | noInCon hpc | refuseNew hpc
    | spawnNew hpc | answerNew hpc => rw [hc] at hpc; cases hpc
  · cases ht with
    | streamEnd => exact dead_iff.mpr (List.mem_append_right _ List.mem_cons_self)
    | take hpc | reserved hpc | reserve hpc | streamErr hpc | drop hpc | refuse hpc | accept hpc
    | route hpc | deliver hpc | conEnded hpc | permit hpc | put hpc | inCon hpc | noInCon hpc
    | refuseNew hpc | spawnNew hpc | answerNew hpc => rw [hc] at hpc; cases hpc

theorem dead_of_taken {as : List EpAct} {s₀ : Ep Q} (h₀ : (sys Q).init s₀)
    (hr : (sys Q).run as s₀ = some s) : .inPak none ∈ (cmds Q).taken (sys Q) as s₀ → s.dead := by
  refine Lts.init_gather (f := handles) (I := fun s l => .inPak none ∈ l → s.dead)
    (fun a s s' l h hl hs hm => ?_) h₀ hr nofun
  rcases List.mem_append.mp hm with hm | hm
  · obtain ⟨t, ht, -⟩ := trace_step h hs
    exact dead_keep ⟨t, ht.symm⟩ (hl hm)
  · cases a with
    | task =>
      have hm : EpCmd.inPak none ∈ if s'.pc.isRecv then s.inHand.toList else [] := hm
      split at hm
      · next hp =>
        exact dead_task ((taskStep_cases hs).resolve_right (not_ends (sys_control h)))
          (Option.mem_toList.mp hm) hp
      · cases hm
    | _ => cases hm

/-! ## Fair runs -/

/-- The parties of the endpoint that have to go on. -/
structure FairRun (r : (sys Q).Execution) : Prop where
  task : r.Fair fun a => a = .task
  udp : r.Fair fun a => a = .udp
  /-- The user polls for events. -/
  user : r.Fair fun a => a = .evtPoll

namespace FairRun

variable {r : (sys Q).Execution}

/-- The event channel does not stay full. -/
theorem permit (h : FairRun r) (n : Nat) : ∃ m ≥ n, 0 < (r.state m).evt.free := by
  by_contra hn
  have hfull : ∀ m ≥ n, (r.state m).evt.free = 0 := fun m hm =>
    Nat.eq_zero_of_not_pos fun hf => hn ⟨m, hm, hf⟩
  obtain ⟨m, hm, hmove⟩ := h.user n fun m hm =>
    ⟨.evtPoll, rfl, evtPoll_of_full (r.reach m) (hfull m hm)⟩
  exact absurd (hfull (m + 1) (by omega)) (free_evtPoll (r.reach m) hmove.step).ne'

/-- `ep_task` handles the commands on its channel. -/
theorem commands (h : FairRun r) (n : Nat) :
    ∃ k, (cmds Q).queue (r.state n) <+: (cmds Q).taken (sys Q) (r.acts n k) (r.state n) := by
  suffices hk : ∃ k, (cmds Q).live (r.state (n + k)) = false ∨
      (cmds Q).queue (r.state n) <+: (cmds Q).taken (sys Q) (r.acts n k) (r.state n) by
    obtain ⟨k, hk⟩ := hk
    exact ⟨k, hk.resolve_left nofun⟩
  refine (cmds_lawful Q).served h.task (f := fun m => (r.state m).pc.rank) (fun m hq => ?_)
    (fun a s s' hr ha hs he => ?_) (fun m hm => ?_) (fun m a ha hs ht => ?_) n
  · obtain ⟨k, hk, hfree⟩ := h.permit m
    refine ⟨k, hk, .inr ?_⟩
    by_cases hb : Stuck (r.state k)
    · cases hb with
      | recv hpc hq =>
        left
        show (r.state k).inHand.toList ++ (r.state k).cmd.queue.map Prod.fst = []
        rw [inHand_recv hpc, hq]
        rfl
      | permit _ _ hz => omega
    · exact .inr ((enabled_task (r.reach k)).mpr hb)
  · rw [enabled_task (.step a hr hs)]
    exact fun hb => (enabled_task hr).mp he (stuck_other hs ha (sys_control hr).rx hb)
  · rcases r.step m with ⟨-, hs⟩ | ⟨a, ha, hs⟩
    · rw [hs]
    · have hf := frame_step hs (fun he => hm ⟨a, ha, he⟩) (sys_control (r.reach m)).rx
      exact le_of_eq (congrArg EpPc.rank hf.pc)
  · subst ha
    exact rank_task (r.reach m)
      ((taskStep_cases hs).resolve_right (not_ends (sys_control (r.reach m)))) ht

/-- `udp_task` puts what it has on the channel. -/
theorem sends (h : FairRun r) (n : Nat) : ∃ m ≥ n, (r.state m).udpPc.isSend = false := by
  by_contra hn
  have hsend : ∀ m ≥ n, (r.state m).udpPc.isSend = true := fun m hm =>
    Bool.eq_true_of_not_eq_false fun hu => hn ⟨m, hm, hu⟩
  obtain ⟨m, hm, hmove⟩ := h.udp n fun m hm => ⟨.udp, rfl, udpStep_send (r.reach m) (hsend m hm)⟩
  rcases udpPc_udp (r.reach m) hmove.step with ⟨hu, -⟩ | ⟨-, hu⟩
  · have hb := hsend m hm
    rw [hu] at hb
    cases hb
  · exact absurd (hsend (m + 1) (by omega)) (by rw [hu]; nofun)

/-- Once the commands of time `n` were handled, the others came later. -/
theorem later {n k : Nat}
    (hk : (cmds Q).queue (r.state n) <+: (cmds Q).taken (sys Q) (r.acts n k) (r.state n)) :
    ∀ cmd ∈ (cmds Q).queue (r.state (n + k)), cmd ∈ (cmds Q).put (sys Q) (r.acts n k) (r.state n) := by
  have hall := ((cmds_lawful Q).run (r.reach n) (r.run_acts n k)).all rfl
  obtain ⟨l, hl⟩ := hk
  rw [← hl, List.append_assoc] at hall
  intro cmd hc
  rw [← List.append_cancel_left hall]
  exact List.mem_append_right l hc

end FairRun

/-- The kind of the command in the hand of `ep_task`. -/
theorem sem_inHand (h : (sys Q).Reach s) : s.pc.sem? = s.inHand.map (·.sem) := by
  have hbusy := inHand_busy h
  unfold inHand at hbusy ⊢
  cases hpc : s.pc with
  | inCon i =>
    rw [hpc] at hbusy
    dsimp only at hbusy ⊢
    cases hi : s.cons[i]? with
    | none => rw [hi] at hbusy; exact absurd rfl (hbusy rfl)
    | some r =>
      rw [hi] at hbusy
      rw [Option.bind_some] at hbusy ⊢
      cases ho : r.origin with
      | none => rw [ho] at hbusy; exact absurd rfl (hbusy rfl)
      | some x => rfl
  | newCon i scid rsp =>
    rw [hpc] at hbusy
    dsimp only at hbusy ⊢
    cases hi : s.cons[i]? with
    | none => rw [hi] at hbusy; exact absurd rfl (hbusy rfl)
    | some r => rfl
  | _ => rfl

/-- The packets on their way, counted by the guards that they come with. -/
theorem commands_cmds (h : (sys Q).Reach s) (k : EpSem) :
    s.commands k = ((cmds Q).queue s).countP (·.sem = k) := by
  show _ = (s.inHand.toList ++ s.cmd.queue.map Prod.fst).countP _
  unfold commands
  rw [sem_inHand h, List.countP_append, List.countP_map, Nat.add_comm]
  congr 1
  cases s.inHand with
  | none => rfl
  | some cmd => simp [List.count_cons, List.countP_cons]

/-! ## Served -/

/-- What was on its way at time `n` has arrived at time `n + k`. -/
structure Served (r : (sys Q).Execution) (n k : Nat) : Prop where
  /-- The packets that the stream had yielded have their fates, in order. -/
  paks : (r.state n).yielded <+: (r.state (n + k)).fates.map Prod.fst
  /-- The calls that were waiting are answered, or gone. -/
  calls : ∀ j : Nat, (r.state n).connects[j]? = some .wait →
    ∃ x, (r.state (n + k)).connects[j]? = some x ∧ x.settled

/-- The stream's packets only grow in number. -/
theorem yielded_run {as : List EpAct} (h : (sys Q).Reach s) (hr : (sys Q).run as s = some s') :
    s.yielded <+: s'.yielded := by
  have hsteps : (sys Q).Steps (fun _ => True) s s' := .run hr fun _ _ => trivial
  have hkeep := hsteps.invariant (I := fun t => (sys Q).Reach t ∧ s.yielded <+: t.yielded)
    (fun a t t' _ hi hs => ⟨.step a hi.1 hs, by
      rw [yielded_step hi.1 hs]
      exact hi.2.trans (List.prefix_append _ _)⟩) ⟨h, List.prefix_rfl⟩
  exact hkeep.2

/-- See the module doc. -/
theorem packets_served {r : (sys Q).Execution} (hf : FairRun r) (n : Nat) : ∃ k, Served r n k := by
  obtain ⟨m, hm, hu⟩ := hf.sends n
  obtain ⟨k, hk⟩ := hf.commands m
  obtain ⟨i, rfl⟩ := Nat.exists_eq_add_of_le hm
  refine ⟨i + k, ?_, fun j hj => ?_⟩
  · have hrun := r.run_to
    have hnone : (r.state (n + i)).udpPc.pak? = none := by
      cases hpc : (r.state (n + i)).udpPc with
      | send item => rw [hpc] at hu; cases hu
      | _ => rfl
    have hput := put_yielded r.start (hrun (n + i))
    have hall := ((cmds_lawful Q).run (.init r.start) (hrun (n + i))).all rfl
    have hq₀ : (cmds Q).queue (r.state 0) = [] := by
      obtain ⟨n, config, h3Config, hs⟩ := r.start
      rw [hs]
      rfl
    rw [hq₀, List.nil_append] at hall
    rw [hnone, ← hall, List.filterMap_append] at hput
    have htaken := taken_fates r.start (hrun (n + i + k))
    rw [Fifo.taken, r.gather_to, List.filterMap_append] at htaken
    rw [← Nat.add_assoc]
    refine (yielded_run (r.reach n) (r.run_acts n i)).trans (.trans ?_ htaken)
    rw [hput]
    exact (List.append_nil _).symm ▸ (List.prefix_append_right_inj _).mpr (hk.filterMap _)
  · have hnext : ∀ x y : ConnectCall, (x = .wait ∨ x.settled) → x.Next y → y = .wait ∨ y.settled := by
      rintro x y (rfl | hx) hxy
      · cases hxy with
        | rest => exact .inl rfl
        | answer | cancel => exact .inr rfl
      · exact .inr (hxy.settled hx)
    obtain ⟨x, hx, rfl | hset⟩ :=
      call_run hnext (r.reach n) (r.run_acts n i) ⟨_, hj, .inl rfl⟩
    · -- its command is one of those that are handled
      have hslot := wait_rsps (r.reach (n + i)) j hx
      rw [rsps_cmds (r.reach (n + i))] at hslot
      obtain ⟨cmd, hc, hcj⟩ := List.mem_filterMap.mp hslot
      cases cmd with
      | inPak pak => cases hcj
      | newCon addr rsp =>
        obtain rfl := Option.some.inj hcj
        rw [← Nat.add_assoc]
        exact settled_of_taken (r.reach _) (r.run_acts _ k) (hk.subset hc)
    · rw [← Nat.add_assoc]
      exact call_run (P := fun x => x.settled) (fun x y hx hn => hn.settled hx) (r.reach _)
        (r.run_acts _ k) ⟨x, hx, hset⟩

namespace FairRun

variable {r : (sys Q).Execution}

/-- `udp_task` does not wait for a permit for ever. -/
theorem acquires (h : FairRun r) (n : Nat) : ∃ m ≥ n, (r.state m).udpPc ≠ .acquire := by
  by_contra hn
  have hwait : ∀ m ≥ n, (r.state m).udpPc = .acquire := fun m hm =>
    not_not.mp fun hu => hn ⟨m, hm, hu⟩
  have hstill : ∀ m ≥ n, r.act m ≠ some .udp := by
    intro m hm ha
    rcases udpPc_udp (r.reach m) (Lts.Execution.Moves.step ⟨_, ha, rfl⟩) with ⟨-, hu⟩ | ⟨hu, -⟩
    · rw [hwait (m + 1) (by omega)] at hu; cases hu
    · rw [hwait m hm] at hu; cases hu
  -- so no packet is put on the channel, and those that are there are handled
  obtain ⟨k, hk⟩ := h.commands n
  have hfree : ∀ j ≥ k, (r.state (n + j)).udpLimit ≠ 0 := by
    intro j hj
    have hkj : (cmds Q).queue (r.state n) <+: (cmds Q).taken (sys Q) (r.acts n j) (r.state n) := by
      obtain ⟨i, rfl⟩ := Nat.exists_eq_add_of_le hj
      rw [Fifo.taken_add]
      exact hk.trans (List.prefix_append _ _)
    have hnone : (r.state (n + j)).commands .udpLimit = 0 := by
      rw [commands_cmds (r.reach _), List.countP_eq_zero]
      intro cmd hc
      obtain ⟨a, ha, t, t', hput⟩ := Lts.mem_gather (later hkj cmd hc)
      obtain ⟨m, hm, hact⟩ := Lts.Execution.mem_acts ha
      cases a with
      | udp => exact absurd hact (hstill m hm)
      | connSend i =>
        change cmd ∈ putCmd (.connSend i) t t' at hput
        unfold putCmd at hput
        dsimp only at hput
        split at hput
        · rw [List.mem_singleton.mp hput]; simp [EpCmd.sem]
        · cases hput
      | _ => cases hput
    have hsum := (sys_ledger (r.reach (n + j))).inPaks
    have hg := udp_guard (r.reach (n + j))
    rw [hwait _ (by omega)] at hg
    have hlen : (r.state (n + j)).udpGuard.toList.length = 0 := by
      cases hu : (r.state (n + j)).udpGuard with
      | none => rfl
      | some g => rw [hu] at hg; cases hg
    omega
  obtain ⟨m, hm, hmove⟩ := h.udp (n + k) fun m hm => ⟨.udp, rfl, by
    obtain ⟨i, rfl⟩ := Nat.exists_eq_add_of_le hm
    rw [Nat.add_assoc]
    exact udpStep_acquire (r.reach _) (hwait _ (by omega)) (hfree _ (by omega))⟩
  obtain ⟨a, ha, rfl⟩ := hmove
  exact hstill m (by omega) ha

/-- It comes back to the stream, or has ended. -/
theorem waits (h : FairRun r) (n : Nat) :
    ∃ m ≥ n, (r.state m).udpPc = .recv ∨ (r.state m).udpPc = .ended := by
  by_contra hn
  have hnot : ∀ m ≥ n, (r.state m).udpPc ≠ .recv ∧ (r.state m).udpPc ≠ .ended := fun m hm =>
    ⟨fun hu => hn ⟨m, hm, .inl hu⟩, fun hu => hn ⟨m, hm, .inr hu⟩⟩
  obtain ⟨m₀, hm₀, hu₀⟩ := h.sends n
  -- it has nothing to send, so it waits for a permit, and goes on to the stream
  have hwait : ∀ m ≥ m₀, (r.state m).udpPc = .acquire := by
    have hacq : (r.state m₀).udpPc = .acquire := by
      cases hu : (r.state m₀).udpPc with
      | acquire => rfl
      | send item => rw [hu] at hu₀; cases hu₀
      | recv => exact absurd hu (hnot m₀ hm₀).1
      | ended => exact absurd hu (hnot m₀ hm₀).2
    refine r.keeps (P := fun s : Ep Q => s.udpPc = .acquire) hacq fun m hm a _ hs ih => ?_
    by_cases ha : a = .udp
    · subst ha
      rcases udpPc_udp (r.reach m) hs with ⟨-, hu⟩ | ⟨hu, -⟩
      · exact absurd hu (hnot (m + 1) (by omega)).1
      · rw [ih] at hu; cases hu
    · rw [udpPc_other (r.reach m) hs ha (by rw [ih]; nofun), ih]
  obtain ⟨m, hm, hu⟩ := h.acquires m₀
  exact hu (hwait m hm)

/-- Once it has ended it does not come back. -/
theorem rests {n : Nat} (hu : (r.state n).udpPc = .ended) {m : Nat} (hm : m ≥ n) :
    (r.state m).udpPc = .ended :=
  r.keeps (P := fun s : Ep Q => s.udpPc = .ended) hu
    (fun j _ _ _ hs ih => udpPc_ended (r.reach j) hs ih) m hm

/-- `udp_task` has ended, or waits for the next packet again and again (module doc). -/
theorem receives (h : FairRun r) :
    (∃ n, ∀ m ≥ n, (r.state m).udpPc = .ended) ∨ ∀ n, ∃ m ≥ n, (r.state m).udpPc = .recv := by
  by_cases hend : ∃ n, (r.state n).udpPc = .ended
  · obtain ⟨n, hn⟩ := hend
    exact .inl ⟨n, fun m hm => rests hn hm⟩
  · refine .inr fun n => ?_
    obtain ⟨m, hm, hu | hu⟩ := h.waits n
    · exact ⟨m, hm, hu⟩
    · exact absurd ⟨m, hu⟩ hend

/-- `udp_task` ends with `InPak(None)`. -/
theorem ends (h : FairRun r) {n : Nat} (hu : (r.state n).udpPc = .send none) :
    ∃ m ≥ n, (r.state m).udpPc = .ended := by
  by_contra hn
  have hsend : ∀ m ≥ n, (r.state m).udpPc = .send none := by
    refine r.keeps (P := fun s : Ep Q => s.udpPc = .send none) hu fun m hm a _ hs ih => ?_
    by_cases ha : a = .udp
    · subst ha
      exact absurd ⟨m + 1, by omega, udpPc_none (r.reach m) hs ih⟩ hn
    · rw [udpPc_other (r.reach m) hs ha (by rw [ih]; nofun), ih]
  obtain ⟨m, hm, hb⟩ := h.sends n
  rw [hsend m hm] at hb
  cases hb

/-- And `ep_task` handles it. -/
theorem dead (h : FairRun r) {n : Nat} (hu : (r.state n).udpPc = .ended) :
    ∃ m ≥ n, (r.state m).dead := by
  have hrun := r.run_to
  have hq₀ : (cmds Q).queue (r.state 0) = [] := by
    obtain ⟨i, config, h3Config, hs⟩ := r.start
    rw [hs]
    rfl
  have hall := ((cmds_lawful Q).run (.init r.start) (hrun n)).all rfl
  rw [hq₀, List.nil_append] at hall
  have hput := put_none r.start (hrun n) hu
  rw [← hall] at hput
  rcases List.mem_append.mp hput with hm | hm
  · exact ⟨n, Nat.le_refl n, dead_of_taken r.start (hrun n) hm⟩
  · obtain ⟨k, hk⟩ := h.commands n
    refine ⟨n + k, Nat.le_add_right n k, dead_of_taken r.start (hrun (n + k)) ?_⟩
    rw [Fifo.taken, r.gather_to]
    exact List.mem_append_right _ (hk.subset hm)

end FairRun

/-- A run at whose end nobody can go on is fair. -/
theorem FairRun.ofRun {as : List EpAct} {s₀ s : Ep Q} (h₀ : (sys Q).init s₀)
    (hs : (sys Q).run as s₀ = some s)
    (h : (s.taskStep.isNone && (s.udpStep.isNone && s.evtPoll.isNone)) = true) :
    FairRun (.ofRun h₀ (Option.isSome_iff_exists.mpr ⟨s, hs⟩)) := by
  obtain ⟨htask, h⟩ := Bool.and_eq_true_iff.mp h
  obtain ⟨hudp, huser⟩ := Bool.and_eq_true_iff.mp h
  exact ⟨Lts.Execution.fair_ofRun_act (a := .task) h₀ hs htask,
    Lts.Execution.fair_ofRun_act (a := .udp) h₀ hs hudp,
    Lts.Execution.fair_ofRun_act (a := .evtPoll) h₀ hs huser⟩

/-- A `connect()` call waits and a packet came; then the tasks go on until they wait, and the user
polls. -/
def oneEach : List EpAct :=
  [.connect .unspecified, .connAcquire 0, .connSend 0] ++ EpAct.packet [7] 10 ++ [.evtPoll, .udp]

theorem packets_served_oneEach : ∃ r : (sys (Quiche.inert ())).Execution,
    (r.state 5).yielded = [⟨.unspecified, [7]⟩] ∧
      (r.state 5).connects[0]? = some .wait ∧ ∃ k, Served r 5 k := by
  have hrun : ((sys (Quiche.inert ())).run (oneEach.take 5) (quicheEp (.after 0) () none)).any
      (fun s => decide (s.yielded = [⟨.unspecified, [7]⟩])) ∧
      ((sys (Quiche.inert ())).run oneEach (quicheEp (.after 0) () none)).any
        (fun s => s.taskStep.isNone && (s.udpStep.isNone && s.evtPoll.isNone)) := by
    decide +kernel
  have hcall : ((sys (Quiche.inert ())).run (oneEach.take 5) (quicheEp (.after 0) () none)).bind
      (fun s => s.connects[0]?) = some .wait := rfl
  obtain ⟨d, hd, hy⟩ := (Option.any_eq_true _ _).mp hrun.1
  obtain ⟨s, hs, hend⟩ := (Option.any_eq_true _ _).mp hrun.2
  have hinit : (sys (Quiche.inert ())).init (quicheEp (.after 0) () none) := ⟨0, (), none, rfl⟩
  refine ⟨_, ?_, ?_, packets_served (FairRun.ofRun hinit hs hend) 5⟩
  all_goals rw [Lts.Execution.state_ofRun hinit _ hd]
  · exact of_decide_eq_true hy
  · rwa [hd] at hcall

/-- A library to which no packet is well-formed. -/
def garbled : Quiche := { Quiche.inert () with headerFromSlice := fun _ _ => .error .done }

/-- 64 packets come before `ep_task` is scheduled. -/
def allPermits : List EpAct :=
  (List.replicate 64 (EpAct.packet [7] 0)).flatten ++ List.replicate 192 .task ++ [.udp]

theorem receives_allPermits : ∃ r : (sys garbled).Execution,
    ((r.state 192).udpLimit = 0 ∧ (r.state 192).udpPc = .acquire) ∧
      ((∃ n, ∀ m ≥ n, (r.state m).udpPc = .ended) ∨ ∀ n, ∃ m ≥ n, (r.state m).udpPc = .recv) := by
  have hrun : ((sys garbled).run (allPermits.take 192) (quicheEp (.after 0) () none)).any
      (fun s => match s.udpPc with
        | .acquire => decide (s.udpLimit = 0)
        | _ => false) ∧
      ((sys garbled).run allPermits (quicheEp (.after 0) () none)).any
        (fun s => s.taskStep.isNone && (s.udpStep.isNone && s.evtPoll.isNone)) := by
    decide +kernel
  obtain ⟨d, hd, hat⟩ := (Option.any_eq_true _ _).mp hrun.1
  obtain ⟨s, hs, hend⟩ := (Option.any_eq_true _ _).mp hrun.2
  have hinit : (sys garbled).init (quicheEp (.after 0) () none) := ⟨0, (), none, rfl⟩
  refine ⟨_, ?_, (FairRun.ofRun hinit hs hend).receives⟩
  rw [Lts.Execution.state_ofRun hinit _ hd]
  split at hat
  · next hu => exact ⟨of_decide_eq_true hat, hu⟩
  · cases hat

end Ep
end Absquic
