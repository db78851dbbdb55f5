import Absquic.Ep.Dead
import Absquic.Ep.Finish
import Absquic.Ep.Path
import Absquic.Ep.Slots
import Absquic.Lib.Fifo

/-!
# What `ep_task` is given

`cmds` is the command channel of an endpoint, with the command that `ep_task` is busy with: from the
place it is at, and the connection it created, it can be seen which that is (`inHand`). It is a queue
of the endpoint's system (`cmds_lawful`), and `ep_task` never ends, so in every run it handles the
commands in the order in which they were put there, each once; no command is lost.

* `taken_fates`: a packet that was handled has its fate.
* `wait_rsps`, `settled_of_taken`: the slot of a call that waits is in a command on its way, and when
  that command was handled, the call no longer waits.
-/

namespace Absquic

/-- The call no longer waits. -/
def ConnectCall.settled : ConnectCall → Bool
  | .answered _ | .done _ | .cancelled => true
  | _ => false

theorem ConnectCall.Next.settled {x y : ConnectCall} (h : Next x y) (hx : x.settled) :
    y.settled := by
  cases h with
  | rest => exact hx
  | poll | cancel => rfl
  | _ => cases hx

namespace Ep

variable {Q : Quiche} {s s' : Ep Q}

/-- The command that `ep_task` is busy with. -/
def inHand (s : Ep Q) : Option EpCmd :=
  match s.pc with
  | .evtGuard cmd | .cmd cmd => some cmd
  | .route _ _ pak | .accepted _ _ pak | .acceptSend _ _ pak => some (.inPak (some (.ok pak)))
  | .inCon i => s.cons[i]?.bind fun r => r.origin.map fun x => .inPak (some (.ok x.1))
  | .newCon i _ rsp => s.cons[i]?.map fun r => .newCon r.addr rsp
  | .recv | .ended _ => none

/-- The command that the step puts on the channel. -/
def putCmd (a : EpAct) (s _ : Ep Q) : List EpCmd :=
  match a with
  | .udp =>
    match s.udpPc with
    | .send item => [.inPak item]
    | _ => []
  | .connSend k =>
    match s.connects[k]? with
    | some (.send addr _) => [.newCon addr k]
    | _ => []
  | _ => []

/-- The command that `ep_task` is done with after the step. -/
def handles (a : EpAct) (s s' : Ep Q) : List EpCmd :=
  match a with
  | .task => if s'.pc.isRecv then s.inHand.toList else []
  | _ => []

/-- The command channel. -/
def cmds (Q : Quiche) : Fifo (Ep Q) EpAct EpCmd where
  queue s := s.inHand.toList ++ s.cmd.queue.map Prod.fst
  live _ := true
  puts := putCmd
  takes := handles

/-! ## A step -/

/-- What the place and the connections say of the command stays as they move. -/
theorem inHand_moves {R : Nat → Con Q → Con Q → Prop} (hp : s'.pc = s.pc)
    (hm : Moves R s.cons s'.cons) : s'.inHand = s.inHand := by
  have hcon : ∀ {β : Type} {f : EpCon Q → Option β} (i : Nat),
      (∀ r c, f { r with con := c } = f r) → s'.cons[i]?.bind f = s.cons[i]?.bind f := by
    intro β f i hf
    cases hi : s.cons[i]? with
    | none =>
      have hlen := List.getElem?_eq_none_iff.mp hi
      rw [List.getElem?_eq_none (by rw [hm.length]; exact hlen)]
    | some r =>
      obtain ⟨c, hc, -⟩ := hm.con i r hi
      rw [hc]
      exact hf r c
  unfold inHand
  rw [hp]
  split
  case h_6 => exact hcon _ fun _ _ => rfl
  case h_7 i _ rsp =>
    rw [Option.map_eq_bind, Option.map_eq_bind]
    exact hcon _ fun _ _ => rfl
  all_goals rfl

/-- What a step of `ep_task` does with the command in its hand: it takes one, is still busy with it, or
is done with it. -/
inductive Hand (s s' : Ep Q) : Prop
  | take {cmd : EpCmd} {g : EpSem} (hpc : s.pc = .recv) (hq : s.cmd.queue = (cmd, g) :: s'.cmd.queue)
    (hp : s'.pc.isRecv = false) (hi : s'.inHand = some cmd)
  | busy {cmd : EpCmd} (hi : s.inHand = some cmd) (hp : s'.pc.isRecv = false)
    (hi' : s'.inHand = some cmd) (hq : s'.cmd.queue = s.cmd.queue)
  | done (hpc : s.pc ≠ .recv) (hp : s'.pc = .recv) (hq : s'.cmd.queue = s.cmd.queue)

theorem hand_task (h : (sys Q).Reach s) (ht : TaskStep s s') : Hand s s' := by
  -- the place and what it holds, when the place is known
  have hpc' : ∀ {pc : EpPc} {cmd : EpCmd}, s.pc = pc → { s with pc }.inHand = some cmd →
      s.inHand = some cmd := by
    rintro pc cmd rfl hi
    exact hi
  have ht' := ht
  cases ht with
  | take hpc hq => exact .take hpc hq rfl rfl
  | reserved hpc | reserve hpc | accept hpc | route hpc | permit hpc =>
    exact .busy (hpc' hpc rfl) rfl rfl rfl
  | @spawnNew addr rsp config con c hpc =>
    have hi : s.inHand = some (.newCon addr rsp) := hpc' hpc rfl
    refine .busy hi rfl ?_ rfl
    show (s.cons ++ [_])[s.cons.length]?.map _ = _
    rw [List.getElem?_concat_length]
    rfl
  | @put i scid pak r c ok hpc hr hs =>
    obtain ⟨-, r, hdr, hi, -, ho, -⟩ := (sys_routing h).accept i scid pak (.inr hpc)
    obtain ⟨c', hc'⟩ := cons_keep ht' hi
    have he := insertCon_eq ((s.modCon i fun _ => c).log (.fate pak (.created i ok))) scid i
    have hin : s.inHand = some (.inPak (some (.ok pak))) := hpc' hpc rfl
    refine .busy hin rfl ?_ (by rw [he]; rfl)
    unfold inHand
    dsimp only at hc' ⊢
    rw [hc']
    simp only [Option.bind_some, ho]
    rfl
  | streamEnd hpc | streamErr hpc | drop hpc | refuse hpc | deliver hpc | conEnded hpc | inCon hpc
  | noInCon hpc => exact .done (by rw [hpc]; nofun) rfl rfl
  | @refuseNew addr rsp config err hpc =>
    refine .done (by rw [hpc]; nofun) rfl ?_
    have he := answer_eq { s with cid := s.cid.cid.2, config } rsp (.error (.quiche err))
    show Chan.queue (Ep.cmd (Ep.answer _ _ _)) = _
    rw [he]
  | @answerNew i scid rsp hpc =>
    refine .done (by rw [hpc]; nofun) rfl ?_
    have he := answer_eq (s.insertCon scid i) rsp (.ok i)
    have hi := insertCon_eq s scid i
    show Chan.queue (Ep.cmd (Ep.answer _ _ _)) = _
    rw [he, hi]

theorem inHand_recv (hpc : s.pc = .recv) : s.inHand = none := by
  unfold inHand
  rw [hpc]

/-- `ep_task` is always busy with some command, but where it waits for one. -/
theorem inHand_busy (h : (sys Q).Reach s) : s.pc.isRecv = false → s.inHand ≠ none := by
  refine h.invariant (I := fun s => s.pc.isRecv = false → s.inHand ≠ none) ?_ ?_
  · rintro s ⟨n, config, h3Config, rfl⟩ hp
    cases hp
  · intro a s s' hr hi hs hp
    rcases reach_cases hr hs with ⟨rfl, ht⟩ | ⟨-, hf⟩
    · cases hand_task hr ht with
      | take _ _ _ hi' | busy _ _ hi' => rw [hi']; nofun
      | done _ hp' => rw [hp'] at hp; cases hp
    · rw [inHand_moves hf.pc hf.cons]
      exact hi (hf.pc ▸ hp)

theorem cmds_task (h : (sys Q).Reach s) (ht : TaskStep s s') :
    handles .task s s' ++ (cmds Q).queue s' = (cmds Q).queue s := by
  show (if s'.pc.isRecv then s.inHand.toList else []) ++
    (s'.inHand.toList ++ s'.cmd.queue.map Prod.fst) = s.inHand.toList ++ s.cmd.queue.map Prod.fst
  cases hand_task h ht with
  | take hpc hq hp hi =>
    rw [hp, hi, hq, inHand_recv hpc]
    rfl
  | busy hi hp hi' hq =>
    rw [hp, hi, hi', hq]
    rfl
  | done _ hp hq =>
    rw [hq, inHand_recv hp, hp]
    rfl

/-- The steps of the other parties. -/
theorem cmds_other {a : EpAct} (h : (sys Q).Reach s) (hs : step a s = some s') (ha : a ≠ .task) :
    (cmds Q).queue s' = (cmds Q).queue s ++ putCmd a s s' := by
  have hr := (sys_control h).rx
  have hf := frame_step hs ha hr
  have hi := inHand_moves hf.pc hf.cons
  have hput : ∀ {l : List EpCmd}, s'.cmd.queue.map Prod.fst = s.cmd.queue.map Prod.fst ++ l →
      putCmd a s s' = l → (cmds Q).queue s' = (cmds Q).queue s ++ putCmd a s s' := by
    intro l hq hl
    show s'.inHand.toList ++ s'.cmd.queue.map Prod.fst = s.inHand.toList ++ s.cmd.queue.map Prod.fst ++ _
    rw [hi, hq, hl, List.append_assoc]
  have hstill : ∀ {a : EpAct} {s s' : Ep Q}, (∀ k, a ≠ .connSend k) → a ≠ .udp →
      putCmd a s s' = [] := by
    intro a s s' hk hu
    cases a with
    | connSend k => exact absurd rfl (hk k)
    | udp => exact absurd rfl hu
    | _ => rfl
  cases otherStep_cases hs ha hr with
  | udpAcquire hu => exact hput (List.append_nil _).symm (by unfold putCmd; rw [hu])
  | udpEnd hu | udpSend hu => exact hput List.map_append (by unfold putCmd; rw [hu]; rfl)
  | connSend hk => exact hput List.map_append (by unfold putCmd; dsimp only; rw [hk]; rfl)
  | _ => exact hput (List.append_nil _).symm (hstill nofun nofun)

theorem cmds_lawful (Q : Quiche) : (cmds Q).Lawful (sys Q) := by
  constructor
  case flow =>
    intro a s s' hr hs _
    refine ⟨rfl, ?_⟩
    rcases reach_cases hr hs with ⟨rfl, ht⟩ | ⟨ha, -⟩
    · exact (cmds_task hr ht).trans (List.append_nil _).symm
    · refine Eq.trans ?_ (cmds_other hr hs ha)
      cases a <;> first | rfl | exact absurd rfl ha
  case closes =>
    intro a s s' _ _ hl
    cases hl

/-! ## Packets -/

/-- The packets that `udp_task` puts on the channel are those of the stream, but for the one in its
hand. -/
theorem put_yielded {as : List EpAct} {s₀ : Ep Q} (h₀ : (sys Q).init s₀)
    (hr : (sys Q).run as s₀ = some s) :
    s.yielded = ((cmds Q).put (sys Q) as s₀).filterMap (·.pak?) ++ s.udpPc.pak?.toList := by
  refine Lts.init_gather (f := putCmd) (I := fun s l =>
    s.yielded = l.filterMap (·.pak?) ++ s.udpPc.pak?.toList) (fun a s s' l h hl hs => ?_) h₀ hr ?_
  · rw [yielded_step h hs, hl, List.filterMap_append, List.append_assoc, List.append_assoc]
    congr 1
    rcases reach_cases h hs with ⟨rfl, ht⟩ | ⟨ha, -⟩
    · rw [udpPc_task ht]
      exact List.append_nil _
    · cases otherStep_cases hs ha (sys_control h).rx with
      | udpAcquire hu | udpEnd hu => unfold putCmd; rw [hu]; rfl
      | @udpSend r g hu => unfold putCmd; rw [hu]; cases r <;> rfl
      | @udpRecv item hu => rw [hu]; rcases item with _ | _ | pak <;> rfl
      | @connSend k addr g hk =>
        unfold putCmd
        dsimp only
        rw [hk]
        exact List.append_nil _
      | _ => exact List.append_nil _
  · obtain ⟨n, config, h3Config, rfl⟩ := h₀
    rfl

/-- The packets that were handled have their fates. -/
theorem taken_fates {as : List EpAct} {s₀ : Ep Q} (h₀ : (sys Q).init s₀)
    (hr : (sys Q).run as s₀ = some s) :
    ((cmds Q).taken (sys Q) as s₀).filterMap (·.pak?) <+: s.fates.map Prod.fst := by
  have hreach : (sys Q).Reach s := .run h₀ hr
  have hq₀ : (cmds Q).queue s₀ = [] := by
    obtain ⟨n, config, h3Config, rfl⟩ := h₀
    rfl
  have hall := ((cmds_lawful Q).run (.init h₀) hr).all rfl
  rw [hq₀, List.nil_append] at hall
  have hqueue : ((cmds Q).queue s).filterMap (·.pak?) =
      (s.inHand.bind (·.pak?)).toList ++ s.cmd.queue.filterMap (·.1.pak?) := by
    show (s.inHand.toList ++ s.cmd.queue.map Prod.fst).filterMap _ = _
    have hin : s.inHand.toList.filterMap (·.pak?) = (s.inHand.bind (·.pak?)).toList := by
      cases s.inHand with
      | none => rfl
      | some cmd => cases hc : cmd.pak? <;> simp [hc]
    rw [List.filterMap_append, List.filterMap_map, hin]
    rfl
  -- what was handled, and what is in hand
  have hsame : s.fates.map Prod.fst ++ s.pc.pak?.toList =
      ((cmds Q).taken (sys Q) as s₀).filterMap (·.pak?) ++ (s.inHand.bind (·.pak?)).toList := by
    have hflow := (sys_routing hreach).flow
    rw [put_yielded h₀ hr, ← hall, List.filterMap_append, hqueue] at hflow
    unfold inbound at hflow
    simp only [← List.append_assoc] at hflow
    exact List.append_cancel_right (List.append_cancel_right hflow)
  cases hp : s.pc.pak? with
  | none =>
    rw [hp] at hsame
    exact ⟨_, hsame.symm.trans (List.append_nil _)⟩
  | some pak =>
    have hin : s.inHand.bind (·.pak?) = some pak := by
      unfold inHand
      cases hpc : s.pc with
      | recv | inCon | newCon | ended => rw [hpc] at hp; cases hp
      | _ => rw [hpc] at hp; exact hp
    rw [hp, hin] at hsame
    exact ⟨[], (List.append_nil _).trans (List.append_cancel_right hsame).symm⟩

/-! ## Calls -/

/-- The slots on their way are those in the commands on their way. -/
theorem rsps_cmds (h : (sys Q).Reach s) :
    s.rsps = ((cmds Q).queue s).filterMap (·.rsp?) := by
  have hlocal : (localRsp s.pc).toList = s.inHand.toList.filterMap (·.rsp?) := by
    have hone : ∀ x : Option EpCmd, x.toList.filterMap (·.rsp?) = (x.bind (·.rsp?)).toList := by
      intro x
      cases x with
      | none => rfl
      | some cmd => cases hc : cmd.rsp? <;> simp [hc]
    rw [hone]
    unfold inHand
    cases hpc : s.pc with
    | newCon i scid rsp =>
      have hlt := ((sys_control h).here i (by rw [hpc]; rfl)).1
      dsimp only
      rw [List.getElem?_eq_getElem (by omega)]
      rfl
    | inCon i =>
      dsimp only
      cases s.cons[i]? with
      | none => rfl
      | some r =>
        rw [Option.bind_some]
        cases r.origin <;> rfl
    | _ => rfl
  show (localRsp s.pc).toList ++ _ = (s.inHand.toList ++ s.cmd.queue.map Prod.fst).filterMap _
  rw [hlocal, List.filterMap_append, List.filterMap_map]
  rfl

/-- The slot of a call that waits is on its way. -/
theorem wait_rsps (h : (sys Q).Reach s) :
    ∀ k, s.connects[k]? = some .wait → k ∈ s.rsps := by
  refine h.invariant (I := fun s => ∀ k, s.connects[k]? = some .wait → k ∈ s.rsps) ?_ ?_
  · rintro s ⟨n, config, h3Config, rfl⟩ k hk
    cases hk
  intro a s s' hr hi hs k hk
  -- a call that moves, but not to wait
  have hmove : ∀ {j y}, s'.connects = s.connects.set j y → y ≠ .wait → j ≠ k ∧ k ∈ s.rsps := by
    intro j y hc hy
    have hjk : j ≠ k := by
      rintro rfl
      rw [hc, List.getElem?_set_self'] at hk
      cases hj : s.connects[j]? with
      | none => rw [hj] at hk; cases hk
      | some x => rw [hj] at hk; exact hy (Option.some.inj hk)
    rw [hc, List.getElem?_set_ne hjk] at hk
    exact ⟨hjk, hi k hk⟩
  rcases reach_cases hr hs with ⟨rfl, ht⟩ | ⟨ha, -⟩
  · rcases answers_task ht with ⟨rsp, result, hans⟩ | ⟨hc, hrs, -⟩
    · have hmem : rsp ≠ k ∧ k ∈ s.rsps := by
        by_cases hw : s.connects[rsp]? = some .wait
        · exact hmove (hans.wait hw) nofun
        · rw [hans.gone hw] at hk
          exact ⟨fun he => hw (he ▸ hk), hi k hk⟩
      rw [hans.rsps] at hmem
      exact (List.mem_cons.mp hmem.2).resolve_left fun he => hmem.1 he.symm
    · rw [hrs]
      exact hi k (hc ▸ hk)
  · cases otherStep_cases hs ha (sys_control hr).rx with
    | udpEnd | udpSend => exact (rsps_push s _ _) ▸ List.mem_append_left _ (hi k hk)
    | connect => exact hi k ((List.getElem?_concat_cases hk).resolve_right fun h => nomatch h.2)
    | connAcquire | connFails | connGives | connCancel => exact (hmove rfl nofun).2
    | @connSend j addr g hj =>
      refine (rsps_push s _ _) ▸ ?_
      by_cases hjk : j = k
      · exact List.mem_append_right _ (hjk ▸ List.mem_cons_self)
      · exact List.mem_append_left _ (hi k ((List.getElem?_set_ne hjk).symm.trans hk))
    | _ => exact hi k hk

/-- When its `NewCon` was handled, a call does not wait. -/
theorem settled_of_handled (h : (sys Q).Reach s) (hs : step .task s = some s') {addr : SocketAddr}
    {k : Nat} (hk : .newCon addr k ∈ handles .task s s') :
    ∃ x, s'.connects[k]? = some x ∧ x.settled := by
  have hs' : (sys Q).Reach s' := .step .task h hs
  have ht : TaskStep s s' := (taskStep_cases hs).resolve_right (not_ends (sys_control h))
  have hrsps := rsps_cmds h
  rw [← cmds_task h ht, List.filterMap_append, ← rsps_cmds hs'] at hrsps
  have hmem : k ∈ (handles .task s s').filterMap (·.rsp?) := List.mem_filterMap.mpr ⟨_, hk, rfl⟩
  -- no slot is on its way twice
  have hout : k ∉ s'.rsps := by
    have hnd := (sys_slots h).nodup
    rw [hrsps] at hnd
    exact fun hin => (List.disjoint_of_nodup_append hnd) hmem hin
  have hwait : ∃ x, s.connects[k]? = some x ∧ (x = .wait ∨ x = .cancelled) := by
    rcases (sys_slots h).waits k (hrsps ▸ List.mem_append_left _ hmem) with hw | hw
    · exact ⟨_, hw, .inl rfl⟩
    · exact ⟨_, hw, .inr rfl⟩
  obtain ⟨x, hx, hx'⟩ := hwait
  obtain ⟨y, hy, hn⟩ := (calls_step h hs).next hx
  refine ⟨y, hy, ?_⟩
  rcases hx' with rfl | rfl
  · cases hn with
    | rest => exact absurd (wait_rsps hs' k hy) hout
    | answer | cancel => rfl
  · exact hn.settled rfl

/-- What holds of a call whatever becomes of it. -/
theorem call_run {P : ConnectCall → Prop} (hP : ∀ x y, P x → x.Next y → P y) {as : List EpAct}
    (h : (sys Q).Reach s) (hr : (sys Q).run as s = some s') {k : Nat}
    (hx : ∃ x, s.connects[k]? = some x ∧ P x) : ∃ y, s'.connects[k]? = some y ∧ P y := by
  have hsteps : (sys Q).Steps (fun _ => True) s s' := .run hr fun _ _ => trivial
  have hkeep := hsteps.invariant
    (I := fun s => (sys Q).Reach s ∧ ∃ x, s.connects[k]? = some x ∧ P x)
    (fun a s s' _ hi hs => by
      obtain ⟨h, x, hx, hp⟩ := hi
      obtain ⟨y, hy, hn⟩ := (calls_step h hs).next hx
      exact ⟨.step a h hs, y, hy, hP x y hp hn⟩) ⟨h, hx⟩
  exact hkeep.2

/-- It will not wait again. -/
theorem settled_of_taken {as : List EpAct} (h : (sys Q).Reach s) (hr : (sys Q).run as s = some s')
    {addr : SocketAddr} {k : Nat} (hk : .newCon addr k ∈ (cmds Q).taken (sys Q) as s) :
    ∃ x, s'.connects[k]? = some x ∧ x.settled := by
  refine Lts.run_gather (l := []) (I := fun s l => ∀ cmd ∈ l, ∀ addr k, cmd = .newCon addr k →
    ∃ x, s.connects[k]? = some x ∧ x.settled) (fun a s s' l h hl hs cmd hm addr k hc => ?_) h hr
    nofun _ hk addr k rfl
  subst hc
  rcases List.mem_append.mp hm with hm | hm
  · obtain ⟨x, hx, hset⟩ := hl _ hm addr k rfl
    obtain ⟨y, hy, hn⟩ := (calls_step h hs).next hx
    exact ⟨y, hy, hn.settled hset⟩
  · cases a with
    | task => exact settled_of_handled h hs hm
    | _ => cases hm

end Ep
end Absquic
