import Absquic.Conn.Commands
import Absquic.Ep.Routing

/-!
# A connection in the runs of its endpoint

In a run of an endpoint a connection makes a run of its own: the steps of its parties, and those that
`ep_task` makes on it and that its handles make on their way (`ConAct.byEp`). `con_moves` is one step,
`run_con` lifts what holds along the runs of a connection to the runs of the endpoint.

With the routing this gives the way of a packet through the endpoint (`fed_exact`): what quiche was
given for connection `i` are the packets at certain places of the stream, in the order of the stream,
each once; they are the first packets of those that `ep_task` routed to the connection, and what is
missing waits on its channel as long as its task runs.
-/

namespace Absquic

/-- A step that `ep_task` makes, or that comes with the way of a handle. -/
def ConAct.byEp : ConAct → Bool
  | .dropCon | .dropRecv => true
  | a => a.isEp

/-- The packet that the stream yields in the step. -/
def EpAct.pak? : EpAct → Option UdpPak
  | .udpRecv (some (.ok pak)) => some pak
  | _ => none

namespace Ep

variable {Q : Quiche} {s s' : Ep Q}

/-! ## One step -/

theorem yielded_step {a : EpAct} (h : (sys Q).Reach s) (hs : step a s = some s') :
    s'.yielded = s.yielded ++ a.pak?.toList := by
  have hlog : ∀ {l : List EpObs}, s'.trace = s.trace ++ l → l.filterMap (·.pak?) = a.pak?.toList →
      s'.yielded = s.yielded ++ a.pak?.toList := by
    intro l ht hl
    unfold yielded
    rw [ht, List.filterMap_append, hl]
  have hnone : a.pak? = none → s'.trace = s.trace → s'.yielded = s.yielded ++ a.pak?.toList := by
    intro hn ht
    exact hlog (l := []) (by rw [ht, List.append_nil]) (by rw [hn]; rfl)
  rcases reach_cases h hs with ⟨rfl, ht⟩ | ⟨ha, -⟩
  · rcases trace_task ht with he | ⟨o, he, ho⟩
    · exact hnone rfl he
    · refine hlog he (List.filterMap_cons_none ?_)
      cases o <;> first | rfl | cases ho
  · cases otherStep_cases hs ha (sys_control h).rx with
    | @udpRecv item =>
      refine hlog (l := [.yield item]) rfl ?_
      rcases item with _ | _ | pak <;> rfl
    | _ => exact hnone rfl rfl

/-- A move by steps of `ep_task` and of the handles. -/
abbrev Passively : Nat → Con Q → Con Q → Prop := Runs fun a => a.byEp

theorem passive_drop (c : Con Q) : (Con.sys Q).Steps (fun a => a.byEp) c c.dropCon.dropRecv :=
  .trans (.one (a := .dropCon) rfl rfl) (.one (a := .dropRecv) rfl rfl)

theorem passive_refl (s : Ep Q) : Moves Passively s.cons s.cons := .refl (fun _ c => .refl c) _

theorem passive_dropCons (s : Ep Q) (is : List Nat) :
    Moves Passively s.cons (s.dropCons is).cons := by
  refine (moves_dropCons s is).mono ?_
  rintro j c c' rfl
  split
  · exact passive_drop c
  · exact .refl c

theorem passive_insertCon (s : Ep Q) (scid : ConnectionId) (i : Nat) :
    Moves Passively s.cons (s.insertCon scid i).cons := by
  refine (moves_insertCon s scid i).mono ?_
  rintro j c c' (rfl | rfl)
  · exact .refl _
  · exact .one (a := .unmap) rfl rfl

theorem passive_answer (s : Ep Q) (rsp : Nat) (result : Result Nat) :
    Moves Passively s.cons (s.answer rsp result).cons := by
  unfold answer
  split
  · exact passive_refl s
  · exact passive_dropCons s _

theorem passive_modCon (s : Ep Q) (i : Nat) {f : Con Q → Con Q}
    (hf : ∀ c, (Con.sys Q).Steps (fun a => a.byEp) c (f c)) :
    Moves Passively s.cons (s.modCon i f).cons := by
  refine (moves_modCon s i f).mono ?_
  rintro j c c' rfl
  split
  · exact hf c
  · exact .refl c

/-- `ep_task` tries to put a packet on the channel of connection `i`. -/
theorem passive_send {i : Nat} {r : EpCon Q} {c : Con Q} {pak : UdpPak} {ok : Bool}
    (hr : s.cons[i]? = some r) (hc : r.con.sendInPak pak = some (c, ok)) :
    Moves Passively s.cons (s.modCon i fun _ => c).cons :=
  runs_modCon hr (.one (a := .sendInPak pak) rfl (by show (r.con.sendInPak pak).map _ = _; rw [hc]; rfl))

/-- The connections after a step of `ep_task`. -/
theorem passive_task (h : TaskStep s s') :
    (∃ new, s'.cons = s.cons ++ [new] ∧ (Con.sys Q).init new.con) ∨
      Moves Passively s.cons s'.cons := by
  cases h with
  | accept _ _ _ _ _ hc => exact .inl ⟨_, rfl, _, _, hc⟩
  | spawnNew _ _ hc => exact .inl ⟨_, rfl, _, _, hc⟩
  | route _ _ _ hr hc => exact .inr (runs_modCon hr (.one (a := .tryAcquire) rfl hc))
  | permit _ hr hc => exact .inr (runs_modCon hr (.one (a := .tryAcquire) rfl hc))
  | deliver _ hr hc => exact .inr (passive_send hr hc)
  | conEnded _ hr hc =>
    exact .inr ((passive_send hr hc).trans_runs
      (passive_modCon _ _ fun c => .one (a := .unmap) rfl rfl))
  | @put i scid pak r c ok _ hr hc =>
    exact .inr ((passive_send hr hc).trans_runs
      (passive_insertCon ((s.modCon i fun _ => c).log (.fate pak (.created i ok))) scid i))
  | noInCon => exact .inr (passive_dropCons s _)
  | @refuseNew addr rsp config err =>
    exact .inr (passive_answer { s with cid := s.cid.cid.2, config } rsp (.error (.quiche err)))
  | answerNew => exact .inr ((passive_insertCon s _ _).trans_runs (passive_answer _ _ _))
  | _ => exact .inr (passive_refl s)

/-- The connections after a step of another party, but for a connection that moves itself. -/
theorem passive_other {a : EpAct} (h : OtherStep s a s') (ha : ∀ i b, a ≠ .con i b) :
    Moves Passively s.cons s'.cons := by
  have hdeliver : ∀ c : Con Q, (Con.sys Q).Steps (fun a => a.byEp) c c.deliver :=
    fun c => .one (a := .deliver) rfl rfl
  cases h with
  | connGives => exact passive_modCon s _ hdeliver
  | connCancel => exact passive_dropCons s _
  | evtPoll => exact passive_modCon s _ hdeliver
  | dropRecv => exact passive_dropCons s _
  | con => exact absurd rfl (ha _ _)
  | _ => exact passive_refl s

/-- A step of the endpoint and connection `i`: it is new, it makes a step of its own, or it is moved
by others (module doc). -/
inductive ConMove (s : Ep Q) (a : EpAct) (i : Nat) (c' : Con Q) : Prop
  | new (hn : s.cons[i]? = none) (hi : (Con.sys Q).init c')
  | own {r b} (hr : s.cons[i]? = some r) (ha : a = .con i b) (hs : Con.step b r.con = some c')
  | passive {r} (hr : s.cons[i]? = some r) (ha : ∀ b, a ≠ .con i b)
    (hs : (Con.sys Q).Steps (fun b => b.byEp) r.con c')

theorem con_moves {a : EpAct} (h : (sys Q).Reach s) (hs : step a s = some s') {i : Nat}
    {r' : EpCon Q} (hi : s'.cons[i]? = some r') : ConMove s a i r'.con := by
  have hback : Moves Passively s.cons s'.cons → (∀ b, a ≠ .con i b) → ConMove s a i r'.con := by
    intro hm ha
    obtain ⟨r, hr, -, hst⟩ := hm.back hi
    exact .passive hr ha hst
  rcases reach_cases h hs with ⟨rfl, ht⟩ | ⟨ha, -⟩
  · rcases passive_task ht with ⟨new, hn, hinit⟩ | hm
    · rcases List.getElem?_concat_cases (hn ▸ hi) with hr | ⟨rfl, rfl⟩
      · exact .passive hr nofun (.refl _)
      · exact .new (List.getElem?_eq_none (Nat.le_refl _)) hinit
    · exact hback hm nofun
  · have ho := otherStep_cases hs ha (sys_control h).rx
    by_cases hcon : ∃ j b, a = .con j b
    · obtain ⟨j, b, rfl⟩ := hcon
      cases ho with
      | @con _ _ r c hj hm hc =>
        obtain ⟨q, hq, -, he⟩ := (moves_modCon s j fun _ => c).back hi
        by_cases hij : i = j
        · subst hij
          rw [hj] at hq
          cases hq
          rw [if_pos rfl] at he
          exact .own hj rfl (he ▸ hc)
        · rw [if_neg hij] at he
          refine .passive hq (fun b' hb => hij ?_) (he ▸ .refl _)
          cases hb
          rfl
    · exact hback (passive_other ho fun j b hb => hcon ⟨j, b, hb⟩) fun b hb => hcon ⟨i, b, hb⟩

/-! ## Runs -/

/-- What connection `i` gives in a step of the endpoint, where `f` says what its own steps give. -/
def atCon {ι : Type} (i : Nat) (f : ConAct → Con Q → Con Q → List ι) (a : EpAct) (s s' : Ep Q) :
    List ι :=
  match a with
  | .con j b =>
    if j = i then
      match s.cons[i]?, s'.cons[i]? with
      | some r, some r' => f b r.con r'.con
      | _, _ => []
    else []
  | _ => []

theorem atCon_passive {ι : Type} {i : Nat} {f : ConAct → Con Q → Con Q → List ι} {a : EpAct}
    (ha : ∀ b, a ≠ .con i b) (s s' : Ep Q) : atCon i f a s s' = [] := by
  cases a with
  | con j b =>
    unfold atCon
    exact if_neg fun hj => ha b (by rw [hj])
  | _ => rfl

theorem atCon_absent {ι : Type} {i : Nat} {f : ConAct → Con Q → Con Q → List ι} (a : EpAct)
    (h : s.cons[i]? = none) (s' : Ep Q) : atCon i f a s s' = [] := by
  cases a with
  | con j b =>
    unfold atCon
    dsimp only
    rw [h]
    split <;> rfl
  | _ => rfl

/-- The connections stay. -/
theorem cons_stay {a : EpAct} (h : (sys Q).Reach s) (hs : step a s = some s') {i : Nat}
    {r : EpCon Q} (hr : s.cons[i]? = some r) : s'.cons[i]? ≠ none := by
  rcases reach_cases h hs with ⟨-, ht⟩ | ⟨-, hf⟩
  · obtain ⟨c, hc⟩ := cons_keep ht hr
    rw [hc]
    nofun
  · obtain ⟨c, hc, -⟩ := hf.cons.con i r hr
    rw [hc]
    nofun

/-- What holds along the runs of a connection, and of what its own steps give, holds of the
connections of an endpoint along its runs. -/
theorem run_con {ι : Type} {f : ConAct → Con Q → Con Q → List ι} {I : Con Q → List ι → Prop}
    (hf : ∀ b c c', b.byEp → f b c c' = []) (h0 : ∀ c, (Con.sys Q).init c → I c [])
    (hstep : ∀ b c c' l, (Con.sys Q).Reach c → I c l → Con.step b c = some c' →
      I c' (l ++ f b c c')) {as : List EpAct} {s₀ s : Ep Q} (h₀ : (sys Q).init s₀)
    (hr : (sys Q).run as s₀ = some s) {i : Nat} {r : EpCon Q} (hi : s.cons[i]? = some r) :
    I r.con ((sys Q).gather (atCon i f) as s₀) := by
  suffices hall : (s.cons[i]? = none → (sys Q).gather (atCon i f) as s₀ = []) ∧
      ∀ r, s.cons[i]? = some r → I r.con ((sys Q).gather (atCon i f) as s₀) from hall.2 r hi
  refine Lts.init_gather (I := fun s l => (s.cons[i]? = none → l = []) ∧
    ∀ r, s.cons[i]? = some r → I r.con l) (fun a s s' l h hl hs => ?_) h₀ hr ?_
  · constructor
    · intro hn
      have hn₀ : s.cons[i]? = none :=
        Option.eq_none_iff_forall_ne_some.mpr fun r hr => cons_stay h hs hr hn
      rw [hl.1 hn₀, atCon_absent a hn₀]
      rfl
    · intro r' hr'
      cases con_moves h hs hr' with
      | new hn hinit =>
        rw [hl.1 hn, atCon_absent a hn]
        exact h0 _ hinit
      | @own r b hr ha hst =>
        have hat : atCon i f a s s' = f b r.con r'.con := by
          subst ha
          unfold atCon
          dsimp only
          rw [if_pos rfl, hr, hr']
        rw [hat]
        exact hstep b _ _ l (cons_reach h hr) (hl.2 r hr) hst
      | @passive r hr ha hst =>
        rw [atCon_passive ha, List.append_nil]
        -- along the moves by others, nothing is given
        have hkeep := hst.invariant (I := fun c => (Con.sys Q).Reach c ∧ I c l)
          (fun b c c' hb hc hs => by
            have hn := hstep b c c' l hc.1 hc.2 hs
            rw [hf b c c' hb, List.append_nil] at hn
            exact ⟨.step b hc.1 hs, hn⟩)
          ⟨cons_reach h hr, hl.2 r hr⟩
        exact hkeep.2
  · obtain ⟨n, config, h3Config, rfl⟩ := h₀
    exact ⟨fun _ => rfl, fun r hr => (nomatch hr)⟩

/-! ## The way of a packet -/

/-- What `recv` of quiche was given for connection `i` in a run. -/
def fed (i : Nat) (as : List EpAct) (s : Ep Q) : List UdpPak :=
  (sys Q).gather (atCon i Con.feeds) as s

/-- `fed` is what quiche was given for connection `i` (module doc). -/
structure FedExact (s : Ep Q) (i : Nat) (r : EpCon Q) (fed : List UdpPak) : Prop where
  /-- Packets of the stream, in its order, each once, -/
  stream : fed.Sublist s.yielded
  /-- with the id of the connection, but for the packet that it was created for. -/
  own : ∀ pak ∈ fed, (∃ hdr, r.origin = some (pak, hdr)) ∨
    ∃ hdr, Q.headerFromSlice pak.data 16 = .ok hdr ∧ hdr.dcid = r.scid
  /-- They are the first of the packets that `ep_task` put on its channel, -/
  inOrder : fed <+: r.con.inPaks
  /-- and as long as its task runs, the others wait there. -/
  all : r.con.pc.over = false → fed ++ r.con.backlog = r.con.inPaks

/-- The packets on a channel are packets of the stream. -/
theorem inPaks_sublist (h : (sys Q).Reach s) {i : Nat} {r : EpCon Q} (hi : s.cons[i]? = some r) :
    r.con.inPaks.Sublist s.yielded := by
  have hr := sys_routing h
  rw [(hr.sent i r hi).inPaks_eq, ← hr.flow, List.append_assoc]
  exact (List.filter_sublist.map _).trans (List.sublist_append_left _ _)

/-- The packet that a connection was created for is a packet of the stream. -/
theorem origin_yielded (h : (sys Q).Reach s) {i : Nat} {r : EpCon Q} (hi : s.cons[i]? = some r)
    {pak : UdpPak} {hdr : Header} (ho : r.origin = some (pak, hdr)) : pak ∈ s.yielded := by
  have hr := sys_routing h
  rw [← hr.flow]
  cases hr.sent i r hi with
  | connected ho' => rw [ho'] at ho; cases ho
  | accepting ho' hh =>
    rw [ho'] at ho
    cases ho
    exact List.mem_append_left _ (List.mem_append_right _ (Option.mem_toList.mpr hh.1))
  | @accepted _ _ put _ ho' ha =>
    rw [ho'] at ho
    cases ho
    have hmem : (pak, Fate.created i put) ∈ s.fates :=
      List.mem_of_mem_filter (ha ▸ List.mem_cons_self)
    exact List.mem_append_left _ (List.mem_append_left _ (List.mem_map.mpr ⟨_, hmem, rfl⟩))

/-- They have the id of the connection, but for the packet that it was created for. -/
theorem inPaks_own (h : (sys Q).Reach s) {i : Nat} {r : EpCon Q} (hi : s.cons[i]? = some r) :
    ∀ pak ∈ r.con.inPaks, (∃ hdr, r.origin = some (pak, hdr)) ∨
      ∃ hdr, Q.headerFromSlice pak.data 16 = .ok hdr ∧ hdr.dcid = r.scid := by
  have hlater : ∀ later : List (UdpPak × Fate), (∀ x ∈ later, For i r x) →
      ∀ pak ∈ later.map Prod.fst,
        ∃ hdr, Q.headerFromSlice pak.data 16 = .ok hdr ∧ hdr.dcid = r.scid := by
    intro later hl pak hp
    obtain ⟨x, hx, rfl⟩ := List.mem_map.mp hp
    exact (hl x hx).2
  intro pak hp
  cases (sys_routing h).sent i r hi with
  | @connected later _ _ hl hpaks => exact .inr (hlater later hl pak (hpaks ▸ hp))
  | accepting _ _ _ hpaks => rw [hpaks] at hp; cases hp
  | @accepted pak₀ hdr put later ho _ hl hpaks =>
    rw [hpaks] at hp
    rcases List.mem_append.mp hp with hp | hp
    · cases put with
      | true => exact .inl ⟨hdr, by rw [ho, List.mem_singleton.mp hp]⟩
      | false => cases hp
    · exact .inr (hlater later hl pak hp)

theorem fed_exact {as : List EpAct} {s₀ : Ep Q} (h₀ : (sys Q).init s₀)
    (hr : (sys Q).run as s₀ = some s) {i : Nat} {r : EpCon Q} (hi : s.cons[i]? = some r) :
    FedExact s i r (fed i as s₀) := by
  have hreach : (sys Q).Reach s := .run h₀ hr
  have hfed : Con.Fed r.con (fed i as s₀) := by
    refine run_con (I := Con.Fed) (fun b c c' hb => ?_) (fun c => Con.fed_init)
      (fun b c c' l hc hl hs => hl.next hc hs) h₀ hr hi
    cases b <;> first | rfl | cases hb
  exact ⟨hfed.inOrder.sublist.trans (inPaks_sublist hreach hi),
    fun pak hp => inPaks_own hreach hi pak (hfed.inOrder.subset hp), hfed.inOrder, hfed.all⟩

end Ep
end Absquic
