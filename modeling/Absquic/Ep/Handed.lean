import Absquic.Conn.Served
import Absquic.Ep.Given
import Absquic.Ep.Served

/-!
# What reaches the users

The handles of a connection are with `ep_task` when it has made it, then in an event or in the answer to
a call (`Way`). They do not stay there: in every fair run in which the users poll for events and poll
their calls, each connection is given to the call for which it was made, or as an event, unless the
user drops that call or `QuicheEpRecv` (`reaches_user`).
-/

namespace Absquic

/-- The handles are no longer on their way to the user. -/
structure Con.Landed {Q : Quiche} (c : Con Q) : Prop where
  handle : c.handle ≠ .inFlight
  evtRecv : c.evtRecv ≠ .inFlight

theorem Con.Landed.next {Q : Quiche} {a : ConAct} {c c' : Con Q} (h : c.Landed)
    (hs : step a c = some c') : c'.Landed := by
  refine ⟨?_, given_step hs h.evtRecv⟩
  by_cases ha : a = .task
  · subst ha
    rw [(outer_taskStep hs).handle]
    exact h.handle
  · cases otherStep_cases hs ha with
    | dropCon | deliver => nofun
    | _ => exact h.handle

namespace Ep

variable {Q : Quiche} {s s' : Ep Q}

/-! ## The event channel -/

/-- The event that the step puts on the channel. -/
def emits (a : EpAct) (s _ : Ep Q) : List EpEvt :=
  match a with
  | .task =>
    match s.pc with
    | .inCon i => if s.evt.rx then [.inCon i] else []
    | _ => []
  | _ => []

/-- The event that the user takes in the step. -/
def receives (a : EpAct) (s _ : Ep Q) : List EpEvt :=
  match a with
  | .evtPoll => (s.evt.queue.head?.map Prod.fst).toList
  | _ => []

/-- The event channel. -/
def evts (Q : Quiche) : Fifo (Ep Q) EpAct EpEvt where
  queue s := s.evt.queue.map Prod.fst
  live s := s.evt.rx
  puts := emits
  takes := receives

theorem emits_inCon {i : Nat} (h : s.pc = .inCon i) :
    emits .task s s' = if s.evt.rx then [.inCon i] else [] := by
  unfold emits
  dsimp only
  rw [h]

/-- `ep_task` puts an event on the channel only in `inCon`. -/
theorem emits_none (h : ∀ i, s.pc ≠ .inCon i) : emits .task s s' = [] := by
  unfold emits
  dsimp only
  split
  · next i hi => exact absurd hi (h i)
  · rfl

theorem emits_closed (h : s.evt.rx = false) : emits .task s s' = [] := by
  unfold emits
  dsimp only
  rw [h]
  split <;> rfl

theorem evts_task (ht : TaskStep s s') : s'.evt.rx = s.evt.rx ∧
    (evts Q).queue s' = (evts Q).queue s ++ emits .task s s' := by
  have hkeep : ∀ {pc : EpPc}, s.pc = pc → (∀ i, pc ≠ .inCon i) → s'.evt.rx = s.evt.rx →
      s'.evt.queue = s.evt.queue → s'.evt.rx = s.evt.rx ∧
        (evts Q).queue s' = (evts Q).queue s ++ emits .task s s' := by
    rintro pc rfl hpc hr hq
    refine ⟨hr, ?_⟩
    rw [emits_none hpc, List.append_nil]
    exact congrArg (List.map Prod.fst) hq
  cases ht with
  | @inCon i g hpc hg hr =>
    refine ⟨rfl, ?_⟩
    rw [emits_inCon hpc, hr, if_pos rfl]
    exact List.map_append
  | @noInCon i g hpc hg hr =>
    refine ⟨rfl, ?_⟩
    rw [emits_closed hr]
    exact (List.append_nil _).symm
  | @put i scid pak r c ok hpc =>
    have he := insertCon_eq ((s.modCon i fun _ => c).log (.fate pak (.created i ok))) scid i
    exact hkeep hpc nofun (by rw [he]; rfl) (by rw [he]; rfl)
  | @refuseNew addr rsp config err hpc =>
    have he := answer_eq { s with cid := s.cid.cid.2, config } rsp (.error (.quiche err))
    exact hkeep hpc nofun (by rw [he]; rfl) (by rw [he]; rfl)
  | @answerNew i scid rsp hpc =>
    have hi : (s.insertCon scid i).evt = s.evt := by rw [insertCon_eq s scid i]
    have he : (s.answerNewCon i scid rsp).evt.rx = (s.insertCon scid i).evt.rx ∧
        (s.answerNewCon i scid rsp).evt.queue = (s.insertCon scid i).evt.queue := by
      unfold answerNewCon
      rw [answer_eq (s.insertCon scid i) rsp (.ok i)]
      exact ⟨rfl, rfl⟩
    exact hkeep hpc nofun (by rw [he.1, hi]) (by rw [he.2, hi])
  | take hpc | reserved hpc | reserve hpc | streamEnd hpc | streamErr hpc | drop hpc | refuse hpc
  | accept hpc | route hpc | deliver hpc | conEnded hpc | permit hpc | spawnNew hpc =>
    exact hkeep hpc nofun rfl rfl

/-- What a step of another party does to the channel, other than to take from it. -/
theorem evts_other {a : EpAct} (hs : step a s = some s') (ha : a ≠ .task) (hp : a ≠ .evtPoll)
    (hr : s.cmd.rx = true) : s'.evt.rx = s.evt.rx ∧ s'.evt.queue = s.evt.queue ∨
      a = .dropRecv ∧ s'.evt.rx = false ∧ s'.evt.queue = [] := by
  cases otherStep_cases hs ha hr with
  | evtPoll => exact absurd rfl hp
  | dropRecv => exact .inr ⟨rfl, rfl, rfl⟩
  | _ => exact .inl ⟨rfl, rfl⟩

theorem evts_evtPoll (hs : step .evtPoll s = some s') (hr : s.cmd.rx = true) :
    s'.evt.rx = s.evt.rx ∧ ∃ i g, s.evt.queue = (.inCon i, g) :: s'.evt.queue := by
  cases otherStep_cases hs nofun hr with
  | evtPoll hq => exact ⟨rfl, _, _, hq⟩

/-- Nothing is queued without a receiver. -/
theorem evt_closed (h : (sys Q).Reach s) : s.evt.rx = false → s.evt.queue = [] := by
  refine h.invariant (I := fun s => s.evt.rx = false → s.evt.queue = []) ?_ ?_
  · rintro s ⟨n, config, h3Config, rfl⟩ hr
    cases hr
  · intro a s s' hr hi hs hx
    rcases reach_cases hr hs with ⟨rfl, ht⟩ | ⟨ha, -⟩
    · obtain ⟨hrx, hq⟩ := evts_task ht
      have hx := hrx.symm.trans hx
      rw [emits_closed hx, List.append_nil] at hq
      exact List.map_eq_nil_iff.mp (hq.trans (congrArg (List.map Prod.fst) (hi hx)))
    · by_cases hp : a = .evtPoll
      · subst hp
        obtain ⟨hrx, i, g, hq⟩ := evts_evtPoll (s := s) hs (sys_control hr).rx
        exact nomatch hq.symm.trans (hi (hrx.symm.trans hx))
      · rcases evts_other hs ha hp (sys_control hr).rx with ⟨hrx, hq⟩ | ⟨-, -, hq⟩
        · rw [hq]
          exact hi (hrx.symm.trans hx)
        · exact hq

theorem evts_lawful (Q : Quiche) : (evts Q).Lawful (sys Q) := by
  constructor
  case flow =>
    intro a s s' hr hs hl
    show s.evt.rx = true ∧ receives a s s' ++ (evts Q).queue s' = (evts Q).queue s ++ emits a s s'
    rcases reach_cases hr hs with ⟨rfl, ht⟩ | ⟨ha, -⟩
    · obtain ⟨hrx, hq⟩ := evts_task ht
      exact ⟨hrx ▸ hl, hq⟩
    · have hn : emits a s s' = [] := by cases a <;> first | rfl | exact absurd rfl ha
      rw [hn, List.append_nil]
      by_cases hp : a = .evtPoll
      · subst hp
        obtain ⟨hrx, i, g, hq⟩ := evts_evtPoll (s := s) hs (sys_control hr).rx
        refine ⟨hrx ▸ hl, ?_⟩
        unfold receives evts
        dsimp only
        rw [hq]
        rfl
      · rcases evts_other hs ha hp (sys_control hr).rx with ⟨hrx, hq⟩ | ⟨-, hrx, -⟩
        · have hn : receives a s s' = [] := by cases a <;> first | rfl | exact absurd rfl hp
          rw [hn]
          exact ⟨hrx ▸ hl, congrArg (List.map Prod.fst) hq⟩
        · exact nomatch hrx.symm.trans hl
  case closes =>
    intro a s s' hr hs hl
    cases a with
    | evtPoll =>
      obtain ⟨hrx, i, g, hq⟩ := evts_evtPoll (s := s) hs (sys_control hr).rx
      exact nomatch hq.symm.trans (evt_closed hr (hrx.symm.trans hl))
    | _ => rfl

/-! ## The way of the handles -/

/-- Where the handles of connection `i` went, if those of `given` were given. -/
inductive Went (s : Ep Q) (given : List (Option Nat × Nat)) (i : Nat) : Prop
  | given {x : Option Nat} (h : (x, i) ∈ given)
  /-- There was nobody to take the event. -/
  | noRecv {r : EpCon Q} (hr : s.cons[i]? = some r) (ho : r.origin ≠ none) (hx : s.evt.rx = false)
  /-- The call for which it was made was dropped. -/
  | cancelled {k : Nat} (hm : .newCon k (.ok i) ∈ s.trace) (hk : s.connects[k]? = some .cancelled)

/-- They are no longer on their way. -/
structure Arrived (s : Ep Q) (given : List (Option Nat × Nat)) (i : Nat) : Prop where
  here : ∃ r, s.cons[i]? = some r ∧ r.con.Landed
  went : Went s given i

/-- Where they are (module doc). -/
inductive Way (s : Ep Q) (given : List (Option Nat × Nat)) (i : Nat) : Prop
  | task (h : localCon s.pc = some i)
  | event (h : .inCon i ∈ (evts Q).queue s)
  | answer {k : Nat} (h : s.connects[k]? = some (.answered (.ok i)))
  | arrived (h : Arrived s given i)

/-- The handles that are dropped. -/
theorem here_dropCons {t : Ep Q} {is : List Nat} {i : Nat} (hi : i ∈ is) (hlt : i < t.cons.length) :
    ∃ r, (t.dropCons is).cons[i]? = some r ∧ r.con.Landed := by
  obtain ⟨c, hc, he⟩ := (moves_dropCons t is).con i _ (List.getElem?_eq_getElem hlt)
  refine ⟨_, hc, ?_⟩
  rw [he, if_pos hi]
  exact ⟨nofun, nofun⟩

/-- The handles that arrive. -/
theorem here_deliver {t : Ep Q} {i : Nat} (hlt : i < t.cons.length) :
    ∃ r, (t.modCon i Con.deliver).cons[i]? = some r ∧ r.con.Landed := by
  obtain ⟨c, hc, he⟩ := (moves_modCon t i Con.deliver).con i _ (List.getElem?_eq_getElem hlt)
  refine ⟨_, hc, ?_⟩
  rw [he, if_pos rfl]
  exact ⟨nofun, nofun⟩

theorem Went.next {g : List (Option Nat × Nat)} {i : Nat} {a : EpAct} (hw : Went s g i)
    (h : (sys Q).Reach s) (hs : step a s = some s') : Went s' (g ++ gives a s s') i := by
  cases hw with
  | given hm => exact .given (List.mem_append_left _ hm)
  | noRecv hr ho hx =>
    obtain ⟨c, hc⟩ := cons_fixed h hs hr
    refine .noRecv hc ho ?_
    rcases reach_cases h hs with ⟨rfl, ht⟩ | ⟨ha, -⟩
    · exact (evts_task ht).1.trans hx
    · by_cases hp : a = .evtPoll
      · subst hp
        exact (evts_evtPoll hs (sys_control h).rx).1.trans hx
      · rcases evts_other hs ha hp (sys_control h).rx with ⟨hrx, -⟩ | ⟨-, hrx, -⟩
        · exact hrx.trans hx
        · exact hrx
  | @cancelled k hm hk =>
    obtain ⟨l, hl, -⟩ := trace_step h hs
    obtain ⟨y, hy, hn⟩ := (calls_step h hs).next hk
    refine .cancelled (hl ▸ List.mem_append_left _ hm) ?_
    cases hn with
    | rest => exact hy
    | cancel hlive => cases hlive

theorem Arrived.next {g : List (Option Nat × Nat)} {i : Nat} {a : EpAct} (ha : Arrived s g i)
    (h : (sys Q).Reach s) (hs : step a s = some s') : Arrived s' (g ++ gives a s s') i := by
  refine ⟨?_, ha.went.next h hs⟩
  obtain ⟨r, hr, hu⟩ := ha.here
  obtain ⟨c, hc⟩ := cons_fixed h hs hr
  refine ⟨_, hc, ?_⟩
  cases con_moves h hs hc with
  | new hn => rw [hr] at hn; cases hn
  | own hr' _ hst =>
    rw [hr] at hr'
    cases hr'
    exact hu.next hst
  | passive hr' _ hst =>
    rw [hr] at hr'
    cases hr'
    exact hst.invariant (I := Con.Landed) (fun _ _ _ _ hi hs => hi.next hs) hu

/-- With the answer to a call that was dropped they are dropped. -/
theorem here_answerNew {i rsp : Nat} {scid : ConnectionId} (hlt : i < s.cons.length)
    (hw : s.connects[rsp]? = some .cancelled) :
    ∃ r, (s.answerNewCon i scid rsp).cons[i]? = some r ∧ r.con.Landed := by
  have hgone : (s.insertCon scid i).answer rsp (.ok i) = (s.insertCon scid i).dropCons [i] := by
    unfold answer
    rw [insertCon_eq s scid i]
    dsimp only
    rw [hw]
    rfl
  show ∃ r, ((s.insertCon scid i).answer rsp (.ok i)).cons[i]? = some r ∧ _
  rw [hgone]
  exact here_dropCons List.mem_cons_self
    (Nat.lt_of_lt_of_eq hlt (moves_insertCon s scid i).length.symm)

/-- The answer has them, if the call waits for it. -/
theorem answerNew_next {g : List (Option Nat × Nat)} {i rsp : Nat} {scid : ConnectionId}
    (h : (sys Q).Reach s) (hp : s.pc = .newCon i scid rsp) (hlt : i < s.cons.length) :
    Way (s.answerNewCon i scid rsp) g i := by
  have hans : Answer s (s.answerNewCon i scid rsp) rsp (.ok i) :=
    answer_next (t := s.insertCon scid i) (r := .ok i) (by rw [hp]; rfl)
      (by rw [insertCon_eq]) (by rw [insertCon_eq]) (by rw [insertCon_eq])
  rcases (sys_slots h).waits rsp (hans.rsps ▸ List.mem_cons_self) with hw | hw
  · refine .answer (k := rsp) ?_
    rw [hans.wait hw]
    exact List.getElem?_set_self (List.getElem?_eq_some_iff.mp hw).1
  · refine .arrived ⟨here_answerNew hlt hw, .cancelled (k := rsp) ?_ ?_⟩
    · rw [hans.trace]
      exact List.mem_append_right _ List.mem_cons_self
    · rw [hans.gone (by rw [hw]; nofun)]
      exact hw

/-- From `ep_task` they go on into an event or an answer. -/
theorem local_next {g : List (Option Nat × Nat)} {i : Nat} {a : EpAct} (h : (sys Q).Reach s)
    (hs : step a s = some s') (hl : localCon s.pc = some i) : Way s' (g ++ gives a s s') i := by
  have hlt : i < s.cons.length := by
    have := ((sys_control h).here i hl).1
    omega
  have hnone : ∀ {pc : EpPc}, s.pc = pc → localCon pc = none → Way s' (g ++ gives a s s') i := by
    rintro pc rfl hn
    rw [hn] at hl
    cases hl
  -- `ep_task` has the next of its places
  have hpc : ∀ {pc : EpPc} {j : Nat}, s.pc = pc → localCon pc = some j → i = j := by
    rintro pc j rfl hj
    exact Option.some.inj (hl.symm.trans hj)
  rcases reach_cases h hs with ⟨rfl, ht⟩ | ⟨-, hf⟩
  · cases ht with
    | permit hp =>
      obtain rfl := hpc hp rfl
      exact .task rfl
    | put hp =>
      obtain rfl := hpc hp rfl
      exact .task rfl
    | inCon hp =>
      obtain rfl := hpc hp rfl
      exact .event (List.mem_map.mpr ⟨_, List.mem_append_right _ List.mem_cons_self, rfl⟩)
    | @noInCon j g' hp hg hr =>
      obtain rfl := hpc hp rfl
      obtain ⟨r, hi, ho⟩ := inCon_origin h hp
      obtain ⟨c, hc⟩ := cons_fixed h hs hi
      exact .arrived ⟨here_dropCons (t := ({ s with evtGuard := none } : Ep Q).dropGuards [g'])
        List.mem_cons_self hlt, .noRecv hc ho hr⟩
    | @answerNew j scid rsp hp =>
      obtain rfl := hpc hp rfl
      exact answerNew_next h hp hlt
    | take hp | reserved hp | reserve hp | streamEnd hp | streamErr hp | drop hp | refuse hp
    | accept hp | route hp | deliver hp | conEnded hp | refuseNew hp | spawnNew hp =>
      exact hnone hp rfl
  · exact .task (hf.pc ▸ hl)

/-- From an event they go to who takes it. -/
theorem event_next {g : List (Option Nat × Nat)} {i : Nat} {a : EpAct} (h : (sys Q).Reach s)
    (hs : step a s = some s') (hq : .inCon i ∈ (evts Q).queue s) :
    .inCon i ∈ (evts Q).queue s' ∨ Arrived s' (g ++ gives a s s') i := by
  rcases reach_cases h hs with ⟨rfl, ht⟩ | ⟨ha, -⟩
  · exact .inl ((evts_task ht).2 ▸ List.mem_append_left _ hq)
  obtain ⟨⟨e, g₀⟩, hx, he⟩ := List.mem_map.mp hq
  obtain rfl : e = .inCon i := he
  have hoff : i ∈ s.offered := List.mem_append_right _ (List.mem_map.mpr ⟨_, hx, rfl⟩)
  have hlt := (sys_control h).offered i hoff
  by_cases hp : a = .evtPoll
  · subst hp
    cases otherStep_cases hs nofun (sys_control h).rx with
    | @evtPoll j g' rest hqs =>
      rw [hqs] at hx
      rcases List.mem_cons.mp hx with hx | hx
      · cases hx
        refine .inr ⟨here_deliver (t := ({ s with evt := { s.evt with queue := rest } } : Ep Q).dropGuards
          [g₀]) hlt, .given (x := none) (List.mem_append_right _ ?_)⟩
        unfold gives
        dsimp only
        rw [hqs]
        exact List.mem_cons_self
      · exact .inl (List.mem_map.mpr ⟨_, hx, rfl⟩)
  · rcases evts_other hs ha hp (sys_control h).rx with ⟨-, hqs⟩ | ⟨rfl, hrx, -⟩
    · exact .inl (List.mem_map.mpr ⟨_, hqs ▸ hx, rfl⟩)
    · obtain ⟨r, hi, ho⟩ := (sys_accepted h).evts i g₀ hx
      obtain ⟨c, hc⟩ := cons_fixed h hs hi
      refine .inr ⟨?_, .noRecv hc ho hrx⟩
      cases hs
      exact here_dropCons (List.mem_map.mpr ⟨_, hx, rfl⟩) hlt

/-- From an answer they go to the call, or are dropped with it. -/
theorem answered_next {g : List (Option Nat × Nat)} {i k : Nat} {a : EpAct} (h : (sys Q).Reach s)
    (hs : step a s = some s') (hk : s.connects[k]? = some (.answered (.ok i))) :
    s'.connects[k]? = some (.answered (.ok i)) ∨ Arrived s' (g ++ gives a s s') i := by
  have hlt := (sys_control h).offered i (offered_answered hk rfl)
  have hset : ∀ {j : Nat} {x y : ConnectCall}, s.connects[j]? = some x → x ≠ .answered (.ok i) →
      (s.connects.set j y)[k]? = some (.answered (.ok i)) := by
    intro j x y hj hx
    rw [List.getElem?_set_ne, hk]
    rintro rfl
    exact hx (Option.some.inj (hj.symm.trans hk))
  rcases reach_cases h hs with ⟨rfl, ht⟩ | ⟨ha, -⟩
  · left
    rcases answers_task ht with ⟨rsp, result, hans⟩ | ⟨hc, -⟩
    · by_cases hw : s.connects[rsp]? = some .wait
      · rw [hans.wait hw]
        exact hset hw nofun
      · rw [hans.gone hw]
        exact hk
    · rw [hc]
      exact hk
  · cases otherStep_cases hs ha (sys_control h).rx with
    | connect =>
      exact .inl ((List.getElem?_append_left (List.getElem?_eq_some_iff.mp hk).1).trans hk)
    | connAcquire hj | connSend hj => exact .inl (hset hj nofun)
    | connFails hj => exact .inl (hset hj nofun)
    | @connGives j i' hj =>
      by_cases hjk : j = k
      · subst hjk
        rw [hk] at hj
        cases hj
        refine .inr ⟨here_deliver hlt, .given (x := some j) (List.mem_append_right _ ?_)⟩
        unfold gives
        dsimp only
        rw [hk]
        exact List.mem_cons_self
      · exact .inl ((List.getElem?_set_ne hjk).trans hk)
    | @connCancel j x hj =>
      by_cases hjk : j = k
      · subst hjk
        rw [hk] at hj
        cases hj
        exact .inr ⟨here_dropCons List.mem_cons_self hlt, .cancelled (sys_answered h hk)
          (List.getElem?_set_self (List.getElem?_eq_some_iff.mp hk).1)⟩
      · exact .inl ((List.getElem?_set_ne hjk).trans hk)
    | _ => exact .inl hk

theorem Way.next {g : List (Option Nat × Nat)} {i : Nat} {a : EpAct} (hw : Way s g i)
    (h : (sys Q).Reach s) (hs : step a s = some s') : Way s' (g ++ gives a s s') i := by
  cases hw with
  | task hl => exact local_next h hs hl
  | event hq =>
    rcases event_next h hs hq with hq | ha
    · exact .event hq
    · exact .arrived ha
  | answer hk =>
    rcases answered_next h hs hk with hk | ha
    · exact .answer hk
    · exact .arrived ha
  | arrived ha => exact .arrived (ha.next h hs)

/-- In every run the handles of each connection are somewhere. -/
theorem way_run {as : List EpAct} {s₀ : Ep Q} (h₀ : (sys Q).init s₀)
    (hr : (sys Q).run as s₀ = some s) : ∀ i < s.cons.length, Way s (given as s₀) i := by
  refine Lts.init_gather (I := fun s l => ∀ i < s.cons.length, Way s l i)
    (fun a s s' l h hl hs i hi => ?_) h₀ hr ?_
  · by_cases hlt : i < s.cons.length
    · exact (hl i hlt).next h hs
    · rcases reach_cases h hs with ⟨rfl, ht⟩ | ⟨-, hf⟩
      · rcases cons_task ht with ⟨new, hn⟩ | hm
        · rw [hn.cons, List.length_append, List.length_singleton] at hi
          obtain rfl : i = s.cons.length := by omega
          have hins := hn.inserts
          refine .task ?_
          cases hpc : s'.pc with
          | accepted | acceptSend | newCon => rw [hpc] at hins; cases hins; rfl
          | _ => rw [hpc] at hins; cases hins
        · rw [hm.length] at hi
          exact absurd hi hlt
      · rw [hf.cons.length] at hi
        exact absurd hi hlt
  · obtain ⟨n, config, h3Config, rfl⟩ := h₀
    exact fun i hi => absurd hi (Nat.not_lt_zero i)

/-! ## Fair runs -/

/-- The users poll their calls, too. -/
structure FairCalls (r : (sys Q).Execution) : Prop extends FairRun r where
  calls : ∀ k, r.Fair fun a => a = .connPoll k

variable {r : (sys Q).Execution}

/-- `ep_task` does not keep the handles. -/
theorem FairRun.hands_on (h : FairRun r) (n i : Nat) : ∃ m ≥ n, localCon (r.state m).pc ≠ some i := by
  by_contra hno
  have hl : ∀ m ≥ n, localCon (r.state m).pc = some i := fun m hm =>
    not_not.mp fun hn => hno ⟨m, hm, hn⟩
  have hen : ∀ m ≥ n, (sys Q).Enabled (fun a => a = .task) (r.state m) := by
    intro m hm
    rw [enabled_task (r.reach m)]
    have hlm := hl m hm
    rintro (⟨hpc, -⟩ | ⟨hpc, -, -⟩) <;> (rw [hpc] at hlm; cases hlm)
  refine h.task.descent (f := fun m => (r.state m).pc.rank) (n := n)
    (fun m hm => ⟨m, le_rfl, hen m hm⟩) (fun m hm _ _ => hen (m + 1) (by omega))
    (fun m hm hp => ?_) fun m hm hp => ?_
  · rcases r.step m with ⟨-, hs⟩ | ⟨a, ha, hs⟩
    · rw [hs]
    · have hf := frame_step hs (fun he => hp ⟨a, ha, he⟩) (sys_control (r.reach m)).rx
      exact le_of_eq (congrArg EpPc.rank hf.pc)
  · refine rank_task (r.reach m)
      ((taskStep_cases hp.step).resolve_right (not_ends (sys_control (r.reach m)))) ?_
    have hlm := hl (m + 1) (by omega)
    have hrecv : (r.state (m + 1)).pc.isRecv = false := by
      cases hpc : (r.state (m + 1)).pc with
      | recv => rw [hpc] at hlm; cases hlm
      | _ => rfl
    show (if (r.state (m + 1)).pc.isRecv then _ else []) = []
    rw [hrecv]
    rfl

/-- The event that gives the handles. -/
def eventOf (x : Option Nat × Nat) : Option EpEvt :=
  match x.1 with
  | none => some (.inCon x.2)
  | some _ => none

/-- The events that the user takes give the handles. -/
theorem taken_given (as : List EpAct) (s : Ep Q) :
    (evts Q).taken (sys Q) as s = (given as s).filterMap eventOf := by
  rw [given, Lts.filterMap_gather]
  refine Lts.gather_congr (fun a s s' _ => ?_) as s
  show receives a s s' = (gives a s s').filterMap eventOf
  cases a with
  | connPoll k =>
    unfold gives receives
    dsimp only
    split <;> rfl
  | evtPoll =>
    unfold gives receives
    dsimp only
    cases hq : s.evt.queue with
    | nil => rfl
    | cons x rest => rfl
  | _ => rfl

theorem FairRun.event_arrives (h : FairRun r) {n i : Nat}
    (hq : .inCon i ∈ (evts Q).queue (r.state n)) :
    ∃ m ≥ n, Arrived (r.state m) (given (r.acts 0 m) (r.state 0)) i := by
  by_contra hno
  have hin : ∀ m ≥ n, .inCon i ∈ (evts Q).queue (r.state m) := by
    refine r.keeps (P := fun s => .inCon i ∈ (evts Q).queue s) hq fun m hm a ha hs ih => ?_
    refine (event_next (g := given (r.acts 0 m) (r.state 0)) (r.reach m) hs ih).resolve_right
      fun harr => hno ⟨m + 1, by omega, ?_⟩
    rwa [given, r.gather_next ha]
  -- so it is taken, and still queued
  obtain ⟨k, hk | hk⟩ := (evts_lawful Q).polled h.user (n := n)
    (fun m _ _ hq => ⟨.evtPoll, rfl, evtPoll_isSome fun hn => hq (congrArg (List.map Prod.fst) hn)⟩)
    (fun a s s' hr ha hs => by
      subst ha
      obtain ⟨-, j, g, hq⟩ := evts_evtPoll (s := s) hs (sys_control hr).rx
      show (s.evt.queue.head?.map Prod.fst).toList ≠ []
      rw [hq]
      nofun)
  · have hq := hin (n + k) (Nat.le_add_right n k)
    have hnone : (evts Q).queue (r.state (n + k)) = [] :=
      congrArg (List.map Prod.fst) (evt_closed (r.reach _) hk)
    rw [hnone] at hq
    cases hq
  · have htaken := hk.subset hq
    rw [taken_given] at htaken
    obtain ⟨⟨x, j⟩, hx, he⟩ := List.mem_filterMap.mp htaken
    obtain rfl : i = j := by
      cases x <;> cases he
      rfl
    have hgiven : i ∈ (given (r.acts 0 (n + k)) (r.state 0)).map Prod.snd := by
      rw [given, r.gather_to, List.map_append]
      exact List.mem_append_right _ (List.mem_map.mpr ⟨_, hx, rfl⟩)
    have hoff : i ∈ (r.state (n + k)).carried := by
      obtain ⟨⟨e, g⟩, he, hj⟩ := List.mem_map.mp (hin (n + k) (Nat.le_add_right n k))
      obtain rfl : e = .inCon i := hj
      exact List.mem_append_right _ (List.mem_append_right _ (List.mem_map.mpr ⟨_, he, rfl⟩))
    exact (List.disjoint_of_nodup_append (once_run r.start (r.run_to (n + k))).nodup) hgiven hoff

theorem FairCalls.answer_arrives (h : FairCalls r) {n i k : Nat}
    (hk : (r.state n).connects[k]? = some (.answered (.ok i))) :
    ∃ m ≥ n, Arrived (r.state m) (given (r.acts 0 m) (r.state 0)) i := by
  by_contra hno
  have hans : ∀ m ≥ n, (r.state m).connects[k]? = some (.answered (.ok i)) := by
    refine r.keeps (P := fun s => s.connects[k]? = some (.answered (.ok i))) hk
      fun m hm a ha hs ih => ?_
    refine (answered_next (g := given (r.acts 0 m) (r.state 0)) (r.reach m) hs ih).resolve_right
      fun harr => hno ⟨m + 1, by omega, ?_⟩
    rwa [given, r.gather_next ha]
  obtain ⟨m, hm, hmove⟩ := h.calls k n fun m hm => ⟨.connPoll k, rfl, by
    show ((r.state m).connPoll k).isSome
    unfold connPoll
    rw [hans m hm]
    rfl⟩
  have hnext := hans (m + 1) (by omega)
  have hs : step (.connPoll k) (r.state m) = some (r.state (m + 1)) := hmove.step
  generalize r.state (m + 1) = t at hs hnext
  cases otherStep_cases hs nofun (sys_control (r.reach m)).rx with
  | connFails hj => cases (hans m hm).symm.trans hj
  | connGives hj =>
    have hdone := List.getElem?_set_self (List.getElem?_eq_some_iff.mp hj).1 ▸ hnext
    cases hdone

/-- Each connection's handles come to where they go. -/
theorem FairCalls.arrives (h : FairCalls r) {n i : Nat} (hi : i < (r.state n).cons.length) :
    ∃ m ≥ n, Arrived (r.state m) (given (r.acts 0 m) (r.state 0)) i := by
  have hlt : ∀ m ≥ n, i < (r.state m).cons.length := by
    refine r.keeps (P := fun s : Ep Q => i < s.cons.length) hi fun m _ a _ hs ih => ?_
    obtain ⟨c, hc⟩ := cons_fixed (r.reach m) hs (List.getElem?_eq_getElem ih)
    exact (List.getElem?_eq_some_iff.mp hc).1
  obtain ⟨m, hm, hl⟩ := h.toFairRun.hands_on n i
  cases way_run r.start (r.run_to m) i (hlt m hm) with
  | task hl' => exact absurd hl' hl
  | event hq =>
    obtain ⟨k, hk, ha⟩ := h.toFairRun.event_arrives hq
    exact ⟨k, hm.trans hk, ha⟩
  | answer hj =>
    obtain ⟨k, hk, ha⟩ := h.answer_arrives hj
    exact ⟨k, hm.trans hk, ha⟩
  | arrived ha => exact ⟨m, hm, ha⟩

/-- Who has connection `i`, if the calls asked for `asked`, the connections of `made` were made for calls
and the handles of `given` were given (module doc). -/
inductive HandedOver (s : Ep Q) (asked : List SocketAddr) (made : List (Nat × Nat))
    (given : List (Option Nat × Nat)) (i : Nat) (r : EpCon Q) : Prop
  /-- It was accepted: it came as an event, or `QuicheEpRecv` is dropped. -/
  | accepted (ho : r.origin ≠ none) (h : (none, i) ∈ given ∨ s.evt.rx = false)
  /-- It was made for a call: the call has returned it, or was dropped. -/
  | connected {k : Nat} (ho : r.origin = none) (hm : (k, i) ∈ made) (ha : asked[k]? = some r.addr)
    (h : (some k, i) ∈ given ∨ s.connects[k]? = some .cancelled)

theorem handedOver_of_went {as : List EpAct} {s₀ : Ep Q} (h₀ : (sys Q).init s₀)
    (hr : (sys Q).run as s₀ = some s) {i : Nat} {rc : EpCon Q} (hi : s.cons[i]? = some rc)
    (hw : Went s (given as s₀) i) : HandedOver s (asked as s₀) (made as s₀) (given as s₀) i rc := by
  have hasked := asked_run h₀ hr
  have hmade := made_run h₀ hr
  cases hw with
  | @given x hx =>
    cases x with
    | none =>
      obtain ⟨q, hq, ho⟩ := given_events h₀ hr i hx
      rw [hi] at hq
      cases hq
      exact .accepted ho (.inl hx)
    | some k =>
      obtain ⟨-, hlog⟩ := given_calls h₀ hr k i hx
      obtain ⟨q, hq, ho, ha⟩ := hasked.made k i hlog
      rw [hi] at hq
      cases hq
      exact .connected ho (hmade.answered k i hlog) ha (.inl hx)
  | noRecv hq ho hx =>
    rw [hi] at hq
    cases hq
    exact .accepted ho (.inr hx)
  | @cancelled k hm hk =>
    obtain ⟨q, hq, ho, ha⟩ := hasked.made k i hm
    rw [hi] at hq
    cases hq
    exact .connected ho (hmade.answered k i hm) ha (.inr hk)

/-- See the module doc. -/
theorem reaches_user (h : FairCalls r) {n i : Nat} {rc : EpCon Q}
    (hi : (r.state n).cons[i]? = some rc) : ∃ m ≥ n, ∃ rc', (r.state m).cons[i]? = some rc' ∧
      rc'.con.Landed ∧
        HandedOver (r.state m) (asked (r.acts 0 m) (r.state 0)) (made (r.acts 0 m) (r.state 0))
          (given (r.acts 0 m) (r.state 0)) i rc' := by
  obtain ⟨m, hm, ha⟩ := h.arrives (List.getElem?_eq_some_iff.mp hi).1
  obtain ⟨rc', hrc, hu⟩ := ha.here
  exact ⟨m, hm, rc', hrc, hu, handedOver_of_went r.start (r.run_to m) hrc ha.went⟩

/-- Nobody polls a call at the end. -/
theorem connPoll_none {k : Nat} (h : s.connects.length ≤ k) : (step (.connPoll k) s).isNone := by
  show (s.connPoll k).isNone
  unfold connPoll
  rw [List.getElem?_eq_none h]
  rfl

theorem reaches_user_all : ∃ r : (sys (Quiche.inert ())).Execution,
    (r.state 23).cons.map (·.con.handle) = [.inFlight, .inFlight, .inFlight] ∧
      ∀ i < 3, ∃ m ≥ 23, ∃ rc, (r.state m).cons[i]? = some rc ∧ rc.con.Landed ∧
        HandedOver (r.state m) (asked (r.acts 0 m) (r.state 0)) (made (r.acts 0 m) (r.state 0))
          (given (r.acts 0 m) (r.state 0)) i rc := by
  have hrun : ((sys (Quiche.inert ())).run (allGiven.take 23) (quicheEp (.after 0) () none)).any
      (fun s => decide (s.cons.map (·.con.handle) = [.inFlight, .inFlight, .inFlight])) ∧
      ((sys (Quiche.inert ())).run (allGiven ++ [.udp]) (quicheEp (.after 0) () none)).any (fun s =>
        decide (s.connects.length = 2) && [EpAct.task, .udp, .evtPoll, .connPoll 0, .connPoll 1].all
          fun a => (step a s).isNone) := by
    decide +kernel
  obtain ⟨d, hd, hat⟩ := (Option.any_eq_true _ _).mp hrun.1
  obtain ⟨s, hs, hend⟩ := (Option.any_eq_true _ _).mp hrun.2
  obtain ⟨hlen, hend⟩ := Bool.and_eq_true_iff.mp hend
  have hinit : (sys (Quiche.inert ())).init (quicheEp (.after 0) () none) := ⟨0, (), none, rfl⟩
  obtain ⟨r, hr⟩ : ∃ r, r = Lts.Execution.ofRun hinit (Option.isSome_iff_exists.mpr ⟨s, hs⟩) :=
    ⟨_, rfl⟩
  have hfair : ∀ a, (step a s).isNone → r.Fair fun b => b = a := by
    intro a ha
    subst hr
    exact Lts.Execution.fair_ofRun_act hinit hs ha
  have hall := List.all_eq_true.mp hend
  have hcalls : ∀ k, (step (.connPoll k) s).isNone := by
    intro k
    match k with
    | 0 => exact hall _ (by simp)
    | 1 => exact hall _ (by simp)
    | k + 2 => exact connPoll_none (by rw [of_decide_eq_true hlen]; omega)
  have hstate : r.state 23 = d := by
    subst hr
    exact Lts.Execution.state_ofRun hinit _ hd
  have hthree : (r.state 23).cons.map (·.con.handle) = [.inFlight, .inFlight, .inFlight] := by
    rw [hstate]
    exact of_decide_eq_true hat
  refine ⟨r, hthree, fun i hi => ?_⟩
  have hlt : i < (r.state 23).cons.length := by
    have hlen := congrArg List.length hthree
    rw [List.length_map] at hlen
    rw [hlen]
    exact hi
  exact reaches_user ⟨⟨hfair _ (hall _ (by simp)), hfair _ (hall _ (by simp)),
    hfair _ (hall _ (by simp))⟩, fun k => hfair _ (hcalls k)⟩ (List.getElem?_eq_getElem hlt)

end Ep
end Absquic
