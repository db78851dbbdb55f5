import Absquic.Ep.Commands
import Absquic.Ep.Permits

/-!
# Who gets a connection

The handles of a connection are with `ep_task`, in the answer to a `connect()` call or in an event
(`carried`), until a call returns them or `QuicheEpRecv` yields them (`given`), or what holds them is
dropped. A step moves them (`Carries`), so in every run the handles of a connection are in one place,
and are given once (`given_once`): to the call for which it was made, with the address that the call
asked for; or as an event, for a connection that was accepted. Nobody uses a connection that was not
given.
-/

namespace Absquic

/-- The address with which a call will ask for a connection. -/
def ConnectCall.addr? : ConnectCall → Option SocketAddr
  | .acquire addr | .send addr _ => some addr
  | _ => none

theorem ConnectCall.Next.addr? {x y : ConnectCall} (h : Next x y) {addr : SocketAddr}
    (hy : y.addr? = some addr) : x.addr? = some addr := by
  cases h with
  | rest | acquire => exact hy
  | _ => cases hy

namespace Con

variable {Q : Quiche} {c c' : Con Q}

/-- The user's side of the connection moves its handle only to drop it. -/
theorem handle_step {a : ConAct} (hm : c.may a) (hs : step a c = some c') :
    c'.handle = c.handle ∨ c.handle = .user ∧ c'.handle = .dropped := by
  by_cases ha : a = .task
  · subst ha
    exact .inl (outer_taskStep hs).handle
  · cases otherStep_cases hs ha with
    | dropCon => exact .inr ⟨of_decide_eq_true hm, rfl⟩
    | deliver => cases hm
    | _ => exact .inl rfl

theorem handle_sendInPak {pak : UdpPak} {ok : Bool} (h : c.sendInPak pak = some (c', ok)) :
    c'.handle = c.handle := by
  have hs : step (.sendInPak pak) c = some c' := by
    show (c.sendInPak pak).map _ = _
    rw [h]
    rfl
  cases otherStep_cases hs (by rintro ⟨⟩) with
  | sendInPak | pakLost => rfl

end Con

namespace Ep

variable {Q : Quiche} {s s' : Ep Q}

/-- The connections whose handles are on their way to a user. -/
def carried (s : Ep Q) : List Nat := (localCon s.pc).toList ++ s.offered

/-- The connection whose handles the step gives, with the call that returns them; `none`: from
`QuicheEpRecv`. -/
def gives (a : EpAct) (s _ : Ep Q) : List (Option Nat × Nat) :=
  match a with
  | .connPoll k =>
    match s.connects[k]? with
    | some (.answered (.ok i)) => [(some k, i)]
    | _ => []
  | .evtPoll =>
    match s.evt.queue with
    | (.inCon i, _) :: _ => [(none, i)]
    | [] => []
  | _ => []

/-- The address with which the step calls `connect`. -/
def asks (a : EpAct) (_ _ : Ep Q) : List SocketAddr :=
  match a with
  | .connect addr => [addr]
  | _ => []

/-- The call for which the step makes a connection, and the connection: `ep_task` has the call's
`NewCon` in its hand. -/
def makes (a : EpAct) (s s' : Ep Q) : List (Nat × Nat) :=
  match a with
  | .task =>
    match s.pc with
    | .cmd (.newCon _ rsp) => if s.cons.length < s'.cons.length then [(rsp, s.cons.length)] else []
    | _ => []
  | _ => []

/-- The handles that a run gives. -/
def given (as : List EpAct) (s : Ep Q) : List (Option Nat × Nat) := (sys Q).gather gives as s

/-- The addresses of the calls of a run. -/
def asked (as : List EpAct) (s : Ep Q) : List SocketAddr := (sys Q).gather asks as s

/-- The connections that a run makes for calls, each with its call. -/
def made (as : List EpAct) (s : Ep Q) : List (Nat × Nat) := (sys Q).gather makes as s

/-! ## The handles -/

/-- A connection's handle after a step that gives those of `given` and drops those of `lost`. -/
def Held (given lost : List Nat) (i : Nat) (c c' : Con Q) : Prop :=
  (c'.handle = .inFlight ↔ c.handle = .inFlight ∧ i ∉ given ∧ i ∉ lost) ∧
    (c'.handle = .user → c.handle = .user ∨ i ∈ given)

/-- What a step does to the handles on their way; those of `l` are dropped. -/
inductive Carries (s s' : Ep Q) (given : List Nat) : Prop
  | new {r : EpCon Q} (hc : s'.cons = s.cons ++ [r]) (hf : r.con.Fresh) (hg : given = [])
    (hp : s'.carried = s.cons.length :: s.carried)
  | move {l : List Nat} (hm : Moves (Held given l) s.cons s'.cons)
    (hp : s.carried.Perm (given ++ (l ++ s'.carried)))

theorem held_same {c c' : Con Q} (h : c'.handle = c.handle) (i : Nat) : Held [] [] i c c' :=
  ⟨by rw [h]; exact ⟨fun hc => ⟨hc, nofun, nofun⟩, fun hc => hc.1⟩, fun hc => .inl (h ▸ hc)⟩

/-- A move that leaves the handle. -/
def SameHandle (_ : Nat) (c c' : Con Q) : Prop := c'.handle = c.handle

/-- The connections keep their handles. -/
theorem carries_same (hm : Moves SameHandle s.cons s'.cons) (hp : s.carried.Perm s'.carried) :
    Carries s s' [] :=
  .move (hm.mono fun i _ _ h => held_same h i) hp

theorem same_modCon (s : Ep Q) (i : Nat) {f : Con Q → Con Q} (hf : ∀ c, (f c).handle = c.handle) :
    Moves SameHandle s.cons (s.modCon i f).cons := by
  refine (moves_modCon s i f).mono ?_
  rintro j c c' rfl
  split
  · exact hf c
  · rfl

theorem same_set {i : Nat} {r : EpCon Q} {c : Con Q} (hr : s.cons[i]? = some r)
    (hc : c.handle = r.con.handle) :
    Moves SameHandle s.cons (s.modCon i fun _ => c).cons := by
  refine ⟨(moves_modCon s i _).length, fun j q hq => ?_⟩
  obtain ⟨c', hc', he⟩ := (moves_modCon s i fun _ => c).con j q hq
  refine ⟨c', hc', ?_⟩
  rw [he]
  split
  · next hj => subst hj; rw [hr] at hq; cases hq; exact hc
  · rfl

theorem same_refl (s : Ep Q) : Moves SameHandle s.cons s.cons :=
  .refl (R := SameHandle) (fun _ _ => rfl) _

theorem same_trans {l l' l'' : List (EpCon Q)} (h : Moves SameHandle l l')
    (h' : Moves SameHandle l' l'') : Moves SameHandle l l'' := by
  refine ⟨h'.length.trans h.length, fun i r hr => ?_⟩
  obtain ⟨c, hc, hq⟩ := h.con i r hr
  obtain ⟨c', hc', hq'⟩ := h'.con i _ hc
  exact ⟨c', hc', hq'.trans hq⟩

theorem same_held {l l' l'' : List (EpCon Q)} {given lost : List Nat} (h : Moves SameHandle l l')
    (h' : Moves (Held given lost) l' l'') : Moves (Held given lost) l l'' := by
  refine ⟨h'.length.trans h.length, fun i r hr => ?_⟩
  obtain ⟨c, hc, hq⟩ := h.con i r hr
  obtain ⟨c', hc', hq'⟩ := h'.con i _ hc
  have hq : c.handle = r.con.handle := hq
  exact ⟨c', hc', by rw [← hq]; exact hq'.1, fun hu => (hq'.2 hu).imp_left fun h => hq ▸ h⟩

theorem same_insertCon (s : Ep Q) (scid : ConnectionId) (i : Nat) :
    Moves SameHandle s.cons (s.insertCon scid i).cons := by
  refine (moves_insertCon s scid i).mono ?_
  rintro j c c' (rfl | rfl) <;> rfl

/-- The handles of the connections `is` are dropped. -/
theorem held_dropCons (s : Ep Q) (is : List Nat) : Moves (Held [] is) s.cons (s.dropCons is).cons := by
  refine (moves_dropCons s is).mono ?_
  rintro j c c' rfl
  split
  · next hj => exact ⟨⟨nofun, fun hc => absurd hj hc.2.2⟩, nofun⟩
  · next hj => exact ⟨⟨fun hc => ⟨hc, nofun, hj⟩, fun hc => hc.1⟩, fun hc => .inl hc⟩

/-- The handles of connection `i` arrive at the user. -/
theorem held_deliver (s : Ep Q) (i : Nat) :
    Moves (Held [i] []) s.cons (s.modCon i Con.deliver).cons := by
  refine (moves_modCon s i Con.deliver).mono ?_
  rintro j c c' rfl
  split
  · next hj =>
    have hm : j ∈ [i] := hj ▸ List.mem_cons_self
    exact ⟨⟨nofun, fun hc => absurd hm hc.2.1⟩, fun _ => .inr hm⟩
  · next hj =>
    have hn : j ∉ [i] := fun hm => hj (List.mem_singleton.mp hm)
    exact ⟨⟨fun hc => ⟨hc, hn, nofun⟩, fun hc => hc.1⟩, fun hc => .inl hc⟩

/-- The answer takes the handles in it to the call, or drops them. -/
theorem carried_answer (t : Ep Q) (rsp : Nat) (result : Result Nat) :
    ∃ lost, Moves (Held [] lost) t.cons (t.answer rsp result).cons ∧
      (result.toOption.toList ++ t.offered).Perm (lost ++ (t.answer rsp result).offered) := by
  unfold answer
  split
  · next hw =>
    refine ⟨[], (same_refl t).mono fun i _ _ h => held_same h i, ?_⟩
    have hset := List.perm_filterMap_set (.answered result) (q := ConnectCall.con?) hw
    have hcon : (ConnectCall.answered result).con?.toList = result.toOption.toList := by
      cases result <;> rfl
    rw [hcon] at hset
    show List.Perm (_ ++ (_ ++ _)) ((t.connects.set rsp (.answered result)).filterMap (·.con?) ++ _)
    rw [← List.append_assoc]
    exact ((List.perm_append_comm.trans hset.symm).trans
      (.of_eq (List.append_nil _))).append_right _
  · exact ⟨_, held_dropCons t _, .refl _⟩

theorem carries_task (ht : TaskStep s s') : Carries s s' [] := by
  have hkeep : ∀ {pc : EpPc}, s.pc = pc → s'.cons = s.cons → s'.offered = s.offered →
      (localCon pc).toList = (localCon s'.pc).toList → Carries s s' [] := by
    rintro pc rfl hc ho hl
    refine carries_same (hc ▸ same_refl s) (.of_eq ?_)
    unfold carried
    rw [ho, hl]
  cases ht with
  | take hpc | reserved hpc | reserve hpc | streamEnd hpc | streamErr hpc | drop hpc | refuse hpc =>
    exact hkeep hpc rfl rfl rfl
  | accept hpc _ _ _ _ hc | spawnNew hpc _ hc =>
    refine .new rfl (Con.quicheCon_spec hc).1 rfl ?_
    unfold carried
    rw [hpc]
    rfl
  | route hpc _ _ hr hc =>
    refine carries_same (same_set hr (by rw [(Con.tryAcquire_spec hc).2.2])) (.of_eq ?_)
    unfold carried
    rw [hpc]
    rfl
  | permit hpc hr hc =>
    refine carries_same (same_set hr (by rw [(Con.tryAcquire_spec hc).2.2])) (.of_eq ?_)
    unfold carried
    rw [hpc]
    rfl
  | deliver hpc hr hc =>
    refine carries_same (same_set hr (Con.handle_sendInPak hc)) (.of_eq ?_)
    unfold carried
    rw [hpc]
    rfl
  | conEnded hpc hr hc =>
    refine carries_same (same_trans (same_set hr (Con.handle_sendInPak hc))
      (same_modCon _ _ fun c => rfl)) (.of_eq ?_)
    unfold carried
    rw [hpc]
    rfl
  | @put i scid pak r c ok hpc hr hc =>
    have he := insertCon_eq ((s.modCon i fun _ => c).log (.fate pak (.created i ok))) scid i
    refine carries_same (same_trans (same_set hr (Con.handle_sendInPak hc))
      (same_insertCon ((s.modCon i fun _ => c).log (.fate pak (.created i ok))) scid i)) (.of_eq ?_)
    unfold carried offered
    rw [hpc, he]
    rfl
  | @inCon i g hpc hg hr =>
    refine carries_same (same_refl s) ?_
    unfold carried
    rw [hpc]
    show List.Perm ([i] ++ (_ ++ _)) ([] ++ (_ ++ (s.evt.queue ++ [(EpEvt.inCon i, g)]).map _))
    rw [List.map_append]
    exact List.perm_append_comm.trans (.of_eq (List.append_assoc ..))
  | @noInCon i g hpc hg hr =>
    refine .move (l := [i]) (held_dropCons _ [i]) (.of_eq ?_)
    unfold carried
    rw [hpc]
    rfl
  | @refuseNew addr rsp config err hpc =>
    obtain ⟨lost, hm, hp⟩ := carried_answer { s with cid := s.cid.cid.2, config } rsp
      (.error (.quiche err))
    have hl : localCon s.pc = none := by rw [hpc]; rfl
    refine .move (l := lost) hm ?_
    show List.Perm ((localCon s.pc).toList ++ s.offered) _
    rw [hl]
    exact hp
  | @answerNew i scid rsp hpc =>
    obtain ⟨lost, hm, hp⟩ := carried_answer (s.insertCon scid i) rsp (.ok i)
    refine .move (l := lost) (same_held (same_insertCon s scid i) hm) ?_
    have ho : (s.insertCon scid i).offered = s.offered := by
      unfold offered
      rw [insertCon_eq s scid i]
    rw [ho] at hp
    unfold carried
    rw [hpc]
    exact hp

/-- The steps of the other parties. -/
theorem carries_other {a : EpAct} (hs : step a s = some s') (ha : a ≠ .task) (hr : s.cmd.rx = true) :
    Carries s s' ((gives a s s').map Prod.snd) := by
  have hkeep : s'.pc = s.pc → s'.cons = s.cons → s'.offered = s.offered →
      Carries s s' [] := by
    intro hp hc ho
    refine carries_same (hc ▸ same_refl s) (.of_eq ?_)
    unfold carried
    rw [hp, ho]
  have hset : ∀ {k : Nat} {x y : ConnectCall}, s.connects[k]? = some x → x.con? = none →
      y.con? = none → (s.connects.set k y).filterMap (·.con?) = s.connects.filterMap (·.con?) := by
    intro k x y hk hx hy
    exact List.filterMap_set_none (by rw [hk]; exact hx) hy
  -- the answer leaves the slot
  have hout : ∀ {k : Nat} {x y : ConnectCall}, s.connects[k]? = some x → y.con? = none →
      s.offered.Perm (x.con?.toList ++ offered { s with connects := s.connects.set k y }) := by
    intro k x y hk hy
    have hp := List.perm_filterMap_set y (q := ConnectCall.con?) hk
    rw [hy, Option.toList_none, List.append_nil] at hp
    unfold offered
    rw [← List.append_assoc]
    exact (hp.symm.trans List.perm_append_comm).append_right _
  -- with what `ep_task` has
  have hmid : ∀ {l m : List Nat}, s.offered.Perm (l ++ m) →
      s.carried.Perm (l ++ ((localCon s.pc).toList ++ m)) := by
    intro l m hp
    unfold carried
    exact (hp.append_left _).trans (List.perm_append_comm_assoc ..)
  cases otherStep_cases hs ha hr with
  | connect =>
    refine hkeep rfl rfl ?_
    unfold offered
    rw [List.filterMap_append]
    exact congrArg (· ++ _) (List.append_nil _)
  | connAcquire hk => exact hkeep rfl rfl (congrArg (· ++ _) (hset hk rfl rfl))
  | connSend hk => exact hkeep rfl rfl (congrArg (· ++ _) (hset hk rfl rfl))
  | @connFails k err hk =>
    have hg : ∀ t : Ep Q, gives (.connPoll k) s t = [] := by
      intro t
      unfold gives
      dsimp only
      rw [hk]
    rw [hg]
    exact hkeep rfl rfl (congrArg (· ++ _) (hset hk rfl rfl))
  | @connGives k i hk =>
    have hg : ∀ t : Ep Q, gives (.connPoll k) s t = [(some k, i)] := by
      intro t
      unfold gives
      dsimp only
      rw [hk]
    rw [hg]
    exact .move (l := []) (held_deliver _ i) (hmid (hout hk rfl))
  | @connCancel k x hk hx =>
    exact .move (held_dropCons _ x.con?.toList) (hmid (hout hk rfl))
  | @evtPoll i g rest hq =>
    have hg : ∀ t : Ep Q, gives .evtPoll s t = [(none, i)] := by
      intro t
      unfold gives
      dsimp only
      rw [hq]
    rw [hg]
    refine .move (l := []) (held_deliver _ i) (hmid ?_)
    unfold offered
    rw [hq]
    exact List.perm_append_comm_assoc _ [i] _
  | dropRecv =>
    refine .move (held_dropCons _ _) (hmid ?_)
    show List.Perm (_ ++ _) (_ ++ (s.connects.filterMap (·.con?) ++ []))
    rw [List.append_nil]
    exact List.perm_append_comm
  | @con i b r c hi hm hc =>
    refine .move (l := []) ?_ (.refl _)
    refine ⟨(moves_modCon s i _).length, fun j q hq => ?_⟩
    obtain ⟨c', hc', he⟩ := (moves_modCon s i fun _ => c).con j q hq
    refine ⟨c', hc', ?_⟩
    rw [he]
    split
    · next hj =>
      subst hj
      rw [hi] at hq
      cases hq
      rcases Con.handle_step hm hc with hh | ⟨hu, hd⟩
      · exact held_same hh _
      · have hne : c.handle ≠ .inFlight ∧ c.handle ≠ .user := by simp [hd]
        exact ⟨by simp [hu, hne.1], fun h => absurd h hne.2⟩
    · exact held_same rfl _
  | _ => exact hkeep rfl rfl rfl

/-! ## Given once -/

/-- Where the handles of the connections are, if those of `given` were given. -/
structure Once (s : Ep Q) (given : List Nat) : Prop where
  nodup : (given ++ s.carried).Nodup
  known : ∀ i ∈ given ++ s.carried, i < s.cons.length
  inFlight : ∀ (i : Nat) r, s.cons[i]? = some r → (r.con.handle = .inFlight ↔ i ∈ s.carried)
  user : ∀ (i : Nat) r, s.cons[i]? = some r → r.con.handle = .user → i ∈ given

theorem Once.next {given new : List Nat} (h : Once s given) (hc : Carries s s' new) :
    Once s' (given ++ new) := by
  cases hc with
  | @new r hc hf hg hp =>
    subst hg
    rw [List.append_nil]
    have hnew : s.cons.length ∉ given ++ s.carried := fun hm => Nat.lt_irrefl _ (h.known _ hm)
    have hlen : s'.cons.length = s.cons.length + 1 := by rw [hc, List.length_append]; rfl
    have hperm : (given ++ s'.carried).Perm (s.cons.length :: (given ++ s.carried)) := by
      rw [hp]
      exact List.perm_middle
    refine ⟨hperm.nodup_iff.mpr (List.nodup_cons.mpr ⟨hnew, h.nodup⟩), fun i hi => ?_,
      fun i r' hi => ?_, fun i r' hi hu => ?_⟩
    · rw [hlen]
      rcases List.mem_cons.mp (hperm.mem_iff.mp hi) with rfl | hi
      · exact Nat.lt_succ_self _
      · exact Nat.lt_succ_of_lt (h.known i hi)
    · rw [hp, List.mem_cons]
      rcases List.getElem?_concat_cases (hc ▸ hi) with hi | ⟨rfl, rfl⟩
      · have hne : i ≠ s.cons.length := Nat.ne_of_lt (List.getElem?_eq_some_iff.mp hi).1
        exact (h.inFlight i r' hi).trans ⟨.inr, fun hm => hm.resolve_left hne⟩
      · exact ⟨fun _ => .inl rfl, fun _ => hf.handle⟩
    · rcases List.getElem?_concat_cases (hc ▸ hi) with hi | ⟨-, rfl⟩
      · exact h.user i r' hi hu
      · rw [hf.handle] at hu; cases hu
  | @move lost hm hp =>
    have hperm : (given ++ s.carried).Perm (given ++ (new ++ (lost ++ s'.carried))) :=
      hp.append_left given
    have hsub : (given ++ new ++ s'.carried).Sublist (given ++ (new ++ (lost ++ s'.carried))) := by
      rw [List.append_assoc]
      exact ((List.sublist_append_right _ _).append_left _).append_left _
    have hnd := hperm.nodup_iff.mp h.nodup
    refine ⟨hnd.sublist hsub, fun i hi => ?_, fun i r' hi => ?_, fun i r' hi hu => ?_⟩
    · rw [hm.length]
      exact h.known i (hperm.mem_iff.mpr (hsub.subset hi))
    · obtain ⟨r, hr, -, hh⟩ := hm.back hi
      rw [hh.1, h.inFlight i r hr, hp.mem_iff, List.mem_append, List.mem_append]
      have hlate := (List.nodup_append.mp hnd).2.1
      refine ⟨fun hin => (hin.1.resolve_left hin.2.1).resolve_left hin.2.2, fun hin => ?_⟩
      refine ⟨.inr (.inr hin), fun hn => ?_, fun hl => ?_⟩
      · exact (List.disjoint_of_nodup_append hlate) hn (List.mem_append_right _ hin)
      · exact (List.disjoint_of_nodup_append (List.nodup_append.mp hlate).2.1) hl hin
    · obtain ⟨r, hr, -, hh⟩ := hm.back hi
      rcases hh.2 hu with hu | hn
      · exact List.mem_append_left _ (h.user i r hr hu)
      · exact List.mem_append_right _ hn

/-! ## Asked for -/

/-- What is known of a connection when it was made stays. -/
theorem cons_fixed {a : EpAct} (h : (sys Q).Reach s) (hs : step a s = some s') {i : Nat}
    {r : EpCon Q} (hr : s.cons[i]? = some r) : ∃ c, s'.cons[i]? = some { r with con := c } := by
  rcases reach_cases h hs with ⟨-, ht⟩ | ⟨-, hf⟩
  · exact cons_keep ht hr
  · obtain ⟨c, hc, -⟩ := hf.cons.con i r hr
    exact ⟨c, hc⟩

/-- `asked` are the addresses of the calls, and each is on its way with its own. -/
structure Asked (s : Ep Q) (asked : List SocketAddr) : Prop where
  length : asked.length = s.connects.length
  calls : ∀ (k : Nat) x addr, s.connects[k]? = some x → x.addr? = some addr → asked[k]? = some addr
  cmds : ∀ addr (k : Nat), .newCon addr k ∈ (cmds Q).queue s → asked[k]? = some addr
  made : ∀ (k : Nat) i, .newCon k (.ok i) ∈ s.trace →
    ∃ r, s.cons[i]? = some r ∧ r.origin = none ∧ asked[k]? = some r.addr

/-- No call is added but by `connect`. -/
theorem length_connects {a : EpAct} (h : (sys Q).Reach s) (hs : step a s = some s') :
    s'.connects.length = s.connects.length + (asks a s s').length := by
  rcases reach_cases h hs with ⟨rfl, ht⟩ | ⟨ha, -⟩
  · rcases answers_task ht with ⟨rsp, result, hans⟩ | ⟨hc, -⟩
    · by_cases hw : s.connects[rsp]? = some .wait
      · rw [hans.wait hw, List.length_set]
        rfl
      · rw [hans.gone hw]
        rfl
    · rw [hc]
      rfl
  · cases otherStep_cases hs ha (sys_control h).rx with
    | connect => exact List.length_append
    | connAcquire | connSend | connFails | connGives | connCancel => exact List.length_set
    | _ => rfl

theorem Asked.next {a : EpAct} {asked : List SocketAddr} (h : Asked s asked) (hr : (sys Q).Reach s)
    (hs : step a s = some s') : Asked s' (asked ++ asks a s s') := by
  have hr' : (sys Q).Reach s' := .step a hr hs
  have hlate : ∀ {k : Nat} {addr}, asked[k]? = some addr →
      (asked ++ asks a s s')[k]? = some addr := by
    intro k addr hk
    rw [List.getElem?_append_left (List.getElem?_eq_some_iff.mp hk).1, hk]
  refine ⟨?_, fun k y addr hk hy => ?_, fun addr k hc => hlate ?_, fun k i hm => ?_⟩
  · rw [List.length_append, h.length, length_connects hr hs]
  · cases hx : s.connects[k]? with
    | some x =>
      obtain ⟨y', hy', hn⟩ := (calls_step hr hs).next hx
      rw [hk] at hy'
      cases hy'
      exact hlate (h.calls k x addr hx (hn.addr? hy))
    | none =>
      -- it is the new call
      have hge := List.getElem?_eq_none_iff.mp hx
      have hlt := (List.getElem?_eq_some_iff.mp hk).1
      rw [length_connects hr hs] at hlt
      cases a with
      | connect addr' =>
        cases otherStep_cases hs nofun (sys_control hr).rx with
        | connect =>
          obtain rfl : k = s.connects.length := by
            have hlt : k < s.connects.length + 1 := hlt
            omega
          have hk : (s.connects ++ [.acquire addr'])[s.connects.length]? = some y := hk
          rw [List.getElem?_concat_length] at hk
          cases hk
          cases hy
          rw [← h.length]
          exact List.getElem?_concat_length
      | _ => exact absurd hlt (Nat.not_lt.mpr hge)
  · rcases reach_cases hr hs with ⟨rfl, ht⟩ | ⟨ha, -⟩
    · exact h.cmds addr k (cmds_task hr ht ▸ List.mem_append_right _ hc)
    · rw [cmds_other hr hs ha] at hc
      rcases List.mem_append.mp hc with hc | hc
      · exact h.cmds addr k hc
      · cases otherStep_cases hs ha (sys_control hr).rx with
        | udpEnd hu | udpSend hu => unfold putCmd at hc; rw [hu] at hc; cases List.mem_singleton.mp hc
        | udpAcquire hu => unfold putCmd at hc; rw [hu] at hc; cases hc
        | @connSend j addr' g hj =>
          unfold putCmd at hc
          dsimp only at hc
          rw [hj] at hc
          cases List.mem_singleton.mp hc
          exact h.calls k _ addr hj rfl
        | _ => cases hc
  · obtain ⟨l, hl, hlog⟩ := trace_step hr hs
    rw [hl] at hm
    rcases List.mem_append.mp hm with hm | hm
    · obtain ⟨r, hi, ho, hk⟩ := h.made k i hm
      obtain ⟨c, hc⟩ := cons_fixed hr hs hi
      exact ⟨_, hc, ho, hlate hk⟩
    · obtain ⟨scid, hpc⟩ := (hlog _ hm).resolve_right nofun
      obtain ⟨r, hi, -, ho⟩ := (sys_routing hr).connect i scid k hpc
      obtain ⟨c, hc⟩ := cons_fixed hr hs hi
      refine ⟨_, hc, ho, hlate (h.cmds r.addr k (List.mem_append_left _ ?_))⟩
      unfold inHand
      rw [hpc]
      dsimp only
      rw [hi]
      exact List.mem_cons_self

/-! ## Made for a call -/

/-- `made` are the connections that were made for calls, each with its call. -/
structure MadeFor (s : Ep Q) (made : List (Nat × Nat)) : Prop where
  once : (made.map Prod.snd).Nodup
  origin : ∀ (i : Nat) r, s.cons[i]? = some r → (i ∈ made.map Prod.snd ↔ r.origin = none)
  known : ∀ i ∈ made.map Prod.snd, i < s.cons.length
  inHand : ∀ i scid k, s.pc = .newCon i scid k → (k, i) ∈ made
  answered : ∀ k i, .newCon k (.ok i) ∈ s.trace → (k, i) ∈ made

theorem makes_other {a : EpAct} (ha : a ≠ .task) (s s' : Ep Q) : makes a s s' = [] := by
  cases a <;> first | rfl | exact absurd rfl ha

/-- A step of `ep_task` that makes no connection for a call. -/
theorem makes_none (hp : ∀ addr k, s.pc = .cmd (.newCon addr k) → s'.cons.length = s.cons.length) :
    makes .task s s' = [] := by
  unfold makes
  dsimp only
  split
  · next addr k h => exact if_neg (by rw [hp addr k h]; exact Nat.lt_irrefl _)
  · rfl

/-- `ep_task` has a connection for a call in its hand once it has made it. -/
theorem makes_task (ht : TaskStep s s') :
    (∃ scid k r, s'.pc = .newCon s.cons.length scid k ∧ makes .task s s' = [(k, s.cons.length)] ∧
      s'.cons = s.cons ++ [r] ∧ r.origin = none) ∨
      makes .task s s' = [] ∧ (∀ i scid k, s'.pc ≠ .newCon i scid k) ∧
        ∀ r, s'.cons = s.cons ++ [r] → r.origin ≠ none := by
  have hno : ∀ {pc : EpPc}, s.pc = pc → (∀ addr k, pc ≠ .cmd (.newCon addr k)) →
      makes .task s s' = [] := by
    rintro pc rfl hpc
    exact makes_none fun addr k h => absurd h (hpc addr k)
  have hkeep : s'.cons.length = s.cons.length → ∀ r, s'.cons = s.cons ++ [r] → r.origin ≠ none := by
    intro hl r hr
    rw [hr, List.length_append, List.length_singleton] at hl
    omega
  have hlen : (∃ new, Spawned s s' new) ∨ s'.cons.length = s.cons.length :=
    (cons_task ht).imp_right fun hm => hm.length
  cases ht with
  | @spawnNew addr rsp config con c hpc =>
    refine .inl ⟨_, _, _, rfl, ?_, rfl, rfl⟩
    unfold makes
    rw [hpc]
    dsimp only
    rw [if_pos (by rw [List.length_append]; exact Nat.lt_succ_self _)]
  | accept hpc =>
    refine .inr ⟨hno hpc nofun, nofun, fun r hr => ?_⟩
    obtain rfl := List.singleton_inj.mp (List.append_cancel_left hr)
    nofun
  | @refuseNew addr rsp config err hpc =>
    have hm := quietly_answer { s with cid := s.cid.cid.2, config } rsp (.error (.quiche err))
    exact .inr ⟨makes_none fun _ _ _ => hm.length, nofun, hkeep hm.length⟩
  | @permit i scid pak r c hpc =>
    have hl := (moves_modCon s i fun _ => c).length
    exact .inr ⟨hno hpc nofun, nofun, hkeep hl⟩
  | take hpc | reserved hpc | reserve hpc | streamEnd hpc | streamErr hpc | drop hpc | refuse hpc
  | route hpc | deliver hpc | conEnded hpc | put hpc | inCon hpc | noInCon hpc | answerNew hpc =>
    refine .inr ⟨hno hpc nofun, nofun, hkeep (hlen.resolve_left ?_)⟩
    rintro ⟨new, hn⟩
    exact nomatch hn.inserts

theorem MadeFor.next {a : EpAct} {made : List (Nat × Nat)} (h : MadeFor s made)
    (hr : (sys Q).Reach s) (hs : step a s = some s') : MadeFor s' (made ++ makes a s s') := by
  obtain ⟨l, hl, hlog⟩ := trace_step hr hs
  have hans : ∀ k i, .newCon k (.ok i) ∈ s'.trace → (k, i) ∈ made := by
    intro k i hm
    rw [hl] at hm
    rcases List.mem_append.mp hm with hm | hm
    · exact h.answered k i hm
    · obtain ⟨scid, hpc⟩ := (hlog _ hm).resolve_right nofun
      exact h.inHand i scid k hpc
  have hback : ∀ {i : Nat} {r : EpCon Q}, i < s.cons.length → s'.cons[i]? = some r →
      (i ∈ made.map Prod.snd ↔ r.origin = none) := by
    intro i r hi hc
    have hi := List.getElem?_eq_getElem hi
    obtain ⟨c, hc'⟩ := cons_fixed hr hs hi
    have horigin := h.origin i _ hi
    rw [hc] at hc'
    rw [Option.some.inj hc']
    exact horigin
  have hstill : makes a s s' = [] → s'.cons.length = s.cons.length →
      (∀ i scid k, s'.pc = .newCon i scid k → (k, i) ∈ made) → MadeFor s' (made ++ makes a s s') := by
    intro hm hlen hpc
    rw [hm, List.append_nil]
    refine ⟨h.once, fun i r hi => ?_, fun i hi => hlen ▸ h.known i hi, hpc, hans⟩
    exact hback (hlen ▸ (List.getElem?_eq_some_iff.mp hi).1) hi
  rcases reach_cases hr hs with ⟨rfl, ht⟩ | ⟨ha, hf⟩
  · rcases makes_task ht with ⟨scid, k, new, hpc, hm, hc, ho⟩ | ⟨hm, hpc, hc⟩
    · have hlen : s'.cons.length = s.cons.length + 1 := by rw [hc, List.length_append]; rfl
      have hnew : s.cons.length ∉ made.map Prod.snd := fun hi => Nat.lt_irrefl _ (h.known _ hi)
      rw [hm]
      refine ⟨?_, fun i r hi => ?_, fun i hi => ?_, fun i scid' k' hp => ?_, fun k' i hi =>
        List.mem_append_left _ (hans k' i hi)⟩
      · rw [List.map_append]
        exact h.once.append (List.nodup_singleton _) (List.disjoint_singleton.mpr hnew)
      · rw [List.map_append, List.mem_append]
        by_cases hlt : i < s.cons.length
        · rw [← hback hlt hi]
          refine ⟨fun hm => hm.resolve_right fun he => ?_, .inl⟩
          exact Nat.ne_of_lt hlt (List.mem_singleton.mp he)
        · have hle := (List.getElem?_eq_some_iff.mp hi).1
          obtain rfl : i = s.cons.length := by omega
          rw [hc, List.getElem?_concat_length] at hi
          cases hi
          exact ⟨fun _ => ho, fun _ => .inr List.mem_cons_self⟩
      · rw [hlen]
        rw [List.map_append] at hi
        rcases List.mem_append.mp hi with hi | hi
        · exact Nat.lt_succ_of_lt (h.known i hi)
        · rw [List.mem_singleton.mp hi]
          exact Nat.lt_succ_self _
      · rw [hpc] at hp
        cases hp
        exact List.mem_append_right _ List.mem_cons_self
    · rcases cons_task ht with ⟨new, hn⟩ | hmv
      · -- it was accepted
        rw [hm, List.append_nil]
        have hlen : s'.cons.length = s.cons.length + 1 := by rw [hn.cons, List.length_append]; rfl
        refine ⟨h.once, fun i r hi => ?_, fun i hi => ?_, fun i scid k hp => absurd hp (hpc i scid k),
          hans⟩
        · by_cases hlt : i < s.cons.length
          · exact hback hlt hi
          · have hle := (List.getElem?_eq_some_iff.mp hi).1
            obtain rfl : i = s.cons.length := by omega
            rw [hn.cons, List.getElem?_concat_length] at hi
            cases hi
            exact ⟨fun hi => absurd (h.known _ hi) (Nat.lt_irrefl _), fun ho => absurd ho (hc _ hn.cons)⟩
        · rw [hlen]
          exact Nat.lt_succ_of_lt (h.known i hi)
      · exact hstill hm hmv.length fun i scid k hp => absurd hp (hpc i scid k)
  · exact hstill (makes_other ha s s') hf.cons.length fun i scid k hp => h.inHand i scid k (hf.pc ▸ hp)

/-! ## Accepted -/

/-- The connections that were accepted, and the events that tell of them. -/
structure Accepted (s : Ep Q) : Prop where
  addr : ∀ (i : Nat) r pak hdr, s.cons[i]? = some r → r.origin = some (pak, hdr) → r.addr = pak.addr
  evts : ∀ i g, (.inCon i, g) ∈ s.evt.queue → ∃ r, s.cons[i]? = some r ∧ r.origin ≠ none

/-- An event is put on the channel by `ep_task`, for the connection that it accepted. -/
theorem evtQueue_step {a : EpAct} (h : (sys Q).Reach s) (hs : step a s = some s') {x : EpEvt × EpSem}
    (hx : x ∈ s'.evt.queue) : x ∈ s.evt.queue ∨ ∃ i, x.1 = .inCon i ∧ s.pc = .inCon i := by
  rcases reach_cases h hs with ⟨rfl, ht⟩ | ⟨ha, -⟩
  · cases ht with
    | @inCon i g hpc =>
      rcases List.mem_append.mp hx with hx | hx
      · exact .inl hx
      · exact .inr ⟨i, by rw [List.mem_singleton.mp hx], hpc⟩
    | @put i scid pak r c ok =>
      rw [insertCon_eq ((s.modCon i fun _ => c).log (.fate pak (.created i ok))) scid i] at hx
      exact .inl hx
    | @refuseNew addr rsp config err =>
      rw [answer_eq { s with cid := s.cid.cid.2, config } rsp (.error (.quiche err))] at hx
      exact .inl hx
    | @answerNew i scid rsp =>
      unfold answerNewCon at hx
      rw [answer_eq (s.insertCon scid i) rsp (.ok i)] at hx
      have hi : (s.insertCon scid i).evt = s.evt := by rw [insertCon_eq s scid i]
      exact .inl (hi ▸ hx)
    | _ => exact .inl hx
  · cases otherStep_cases hs ha (sys_control h).rx with
    | evtPoll hq => exact .inl (hq ▸ List.mem_cons_of_mem _ hx)
    | dropRecv => cases hx
    | _ => exact .inl hx

/-- The connection whose event `ep_task` is to send was accepted. -/
theorem inCon_origin (h : (sys Q).Reach s) {i : Nat} (hpc : s.pc = .inCon i) :
    ∃ r, s.cons[i]? = some r ∧ r.origin ≠ none := by
  have hbusy := inHand_busy h (by rw [hpc]; rfl)
  unfold inHand at hbusy
  rw [hpc] at hbusy
  dsimp only at hbusy
  cases hi : s.cons[i]? with
  | none => rw [hi] at hbusy; exact absurd rfl hbusy
  | some r =>
    refine ⟨r, rfl, fun ho => hbusy ?_⟩
    rw [hi, Option.bind_some, ho]
    rfl

theorem Accepted.next {a : EpAct} (h : Accepted s) (hr : (sys Q).Reach s)
    (hs : step a s = some s') : Accepted s' := by
  constructor
  case addr =>
    intro i r' pak hdr hi ho
    have hold : ∀ {R}, Moves R s.cons s'.cons → r'.addr = pak.addr := by
      intro R hm
      obtain ⟨r, hr, he, -⟩ := hm.back hi
      rw [he] at ho ⊢
      exact h.addr i r pak hdr hr ho
    rcases reach_cases hr hs with ⟨rfl, ht⟩ | ⟨-, hf⟩
    · rcases cons_task ht with ⟨new, hn⟩ | hm
      · rcases List.getElem?_concat_cases (hn.cons ▸ hi) with hi | ⟨-, rfl⟩
        · exact h.addr i r' pak hdr hi ho
        · have hcmd := (hn.origin _ ho).1
          have hins := hn.inserts
          have hcons := hn.cons
          cases ht with
          | accept =>
            cases List.append_cancel_left hcons
            cases ho
            rfl
          | permit hpc | spawnNew hpc => cases hpc.symm.trans hcmd
          | _ => cases hins
      · exact hold hm
    · exact hold hf.cons
  case evts =>
    intro i g hx
    suffices hi : ∃ r, s.cons[i]? = some r ∧ r.origin ≠ none by
      obtain ⟨r, hi, ho⟩ := hi
      obtain ⟨c, hc⟩ := cons_fixed hr hs hi
      exact ⟨_, hc, ho⟩
    rcases evtQueue_step hr hs hx with hx | ⟨j, hj, hpc⟩
    · exact h.evts i g hx
    · cases hj
      exact inCon_origin hr hpc

theorem sys_accepted (h : (sys Q).Reach s) : Accepted s := by
  refine h.invariant ?_ fun a s s' hr hi hs => hi.next (a := a) hr hs
  rintro s ⟨n, config, h3Config, rfl⟩
  exact ⟨fun i r pak hdr hi => (nomatch hi), nofun⟩

/-! ## A run -/

/-- What a step gives: the answer of a call, or the handles in an event. -/
theorem gives_cases {a : EpAct} {x : Option Nat × Nat} (h : (sys Q).Reach s)
    (hs : step a s = some s') (hx : x ∈ gives a s s') :
    (∃ k, x.1 = some k ∧ s.connects[k]? = some (.answered (.ok x.2)) ∧
      s'.connects[k]? = some (.done (.ok x.2))) ∨
      x.1 = none ∧ ∃ g, (.inCon x.2, g) ∈ s.evt.queue := by
  cases a with
  | connPoll k =>
    unfold gives at hx
    dsimp only at hx
    split at hx
    · next i hk =>
      obtain rfl := List.mem_singleton.mp hx
      refine .inl ⟨k, rfl, hk, ?_⟩
      cases otherStep_cases hs nofun (sys_control h).rx with
      | connFails hk' => rw [hk] at hk'; cases hk'
      | connGives hk' =>
        rw [hk] at hk'
        cases hk'
        exact List.getElem?_set_self (List.getElem?_eq_some_iff.mp hk).1
    · cases hx
  | evtPoll =>
    unfold gives at hx
    dsimp only at hx
    split at hx
    · next i g rest hq =>
      obtain rfl := List.mem_singleton.mp hx
      exact .inr ⟨rfl, g, by rw [hq]; exact List.mem_cons_self⟩
    · cases hx
  | _ => cases hx

theorem carries_step {a : EpAct} (h : (sys Q).Reach s) (hs : step a s = some s') :
    Carries s s' ((gives a s s').map Prod.snd) := by
  rcases reach_cases h hs with ⟨rfl, ht⟩ | ⟨ha, -⟩
  · exact carries_task ht
  · exact carries_other hs ha (sys_control h).rx

/-- Who got the connections, if the calls asked for `asked`, the connections of `made` were made for
calls and the handles of `given` were given (module doc). -/
structure Given (s : Ep Q) (asked : List SocketAddr) (made : List (Nat × Nat))
    (given : List (Option Nat × Nat)) : Prop where
  /-- The handles of a connection were given once, or are in one place on their way. -/
  once : (given.map Prod.snd ++ s.carried).Nodup
  /-- Those that are on their way are there, -/
  inFlight : ∀ (i : Nat) r, s.cons[i]? = some r → (r.con.handle = .inFlight ↔ i ∈ s.carried)
  /-- and who uses a connection was given it. -/
  user : ∀ (i : Nat) r, s.cons[i]? = some r → r.con.handle = .user → i ∈ given.map Prod.snd
  /-- A connection is made for one call, unless a packet made it. -/
  madeOnce : (made.map Prod.snd).Nodup
  origin : ∀ (i : Nat) r, s.cons[i]? = some r → (i ∈ made.map Prod.snd ↔ r.origin = none)
  /-- The call that returned a connection is the one for which it was made, and had asked for its
  address. -/
  call : ∀ k i, (some k, i) ∈ given → s.connects[k]? = some (.done (.ok i)) ∧ (k, i) ∈ made ∧
    ∃ r, s.cons[i]? = some r ∧ r.origin = none ∧ asked[k]? = some r.addr
  /-- A connection that came as an event was accepted, with the source of its first packet. -/
  event : ∀ i, (none, i) ∈ given → ∃ r pak hdr, s.cons[i]? = some r ∧
    r.origin = some (pak, hdr) ∧ r.addr = pak.addr

/-- The calls that returned a connection are done, and the answer was logged. -/
theorem given_calls {as : List EpAct} {s₀ : Ep Q} (h₀ : (sys Q).init s₀)
    (hr : (sys Q).run as s₀ = some s) : ∀ k i, (some k, i) ∈ given as s₀ →
      s.connects[k]? = some (.done (.ok i)) ∧ .newCon k (.ok i) ∈ s.trace := by
  refine Lts.init_gather (I := fun s l => ∀ k i, (some k, i) ∈ l →
    s.connects[k]? = some (.done (.ok i)) ∧ .newCon k (.ok i) ∈ s.trace)
    (fun a s s' l h hl hs k i hm => ?_) h₀ hr nofun
  obtain ⟨m, ht, -⟩ := trace_step h hs
  rcases List.mem_append.mp hm with hm | hm
  · obtain ⟨hk, hlog⟩ := hl k i hm
    obtain ⟨y, hy, hn⟩ := (calls_step h hs).next hk
    refine ⟨?_, ht ▸ List.mem_append_left _ hlog⟩
    cases hn with
    | rest => exact hy
    | cancel hlive => cases hlive
  · rcases gives_cases h hs hm with ⟨k', hk', hans, hdone⟩ | ⟨hk', -⟩
    · cases hk'
      exact ⟨hdone, ht ▸ List.mem_append_left _ (sys_answered h hans)⟩
    · cases hk'

theorem given_events {as : List EpAct} {s₀ : Ep Q} (h₀ : (sys Q).init s₀)
    (hr : (sys Q).run as s₀ = some s) : ∀ i, (none, i) ∈ given as s₀ →
      ∃ r, s.cons[i]? = some r ∧ r.origin ≠ none := by
  refine Lts.init_gather (I := fun s l => ∀ i : Nat, (none, i) ∈ l →
    ∃ r, s.cons[i]? = some r ∧ r.origin ≠ none) (fun a s s' l h hl hs i hm => ?_) h₀ hr nofun
  suffices hi : ∃ r, s.cons[i]? = some r ∧ r.origin ≠ none by
    obtain ⟨r, hi, ho⟩ := hi
    obtain ⟨c, hc⟩ := cons_fixed h hs hi
    exact ⟨_, hc, ho⟩
  rcases List.mem_append.mp hm with hm | hm
  · exact hl i hm
  · rcases gives_cases h hs hm with ⟨k', hk', -⟩ | ⟨-, g, hq⟩
    · cases hk'
    · exact (sys_accepted h).evts i g hq

theorem once_run {as : List EpAct} {s₀ : Ep Q} (h₀ : (sys Q).init s₀)
    (hr : (sys Q).run as s₀ = some s) : Once s ((given as s₀).map Prod.snd) := by
  refine Lts.init_gather (I := fun s l => Once s (l.map Prod.snd)) (fun a s s' l h hl hs => ?_) h₀ hr ?_
  · rw [List.map_append]
    exact hl.next (carries_step h hs)
  · obtain ⟨n, config, h3Config, rfl⟩ := h₀
    exact ⟨List.nodup_nil, nofun, fun i r hi => (nomatch hi), fun i r hi => (nomatch hi)⟩

theorem made_run {as : List EpAct} {s₀ : Ep Q} (h₀ : (sys Q).init s₀)
    (hr : (sys Q).run as s₀ = some s) : MadeFor s (made as s₀) := by
  refine Lts.init_gather (I := MadeFor) (fun a s s' l h hl hs => hl.next h hs) h₀ hr ?_
  obtain ⟨n, config, h3Config, rfl⟩ := h₀
  exact ⟨List.nodup_nil, fun i r hi => (nomatch hi), nofun, nofun, nofun⟩

theorem asked_run {as : List EpAct} {s₀ : Ep Q} (h₀ : (sys Q).init s₀)
    (hr : (sys Q).run as s₀ = some s) : Asked s (asked as s₀) := by
  refine Lts.init_gather (I := Asked) (fun a s s' l h hl hs => hl.next h hs) h₀ hr ?_
  obtain ⟨n, config, h3Config, rfl⟩ := h₀
  exact ⟨rfl, fun k x addr hk => (nomatch hk), nofun, nofun⟩

/-- See the module doc. -/
theorem given_once {as : List EpAct} {s₀ : Ep Q} (h₀ : (sys Q).init s₀)
    (hr : (sys Q).run as s₀ = some s) : Given s (asked as s₀) (made as s₀) (given as s₀) := by
  have honce := once_run h₀ hr
  have hasked := asked_run h₀ hr
  have hmade := made_run h₀ hr
  refine ⟨honce.nodup, honce.inFlight, honce.user, hmade.once, hmade.origin, fun k i hm => ?_,
    fun i hm => ?_⟩
  · obtain ⟨hdone, hlog⟩ := given_calls h₀ hr k i hm
    exact ⟨hdone, hmade.answered k i hlog, hasked.made k i hlog⟩
  · obtain ⟨r, hi, ho⟩ := given_events h₀ hr i hm
    obtain ⟨x, hx⟩ := Option.ne_none_iff_exists'.mp ho
    exact ⟨r, x.1, x.2, hi, hx, (sys_accepted (.run h₀ hr)).addr i r x.1 x.2 hi hx⟩

/-- Two calls ask for a connection to one address, the later one first, and a packet makes a third; the
users get them all. -/
def allGiven : List EpAct :=
  [.connect ⟨.v4 ⟨#[127, 0, 0, 1], rfl⟩, 7⟩, .connect ⟨.v4 ⟨#[127, 0, 0, 1], rfl⟩, 7⟩, .connAcquire 0,
    .connAcquire 1, .connSend 1, .connSend 0] ++ EpAct.packet [7] 14 ++
    [.evtPoll, .connPoll 0, .connPoll 1]

theorem given_once_all : ∃ s : Ep (Quiche.inert ()),
    s.cons.map (·.con.handle) = [.user, .user, .user] ∧
      Given s [⟨.v4 ⟨#[127, 0, 0, 1], rfl⟩, 7⟩, ⟨.v4 ⟨#[127, 0, 0, 1], rfl⟩, 7⟩] [(1, 0), (0, 1)]
        [(none, 2), (some 0, 1), (some 1, 0)] := by
  obtain ⟨s₀, h₀⟩ : ∃ s₀ : Ep (Quiche.inert ()), s₀ = quicheEp (.after 0) () none := ⟨_, rfl⟩
  have hrun : ((sys (Quiche.inert ())).run allGiven s₀).any
      fun s => decide (s.cons.map (·.con.handle) = [.user, .user, .user]) := by
    subst h₀; decide +kernel
  have hgiven : given allGiven s₀ = [(none, 2), (some 0, 1), (some 1, 0)] := by
    subst h₀; decide +kernel
  have hasked : asked allGiven s₀ =
      [⟨.v4 ⟨#[127, 0, 0, 1], rfl⟩, 7⟩, ⟨.v4 ⟨#[127, 0, 0, 1], rfl⟩, 7⟩] := by
    subst h₀; decide +kernel
  have hmade : made allGiven s₀ = [(1, 0), (0, 1)] := by
    subst h₀; decide +kernel
  obtain ⟨s, hr, hs⟩ := (Option.any_eq_true _ _).mp hrun
  exact ⟨s, of_decide_eq_true hs, hgiven ▸ hasked ▸ hmade ▸ given_once ⟨0, (), none, h₀⟩ hr⟩

end Ep
end Absquic
