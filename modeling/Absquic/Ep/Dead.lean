import Absquic.Ep.Routing
import Absquic.Ep.Slots

/-!
# An endpoint whose udp stream has ended

The items of the stream pass through `udp_task` and the command channel in order (`Stream.flow`), and
`None` is the last one. So once `ep_task` has handled `InPak(None)` (`dead`), nothing of the stream is
on its way (`deaf`), and a connection that is created later gets no packet (`Deaf.inPaks`).

`ep_task` goes on: it hands a `NewCon` to `quiche::connect` as before. Its caller gets an error if
quiche refuses (`noConnect`), and a connection if it does not (`not_refuses`).
-/

namespace Absquic

/-- The stream's item in a command. -/
def EpCmd.item? : EpCmd → Option (Option (Result UdpPak))
  | .inPak item => some item
  | .newCon _ _ => none

/-- The stream's item, received by `udp_task`. -/
def EpObs.item? : EpObs → Option (Option (Result UdpPak))
  | .yield item => some item
  | _ => none

/-- The stream's item, taken by `ep_task`. -/
def EpObs.taken? : EpObs → Option (Option (Result UdpPak))
  | .take m => m.item?
  | _ => none

/-- `InPak(None)` was handled. -/
def EpObs.isEnd : EpObs → Bool
  | .streamEnd => true
  | _ => false

/-- The item in the hand of `udp_task`. -/
def UdpPc.item? : UdpPc → Option (Option (Result UdpPak))
  | .send item => some item
  | _ => none

/-- The item in the hand of `ep_task`. -/
def EpPc.item? : EpPc → Option (Option (Result UdpPak))
  | .evtGuard m | .cmd m => m.item?
  | .route _ _ pak | .accepted _ _ pak | .acceptSend _ _ pak => some (some (.ok pak))
  | _ => none

/-- `udp_task` receives no more. -/
def UdpPc.done : UdpPc → Bool
  | .send none | .ended => true
  | _ => false

namespace Ep

variable {Q : Quiche} {s s' : Ep Q}

/-- The items that `udp_task` received, those that `ep_task` took, and those in the queue. -/
def items (s : Ep Q) : List (Option (Result UdpPak)) := s.trace.filterMap (·.item?)
def taken (s : Ep Q) : List (Option (Result UdpPak)) := s.trace.filterMap (·.taken?)
def queued (s : Ep Q) : List (Option (Result UdpPak)) := s.cmd.queue.filterMap (·.1.item?)

/-- What every step keeps (module doc). -/
structure Stream (s : Ep Q) : Prop where
  flow : s.taken ++ s.queued ++ s.udpPc.item?.toList = s.items
  last : ∀ pre post, s.items = pre ++ none :: post → post = [] ∧ s.udpPc.done
  hand : ∀ item, s.pc.item? = some item → s.taken.getLast? = some item
  ended : EpObs.streamEnd ∈ s.trace → none ∈ s.taken

/-! ## `ep_task` -/

/-- A step that takes no command. -/
theorem Stream.next (h : Stream s) {l : List EpObs} (ht : s'.trace = s.trace ++ l)
    (hl : ∀ o ∈ l, o.item? = none ∧ o.taken? = none ∧
      (o = .streamEnd → s.pc.item? = some none)) (hq : s'.queued = s.queued)
    (hu : s'.udpPc = s.udpPc) (hp : s'.pc.item? = none ∨ s'.pc.item? = s.pc.item?) : Stream s' := by
  have hi : s'.items = s.items := by
    unfold items
    rw [ht, List.filterMap_append, List.filterMap_eq_nil_iff.mpr fun o ho => (hl o ho).1,
      List.append_nil]
  have htk : s'.taken = s.taken := by
    unfold taken
    rw [ht, List.filterMap_append, List.filterMap_eq_nil_iff.mpr fun o ho => (hl o ho).2.1,
      List.append_nil]
  refine ⟨by rw [htk, hq, hu, hi]; exact h.flow, by rw [hi, hu]; exact h.last, fun item hitem => ?_,
    fun he => ?_⟩
  · rcases hp with hp | hp
    · rw [hp] at hitem; cases hitem
    · rw [htk]; exact h.hand item (hp ▸ hitem)
  · rw [htk]
    rw [ht] at he
    rcases List.mem_append.mp he with he | he
    · exact h.ended he
    · exact List.mem_of_getLast? (h.hand none ((hl _ he).2.2 rfl))

/-- A step of `ep_task` that takes no command. -/
theorem Stream.task (h : Stream s) (ht : TaskStep s s') (hpc : s.pc ≠ .recv)
    (hq : s'.queued = s.queued) (hu : s'.udpPc = s.udpPc)
    (hp : s'.pc.item? = none ∨ s'.pc.item? = s.pc.item?) : Stream s' := by
  rcases trace_task ht with he | ⟨o, he, ho⟩
  · exact h.next (l := []) (by rw [he, List.append_nil]) nofun hq hu hp
  · refine h.next he (fun x hx => ?_) hq hu hp
    rw [List.mem_singleton.mp hx]
    cases o with
    | yield => cases ho
    | take => exact absurd ho hpc
    | streamEnd => exact ⟨rfl, rfl, fun _ => by rw [show s.pc = _ from ho]; rfl⟩
    | _ => exact ⟨rfl, rfl, nofun⟩

theorem stream_task (h : Stream s) (ht : TaskStep s s') : Stream s' := by
  have hst := ht
  cases ht with
  | @take cmd g rest hpc hq =>
    have hflow := h.flow
    have hqd : s.queued = cmd.item?.toList ++ rest.filterMap (·.1.item?) := by
      unfold queued
      rw [hq, List.filterMap_cons]
      cases cmd.item? <;> rfl
    have htk : ∀ s₁ : Ep Q, s₁.trace = s.trace ++ [.take cmd] →
        s₁.taken = s.taken ++ cmd.item?.toList := fun s₁ h₁ => by
      unfold taken
      rw [h₁, List.filterMap_append]
      cases cmd <;> rfl
    have hit : ∀ s₁ : Ep Q, s₁.trace = s.trace ++ [.take cmd] → s₁.items = s.items := fun s₁ h₁ => by
      unfold items
      rw [h₁, List.filterMap_append]
      exact List.append_nil _
    refine ⟨?_, by rw [hit _ rfl]; exact h.last, fun item hitem => ?_, fun he => ?_⟩
    · rw [htk _ rfl, hit _ rfl, ← hflow, hqd]
      simp only [List.append_assoc]
      rfl
    · rw [htk _ rfl, show cmd.item? = some item from hitem]
      exact List.getLast?_concat
    · rw [htk _ rfl]
      exact List.mem_append_left _ (h.ended ((List.mem_append.mp he).resolve_right (by simp)))
  | reserved hpc | reserve hpc | accept hpc | route hpc | permit hpc =>
    exact h.task hst (by rw [hpc]; nofun) rfl rfl (.inr (by rw [hpc]; rfl))
  | streamEnd hpc | streamErr hpc | drop hpc | refuse hpc | deliver hpc | conEnded hpc | inCon hpc
  | noInCon hpc | spawnNew hpc =>
    exact h.task hst (by rw [hpc]; nofun) rfl rfl (.inl rfl)
  | @put i scid pak r c ok hpc =>
    have he := insertCon_eq ((s.modCon i fun _ => c).log (.fate pak (.created i ok))) scid i
    refine h.task hst (by rw [hpc]; nofun) ?_ ?_ (.inl rfl)
    all_goals rw [he]; rfl
  | @refuseNew addr rsp config err hpc =>
    have he := answer_eq { s with cid := s.cid.cid.2, config } rsp (.error (.quiche err))
    refine h.task hst (by rw [hpc]; nofun) ?_ ?_ (.inl rfl)
    all_goals rw [he]; rfl
  | @answerNew i scid rsp hpc =>
    have he := answer_eq (s.insertCon scid i) rsp (.ok i)
    have hi := insertCon_eq s scid i
    unfold answerNewCon
    refine h.task ?_ (by rw [hpc]; nofun) ?_ ?_ (.inl rfl)
    · exact hst
    all_goals rw [he, hi]; rfl

/-! ## The other parties -/

/-- A step that changes neither the queue nor `udp_task`. -/
theorem Stream.still (h : Stream s) (ht : s'.trace = s.trace) (hq : s'.cmd.queue = s.cmd.queue)
    (hu : s'.udpPc = s.udpPc) (hp : s'.pc = s.pc) : Stream s' :=
  h.next (l := []) (by rw [ht, List.append_nil]) nofun (by unfold queued; rw [hq]) hu
    (.inr (by rw [hp]))

/-- `udp_task` hands on an item. -/
theorem stream_push (h : Stream s) {item : Option (Result UdpPak)} {g : EpSem} {udpPc : UdpPc}
    (hu : s.udpPc = .send item) (hn : udpPc.item? = none) (hd : item = none → udpPc.done) :
    Stream { s with udpGuard := none, cmd := s.cmd.push (.inPak item) g, udpPc } := by
  have hl := h.last
  rw [hu] at hl
  refine ⟨?_, fun pre post hp => ⟨(hl pre post hp).1, ?_⟩, h.hand, h.ended⟩
  · show s.taken ++ (s.cmd.queue ++ [(EpCmd.inPak item, g)]).filterMap (·.1.item?) ++
      udpPc.item?.toList = s.items
    rw [← h.flow, hu, hn, List.filterMap_append, Option.toList_none, List.append_nil,
      List.append_assoc]
    rfl
  · cases item with
    | none => exact hd rfl
    | some r => exact nomatch (hl pre post hp).2

/-- The stream yields an item. -/
theorem stream_udpRecv (h : Stream s) (hu : s.udpPc = .recv) (item : Option (Result UdpPak)) :
    Stream ({ s with udpPc := .send item }.log (.yield item)) := by
  have hl := h.last
  have hf := h.flow
  rw [hu] at hl hf
  have hi : ∀ s₁ : Ep Q, s₁.trace = s.trace ++ [.yield item] → s₁.items = s.items ++ [item] ∧
      s₁.taken = s.taken := fun s₁ h₁ => by
    unfold items taken
    rw [h₁, List.filterMap_append, List.filterMap_append]
    exact ⟨rfl, List.append_nil _⟩
  obtain ⟨hi, htk⟩ := hi ({ s with udpPc := .send item }.log (.yield item)) rfl
  have hnone : none ∉ s.items := fun hm => by
    obtain ⟨pre, post, hp⟩ := List.append_of_mem hm
    exact nomatch (hl pre post hp).2
  refine ⟨?_, fun pre post hp => ?_, fun x hx => by rw [htk]; exact h.hand x hx, fun he => ?_⟩
  · rw [hi, htk, ← hf]
    exact congrArg (· ++ [item]) (List.append_nil _).symm
  · -- `None` was not in the items before, so it is the new one
    rw [hi] at hp
    obtain ⟨rfl, rfl⟩ := List.concat_eq_append_cons hp hnone
    exact ⟨rfl, rfl⟩
  · rw [htk]
    exact h.ended (by simpa [log] using he)

theorem stream_other {a : EpAct} (h : Stream s) (hs : step a s = some s') (ha : a ≠ .task)
    (hr : s.cmd.rx = true) : Stream s' := by
  cases otherStep_cases hs ha hr with
  | udpAcquire hu =>
    have hl := h.last
    have hf := h.flow
    rw [hu] at hl hf
    exact ⟨hf, fun pre post hp => (nomatch (hl pre post hp).2), h.hand, h.ended⟩
  | udpEnd hu => exact stream_push h hu rfl fun _ => rfl
  | udpSend hu => exact stream_push h hu rfl nofun
  | udpRecv hu => exact stream_udpRecv h hu _
  | @connSend k addr g =>
    refine h.next (l := []) (List.append_nil _).symm nofun ?_ rfl (.inr rfl)
    show (s.cmd.queue ++ [(EpCmd.newCon addr k, g)]).filterMap (·.1.item?) = _
    rw [List.filterMap_append]
    exact List.append_nil _
  | _ => exact h.still rfl rfl rfl rfl

theorem sys_stream (h : (sys Q).Reach s) : Stream s := by
  refine h.invariant (fun s hs => ?_) fun a s s' hr hi hs => ?_
  · obtain ⟨n, config, h3Config, rfl⟩ := hs
    refine ⟨rfl, fun pre post hp => ?_, nofun, nofun⟩
    cases pre <;> cases hp
  · by_cases ha : a = .task
    · subst ha
      exact stream_task hi ((taskStep_cases hs).resolve_right (not_ends (sys_control hr)))
    · exact stream_other (a := a) hi hs ha (sys_control hr).rx

/-! ## After `InPak(None)` -/

/-- `ep_task` has handled `InPak(None)`. -/
def dead (s : Ep Q) : Bool := s.trace.any (·.isEnd)

/-- What was logged before that, and after it. -/
def early (s : Ep Q) : List EpObs := s.trace.takeWhile (!·.isEnd)
def late (s : Ep Q) : List EpObs := s.trace.afterFirst (·.isEnd)

theorem dead_iff : s.dead ↔ .streamEnd ∈ s.trace := by
  unfold dead
  rw [List.any_eq_true]
  refine ⟨fun ⟨o, ho, he⟩ => ?_, fun h => ⟨_, h, rfl⟩⟩
  cases o <;> first | exact ho | cases he

theorem dead_keep (h : s.trace <+: s'.trace) (ho : s.dead) : s'.dead :=
  dead_iff.mpr (h.subset (dead_iff.mp ho))

/-- A packet in hand is an item in hand. -/
theorem item?_of_pak? {pc : EpPc} {pak : UdpPak} (h : pc.pak? = some pak) :
    pc.item? = some (some (.ok pak)) := by
  have hm : ∀ m : EpCmd, m.pak? = some pak → m.item? = some (some (.ok pak)) := fun m hm => by
    rcases m with (_ | _ | p) | _ <;> cases hm
    rfl
  cases pc with
  | evtGuard m | cmd m => exact hm m h
  | route | accepted | acceptSend => cases h; rfl
  | _ => cases h

theorem udpPc_task (ht : TaskStep s s') : s'.udpPc = s.udpPc := by
  cases ht with
  | @put i scid pak r c ok hpc =>
    rw [insertCon_eq ((s.modCon i fun _ => c).log (.fate pak (.created i ok))) scid i]
    rfl
  | @refuseNew addr rsp config err hpc =>
    rw [answer_eq { s with cid := s.cid.cid.2, config } rsp (.error (.quiche err))]
    rfl
  | @answerNew i scid rsp hpc =>
    have hi : (s.insertCon scid i).udpPc = s.udpPc := by rw [insertCon_eq s scid i]
    unfold answerNewCon
    rw [answer_eq (s.insertCon scid i) rsp (.ok i)]
    exact hi
  | _ => rfl

/-- `udp_task` stays ended. -/
theorem udpPc_ended {a : EpAct} (h : (sys Q).Reach s) (hs : step a s = some s')
    (he : s.udpPc = .ended) : s'.udpPc = .ended := by
  by_cases ha : a = .task
  · subst ha
    obtain ⟨-, ht⟩ | ⟨hn, -⟩ := reach_cases h hs
    · exact (udpPc_task ht).trans he
    · exact absurd rfl hn
  · cases otherStep_cases hs ha (sys_control h).rx with
    | udpEnd => rfl
    | udpAcquire hu | udpSend hu | udpRecv hu => rw [he] at hu; cases hu
    | _ => exact he

/-- Nothing of the stream is on its way. -/
structure Deaf (s : Ep Q) : Prop where
  queued : s.queued = []
  udpPc : s.udpPc = .ended
  hand : s.pc.pak? = none

theorem deaf (h : (sys Q).Reach s) (ho : s.dead) : Deaf s := by
  have hs := sys_stream h
  obtain ⟨pre, post, hp⟩ := List.append_of_mem (hs.ended (dead_iff.mp ho))
  obtain ⟨hnil, hd⟩ := hs.last pre (post ++ s.queued ++ s.udpPc.item?.toList) (by
    rw [← hs.flow, hp]
    simp only [List.append_assoc, List.cons_append])
  obtain ⟨hpq, hu⟩ := List.append_eq_nil_iff.mp hnil
  obtain ⟨rfl, hq⟩ := List.append_eq_nil_iff.mp hpq
  refine ⟨hq, ?_, Option.eq_none_iff_forall_ne_some.mpr fun pak hpak => ?_⟩
  · cases hpc : s.udpPc with
    | ended => rfl
    | send item => rw [hpc] at hu; cases hu
    | _ => rw [hpc] at hd; cases hd
  · have hl := hs.hand _ (item?_of_pak? hpak)
    rw [hp, List.getLast?_concat] at hl
    cases hl

theorem Deaf.inbound (h : Deaf s) : s.inbound = [] := by
  have hq : s.cmd.queue.filterMap (·.1.pak?) = [] := by
    rw [List.filterMap_eq_nil_iff]
    intro m hm
    have := List.filterMap_eq_nil_iff.mp h.queued m hm
    rcases m with ⟨_ | _, _⟩
    · cases this
    · rfl
  rw [Ep.inbound, hq, h.udpPc]
  rfl

/-- `ep_task` is done with the same packets. -/
theorem Deaf.fates (h : (sys Q).Reach s) (ho : s.dead) (hs : (sys Q).Steps (fun _ => True) s s') :
    s'.fates = s.fates := by
  obtain ⟨l, hl⟩ := trace_prefix h hs
  have h' := h.steps hs
  have hd := deaf h ho
  have hd' := deaf h' (dead_keep ⟨l, hl⟩ ho)
  -- `None` was the last item
  obtain ⟨pre, post, hp⟩ := List.append_of_mem ((sys_stream h).ended (dead_iff.mp ho))
  have hy : s'.yielded = s.yielded := by
    have hi : s.items = pre ++ none :: post := by
      rw [← (sys_stream h).flow, hd.queued, hd.udpPc, List.append_nil, ← hp]
      exact List.append_nil _
    obtain ⟨hnil, -⟩ := (sys_stream h').last pre (post ++ l.filterMap (·.item?)) (by
      rw [items, ← hl, List.filterMap_append]
      show s.items ++ _ = _
      rw [hi, List.append_assoc, List.cons_append])
    have hno : l.filterMap (·.pak?) = [] := by
      rw [List.filterMap_eq_nil_iff]
      intro o ho
      have := List.filterMap_eq_nil_iff.mp (List.append_eq_nil_iff.mp hnil).2 o ho
      cases o <;> first | rfl | cases this
    unfold yielded
    rw [← hl, List.filterMap_append, hno, List.append_nil]
  have hf := (sys_routing h).flow
  have hf' := (sys_routing h').flow
  rw [hd.hand, hd.inbound] at hf
  rw [hd'.hand, hd'.inbound, hy, ← hf, fates_append hl.symm] at hf'
  simp only [Option.toList_none, List.append_nil, List.map_append] at hf'
  rw [fates_append hl.symm, List.map_eq_nil_iff.mp (List.append_right_eq_self.mp hf'),
    List.append_nil]

/-- A connection that is created later gets no packet. -/
theorem Deaf.inPaks (h : (sys Q).Reach s) (ho : s.dead) (hs : (sys Q).Steps (fun _ => True) s s')
    {i : Nat} {r : EpCon Q} (hi : s.cons.length ≤ i) (hr : s'.cons[i]? = some r) :
    r.con.inPaks = [] := by
  have hf : s'.fatesOf i = [] := by
    rw [fatesOf, Deaf.fates h ho hs]
    exact (sys_routing h).new i hi
  cases (sys_routing (h.steps hs)).sent i r hr with
  | connected _ ha _ hp => rw [hp, ← ha, hf]; rfl
  | accepting _ _ _ hp => exact hp
  | accepted _ ha => rw [hf] at ha; cases ha

/-! ## `connect()` after `InPak(None)` -/

/-- Who asks for a connection after `InPak(None)` fails; so a call that has a connection in its slot
had its `NewCon` handled before. -/
structure NoConnect (s : Ep Q) : Prop where
  fails : ∀ rsp result, .newCon rsp result ∈ s.late →
    (∃ err, result = .error err) ∧ s.connects[rsp]?.any (·.failed)
  before : ∀ (k : Nat) i, s.connects[k]? = some (.answered (.ok i)) → .newCon k (.ok i) ∈ s.early

/-- If `ep_task` is about to handle a `NewCon` after `InPak(None)`, quiche refuses it. -/
def refuses (s : Ep Q) : Bool :=
  match s.pc with
  | .cmd (.newCon addr _) => !s.dead || !(Q.connect s.cid.cid.1 addr s.config).2.isOk
  | _ => true

/-- The condition on a step. -/
def Refuses (s : Ep Q) (a : EpAct) : Prop := (match a with | .task => s.refuses | _ => true) = true

/-- If `ep_task` is about to handle `InPak(None)`, no call has a connection in its slot. -/
def settled (s : Ep Q) : Bool :=
  match s.pc with
  | .cmd (.inPak none) => s.connects.all (·.con?.isNone)
  | _ => true

/-- The condition on a step, also for the calls that `ep_task` answered before. -/
def Settled (s : Ep Q) (a : EpAct) : Prop :=
  Refuses s a ∧ (match a with | .task => s.settled | _ => true) = true

instance (s : Ep Q) (a : EpAct) : Decidable (Refuses s a) := inferInstanceAs (Decidable (_ = _))

instance (s : Ep Q) (a : EpAct) : Decidable (Settled s a) := inferInstanceAs (Decidable (_ ∧ _))

/-- What a step adds to `late`, and whom it answers. -/
theorem late_step {a : EpAct} (h : (sys Q).Reach s) (hs : step a s = some s') :
    ∃ l, s'.trace = s.trace ++ l ∧ s'.late = (if s.dead then s.late ++ l else []) ∧
      ∀ rsp r, .newCon rsp r ∈ l → s.Logs (.newCon rsp r) ∧ Answer s s' rsp r := by
  have happ : ∀ l, s'.trace = s.trace ++ l → l.afterFirst (·.isEnd) = [] →
      s'.late = if s.dead then s.late ++ l else [] := fun l hl hn => by
    rw [late, hl, List.afterFirst_append, hn]
    rfl
  rcases reach_cases h hs with ⟨-, ht⟩ | ⟨-, hf⟩
  · rcases trace_task ht with he | ⟨o, he, ho⟩
    · have he : s'.trace = s.trace ++ [] := by rw [he, List.append_nil]
      exact ⟨[], he, happ [] he rfl, nofun⟩
    · refine ⟨[o], he, happ [o] he (by cases o <;> rfl), fun rsp r hm => ?_⟩
      obtain rfl := List.mem_singleton.mp hm
      exact ⟨ho, answer_task ht he⟩
  · obtain ⟨l, hl, hy⟩ := hf.trace
    refine ⟨l, hl, happ l hl (List.afterFirst_eq_nil fun o ho => ?_), fun rsp r hm => ?_⟩
    · obtain ⟨item, rfl⟩ := hy o ho
      rfl
    · obtain ⟨item, hi⟩ := hy _ hm
      cases hi

/-- `ep_task` is done with no packet after `InPak(None)`. -/
theorem late_fates (h : (sys Q).Reach s) : s.late.filterMap (·.fate?) = [] := by
  refine h.invariant (I := fun s => s.late.filterMap (·.fate?) = []) (fun s hs => ?_)
    fun a s s' hr hi hs => ?_
  · obtain ⟨n, config, h3Config, rfl⟩ := hs
    rfl
  · obtain ⟨l, ht, hl, -⟩ := late_step hr hs
    rw [hl]
    split
    · next ho =>
      have hf := Deaf.fates hr ho (.one trivial hs)
      rw [fates_append ht] at hf
      rw [List.filterMap_append, hi, List.append_right_eq_self.mp hf]
      rfl
    · rfl

/-- All that it is done with came before. -/
theorem early_fates (h : (sys Q).Reach s) : s.early.filterMap (·.fate?) = s.fates := by
  have hsplit := List.filterMap_takeWhile_afterFirst (p := (·.isEnd)) (f := (·.fate?))
    (fun o ho => by cases o <;> first | rfl | cases ho) s.trace
  rw [show s.trace.afterFirst (·.isEnd) = s.late from rfl, late_fates h, List.append_nil] at hsplit
  exact hsplit

/-- What a step keeps that meets the condition. -/
structure Refusing (s : Ep Q) : Prop where
  pc : s.dead → ∀ i scid rsp, s.pc ≠ .newCon i scid rsp
  fails : ∀ rsp result, .newCon rsp result ∈ s.late →
    (∃ err, result = .error err) ∧ s.connects[rsp]?.any (·.failed)

/-- A connection that `ep_task` has for a call is new, and quiche made it. -/
theorem newCon_task (h : TaskStep s s') {i : Nat} {scid : ConnectionId} {rsp : Nat}
    (hpc : s'.pc = .newCon i scid rsp) : s'.trace = s.trace ∧
      ∃ addr, s.pc = .cmd (.newCon addr rsp) ∧ (Q.connect s.cid.cid.1 addr s.config).2.isOk := by
  cases h with
  | @spawnNew addr _ _ _ _ hp ha => cases hpc; exact ⟨rfl, addr, hp, by rw [ha]; rfl⟩
  | _ => cases hpc

theorem refusing_step {a : EpAct} (h : (sys Q).Reach s) (hi : Refusing s) (hc : Refuses s a)
    (hs : step a s = some s') : Refusing s' := by
  refine ⟨fun ho i scid rsp hpc => ?_, fun rsp result hm => ?_⟩
  · rcases reach_cases h hs with ⟨rfl, ht⟩ | ⟨-, hf⟩
    · obtain ⟨htr, addr, hp, hok⟩ := newCon_task ht hpc
      have hr : s.refuses = true := hc
      rw [dead, htr] at ho
      rw [refuses, hp] at hr
      simp only [dead, ho, hok] at hr
      cases hr
    · -- the others log no end
      exact hi.pc (dead_iff.mpr (hf.mem_trace (dead_iff.mp ho) nofun)) i scid rsp (hf.pc ▸ hpc)
  · obtain ⟨l, -, hl, hnew⟩ := late_step h hs
    rw [hl] at hm
    split at hm
    · next ho =>
      rcases List.mem_append.mp hm with hm | hm
      · obtain ⟨he, hf⟩ := hi.fails rsp result hm
        obtain ⟨x, hx, hxf⟩ := (Option.any_eq_true _ _).mp hf
        obtain ⟨y, hy, hn⟩ := (calls_step h hs).next hx
        exact ⟨he, (Option.any_eq_true _ _).mpr ⟨y, hy, hn.failed hxf⟩⟩
      · obtain ⟨hlogs, ha⟩ := hnew rsp result hm
        cases result with
        | ok i =>
          obtain ⟨scid, hpc⟩ := hlogs
          exact absurd hpc (hi.pc ho i scid rsp)
        | error err =>
          refine ⟨⟨err, rfl⟩, ?_⟩
          rcases ha.connects (sys_slots h) with hx | hx <;> rw [hx] <;> rfl
    · cases hm

theorem noConnect (h : (sys Q).ReachIf Refuses s) : NoConnect s := by
  have hi : Refusing s := h.invariant (fun s hs => by
    obtain ⟨n, config, h3Config, rfl⟩ := hs
    exact ⟨nofun, nofun⟩) fun a s s' hr hi hc hs => refusing_step (a := a) hr hi hc hs
  refine ⟨hi.fails, fun k i hk => ?_⟩
  rcases List.mem_takeWhile_or_afterFirst (p := (·.isEnd)) (sys_answered h.reach hk) with hm | hm | hm
  · exact hm
  · cases hm
  · obtain ⟨⟨err, he⟩, -⟩ := hi.fails _ _ hm
    cases he

theorem dead_append {l : List EpObs} (h : s'.trace = s.trace ++ l) :
    s'.dead = (s.dead || l.any (·.isEnd)) := by
  unfold dead
  rw [h, List.any_append]

/-- The step after which the endpoint is dead. -/
theorem dead_step {a : EpAct} (h : (sys Q).Reach s) (hs : step a s = some s') (ho : ¬ s.dead)
    (ho' : s'.dead) : a = .task ∧ s.pc = .cmd (.inPak none) := by
  have hnew : ∀ {l : List EpObs}, s'.trace = s.trace ++ l → ∃ o ∈ l, o.isEnd := fun hl => by
    rw [dead_append hl, Bool.eq_false_iff.mpr ho, Bool.false_or] at ho'
    exact List.any_eq_true.mp ho'
  rcases reach_cases h hs with ⟨ha, ht⟩ | ⟨-, hf⟩
  · rcases trace_task ht with he | ⟨o, he, hlogs⟩
    · obtain ⟨o, hm, -⟩ := hnew (l := []) (by rw [he, List.append_nil])
      cases hm
    · obtain ⟨o', hm, hend⟩ := hnew he
      rw [List.mem_singleton.mp hm] at hend
      cases o with
      | streamEnd => exact ⟨ha, hlogs⟩
      | _ => cases hend
  · exact absurd (dead_iff.mpr (hf.mem_trace (dead_iff.mp ho') nofun)) ho

/-- If also the answers given before had been taken, no call has a connection in its slot. -/
theorem none_answered (h : (sys Q).ReachIf Settled s) (ho : s.dead) (k i : Nat) :
    s.connects[k]? ≠ some (.answered (.ok i)) := by
  induction h generalizing k i with
  | init hs => obtain ⟨n, config, h3Config, rfl⟩ := hs; cases ho
  | @step s s' a hr hc hs ih =>
    intro hk
    have hn := noConnect (.step a (hr.mono fun _ _ h => h.1) hc.1 hs)
    have hanswer : ∀ r, Answer s s' k r → Except.ok i = r.mapError IoError.quiche → ¬ s.dead := by
      intro r ha hr hso
      have hm : .newCon k r ∈ s'.late := by
        rw [late, ha.trace, List.afterFirst_append, show s.trace.any (·.isEnd) = true from hso]
        exact List.mem_append_right _ (List.mem_singleton.mpr rfl)
      obtain ⟨⟨err, rfl⟩, -⟩ := hn.fails k r hm
      cases hr
    rcases (calls_step hr.reach hs).answered hk with hk | ⟨r, ha, hok⟩
    · by_cases hso : s.dead
      · exact ih hso k i hk
      · obtain ⟨rfl, hpc⟩ := dead_step hr.reach hs hso ho
        have hset : s.settled = true := hc.2
        rw [settled, hpc] at hset
        have := List.all_eq_true.mp hset _ (List.mem_of_getElem? hk)
        cases this
    · rw [dead_append ha.trace] at ho
      refine hanswer r ha hok ?_
      simpa [EpObs.isEnd] using ho

/-- A step that does not meet the condition leads to a connection on a dead endpoint. -/
theorem not_refuses {a : EpAct} (hc : ¬ Refuses s a) (hs : step a s = some s') :
    ∃ s'', step .task s' = some s'' ∧ ¬ NoConnect s'' := by
  cases a with
  | task =>
    have hr : ¬ s.refuses = true := hc
    unfold refuses at hr
    split at hr
    · next addr rsp hpc =>
      have ht : s.onNewCon addr rsp = s' := by
        have hs : s.taskStep = some s' := hs
        rw [taskStep, hpc] at hs
        exact Option.some.inj hs
      unfold onNewCon at ht
      simp only at ht
      split at ht
      · next err he => rw [he] at hr; exact absurd (Bool.or_true _) hr
      · next con he =>
        have ho : s.dead := by
          rw [he] at hr
          cases hso : s.dead with
          | true => rfl
          | false => rw [hso] at hr; exact absurd rfl hr
        have htr : s'.trace = s.trace := by rw [← ht]; rfl
        refine ⟨s'.answerNewCon s.cons.length s.cid.cid.1 rsp, by rw [← ht]; rfl, fun hn => ?_⟩
        obtain ⟨⟨err, he⟩, -⟩ := hn.fails rsp (.ok s.cons.length) (by
          rw [late, trace_answerNewCon, htr, List.afterFirst_append,
            show s.trace.any (·.isEnd) = true from ho]
          exact List.mem_append_right _ (List.mem_singleton.mpr rfl))
        cases he
    · exact absurd rfl hr
  | _ => exact absurd rfl hc

end Ep
end Absquic
