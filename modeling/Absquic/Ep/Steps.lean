import Absquic.Ep.Task
import Absquic.Conn.Steps

/-!
# What the steps of an endpoint do

* `Moves R l l'`: each connection of the list is moved by `R`, and nothing else about it changes.
* `OtherStep`: what the steps of the other parties than `ep_task` do, with what they check.
* `Frame`: such a step leaves `ep_task`'s locals alone; a connection moves by a step of one of its
  own parties, or because its handles, which were in an answer or in an event, arrive at the user
  or are dropped.
* `TaskStep`: a step of `ep_task`, one constructor for each thing it can do, with what it checks.
  `Ends` is why the task would end, which never comes about (`Absquic.Ep.Control`).
-/

namespace Absquic

/-- The packet that the stream yielded. -/
def EpObs.pak? : EpObs → Option UdpPak
  | .yield (some (.ok pak)) => some pak
  | _ => none

/-- The packet in a command. -/
def EpCmd.pak? : EpCmd → Option UdpPak
  | .inPak (some (.ok pak)) => some pak
  | _ => none

/-- The packet in the hand of `ep_task`. -/
def EpPc.pak? : EpPc → Option UdpPak
  | .evtGuard m | .cmd m => m.pak?
  | .route _ _ pak | .accepted _ _ pak | .acceptSend _ _ pak => some pak
  | _ => none

/-- The packet in the hand of `udp_task`. -/
def UdpPc.pak? : UdpPc → Option UdpPak
  | .send (some (.ok pak)) => some pak
  | _ => none

namespace Ep

variable {Q : Quiche}

/-! ## Connections -/

/-- The connections move by `R`. -/
structure Moves (R : Nat → Con Q → Con Q → Prop) (l l' : List (EpCon Q)) : Prop where
  length : l'.length = l.length
  con : ∀ (i : Nat) r, l[i]? = some r → ∃ c, l'[i]? = some { r with con := c } ∧ R i r.con c

namespace Moves

variable {R : Nat → Con Q → Con Q → Prop} {l l' : List (EpCon Q)}

theorem refl (hr : ∀ i c, R i c c) (l : List (EpCon Q)) : Moves R l l :=
  ⟨rfl, fun i r h => ⟨r.con, h, hr i r.con⟩⟩

theorem mono {R' : Nat → Con Q → Con Q → Prop} (hr : ∀ i c c', R i c c' → R' i c c')
    (h : Moves R l l') : Moves R' l l' :=
  ⟨h.length, fun i r hi => let ⟨c, hc, hrc⟩ := h.con i r hi; ⟨c, hc, hr _ _ _ hrc⟩⟩

/-- The connection after the step was there before it. -/
theorem back (h : Moves R l l') {i : Nat} {r' : EpCon Q} (hi : l'[i]? = some r') :
    ∃ r, l[i]? = some r ∧ r' = { r with con := r'.con } ∧ R i r.con r'.con := by
  obtain ⟨hlt, -⟩ := List.getElem?_eq_some_iff.mp hi
  have hl := List.getElem?_eq_getElem (h.length ▸ hlt : i < l.length)
  obtain ⟨c, hc, hr⟩ := h.con i _ hl
  rw [hi] at hc
  obtain rfl := Option.some.inj hc
  exact ⟨_, hl, rfl, hr⟩

end Moves

theorem moves_modCon (s : Ep Q) (i : Nat) (f : Con Q → Con Q) :
    Moves (fun j c c' => c' = if j = i then f c else c) s.cons (s.modCon i f).cons := by
  refine ⟨List.length_modify _ _ _, fun j r hr => ?_⟩
  simp only [modCon, List.getElem?_modify, hr]
  by_cases h : i = j
  · exact ⟨f r.con, by simp [h]⟩
  · exact ⟨r.con, by simp [h, Ne.symm h]⟩

theorem moves_dropCons (s : Ep Q) (is : List Nat) :
    Moves (fun j c c' => c' = if j ∈ is then c.dropCon.dropRecv else c) s.cons
      (s.dropCons is).cons := by
  refine ⟨List.length_mapIdx, fun j r hr => ?_⟩
  simp only [dropCons, List.getElem?_mapIdx, hr]
  by_cases h : j ∈ is
  · exact ⟨r.con.dropCon.dropRecv, by simp [h]⟩
  · exact ⟨r.con, by simp [h]⟩

/-- The connections whose handles are in an answer or in an event. -/
def offered (s : Ep Q) : List Nat :=
  s.connects.filterMap (·.con?) ++ s.evt.queue.map fun | (.inCon i, _) => i

/-- A move of connection `j` by another party than `ep_task`: by one of its own parties, or, if its
handles are offered, by their arrival or their drop. -/
inductive Moved (s : Ep Q) (j : Nat) (c : Con Q) : Con Q → Prop
  | rest : Moved s j c c
  | step {a : ConAct} {c' : Con Q} (hm : c.may a) (h : c.step a = some c') : Moved s j c c'
  | deliver (h : j ∈ s.offered) : Moved s j c c.deliver
  | drop (h : j ∈ s.offered) : Moved s j c c.dropCon.dropRecv

/-! ## Packets on their way to `ep_task` -/

/-- The packets that the stream yielded, in order. -/
def yielded (s : Ep Q) : List UdpPak := s.trace.filterMap (·.pak?)

/-- The packets on their way: queued, and in the hand of `udp_task`. -/
def inbound (s : Ep Q) : List UdpPak :=
  s.cmd.queue.filterMap (·.1.pak?) ++ s.udpPc.pak?.toList

/-! ## The other parties -/

theorem sendCmd_eq {s : Ep Q} (hr : s.cmd.rx = true) (cmd : EpCmd) (g : EpSem) :
    s.sendCmd cmd g = ({ s with cmd := s.cmd.push cmd g }, true) := if_pos hr

/-- What the steps of the other parties than `ep_task` do, while it runs. -/
inductive OtherStep (s : Ep Q) : EpAct → Ep Q → Prop
  | udpAcquire (hu : s.udpPc = .acquire) (hg : s.udpGuard = none) (hf : s.udpLimit ≠ 0) :
    OtherStep s .udp
      { s with udpLimit := s.udpLimit - 1, udpGuard := some .udpLimit, udpPc := .recv }
  | udpEnd {g} (hu : s.udpPc = .send none) (hg : s.udpGuard = some g) :
    OtherStep s .udp
      { s with udpGuard := none, cmd := s.cmd.push (.inPak none) g, udpPc := .ended }
  | udpSend {r g} (hu : s.udpPc = .send (some r)) (hg : s.udpGuard = some g) :
    OtherStep s .udp
      { s with udpGuard := none, cmd := s.cmd.push (.inPak (some r)) g, udpPc := .acquire }
  | udpRecv {item} (hu : s.udpPc = .recv) :
    OtherStep s (.udpRecv item) ({ s with udpPc := .send item }.log (.yield item))
  | connect {addr} :
    OtherStep s (.connect addr) { s with connects := s.connects ++ [.acquire addr] }
  | connAcquire {k addr} (hk : s.connects[k]? = some (.acquire addr)) (hf : s.limit ≠ 0) :
    OtherStep s (.connAcquire k)
      { s with limit := s.limit - 1, connects := s.connects.set k (.send addr .limit) }
  | connSend {k addr g} (hk : s.connects[k]? = some (.send addr g)) :
    OtherStep s (.connSend k)
      { s with cmd := s.cmd.push (.newCon addr k) g, connects := s.connects.set k .wait }
  | connFails {k err} (hk : s.connects[k]? = some (.answered (.error err))) :
    OtherStep s (.connPoll k) { s with connects := s.connects.set k (.done (.error err)) }
  | connGives {k i} (hk : s.connects[k]? = some (.answered (.ok i))) :
    OtherStep s (.connPoll k)
      (({ s with connects := s.connects.set k (.done (.ok i)) } : Ep Q).modCon i Con.deliver)
  | connCancel {k x} (hk : s.connects[k]? = some x) (hx : x.live) :
    OtherStep s (.connCancel k)
      { (s.dropGuards x.guard?.toList).dropCons x.con?.toList with
        connects := s.connects.set k .cancelled }
  | evtPoll {i g rest} (hq : s.evt.queue = (.inCon i, g) :: rest) :
    OtherStep s .evtPoll
      ((({ s with evt := { s.evt with queue := rest } } : Ep Q).dropGuards [g]).modCon i Con.deliver)
  | dropRecv : OtherStep s .dropRecv s.dropRecv
  | dropEp : OtherStep s .dropEp { s with handle := false }
  | con {i a r c} (hi : s.cons[i]? = some r) (hm : r.con.may a) (hc : r.con.step a = some c) :
    OtherStep s (.con i a) (s.modCon i fun _ => c)
  | otherCid : OtherStep s .otherCid { s with cid := s.cid.cid.2 }

theorem otherStep_cases {a : EpAct} {s s' : Ep Q} (h : step a s = some s') (ha : a ≠ .task)
    (hr : s.cmd.rx = true) : OtherStep s a s' := by
  cases a with
  | task => exact absurd rfl ha
  | udp =>
    change s.udpStep = some s' at h
    unfold udpStep at h
    split at h
    · next hu hg =>
      split at h
      · cases h
      · next hf => cases h; exact .udpAcquire hu hg hf
    · next g hu hg =>
      rw [sendCmd_eq (s := { s with udpGuard := none }) hr] at h
      cases h
      exact .udpEnd hu hg
    · next r g hu hg =>
      rw [sendCmd_eq (s := { s with udpGuard := none }) hr] at h
      cases h
      exact .udpSend hu hg
    · cases h
  | udpRecv item =>
    change s.udpRecv item = some s' at h
    unfold udpRecv at h
    split at h
    · next hu => cases h; exact .udpRecv hu
    · cases h
  | connect addr =>
    change s.connect addr = some s' at h
    unfold connect at h
    split at h
    · cases h; exact .connect
    · cases h
  | connAcquire k =>
    change s.connAcquire k = some s' at h
    unfold connAcquire at h
    split at h
    · next addr hk =>
      split at h
      · cases h
      · next hf => cases h; exact .connAcquire hk hf
    · cases h
  | connSend k =>
    change s.connSend k = some s' at h
    unfold connSend at h
    split at h
    · next addr g hk =>
      rw [sendCmd_eq (s := { s with connects := s.connects.set k .wait }) hr] at h
      cases h
      exact .connSend hk
    · cases h
  | connPoll k =>
    change s.connPoll k = some s' at h
    unfold connPoll at h
    split at h
    · next r hk =>
      cases r with
      | error err => cases h; exact .connFails hk
      | ok i => cases h; exact .connGives hk
    · cases h
  | connCancel k =>
    change s.connCancel k = some s' at h
    unfold connCancel at h
    split at h
    · next x hk =>
      split at h
      · next hx => cases h; exact .connCancel hk hx
      · cases h
    · cases h
  | evtPoll =>
    change s.evtPoll = some s' at h
    unfold evtPoll at h
    split at h
    · next hq => cases h; exact .evtPoll hq
    · cases h
  | dropRecv => cases h; exact .dropRecv
  | dropEp => cases h; exact .dropEp
  | con i a =>
    change s.conStep i a = some s' at h
    unfold conStep at h
    split at h
    · cases h
    · next r hi =>
      split at h
      · next hm =>
        obtain ⟨c, hc, rfl⟩ := Option.map_eq_some_iff.mp h
        exact .con hi hm hc
      · cases h
  | otherCid => cases h; exact .otherCid

/-- What a step of another party than `ep_task` does (module doc). -/
structure Frame (s s' : Ep Q) : Prop where
  pc : s'.pc = s.pc
  config : s'.config = s.config
  h3Config : s'.h3Config = s.h3Config
  conMap : s'.conMap = s.conMap
  evtGuard : s'.evtGuard = s.evtGuard
  cmdGuard : s'.cmdGuard = s.cmdGuard
  rx : s'.cmd.rx = s.cmd.rx
  cid : s'.cid = s.cid ∨ s'.cid = s.cid.cid.2
  cons : Moves s.Moved s.cons s'.cons
  offered : ∀ i ∈ s'.offered, i ∈ s.offered
  queue : ∃ l, s'.cmd.queue = s.cmd.queue ++ l
  flow : ∃ l, s'.yielded = s.yielded ++ l ∧ s'.inbound = s.inbound ++ l
  trace : ∃ l, s'.trace = s.trace ++ l ∧ ∀ o ∈ l, ∃ item, o = .yield item

/-- What is collected of the trace, if not from the stream's items, stays. -/
theorem Frame.filterMap_trace {s s' : Ep Q} (h : Frame s s') {β : Type} {q : EpObs → Option β}
    (hq : ∀ item, q (.yield item) = none) : s'.trace.filterMap q = s.trace.filterMap q := by
  obtain ⟨l, hl, hy⟩ := h.trace
  have hnone : l.filterMap q = [] := by
    rw [List.filterMap_eq_nil_iff]
    intro o ho
    obtain ⟨item, rfl⟩ := hy o ho
    exact hq item
  rw [hl, List.filterMap_append, hnone, List.append_nil]

theorem Frame.mem_trace {s s' : Ep Q} (h : Frame s s') {o : EpObs} (ho : o ∈ s'.trace)
    (hn : ∀ item, o ≠ .yield item) : o ∈ s.trace := by
  obtain ⟨l, hl, hy⟩ := h.trace
  rw [hl] at ho
  refine (List.mem_append.mp ho).resolve_right fun hm => ?_
  obtain ⟨item, he⟩ := hy o hm
  exact hn item he

/-- A step that leaves the connections, the events and the packets alone. -/
theorem Frame.of_cmd {s s' : Ep Q} (h : s' = { s with
    cid := s'.cid, handle := s'.handle, limit := s'.limit, connects := s'.connects, cmd := s'.cmd
    evt := s'.evt, udpPc := s'.udpPc, udpLimit := s'.udpLimit, udpGuard := s'.udpGuard
    cons := s'.cons })
    (hr : s'.cmd.rx = s.cmd.rx) (hi : s'.cid = s.cid ∨ s'.cid = s.cid.cid.2)
    (hc : Moves s.Moved s.cons s'.cons) (ho : ∀ i ∈ s'.offered, i ∈ s.offered)
    (hq : ∃ l, s'.cmd.queue = s.cmd.queue ++ l) (hf : s'.inbound = s.inbound) : Frame s s' := by
  have ht : s'.trace = s.trace := by rw [h]
  constructor
  case flow => exact ⟨[], by unfold yielded; rw [ht, List.append_nil], by rw [hf, List.append_nil]⟩
  case trace => exact ⟨[], by rw [ht, List.append_nil], nofun⟩
  all_goals first | assumption | rw [h]

theorem moves_rest (s : Ep Q) : Moves s.Moved s.cons s.cons := .refl (fun _ _ => .rest) _

/-- A call without an answer in its slot offers nothing. -/
theorem offered_set {s : Ep Q} {k : Nat} {x : ConnectCall} (hx : x.con? = none) {i : Nat}
    (h : i ∈ (s.connects.set k x).filterMap (·.con?) ++ s.evt.queue.map fun | (.inCon i, _) => i) :
    i ∈ s.offered := by
  rcases List.mem_append.mp h with h | h
  · obtain ⟨y, hy, hyi⟩ := List.mem_filterMap.mp h
    rcases List.mem_or_eq_of_mem_set hy with hy | rfl
    · exact List.mem_append_left _ (List.mem_filterMap.mpr ⟨y, hy, hyi⟩)
    · rw [hx] at hyi; cases hyi
  · exact List.mem_append_right _ h

theorem offered_answered {s : Ep Q} {k i : Nat} {x : ConnectCall} (h : s.connects[k]? = some x)
    (hx : x.con? = some i) : i ∈ s.offered :=
  List.mem_append_left _ (List.mem_filterMap.mpr ⟨x, List.mem_of_getElem? h, hx⟩)

theorem inbound_push (s : Ep Q) (cmd : EpCmd) (g : EpSem) {s' : Ep Q}
    (hc : s'.cmd = s.cmd.push cmd g)
    (hu : cmd.pak?.toList ++ s'.udpPc.pak?.toList = s.udpPc.pak?.toList) :
    s'.inbound = s.inbound := by
  have hone : [(cmd, g)].filterMap (·.1.pak?) = cmd.pak?.toList := by
    cases h : cmd.pak? <;> simp [h]
  unfold inbound
  rw [hc, ← hu]
  show (s.cmd.queue ++ [(cmd, g)]).filterMap (·.1.pak?) ++ _ = _
  rw [List.filterMap_append, List.append_assoc, hone]

/-- The stream yields an item. -/
theorem frame_udpRecv {s : Ep Q} (hu : s.udpPc = .recv) (item : Option (Result UdpPak)) :
    Frame s ({ s with udpPc := .send item }.log (.yield item)) := by
  refine ⟨rfl, rfl, rfl, rfl, rfl, rfl, rfl, .inl rfl, moves_rest s, fun _ h => h,
    ⟨[], (List.append_nil _).symm⟩, ⟨(UdpPc.send item).pak?.toList, ?_, ?_⟩, [.yield item], rfl,
    by simp⟩
  · simp only [yielded, log, List.filterMap_append]
    rcases item with _ | _ | pak <;> rfl
  · simp [inbound, log, UdpPc.pak?, hu]

/-- The handles of connection `i` arrive at the user. -/
theorem moves_deliver {s : Ep Q} {i : Nat} (hi : i ∈ s.offered) :
    Moves s.Moved s.cons (s.modCon i Con.deliver).cons := by
  refine (moves_modCon s i Con.deliver).mono ?_
  rintro j c c' rfl
  split
  · next hj => exact .deliver (hj ▸ hi)
  · exact .rest

/-- The handles of the connections `is` are dropped. -/
theorem moves_drop {s : Ep Q} {is : List Nat} (hi : ∀ i ∈ is, i ∈ s.offered) :
    Moves s.Moved s.cons (s.dropCons is).cons := by
  refine (moves_dropCons s is).mono ?_
  rintro j c c' rfl
  split
  · next hj => exact .drop (hi j hj)
  · exact .rest

/-- A step of a party of connection `i`. -/
theorem moves_con {s : Ep Q} {i : Nat} {a : ConAct} {r : EpCon Q} {c : Con Q}
    (hi : s.cons[i]? = some r) (hm : r.con.may a) (hc : r.con.step a = some c) :
    Moves s.Moved s.cons (s.modCon i fun _ => c).cons := by
  refine ⟨(moves_modCon s i _).length, fun j q hq => ?_⟩
  obtain ⟨c', hc', he⟩ := (moves_modCon s i fun _ => c).con j q hq
  refine ⟨c', hc', ?_⟩
  rw [he]
  split
  · next hj => subst hj; rw [hi] at hq; cases hq; exact .step hm hc
  · exact .rest

/-- The steps of the other parties. -/
theorem frame_step {a : EpAct} {s s' : Ep Q} (h : step a s = some s') (ha : a ≠ .task)
    (hr : s.cmd.rx = true) : Frame s s' := by
  cases otherStep_cases h ha hr with
  | udpAcquire hu =>
    exact .of_cmd rfl rfl (.inl rfl) (moves_rest s) (fun _ h => h) ⟨[], (List.append_nil _).symm⟩
      (by simp only [inbound, UdpPc.pak?, hu])
  | @udpEnd g hu =>
    exact .of_cmd rfl rfl (.inl rfl) (moves_rest s) (fun _ h => h) ⟨_, rfl⟩
      (inbound_push s _ g rfl (by rw [hu]; rfl))
  | @udpSend r g hu =>
    exact .of_cmd rfl rfl (.inl rfl) (moves_rest s) (fun _ h => h) ⟨_, rfl⟩
      (inbound_push s _ g rfl (by rw [hu]; cases r <;> rfl))
  | udpRecv hu => exact frame_udpRecv hu _
  | connect =>
    refine .of_cmd rfl rfl (.inl rfl) (moves_rest s) (fun j hj => ?_)
      ⟨[], (List.append_nil _).symm⟩ rfl
    simpa [offered, ConnectCall.con?] using hj
  | connAcquire =>
    exact .of_cmd rfl rfl (.inl rfl) (moves_rest s) (fun _ h => offered_set rfl h)
      ⟨[], (List.append_nil _).symm⟩ rfl
  | @connSend k addr g =>
    exact .of_cmd rfl rfl (.inl rfl) (moves_rest s) (fun _ h => offered_set rfl h) ⟨_, rfl⟩
      (inbound_push s _ g rfl rfl)
  | connFails =>
    exact .of_cmd rfl rfl (.inl rfl) (moves_rest s) (fun _ h => offered_set rfl h)
      ⟨[], (List.append_nil _).symm⟩ rfl
  | connGives hk =>
    exact .of_cmd rfl rfl (.inl rfl) (moves_deliver (offered_answered hk rfl))
      (fun _ h => offered_set rfl h) ⟨[], (List.append_nil _).symm⟩ rfl
  | @connCancel k x hk =>
    have hi : ∀ i ∈ x.con?.toList, i ∈ s.offered := fun i hi =>
      offered_answered hk (Option.mem_toList.mp hi)
    exact .of_cmd rfl rfl (.inl rfl) (moves_drop hi) (fun _ h => offered_set rfl h)
      ⟨[], (List.append_nil _).symm⟩ rfl
  | @evtPoll i g rest hq =>
    have hi : i ∈ s.offered := List.mem_append_right _ (by rw [hq]; exact List.mem_cons_self)
    refine .of_cmd rfl rfl (.inl rfl) (moves_deliver hi) (fun j hj => ?_)
      ⟨[], (List.append_nil _).symm⟩ rfl
    rcases List.mem_append.mp hj with hj | hj
    · exact List.mem_append_left _ hj
    · refine List.mem_append_right _ ?_
      rw [hq]
      exact List.mem_cons_of_mem _ hj
  | dropRecv =>
    refine .of_cmd rfl rfl (.inl rfl) (moves_drop fun _ hi => List.mem_append_right _ hi)
      (fun j hj => ?_) ⟨[], (List.append_nil _).symm⟩ rfl
    rcases List.mem_append.mp hj with hj | hj
    · exact List.mem_append_left _ hj
    · cases hj
  | dropEp =>
    exact .of_cmd rfl rfl (.inl rfl) (moves_rest s) (fun _ h => h) ⟨[], (List.append_nil _).symm⟩ rfl
  | con hi hm hc =>
    exact .of_cmd rfl rfl (.inl rfl) (moves_con hi hm hc) (fun _ h => h)
      ⟨[], (List.append_nil _).symm⟩ rfl
  | otherCid =>
    exact .of_cmd rfl rfl (.inr rfl) (moves_rest s) (fun _ h => h) ⟨[], (List.append_nil _).symm⟩ rfl

/-! ## `ep_task` -/

/-- What `ep_task` drops a packet for without a change to any connection. -/
def Dropped (s : Ep Q) (pak : UdpPak) : Fate → Prop
  | .malformed => ∃ err, Q.headerFromSlice pak.data 16 = .error err
  | .noPermit i => ∃ hdr r, Q.headerFromSlice pak.data 16 = .ok hdr ∧
      s.conMap.lookup hdr.dcid = some i ∧ s.cons[i]? = some r ∧ r.con.tryAcquire = none
  | .noRoute => ∃ hdr, Q.headerFromSlice pak.data 16 = .ok hdr ∧
      s.conMap.lookup hdr.dcid = none ∧ hdr.ty ≠ .initial
  | _ => False

/-- The steps of `ep_task` that do not end it. -/
inductive TaskStep (s : Ep Q) : Ep Q → Prop
  | take {cmd g rest} (hpc : s.pc = .recv) (hq : s.cmd.queue = (cmd, g) :: rest) :
    TaskStep s ({ s with
      cmd := { s.cmd with queue := rest }
      pc := .evtGuard cmd
      cmdGuard := some g }.log (.take cmd))
  | reserved {cmd g} (hpc : s.pc = .evtGuard cmd) (hg : s.evtGuard = some g) :
    TaskStep s { s with pc := .cmd cmd }
  | reserve {cmd} (hpc : s.pc = .evtGuard cmd) (hg : s.evtGuard = none) (hf : 0 < s.evt.free) :
    TaskStep s { s with
      evt := { s.evt with free := s.evt.free - 1 }, evtGuard := some .evt, pc := .cmd cmd }
  | streamEnd (hpc : s.pc = .cmd (.inPak none)) : TaskStep s (s.log .streamEnd).nextCmd
  | streamErr {err} (hpc : s.pc = .cmd (.inPak (some (.error err)))) : TaskStep s s.nextCmd
  | drop {pak fate} (hpc : s.pc = .cmd (.inPak (some (.ok pak)))) (hd : s.Dropped pak fate) :
    TaskStep s (s.log (.fate pak fate)).nextCmd
  | refuse {pak hdr config err} (hpc : s.pc = .cmd (.inPak (some (.ok pak))))
    (hh : Q.headerFromSlice pak.data 16 = .ok hdr) (hl : s.conMap.lookup hdr.dcid = none)
    (ht : hdr.ty = .initial) (ha : Q.accept s.cid.cid.1 pak.addr s.config = (config, .error err)) :
    TaskStep s ({ s with cid := s.cid.cid.2, config }.log (.fate pak .refused)).nextCmd
  | accept {pak hdr config con c} (hpc : s.pc = .cmd (.inPak (some (.ok pak))))
    (hh : Q.headerFromSlice pak.data 16 = .ok hdr) (hl : s.conMap.lookup hdr.dcid = none)
    (ht : hdr.ty = .initial) (ha : Q.accept s.cid.cid.1 pak.addr s.config = (config, .ok con))
    (hc : Con.quicheCon s.h3Config con = some c) :
    TaskStep s { s with
      cid := s.cid.cid.2, config
      cons := s.cons ++ [⟨s.cid.cid.1, pak.addr, some (pak, hdr), c⟩]
      pc := .accepted s.cons.length s.cid.cid.1 pak }
  | route {pak hdr i r c} (hpc : s.pc = .cmd (.inPak (some (.ok pak))))
    (hh : Q.headerFromSlice pak.data 16 = .ok hdr) (hl : s.conMap.lookup hdr.dcid = some i)
    (hr : s.cons[i]? = some r) (hc : r.con.tryAcquire = some c) :
    TaskStep s { s.modCon i fun _ => c with pc := .route i hdr.dcid pak }
  | deliver {i dcid pak r c} (hpc : s.pc = .route i dcid pak) (hr : s.cons[i]? = some r)
    (hs : r.con.sendInPak pak = some (c, true)) :
    TaskStep s ((s.modCon i fun _ => c).log (.fate pak (.delivered i))).nextCmd
  | conEnded {i dcid pak r c} (hpc : s.pc = .route i dcid pak) (hr : s.cons[i]? = some r)
    (hs : r.con.sendInPak pak = some (c, false)) :
    TaskStep s ({ ((s.modCon i fun _ => c).modCon i Con.unmap).log (.fate pak (.conEnded i)) with
      conMap := s.conMap.erase dcid } : Ep Q).nextCmd
  | permit {i scid pak r c} (hpc : s.pc = .accepted i scid pak) (hr : s.cons[i]? = some r)
    (hc : r.con.tryAcquire = some c) :
    TaskStep s { s.modCon i fun _ => c with pc := .acceptSend i scid pak }
  | put {i scid pak r c ok} (hpc : s.pc = .acceptSend i scid pak) (hr : s.cons[i]? = some r)
    (hs : r.con.sendInPak pak = some (c, ok)) :
    TaskStep s { ((s.modCon i fun _ => c).log (.fate pak (.created i ok))).insertCon scid i with
      pc := .inCon i }
  | inCon {i g} (hpc : s.pc = .inCon i) (hg : s.evtGuard = some g) (hr : s.evt.rx = true) :
    TaskStep s ({ s with evtGuard := none, evt := s.evt.push (.inCon i) g }.log (.inCon i)).nextCmd
  | noInCon {i g} (hpc : s.pc = .inCon i) (hg : s.evtGuard = some g) (hr : s.evt.rx = false) :
    TaskStep s ((({ s with evtGuard := none } : Ep Q).dropGuards [g]).dropCons [i]).nextCmd
  | refuseNew {addr rsp config err} (hpc : s.pc = .cmd (.newCon addr rsp))
    (hc : Q.connect s.cid.cid.1 addr s.config = (config, .error err)) :
    TaskStep s ((({ s with cid := s.cid.cid.2, config } : Ep Q).answer rsp
      (.error (.quiche err))).log (.newCon rsp (.error err))).nextCmd
  | spawnNew {addr rsp config con c} (hpc : s.pc = .cmd (.newCon addr rsp))
    (ha : Q.connect s.cid.cid.1 addr s.config = (config, .ok con))
    (hc : Con.quicheCon s.h3Config con = some c) :
    TaskStep s { s with
      cid := s.cid.cid.2, config
      cons := s.cons ++ [⟨s.cid.cid.1, addr, none, c⟩]
      pc := .newCon s.cons.length s.cid.cid.1 rsp }
  | answerNew {i scid rsp} (hpc : s.pc = .newCon i scid rsp) : TaskStep s (s.answerNewCon i scid rsp)

theorem quicheCon_ne_none (h3Config : Option Q.H3Config) (con : Q.Connection) :
    Con.quicheCon h3Config con ≠ none := nofun

theorem onPak_cases {s s' : Ep Q} {pak : UdpPak} (hpc : s.pc = .cmd (.inPak (some (.ok pak))))
    (h : s.onPak pak = some s') : TaskStep s s' := by
  unfold onPak at h
  split at h
  · next err hh => cases h; exact .drop hpc ⟨err, hh⟩
  · next hdr hh =>
    split at h
    · next i hl =>
      split at h
      · cases h
      · next r hr =>
        split at h
        · next c hc => cases h; exact .route hpc hh hl hr hc
        · next hc => cases h; exact .drop hpc ⟨hdr, r, hh, hl, hr, hc⟩
    · next hl =>
      split at h
      · next ht =>
        cases h
        unfold accept
        simp only
        split
        · next ha => exact .refuse hpc hh hl ht (Prod.ext rfl ha)
        · next con ha =>
          unfold spawnCon
          split
          · next hn => exact absurd hn (quicheCon_ne_none _ _)
          · next c hc => exact .accept hpc hh hl ht (Prod.ext rfl ha) hc
      · next ht => cases h; exact .drop hpc ⟨hdr, hh, hl, ht⟩

theorem onNewCon_cases {s : Ep Q} {addr : SocketAddr} {rsp : Nat}
    (hpc : s.pc = .cmd (.newCon addr rsp)) : TaskStep s (s.onNewCon addr rsp) := by
  unfold onNewCon
  simp only
  split
  · next ha => exact .refuseNew hpc (Prod.ext rfl ha)
  · next con ha =>
    unfold spawnCon
    split
    · next hn => exact absurd hn (quicheCon_ne_none _ _)
    · next c hc => exact .spawnNew hpc (Prod.ext rfl ha) hc

/-- Why `ep_task` would end: no sender is left, or an `unwrap` of `None`. -/
inductive Ends (s : Ep Q) : Prop
  | closed (hpc : s.pc = .recv) (h0 : s.cmdSenders = 0)
  | permit {i scid pak r} (hpc : s.pc = .accepted i scid pak) (hr : s.cons[i]? = some r)
    (hn : r.con.tryAcquire = none)
  | guard {i} (hpc : s.pc = .inCon i) (hn : s.evtGuard = none)

/-- Whether the send succeeded decides the step. -/
theorem sendInPak_cases {s s' : Ep Q} {i : Nat} {pak : UdpPak} {ok : Bool}
    (h : s.sendInPak i pak = some (s', ok)) :
    ∃ r c, s.cons[i]? = some r ∧ r.con.sendInPak pak = some (c, ok) ∧ s' = s.modCon i fun _ => c := by
  unfold sendInPak at h
  split at h
  · cases h
  · next r hr =>
    obtain ⟨⟨c, ok'⟩, hc, hok⟩ := Option.map_eq_some_iff.mp h
    cases hok
    exact ⟨r, c, hr, hc, rfl⟩

/-- A step of `ep_task`. -/
theorem taskStep_cases {s s' : Ep Q} (h : s.taskStep = some s') : TaskStep s s' ∨ Ends s := by
  unfold taskStep at h
  split at h
  · next hpc =>
    unfold recvCmd at h
    split at h
    · next hq => cases h; exact .inl (.take hpc hq)
    · split at h
      · next h0 => exact .inr (.closed hpc h0)
      · cases h
  · next cmd hpc =>
    unfold acquireEvt at h
    split at h
    · next hg => cases h; exact .inl (.reserved hpc hg)
    · next hg =>
      obtain ⟨evt, ha, rfl⟩ := Option.map_eq_some_iff.mp h
      obtain ⟨hf, rfl⟩ := Chan.acquire_eq ha
      exact .inl (.reserve hpc hg hf)
  · next cmd hpc =>
    unfold dispatch at h
    split at h
    · cases h; exact .inl (.streamEnd hpc)
    · cases h; exact .inl (.streamErr hpc)
    · exact .inl (onPak_cases hpc h)
    · cases h; exact .inl (onNewCon_cases hpc)
  · next i dcid pak hpc =>
    unfold route at h
    split at h
    · cases h
    · next hs =>
      cases h
      obtain ⟨r, c, hr, hc, rfl⟩ := sendInPak_cases hs
      exact .inl (.deliver hpc hr hc)
    · next hs =>
      cases h
      obtain ⟨r, c, hr, hc, rfl⟩ := sendInPak_cases hs
      exact .inl (.conEnded hpc hr hc)
  · next i scid pak hpc =>
    unfold acceptAcquire at h
    split at h
    · cases h
    · next r hr =>
      split at h
      · next hn => exact .inr (.permit hpc hr hn)
      · next c hc => cases h; exact .inl (.permit hpc hr hc)
  · next i scid pak hpc =>
    unfold acceptSend at h
    obtain ⟨⟨s₁, ok⟩, hs, rfl⟩ := Option.map_eq_some_iff.mp h
    obtain ⟨r, c, hr, hc, rfl⟩ := sendInPak_cases hs
    exact .inl (.put hpc hr hc)
  · next i hpc =>
    cases h
    unfold sendInCon
    split
    · next hn => exact .inr (.guard hpc hn)
    · next g hg =>
      simp only
      split
      · next hr => exact .inl (.inCon hpc hg hr)
      · next hr => exact .inl (.noInCon hpc hg (Bool.eq_false_iff.mpr hr))
  · next i scid rsp hpc => cases h; exact .inl (.answerNew hpc)
  · cases h

end Ep
end Absquic
