import Absquic.Ep.Control

/-!
# Where the packets go

`fates` is what `ep_task` did with each packet, in order. Three things are followed along a run:

* `Routing.flow`: the packets with a fate, the one in the hand of `ep_task` and those on their way
  to it are the packets that the stream yielded, in order. So each packet has one fate at most.
* `Routing.map`: an id in `con_map` is the `scid` of the connection it leads to.
* `Sent`: the packets on a connection's command channel are those whose fate says so: the Initial
  packet it was created for, then packets with its `scid`.

`Reason` is why a packet has its fate, in the state in which `ep_task` handled it.
-/

namespace Absquic

/-- The packet and what `ep_task` did with it. -/
def EpObs.fate? : EpObs → Option (UdpPak × Fate)
  | .fate pak f => some (pak, f)
  | _ => none

/-- The connection whose packet it is. -/
def Fate.con? : Fate → Option Nat
  | .delivered i | .created i _ => some i
  | _ => none

/-- `ep_task` is busy with a connection, for a packet or for a `NewCon`. -/
def EpPc.holdsCon : EpPc → Bool
  | .route _ _ _ | .accepted _ _ _ | .acceptSend _ _ _ | .newCon _ _ _ => true
  | _ => false

/-- At this place `ep_task` may be done with the packet in this way. -/
def EpPc.Done (pak : UdpPak) (fate : Fate) : EpPc → Prop
  | .cmd m => m = .inPak (some (.ok pak)) ∧ fate.con? = none
  | .route i _ p => p = pak ∧ (fate = .delivered i ∨ fate = .conEnded i)
  | .acceptSend i _ p => p = pak ∧ ∃ put, fate = .created i put
  | _ => False

theorem EpPc.Done.pak? {pak : UdpPak} {fate : Fate} {pc : EpPc} (h : pc.Done pak fate) :
    pc.pak? = some pak := by
  cases pc with
  | cmd m => rw [h.1]; rfl
  | route | acceptSend => exact congrArg some h.1
  | _ => cases h

/-- The packet was put on the command channel of connection `i`. -/
def Fate.putOn (i : Nat) : Fate → Bool
  | .delivered j => j = i
  | .created j put => j = i && put
  | _ => false

theorem Fate.con?_of_putOn {i : Nat} {fate : Fate} (h : fate.putOn i) : fate.con? = some i := by
  cases fate <;> simp_all [putOn, con?]

namespace Ep

variable {Q : Quiche}

/-- The packets that `ep_task` is done with, in order, and what it did with them. -/
def fates (s : Ep Q) : List (UdpPak × Fate) := s.trace.filterMap (·.fate?)

/-- Those that were for connection `i`. -/
def fatesOf (s : Ep Q) (i : Nat) : List (UdpPak × Fate) := s.fates.filter (·.2.con? = some i)

/-- Why `ep_task` does this with the packet. -/
def Reason (s : Ep Q) (pak : UdpPak) : Fate → Prop
  | .malformed => ∃ err, Q.headerFromSlice pak.data 16 = .error err
  | .delivered i => ∃ hdr r, Q.headerFromSlice pak.data 16 = .ok hdr ∧
      s.conMap.lookup hdr.dcid = some i ∧ s.cons[i]? = some r ∧ r.con.pc.over = false
  | .created i put => ∃ hdr r, Q.headerFromSlice pak.data 16 = .ok hdr ∧ hdr.ty = .initial ∧
      s.cons[i]? = some r ∧ r.origin = some (pak, hdr) ∧ put = !r.con.pc.over
  | .noPermit i => ∃ hdr r, Q.headerFromSlice pak.data 16 = .ok hdr ∧
      s.conMap.lookup hdr.dcid = some i ∧ s.cons[i]? = some r ∧ r.con.cmd.free = 0
  | .conEnded i => ∃ hdr r, Q.headerFromSlice pak.data 16 = .ok hdr ∧
      s.conMap.lookup hdr.dcid = some i ∧ s.cons[i]? = some r ∧ r.con.pc.over = true
  | .refused => ∃ hdr err, Q.headerFromSlice pak.data 16 = .ok hdr ∧
      s.conMap.lookup hdr.dcid = none ∧ hdr.ty = .initial ∧
      (Q.accept s.cid.cid.1 pak.addr s.config).2 = .error err
  | .noRoute => ∃ hdr, Q.headerFromSlice pak.data 16 = .ok hdr ∧
      s.conMap.lookup hdr.dcid = none ∧ hdr.ty ≠ .initial

/-- A packet that was delivered to connection `r`, which is connection `i`. -/
def For (i : Nat) (r : EpCon Q) (x : UdpPak × Fate) : Prop :=
  x.2 = .delivered i ∧ ∃ hdr, Q.headerFromSlice x.1.data 16 = .ok hdr ∧ hdr.dcid = r.scid

/-- The packets on the command channel of connection `i`. -/
inductive Sent (s : Ep Q) (i : Nat) (r : EpCon Q) : Prop
  | connected {later : List (UdpPak × Fate)} (ho : r.origin = none) (ha : s.fatesOf i = later)
    (hl : ∀ x ∈ later, For i r x) (hp : r.con.inPaks = later.map Prod.fst)
  /-- `ep_task` has the Initial packet in its hand. -/
  | accepting {pak : UdpPak} {hdr : Header} (ho : r.origin = some (pak, hdr))
    (hh : s.pc.pak? = some pak ∧ localCon s.pc = some i) (ha : s.fatesOf i = [])
    (hp : r.con.inPaks = [])
  | accepted {pak : UdpPak} {hdr : Header} {put : Bool} {later : List (UdpPak × Fate)}
    (ho : r.origin = some (pak, hdr)) (ha : s.fatesOf i = (pak, .created i put) :: later)
    (hl : ∀ x ∈ later, For i r x)
    (hp : r.con.inPaks = (if put then [pak] else []) ++ later.map Prod.fst)

/-- Connection `i` was created with the id `k`, and its Initial packet, if any, was sent to it. -/
def Known (s : Ep Q) (k : ConnectionId) (i : Nat) : Prop :=
  ∃ r, s.cons[i]? = some r ∧ r.scid = k ∧ (r.origin.isSome → s.fatesOf i ≠ [])

/-- What every step keeps (module doc). -/
structure Routing (s : Ep Q) : Prop where
  flow : s.fates.map Prod.fst ++ s.pc.pak?.toList ++ s.inbound = s.yielded
  map : ∀ k i, s.conMap.lookup k = some i → s.Known k i
  route : ∀ i dcid pak, s.pc = .route i dcid pak → s.conMap.lookup dcid = some i ∧
    ∃ hdr, Q.headerFromSlice pak.data 16 = .ok hdr ∧ hdr.dcid = dcid
  accept : ∀ i scid pak, (s.pc = .accepted i scid pak ∨ s.pc = .acceptSend i scid pak) →
    s.fatesOf i = [] ∧ ∃ r hdr, s.cons[i]? = some r ∧ r.scid = scid ∧ r.origin = some (pak, hdr) ∧
      Q.headerFromSlice pak.data 16 = .ok hdr ∧ hdr.ty = .initial
  connect : ∀ i scid rsp, s.pc = .newCon i scid rsp →
    ∃ r, s.cons[i]? = some r ∧ r.scid = scid ∧ r.origin = none
  sent : ∀ (i : Nat) r, s.cons[i]? = some r → s.Sent i r
  new : ∀ i, s.cons.length ≤ i → s.fatesOf i = []

variable {s s' : Ep Q}

/-! ## The fates after a step -/

theorem fates_append {l : List EpObs} (h : s'.trace = s.trace ++ l) :
    s'.fates = s.fates ++ l.filterMap (·.fate?) := by
  unfold fates; rw [h, List.filterMap_append]

theorem fates_frame (h : Frame s s') : s'.fates = s.fates := h.filterMap_trace fun _ => rfl

theorem fatesOf_append {l : List (UdpPak × Fate)} (h : s'.fates = s.fates ++ l) (i : Nat) :
    s'.fatesOf i = s.fatesOf i ++ l.filter (·.2.con? = some i) := by
  unfold fatesOf; rw [h, List.filter_append]

theorem fatesOf_none {o : EpObs} (h : s'.trace = s.trace ++ [o]) (ho : o.fate? = none) (i : Nat) :
    s'.fatesOf i = s.fatesOf i := by
  rw [fatesOf_append (fates_append h), List.filterMap_cons_none ho]
  exact List.append_nil _

/-- What is done with a packet on the channel of connection `j`. -/
theorem fatesOf_fate {pak : UdpPak} {fate : Fate} {j : Nat}
    (h : s'.trace = s.trace ++ [.fate pak fate]) (hj : fate.con? = some j) (i : Nat) :
    s'.fatesOf i = s.fatesOf i ++ if i = j then [(pak, fate)] else [] := by
  rw [fatesOf_append (fates_append h)]
  show _ ++ [(pak, fate)].filter _ = _
  by_cases hi : i = j
  · simp [hi, hj]
  · simp [hi, hj, Ne.symm hi]

/-- What is done with a packet of no connection. -/
theorem fatesOf_dropped {pak : UdpPak} {fate : Fate} (h : s'.trace = s.trace ++ [.fate pak fate])
    (hn : fate.con? = none) (i : Nat) : s'.fatesOf i = s.fatesOf i := by
  rw [fatesOf_append (fates_append h)]
  show _ ++ [(pak, fate)].filter _ = _
  simp [hn]

/-- A step of `ep_task`, as far as packets are concerned: `l` are the packets it is done with. -/
structure Handled (s s' : Ep Q) (l : List (UdpPak × Fate)) : Prop where
  fates : s'.fates = s.fates ++ l
  yielded : s'.yielded = s.yielded
  flow : l.map Prod.fst ++ s'.pc.pak?.toList ++ s'.inbound = s.pc.pak?.toList ++ s.inbound
  length : l.length ≤ 1
  reason : ∀ x ∈ l, s.pc.Done x.1 x.2 ∧ s.Reason x.1 x.2

/-- A step that is not about a packet. -/
theorem Handled.none {l : List EpObs} (ht : s'.trace = s.trace ++ l)
    (hl : ∀ o ∈ l, o.fate? = .none ∧ o.pak? = .none)
    (hf : s'.pc.pak?.toList ++ s'.inbound = s.pc.pak?.toList ++ s.inbound) : Handled s s' [] := by
  refine ⟨?_, ?_, hf, Nat.zero_le 1, nofun⟩
  · rw [fates_append ht, List.filterMap_eq_nil_iff.mpr fun o ho => (hl o ho).1]
  · unfold Ep.yielded
    rw [ht, List.filterMap_append, List.filterMap_eq_nil_iff.mpr fun o ho => (hl o ho).2,
      List.append_nil]

/-- The packet in hand is done with. -/
theorem Handled.one {pak : UdpPak} {f : Fate} (ht : s'.trace = s.trace ++ [.fate pak f])
    (hp : s.pc.Done pak f) (hp' : s'.pc.pak? = .none) (hi : s'.inbound = s.inbound)
    (hr : s.Reason pak f) : Handled s s' [(pak, f)] := by
  refine ⟨fates_append ht, ?_, by rw [hp.pak?, hp', hi]; rfl, Nat.le_refl 1, fun x hx => ?_⟩
  · unfold Ep.yielded
    rw [ht, List.filterMap_append]
    exact List.append_nil _
  · rw [List.mem_singleton.mp hx]; exact ⟨hp, hr⟩

/-! ## The connections after a step -/

/-- The connections and the map of connections stay known. -/
theorem cons_keep (h : TaskStep s s') {i : Nat} {r : EpCon Q} (hr : s.cons[i]? = some r) :
    ∃ c, s'.cons[i]? = some { r with con := c } := by
  rcases cons_task h with ⟨new, hn⟩ | hm
  · refine ⟨r.con, ?_⟩
    rw [hn.cons, List.getElem?_append_left (List.getElem?_eq_some_iff.mp hr).1]
    exact hr
  · obtain ⟨c, hc, -⟩ := hm.con i r hr; exact ⟨c, hc⟩

/-- The packets on the channel of a connection that moves quietly. -/
theorem inPaks_quietly {l l' : List (EpCon Q)} (h : Moves Quietly l l') :
    Moves (fun _ c c' => c'.inPaks = c.inPaks) l l' :=
  h.mono fun _ _ _ h => (Con.quiet_steps h).2.1

theorem inPaks_acquired {i : Nat} {r : EpCon Q} {c : Con Q} (hr : s.cons[i]? = some r)
    (hc : r.con.tryAcquire = some c) :
    Moves (fun _ c c' => c'.inPaks = c.inPaks) s.cons (s.modCon i fun _ => c).cons := by
  have hm := moves_modCon s i fun _ => c
  refine ⟨hm.length, fun j r' hr' => ?_⟩
  obtain ⟨c', hc', he⟩ := hm.con j r' hr'
  refine ⟨c', hc', ?_⟩
  rw [he]
  split
  · next hj =>
    subst hj
    rw [hr] at hr'
    cases hr'
    rw [(Con.tryAcquire_spec hc).2.2]
    rfl
  · rfl

theorem inPaks_sent {i : Nat} {r : EpCon Q} {c : Con Q} {pak : UdpPak} {ok : Bool}
    (hr : s.cons[i]? = some r) (hs : r.con.sendInPak pak = some (c, ok)) :
    Moves (fun j c c' => c'.inPaks = c.inPaks ++ if j = i ∧ ok then [pak] else []) s.cons
      (s.modCon i fun _ => c).cons := by
  have hm := moves_modCon s i fun _ => c
  refine ⟨hm.length, fun j r' hr' => ?_⟩
  obtain ⟨c', hc', he⟩ := hm.con j r' hr'
  refine ⟨c', hc', ?_⟩
  rw [he]
  by_cases hj : j = i
  · subst hj
    rw [hr] at hr'
    cases hr'
    rw [if_pos rfl, (Con.sendInPak_spec hs).2.2.1]
    simp
  · simp [hj]

/-- The packets that the step put on the channel of connection `i` are those delivered to it. -/
theorem Sent.next {i : Nat} {r : EpCon Q} {c : Con Q} {l : List (UdpPak × Fate)} (h : s.Sent i r)
    (hf : s'.fatesOf i = s.fatesOf i ++ l) (hl : ∀ x ∈ l, For i r x)
    (hc : c.inPaks = r.con.inPaks ++ l.map Prod.fst)
    (hn : ∀ pak, s.pc.pak? = some pak ∧ localCon s.pc = some i →
      l = [] ∧ s'.pc.pak? = some pak ∧ localCon s'.pc = some i) :
    s'.Sent i { r with con := c } := by
  have hmem : ∀ later : List (UdpPak × Fate), (∀ x ∈ later, For i r x) →
      ∀ x ∈ later ++ l, For i { r with con := c } x := fun later hl' x hx =>
    (List.mem_append.mp hx).elim (hl' x) (hl x)
  cases h with
  | @connected later ho ha hl' hp =>
    exact .connected ho (by rw [hf, ha]) (hmem later hl') (by rw [List.map_append, ← hp]; exact hc)
  | accepting ho hh ha hp =>
    obtain ⟨rfl, hh'⟩ := hn _ hh
    exact .accepting ho hh' (by rw [hf, ha]; rfl) (by rw [show c.inPaks = _ from hc, hp]; rfl)
  | @accepted pak hdr put later ho ha hl' hp =>
    refine .accepted ho (by rw [hf, ha]; rfl) (hmem later hl') ?_
    rw [List.map_append, ← List.append_assoc, ← hp]
    exact hc

/-! ## `ep_task` -/

/-- A packet that is dropped leaves the connections alone. -/
theorem Dropped.con? {pak : UdpPak} {fate : Fate} (h : s.Dropped pak fate) : fate.con? = none := by
  cases fate <;> first | rfl | cases h

theorem reason_dropped {pak : UdpPak} {fate : Fate} (h : Control s) (hs : s.pc.sends = none)
    (hd : s.Dropped pak fate) : s.Reason pak fate := by
  cases fate with
  | malformed | noRoute => exact hd
  | noPermit i =>
    obtain ⟨hdr, r, hh, hl, hr, hn⟩ := hd
    refine ⟨hdr, r, hh, hl, hr, (Con.tryAcquire_eq_none hn).resolve_left fun hg => ?_⟩
    exact nomatch hs.symm.trans ((h.guard i r hr).mp hg)
  | _ => cases hd

/-- What a step of `ep_task` does with the packet in its hand, and why. -/
theorem handled_task (h : Control s) (hr : Routing s)
    (hrx : ∀ (i : Nat) r, s.cons[i]? = some r → r.con.cmd.rx = !r.con.pc.over)
    (ht : TaskStep s s') : ∃ l, Handled s s' l := by
  cases ht with
  | @take cmd g rest hpc hq =>
    refine ⟨[], .none (l := [.take cmd]) rfl (List.forall_mem_singleton.mpr ⟨rfl, rfl⟩) ?_⟩
    rw [hpc]
    unfold inbound
    rw [hq, List.filterMap_cons]
    show cmd.pak?.toList ++ (rest.filterMap _ ++ _) = _
    dsimp only
    cases cmd.pak? <;> rfl
  | reserved hpc | reserve hpc =>
    exact ⟨[], .none (l := []) (List.append_nil _).symm nofun (by rw [hpc]; rfl)⟩
  | streamEnd hpc =>
    exact ⟨[], .none (l := [.streamEnd]) rfl (List.forall_mem_singleton.mpr ⟨rfl, rfl⟩)
      (by rw [hpc]; rfl)⟩
  | streamErr hpc | noInCon hpc =>
    exact ⟨[], .none (l := []) (List.append_nil _).symm nofun (by rw [hpc]; rfl)⟩
  | drop hpc hd =>
    exact ⟨_, .one rfl (by rw [hpc]; exact ⟨rfl, hd.con?⟩) rfl rfl
      (reason_dropped h (by rw [hpc]; rfl) hd)⟩
  | refuse hpc hh hl ht ha =>
    exact ⟨_, .one rfl (by rw [hpc]; exact ⟨rfl, rfl⟩) rfl rfl
      ⟨_, _, hh, hl, ht, congrArg Prod.snd ha⟩⟩
  | accept hpc | route hpc | permit hpc | spawnNew hpc =>
    exact ⟨[], .none (l := []) (List.append_nil _).symm nofun (by rw [hpc]; rfl)⟩
  | @deliver i dcid pak r c hpc hri hs =>
    obtain ⟨hl, hdr, hh, rfl⟩ := hr.route i dcid pak hpc
    have hx := (Con.sendInPak_spec hs).1.trans (hrx i r hri)
    exact ⟨_, .one rfl (by rw [hpc]; exact ⟨rfl, .inl rfl⟩) rfl rfl
      ⟨hdr, r, hh, hl, hri, by simpa using hx⟩⟩
  | @conEnded i dcid pak r c hpc hri hs =>
    obtain ⟨hl, hdr, hh, rfl⟩ := hr.route i dcid pak hpc
    have hx := (Con.sendInPak_spec hs).1.trans (hrx i r hri)
    exact ⟨_, .one rfl (by rw [hpc]; exact ⟨rfl, .inr rfl⟩) rfl rfl
      ⟨hdr, r, hh, hl, hri, by simpa using hx⟩⟩
  | @put i scid pak r c ok hpc hri hs =>
    obtain ⟨-, r', hdr, hr', -, ho, hh, ht⟩ := hr.accept i scid pak (.inr hpc)
    rw [hri] at hr'
    cases hr'
    have hx := (Con.sendInPak_spec hs).1.trans (hrx i r hri)
    have he := insertCon_eq ((s.modCon i fun _ => c).log (.fate pak (.created i ok))) scid i
    refine ⟨_, .one (f := .created i ok) ?_ (by rw [hpc]; exact ⟨rfl, ok, rfl⟩) rfl ?_
      ⟨hdr, r, hh, ht, hri, ho, hx⟩⟩
    · rw [he]; rfl
    · rw [he]; rfl
  | @inCon i g hpc =>
    exact ⟨[], .none (l := [.inCon i]) rfl (List.forall_mem_singleton.mpr ⟨rfl, rfl⟩)
      (by rw [hpc]; rfl)⟩
  | @refuseNew addr rsp config err hpc =>
    have he := answer_eq { s with cid := s.cid.cid.2, config } rsp (.error (.quiche err))
    refine ⟨[], .none (l := [.newCon rsp (.error err)]) ?_
      (List.forall_mem_singleton.mpr ⟨rfl, rfl⟩) ?_⟩
    · rw [he]; rfl
    · rw [he, hpc]; rfl
  | @answerNew i scid rsp hpc =>
    have he := answer_eq (s.insertCon scid i) rsp (.ok i)
    have hi := insertCon_eq s scid i
    unfold answerNewCon
    refine ⟨[], .none (l := [.newCon rsp (.ok i)]) ?_ (List.forall_mem_singleton.mpr ⟨rfl, rfl⟩) ?_⟩
    · rw [he, hi]; rfl
    · rw [he, hi, hpc]; rfl

/-- A step that puts no packet on a channel. -/
theorem sent_still {i : Nat} {r' : EpCon Q} (hs : ∀ (i : Nat) r, s.cons[i]? = some r → s.Sent i r)
    (hm : Moves (fun _ c c' => c'.inPaks = c.inPaks) s.cons s'.cons)
    (hf : ∀ i, s'.fatesOf i = s.fatesOf i)
    (hn : ∀ i pak, s.pc.pak? = some pak ∧ localCon s.pc = some i →
      s'.pc.pak? = some pak ∧ localCon s'.pc = some i)
    (hi : s'.cons[i]? = some r') : s'.Sent i r' := by
  obtain ⟨r, hr, he, hp⟩ := hm.back hi
  rw [he]
  exact (hs i r hr).next (l := []) (by rw [hf, List.append_nil]) nofun
    (by rw [hp, List.map_nil, List.append_nil]) fun pak h => ⟨rfl, hn i pak h⟩

/-- The same, where `ep_task` has no connection in its hand. -/
theorem sent_idle {i : Nat} {r' : EpCon Q} (hr : Routing s)
    (hm : Moves (fun _ c c' => c'.inPaks = c.inPaks) s.cons s'.cons)
    (hf : ∀ i, s'.fatesOf i = s.fatesOf i) (hpc : localCon s.pc = none)
    (hi : s'.cons[i]? = some r') : s'.Sent i r' :=
  sent_still hr.sent hm hf (fun _ _ h => nomatch hpc.symm.trans h.2) hi

/-- A step that creates a connection. -/
theorem sent_spawn (hr : Routing s) (hpc : localCon s.pc = none) {cid : CidGen} {config : Q.Config}
    {pc : EpPc} {new : EpCon Q} (hn : Ep.Sent { s with cid, config, cons := s.cons ++ [new], pc }
      s.cons.length new) {i : Nat} {r : EpCon Q} (hi : (s.cons ++ [new])[i]? = some r) :
    Ep.Sent { s with cid, config, cons := s.cons ++ [new], pc } i r := by
  rcases List.getElem?_concat_cases hi with hi | ⟨rfl, rfl⟩
  · exact (hr.sent i r hi).next (l := []) (List.append_nil _).symm nofun (List.append_nil _).symm
      fun pak h => nomatch hpc.symm.trans h.2
  · exact hn

/-- The packet was put on the channel of connection `i`. -/
theorem sent_deliver {i : Nat} {dcid : ConnectionId} {pak : UdpPak} {r : EpCon Q} {c : Con Q}
    (hr : Routing s) (hpc : s.pc = .route i dcid pak) (hi : s.cons[i]? = some r)
    (hs : r.con.sendInPak pak = some (c, true)) {j : Nat} {r' : EpCon Q}
    (hj : (s.modCon i fun _ => c).cons[j]? = some r') :
    Ep.Sent ((s.modCon i fun _ => c).log (.fate pak (.delivered i))).nextCmd j r' := by
  obtain ⟨hl, hdr, hh, hd⟩ := hr.route i dcid pak hpc
  obtain ⟨r₀, hr₀, he, hp⟩ := (inPaks_sent hi hs).back hj
  rw [he]
  have hfa : ∀ k, Ep.fatesOf ((s.modCon i fun _ => c).log (.fate pak (.delivered i))).nextCmd k =
      s.fatesOf k ++ if k = i then [(pak, .delivered i)] else [] := fatesOf_fate rfl rfl
  have hn : ∀ p, s.pc.pak? = some p ∧ localCon s.pc = some j → False := fun p h => by
    rw [hpc] at h; exact nomatch h.2
  by_cases hji : j = i
  · subst hji
    obtain ⟨r₁, hr₁, hsc, -⟩ := hr.map dcid j hl
    rw [hr₁] at hr₀
    cases hr₀
    refine (hr.sent j r₀ hr₁).next (l := [(pak, .delivered j)]) ?_ (fun x hx => ?_) ?_
      fun p h => (hn p h).elim
    · rw [hfa j, if_pos rfl]
    · rw [List.mem_singleton.mp hx]
      exact ⟨rfl, hdr, hh, hd.trans hsc.symm⟩
    · rw [hp, if_pos ⟨rfl, rfl⟩]; rfl
  · refine (hr.sent j r₀ hr₀).next (l := []) ?_ nofun ?_ fun p h => (hn p h).elim
    · rw [hfa j, if_neg hji]
    · rw [hp, if_neg fun h => hji h.1]; rfl

/-- The Initial packet was sent to the connection it was accepted for. -/
theorem sent_put {i : Nat} {scid : ConnectionId} {pak : UdpPak} (hr : Routing s)
    (hpc : s.pc = .acceptSend i scid pak) (ok : Bool) {j : Nat} {r' : EpCon Q}
    (hf : ∀ k, s'.fatesOf k = s.fatesOf k ++ if k = i then [(pak, .created i ok)] else [])
    (hm : Moves (fun j c c' => c'.inPaks = c.inPaks ++ if j = i ∧ ok then [pak] else []) s.cons
      s'.cons) (hj : s'.cons[j]? = some r') : s'.Sent j r' := by
  obtain ⟨r₀, hr₀, he, hp⟩ := hm.back hj
  rw [he]
  by_cases hji : j = i
  · subst hji
    obtain ⟨hnf, r₁, hdr, hr₁, -, ho, -⟩ := hr.accept j scid pak (.inr hpc)
    rw [hr₁] at hr₀
    cases hr₀
    have hnone : r₀.con.inPaks = [] := by
      cases hr.sent j r₀ hr₁ with
      | connected ho' => rw [ho] at ho'; cases ho'
      | accepting _ _ _ hp => exact hp
      | accepted _ ha => rw [hnf] at ha; cases ha
    refine @Sent.accepted _ _ _ _ _ _ ok [] ho ?_ nofun ?_
    · rw [hf j, hnf, if_pos rfl]; rfl
    · rw [show r'.con.inPaks = _ from hp, hnone]; simp
  · refine (hr.sent j r₀ hr₀).next (l := []) (by rw [hf j, if_neg hji]) nofun ?_ fun p h => ?_
    · rw [hp, if_neg fun h => hji h.1]; rfl
    · rw [hpc] at h; exact absurd (Option.some.inj h.2).symm hji

/-- The packets on the channels after a step of `ep_task`. -/
theorem sent_task (hr : Routing s) (ht : TaskStep s s') {j : Nat} {r' : EpCon Q}
    (hj : s'.cons[j]? = some r') : s'.Sent j r' := by
  have hq : ∀ {l : List (EpCon Q)}, Moves Quietly s.cons l →
      Moves (fun _ c c' => c'.inPaks = c.inPaks) s.cons l := inPaks_quietly
  cases ht with
  | take hpc =>
    exact sent_idle hr (hq (quietly_refl s)) (fatesOf_none (o := .take _) rfl rfl)
      (by rw [hpc]; rfl) hj
  | reserved hpc | reserve hpc | streamErr hpc =>
    exact sent_idle hr (hq (quietly_refl s)) (fun _ => rfl) (by rw [hpc]; rfl) hj
  | streamEnd hpc =>
    exact sent_idle hr (hq (quietly_refl s)) (fatesOf_none (o := .streamEnd) rfl rfl)
      (by rw [hpc]; rfl) hj
  | drop hpc hd =>
    exact sent_idle hr (hq (quietly_refl s)) (fatesOf_dropped rfl hd.con?) (by rw [hpc]; rfl) hj
  | refuse hpc =>
    exact sent_idle hr (hq (quietly_refl s)) (fatesOf_dropped rfl rfl) (by rw [hpc]; rfl) hj
  | accept hpc hh hl ht ha hc =>
    refine sent_spawn hr (by rw [hpc]; rfl) (.accepting rfl ⟨rfl, rfl⟩ ?_ ?_) hj
    · exact hr.new _ (Nat.le_refl _)
    · exact (Con.quicheCon_spec hc).2.2.2.1
  | spawnNew hpc ha hc =>
    refine sent_spawn hr (by rw [hpc]; rfl) (@Sent.connected _ _ _ _ [] rfl ?_ nofun ?_) hj
    · exact hr.new _ (Nat.le_refl _)
    · exact (Con.quicheCon_spec hc).2.2.2.1
  | route hpc _ _ hi hc =>
    exact sent_idle hr (inPaks_acquired hi hc) (fun _ => rfl) (by rw [hpc]; rfl) hj
  | permit hpc hi hc =>
    exact sent_still hr.sent (inPaks_acquired hi hc) (fun _ => rfl)
      (fun i pak h => by rw [hpc] at h; exact h) hj
  | deliver hpc hi hs => exact sent_deliver hr hpc hi hs hj
  | @conEnded i dcid pak r c hpc hi hs =>
    have hu : Moves Quietly (s.modCon i fun _ => c).cons
        ((s.modCon i fun _ => c).modCon i Con.unmap).cons :=
      quietly_modCon fun c => .one (a := .unmap) rfl rfl
    refine sent_idle hr ?_ (fatesOf_dropped rfl rfl) (by rw [hpc]; rfl) hj
    refine ⟨hu.length.trans (inPaks_sent hi hs).length, fun j r hr => ?_⟩
    obtain ⟨c₁, hc₁, h₁⟩ := (inPaks_sent hi hs).con j r hr
    obtain ⟨c₂, hc₂, h₂⟩ := (inPaks_quietly hu).con j _ hc₁
    exact ⟨c₂, hc₂, by rw [h₂, h₁]; simp⟩
  | @put i scid pak r c ok hpc hi hs =>
    have hins := quietly_insertCon ((s.modCon i fun _ => c).log (.fate pak (.created i ok))) scid i
    have he := insertCon_eq ((s.modCon i fun _ => c).log (.fate pak (.created i ok))) scid i
    refine sent_put hr hpc ok (fun k => ?_) ?_ hj
    · rw [he]
      exact fatesOf_fate (s := s) rfl rfl k
    · refine ⟨hins.length.trans (inPaks_sent hi hs).length, fun j r hr => ?_⟩
      obtain ⟨c₁, hc₁, h₁⟩ := (inPaks_sent hi hs).con j r hr
      obtain ⟨c₂, hc₂, h₂⟩ := (inPaks_quietly hins).con j _ hc₁
      exact ⟨c₂, hc₂, by rw [h₂]; exact h₁⟩
  | inCon hpc =>
    exact sent_still hr.sent (hq (quietly_refl s)) (fatesOf_none (o := .inCon _) rfl rfl)
      (fun i pak h => by rw [hpc] at h; cases h.1) hj
  | noInCon hpc =>
    exact sent_still hr.sent (hq (quietly_dropCons s _)) (fun _ => rfl)
      (fun i pak h => by rw [hpc] at h; cases h.1) hj
  | @refuseNew addr rsp config err hpc =>
    have hm := quietly_answer { s with cid := s.cid.cid.2, config } rsp (.error (.quiche err))
    have he := answer_eq { s with cid := s.cid.cid.2, config } rsp (.error (.quiche err))
    refine sent_idle hr (hq hm) (fun i => ?_) (by rw [hpc]; rfl) hj
    rw [he]
    exact fatesOf_none (o := .newCon rsp (.error err)) rfl rfl i
  | @answerNew i scid rsp hpc =>
    have hm := (quietly_insertCon s scid i).trans_runs (quietly_answer _ rsp (.ok i))
    have he := answer_eq (s.insertCon scid i) rsp (.ok i)
    have hi := insertCon_eq s scid i
    refine sent_still hr.sent (hq hm) (fun i => ?_) (fun i pak h => by rw [hpc] at h; cases h.1) hj
    unfold answerNewCon
    rw [he, hi]
    exact fatesOf_none (o := .newCon rsp (.ok _)) rfl rfl i

/-- What a step of `ep_task` keeps, but for the map and the place it leads to. -/
theorem routing_next {l : List (UdpPak × Fate)} (hr : Routing s) (ht : TaskStep s s')
    (hh : Handled s s' l)
    (hmap : ∀ k i, s'.conMap.lookup k = some i → s.conMap.lookup k = some i ∨ s'.Known k i)
    (hroute : ∀ i dcid pak, s'.pc = .route i dcid pak → s'.conMap.lookup dcid = some i ∧
      ∃ hdr, Q.headerFromSlice pak.data 16 = .ok hdr ∧ hdr.dcid = dcid)
    (haccept : ∀ i scid pak, (s'.pc = .accepted i scid pak ∨ s'.pc = .acceptSend i scid pak) →
      s'.fatesOf i = [] ∧ ∃ r hdr, s'.cons[i]? = some r ∧ r.scid = scid ∧
        r.origin = some (pak, hdr) ∧ Q.headerFromSlice pak.data 16 = .ok hdr ∧ hdr.ty = .initial)
    (hconnect : ∀ i scid rsp, s'.pc = .newCon i scid rsp →
      ∃ r, s'.cons[i]? = some r ∧ r.scid = scid ∧ r.origin = none) : Routing s' := by
  have hfo := fatesOf_append hh.fates
  refine ⟨?_, fun k i hk => ?_, hroute, haccept, hconnect, fun i r => sent_task hr ht, fun i hi => ?_⟩
  · rw [hh.fates, hh.yielded, ← hr.flow, List.map_append, List.append_assoc, List.append_assoc,
      List.append_assoc, ← hh.flow, List.append_assoc]
  · rcases hmap k i hk with hk | h
    · obtain ⟨r, hri, hs, ho⟩ := hr.map k i hk
      obtain ⟨c, hc⟩ := cons_keep ht hri
      refine ⟨_, hc, hs, fun h => ?_⟩
      rw [hfo]
      exact fun hn => ho h (List.append_eq_nil_iff.mp hn).1
    · exact h
  · have hlen : s.cons.length ≤ s'.cons.length := by
      refine Nat.le_of_not_lt fun hlt => ?_
      obtain ⟨c, hc⟩ := cons_keep ht (List.getElem?_eq_getElem hlt)
      exact absurd (List.getElem?_eq_some_iff.mp hc).1 (Nat.lt_irrefl _)
    rw [hfo, hr.new i (Nat.le_trans hlen hi), List.nil_append, List.filter_eq_nil_iff]
    rintro ⟨pak, fate⟩ hx hci
    obtain ⟨-, hre⟩ := hh.reason _ hx
    have hci : fate.con? = some i := by simpa using hci
    have hlt : i < s.cons.length := by
      cases fate <;> first | cases hci; done | skip
      all_goals
        cases hci
        obtain ⟨_, r, h⟩ := hre
      · exact (List.getElem?_eq_some_iff.mp h.2.2.1).1
      · exact (List.getElem?_eq_some_iff.mp h.2.2.1).1
    omega

/-- A step to a place where `ep_task` is busy with no connection. -/
theorem routing_idle {l : List (UdpPak × Fate)} (hr : Routing s) (ht : TaskStep s s')
    (hh : Handled s s' l) (hp : s'.pc.holdsCon = false)
    (hmap : ∀ k i, s'.conMap.lookup k = some i → s.conMap.lookup k = some i ∨ s'.Known k i) :
    Routing s' := by
  refine routing_next hr ht hh hmap (fun i dcid pak h => ?_) (fun i scid pak h => ?_)
    fun i scid rsp h => ?_
  · rw [h] at hp; cases hp
  · rcases h with h | h <;> (rw [h] at hp; cases hp)
  · rw [h] at hp; cases hp

/-- Connection `i`, whose id is put into the map. -/
theorem map_insert {m : HashMap ConnectionId Nat} {scid : ConnectionId} {i : Nat}
    {P : ConnectionId → Nat → Prop} (h : P scid i) {k : ConnectionId} {j : Nat}
    (hk : (m.insert scid i).lookup k = some j) : m.lookup k = some j ∨ P k j := by
  by_cases hks : k = scid
  · subst hks
    rw [AList.lookup_insert] at hk
    cases hk
    exact .inr h
  · rw [AList.lookup_insert_ne hks] at hk
    exact .inl hk

/-- The steps of `ep_task`. -/
theorem routing_task (h : Control s) (hr : Routing s)
    (hrx : ∀ (i : Nat) r, s.cons[i]? = some r → r.con.cmd.rx = !r.con.pc.over)
    (ht : TaskStep s s') : Routing s' := by
  obtain ⟨l, hh⟩ := handled_task h hr hrx ht
  have hnext := routing_next hr ht hh
  have hidle := routing_idle hr ht hh
  cases ht with
  | accept hpc hp hl ht ha hc =>
    refine hnext (fun _ _ => .inl) (fun _ _ _ h => (nomatch h)) (fun i scid pak hi => ?_)
      (fun _ _ _ h => (nomatch h))
    rcases hi with hi | hi
    · cases hi
      exact ⟨hr.new _ (Nat.le_refl _), _, _, List.getElem?_concat_length, rfl, rfl, hp, ht⟩
    · cases hi
  | spawnNew =>
    refine hnext (fun _ _ => .inl) (fun _ _ _ h => (nomatch h))
      (fun _ _ _ h => h.elim (fun h => (nomatch h)) (fun h => (nomatch h))) (fun i scid rsp hi => ?_)
    cases hi
    exact ⟨_, List.getElem?_concat_length, rfl, rfl⟩
  | route hpc hp hl hi hc =>
    refine hnext (fun _ _ => .inl) (fun i dcid pak hi => ?_)
      (fun _ _ _ h => h.elim (fun h => (nomatch h)) (fun h => (nomatch h))) (fun _ _ _ h => (nomatch h))
    cases hi
    exact ⟨hl, _, hp, rfl⟩
  | permit hpc hi hc =>
    refine hnext (fun _ _ => .inl) (fun _ _ _ h => (nomatch h)) (fun j scid pak hj => ?_)
      (fun _ _ _ h => (nomatch h))
    rcases hj with hj | hj
    · cases hj
    · cases hj
      obtain ⟨hf, r', hdr, hr', hs, ho, hp⟩ := hr.accept _ _ _ (.inl hpc)
      obtain ⟨c', hc', -⟩ := (inPaks_acquired hi hc).con _ _ hr'
      exact ⟨hf, _, hdr, hc', hs, ho, hp⟩
  | @conEnded i dcid pak r c hpc =>
    refine hidle rfl fun k j hk => .inl ?_
    have hk : (s.conMap.erase dcid).lookup k = some j := hk
    by_cases hkd : k = dcid
    · subst hkd; rw [AList.lookup_erase] at hk; cases hk
    · rwa [AList.lookup_erase_ne hkd] at hk
  | @put i scid pak r c ok hpc hi hs =>
    have he := insertCon_eq ((s.modCon i fun _ => c).log (.fate pak (.created i ok))) scid i
    obtain ⟨-, r', hdr, hr', hsc, ho, -⟩ := hr.accept i scid pak (.inr hpc)
    refine hidle (by rw [he]; rfl) fun k j hk => ?_
    rw [he] at hk
    refine map_insert (P := Known _) ?_ hk
    obtain ⟨c', hc'⟩ := cons_keep (TaskStep.put hpc hi hs) hr'
    refine ⟨_, hc', hsc, fun _ hn => ?_⟩
    rw [he] at hn
    have hne : s.fatesOf i ++ [(pak, Fate.created i ok)] = [] :=
      ((fatesOf_fate rfl rfl i).trans (congrArg _ (if_pos rfl))).symm.trans hn
    exact List.append_ne_nil_of_right_ne_nil _ (List.cons_ne_nil _ _) hne
  | @answerNew i scid rsp hpc =>
    have he := answer_eq (s.insertCon scid i) rsp (.ok i)
    have hi := insertCon_eq s scid i
    obtain ⟨r, hr', hsc, ho⟩ := hr.connect i scid rsp hpc
    refine hidle rfl fun k j hk => ?_
    have hk : ((s.insertCon scid i).answer rsp (.ok i)).conMap.lookup k = some j := hk
    rw [he, hi] at hk
    refine map_insert (P := Known _) ?_ hk
    obtain ⟨c', hc'⟩ := cons_keep (TaskStep.answerNew hpc) hr'
    exact ⟨_, hc', hsc, fun hs => by rw [show _ = none from ho] at hs; cases hs⟩
  | @refuseNew addr rsp config err hpc =>
    have he := answer_eq { s with cid := s.cid.cid.2, config } rsp (.error (.quiche err))
    refine hidle rfl fun k j hk => .inl ?_
    have hk : (Ep.answer { s with cid := s.cid.cid.2, config } rsp
      (.error (.quiche err))).conMap.lookup k = some j := hk
    rw [he] at hk
    exact hk
  | _ => exact hidle rfl fun _ _ => .inl

/-! ## The other parties -/

theorem routing_frame (hr : Routing s) (hf : Frame s s') : Routing s' := by
  obtain ⟨p, hp, hi⟩ := hf.flow
  have hfates := fates_frame hf
  have hfo : ∀ i, s'.fatesOf i = s.fatesOf i := fun i => by unfold fatesOf; rw [hfates]
  have hm : Moves (fun _ c c' => c'.inPaks = c.inPaks) s.cons s'.cons :=
    hf.cons.mono fun _ _ _ h => (Con.quiet_steps h.quiet).2.1
  refine ⟨?_, fun k i hk => ?_, ?_, fun i scid pak hi => ?_, fun i scid rsp hi => ?_, fun i r hi => ?_,
    fun i hi => ?_⟩
  · rw [hfates, hf.pc, hi, hp, ← hr.flow]
    simp only [List.append_assoc]
  · rw [hf.conMap] at hk
    obtain ⟨r, hri, hs, ho⟩ := hr.map k i hk
    obtain ⟨c, hc, -⟩ := hm.con i r hri
    exact ⟨_, hc, hs, by rw [hfo]; exact ho⟩
  · rw [hf.pc, hf.conMap]; exact hr.route
  · rw [hf.pc] at hi
    obtain ⟨hn, r, hdr, hri, h⟩ := hr.accept i scid pak hi
    obtain ⟨c, hc, -⟩ := hm.con i r hri
    exact ⟨(hfo i).trans hn, _, hdr, hc, h⟩
  · rw [hf.pc] at hi
    obtain ⟨r, hri, h⟩ := hr.connect i scid rsp hi
    obtain ⟨c, hc, -⟩ := hm.con i r hri
    exact ⟨_, hc, h⟩
  · exact sent_still hr.sent hm hfo (fun i pak h => by rw [hf.pc]; exact h) hi
  · rw [hfo]; exact hr.new i (hm.length ▸ hi)

theorem routing_init (h : (sys Q).init s) : Routing s := by
  obtain ⟨n, config, h3Config, rfl⟩ := h
  exact ⟨rfl, fun k i hk => (nomatch hk), fun _ _ _ h => (nomatch h),
    fun _ _ _ h => h.elim (fun h => (nomatch h)) (fun h => (nomatch h)), fun _ _ _ h => (nomatch h),
    fun i r hr => (nomatch hr), fun _ _ => rfl⟩

theorem cons_rx (h : (sys Q).Reach s) (i : Nat) (r : EpCon Q) (hr : s.cons[i]? = some r) :
    r.con.cmd.rx = !r.con.pc.over := (Con.sys_control (cons_reach h hr)).rx

theorem sys_routing (h : (sys Q).Reach s) : Routing s :=
  h.invariant (fun _ => routing_init) fun a s s' hr hi hs => by
    rcases reach_cases hr hs with ⟨-, ht⟩ | ⟨-, hf⟩
    · exact routing_task (sys_control hr) hi (cons_rx hr) ht
    · exact routing_frame hi hf

/-! ## The whole run -/

/-- The places, in the stream, of the packets on the command channel of connection `i`. -/
def places (s : Ep Q) (i : Nat) : List Nat :=
  (List.range s.fates.length).filter fun n => s.fates[n]?.any (·.2.putOn i)

/-- The packets on a channel are those whose fate says so. -/
theorem Sent.inPaks_eq {i : Nat} {r : EpCon Q} (h : s.Sent i r) :
    r.con.inPaks = (s.fates.filter (·.2.putOn i)).map Prod.fst := by
  have hf : s.fates.filter (·.2.putOn i) = (s.fatesOf i).filter (·.2.putOn i) := by
    unfold fatesOf
    rw [List.filter_filter]
    refine List.filter_congr fun x _ => ?_
    by_cases hx : x.2.putOn i
    · simp [hx, Fate.con?_of_putOn hx]
    · simp [hx]
  have hlater : ∀ later : List (UdpPak × Fate), (∀ x ∈ later, For i r x) →
      later.filter (·.2.putOn i) = later := fun later hl =>
    List.filter_eq_self.mpr fun x hx => by rw [(hl x hx).1]; simp [Fate.putOn]
  cases h with
  | connected ho ha hl hp => rw [hf, ha, hlater _ hl, hp]
  | accepting ho hh ha hp => rw [hf, ha, hp]; rfl
  | @accepted pak hdr put later ho ha hl hp =>
    rw [hf, ha, hp, List.filter_cons, hlater _ hl]
    cases put <;> simp [Fate.putOn]

/-- What `ep_task` did with a packet it did in an earlier state of the run, for a reason. -/
theorem fates_reason (h : (sys Q).Reach s) {n : Nat} {x : UdpPak × Fate}
    (hn : s.fates[n]? = some x) : ∃ s₀, (sys Q).Reach s₀ ∧ (sys Q).Steps (fun _ => True) s₀ s ∧
      s₀.fates = s.fates.take n ∧ s₀.pc.pak? = some x.1 ∧ s₀.Reason x.1 x.2 := by
  induction h with
  | init hi => obtain ⟨k, config, h3Config, rfl⟩ := hi; cases hn
  | @step s s' a hr hs ih =>
    have hone : (sys Q).Steps (fun _ => True) s s' := .one trivial hs
    have hlog : ∃ l, s'.fates = s.fates ++ l ∧ l.length ≤ 1 ∧
        ∀ x ∈ l, s.pc.Done x.1 x.2 ∧ s.Reason x.1 x.2 := by
      rcases reach_cases hr hs with ⟨-, ht⟩ | ⟨-, hf⟩
      · obtain ⟨l, hh⟩ := handled_task (sys_control hr) (sys_routing hr) (cons_rx hr) ht
        exact ⟨l, hh.fates, hh.length, hh.reason⟩
      · exact ⟨[], by rw [fates_frame hf, List.append_nil], Nat.zero_le 1, nofun⟩
    obtain ⟨l, hl, hlen, hre⟩ := hlog
    rw [hl, List.getElem?_append] at hn
    split at hn
    · next hlt =>
      obtain ⟨s₀, h₀, hs₀, ht, h⟩ := ih hn
      exact ⟨s₀, h₀, hs₀.trans hone, by
        rw [ht, hl, List.take_append_of_le_length (Nat.le_of_lt hlt)], h⟩
    · next hge =>
      have hidx := (List.getElem?_eq_some_iff.mp hn).1
      have hn0 : n = s.fates.length := by omega
      obtain ⟨hd, hx⟩ := hre x (List.mem_of_getElem? hn)
      refine ⟨s, hr, hone, ?_, hd.pak?, hx⟩
      rw [hl, hn0, List.take_left]

/-- Why a well-formed packet is neither delivered nor creates a connection. -/
inductive Unrouted (s : Ep Q) (pak : UdpPak) (hdr : Header) : Prop
  | noRoute (hl : s.conMap.lookup hdr.dcid = none) (ht : hdr.ty ≠ .initial)
  | noPermit {i : Nat} {r : EpCon Q} (hl : s.conMap.lookup hdr.dcid = some i)
    (hr : s.cons[i]? = some r) (hf : r.con.cmd.free = 0)
  | conEnded {i : Nat} {r : EpCon Q} (hl : s.conMap.lookup hdr.dcid = some i)
    (hr : s.cons[i]? = some r) (ho : r.con.pc.over = true)
  | refused {err : QuicheError} (hl : s.conMap.lookup hdr.dcid = none) (ht : hdr.ty = .initial)
    (ha : (Q.accept s.cid.cid.1 pak.addr s.config).2 = .error err)

theorem Reason.unrouted {pak : UdpPak} {fate : Fate} {hdr : Header} (h : s.Reason pak fate)
    (hh : Q.headerFromSlice pak.data 16 = .ok hdr) (hn : fate.con? = none) :
    s.Unrouted pak hdr := by
  have hsame : ∀ {hdr'}, Q.headerFromSlice pak.data 16 = .ok hdr' → hdr' = hdr := by
    intro hdr' hh'
    cases hh.symm.trans hh'
    rfl
  cases fate with
  | delivered | created => cases hn
  | malformed =>
    obtain ⟨err, he⟩ := h
    cases hh.symm.trans he
  | noPermit i =>
    obtain ⟨hdr', r, hh', hl, hr, hf⟩ := h
    obtain rfl := hsame hh'
    exact .noPermit hl hr hf
  | conEnded i =>
    obtain ⟨hdr', r, hh', hl, hr, ho⟩ := h
    obtain rfl := hsame hh'
    exact .conEnded hl hr ho
  | refused =>
    obtain ⟨hdr', err, hh', hl, ht, ha⟩ := h
    obtain rfl := hsame hh'
    exact .refused hl ht ha
  | noRoute =>
    obtain ⟨hdr', hh', hl, ht⟩ := h
    obtain rfl := hsame hh'
    exact .noRoute hl ht

/-- Where every packet goes, in every reachable state. -/
structure Exact (s : Ep Q) : Prop where
  /-- `ep_task` handles the packets of the stream one after the other: each has a fate, but for the
  one in its hand and those on their way to it. -/
  flow : s.fates.map Prod.fst ++ s.pc.pak?.toList ++ s.inbound = s.yielded
  /-- The packets on a channel: the Initial packet, then packets with the connection's id. -/
  sent : ∀ (i : Nat) r, s.cons[i]? = some r → s.Sent i r
  /-- They are the packets at some places of the stream, in its order, -/
  places : ∀ (i : Nat) r, s.cons[i]? = some r →
    r.con.inPaks.map some = (s.places i).map (s.yielded[·]?)
  order : ∀ i, (s.places i).Pairwise (· < ·)
  /-- and no place is that of a packet on two channels. -/
  once : ∀ i j n, n ∈ s.places i → n ∈ s.places j → i = j
  /-- What was done with the packet at place `n` has its reason in the state `s₀` in which it was
  done. -/
  reason : ∀ (n : Nat) x, s.fates[n]? = some x →
    ∃ s₀, (sys Q).Reach s₀ ∧ (sys Q).Steps (fun _ => True) s₀ s ∧ s₀.fates = s.fates.take n ∧
      s₀.pc.pak? = some x.1 ∧ s₀.Reason x.1 x.2
  /-- A well-formed packet that was neither delivered nor created a connection. -/
  unrouted : ∀ (n : Nat) pak fate hdr, s.fates[n]? = some (pak, fate) →
    Q.headerFromSlice pak.data 16 = .ok hdr → fate.con? = none →
      ∃ s₀, (sys Q).Reach s₀ ∧ (sys Q).Steps (fun _ => True) s₀ s ∧ s₀.fates = s.fates.take n ∧
        s₀.pc.pak? = some pak ∧ s₀.Unrouted pak hdr

/-- Routing is exact, in order and without duplicates. -/
theorem routing_exact (h : (sys Q).Reach s) : Exact s := by
  have hr := sys_routing h
  have hstream : s.fates.map Prod.fst <+: s.yielded :=
    ⟨s.pc.pak?.toList ++ s.inbound, by rw [← List.append_assoc]; exact hr.flow⟩
  refine ⟨hr.flow, hr.sent, fun i r hi => ?_, fun i => ?_, fun i j n hi hj => ?_,
    fun n x => fates_reason h, fun n pak fate hdr hn hh hc => ?_⟩
  · have hget : ∀ n ∈ s.places i, (s.fates[n]?).map Prod.fst = s.yielded[n]? := fun n hn => by
      have hlt := List.mem_range.mp (List.mem_of_mem_filter hn)
      obtain ⟨rest, hy⟩ := hstream
      rw [← hy, List.getElem?_append_left (by rwa [List.length_map]), List.getElem?_map]
    calc r.con.inPaks.map some
        = ((s.fates.filter (·.2.putOn i)).map some).map (Option.map Prod.fst) := by
          rw [(hr.sent i r hi).inPaks_eq, List.map_map, List.map_map]; rfl
      _ = ((s.places i).map (s.fates[·]?)).map (Option.map Prod.fst) := by
          rw [List.filter_map_some]; rfl
      _ = (s.places i).map (s.yielded[·]?) := by
          rw [List.map_map]; exact List.map_congr_left hget
  · exact List.Pairwise.filter _ List.pairwise_lt_range
  · obtain ⟨x, hx, hpi⟩ := (Option.any_eq_true _ _).mp (List.mem_filter.mp hi).2
    obtain ⟨y, hy, hpj⟩ := (Option.any_eq_true _ _).mp (List.mem_filter.mp hj).2
    rw [hx] at hy
    cases hy
    exact Option.some.inj ((Fate.con?_of_putOn hpi).symm.trans (Fate.con?_of_putOn hpj))
  · obtain ⟨s₀, h₀, hs₀, ht, hp, hre⟩ := fates_reason h hn
    exact ⟨s₀, h₀, hs₀, ht, hp, Reason.unrouted hre hh hc⟩

/-- An Initial packet, and one with the id of the connection it created. -/
theorem routing_exact_two :
    ∃ s : Ep (Quiche.inert ()), (s.places 0 = [0, 1] ∧ s.yielded.length = 2) ∧ s.Exact := by
  obtain ⟨s, hr, h⟩ := Lts.Reach.of_run_any (S := sys (Quiche.inert ()))
    (EpAct.packet [] 6 ++ EpAct.packet (cidOf 0) 4)
    (fun s => decide (s.places 0 = [0, 1] ∧ s.yielded.length = 2)) ⟨0, (), none, rfl⟩
    (by decide +kernel)
  exact ⟨s, of_decide_eq_true h, routing_exact hr⟩

end Ep
end Absquic
