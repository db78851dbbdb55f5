import Absquic.Ep.Ledger

/-!
# A stalled connection does not disturb the others

`Progress`: in every state of a run the commands that `ep_task` has taken were handled, by
`EpLedger.Handles`, except for what is left to do for the last one. So two runs that took the same
commands have ledgers that are alike, however the parties of connection `c` step in them
(`stalled_alone`), and `ep_task` itself waits for its next command only (`only_waits`).

A run is `Apart` if `cid()` is called by this endpoint only, if no Initial packet with the id of `c`
is handled after the task of `c` has ended, and if the events of the other connections find their
receiver as `alive` says.
-/

namespace Absquic

deriving instance DecidableEq for EpCmd
deriving instance DecidableEq for EpPc

/-- What does not change about a connection. -/
def EpCon.data {Q : Quiche} (r : EpCon Q) :
    ConnectionId × SocketAddr × Option (UdpPak × Header) := (r.scid, r.addr, r.origin)

namespace Ep

variable {Q : Quiche} {c : Nat} {alive : Nat → Bool} {s s' : Ep Q}

/-- The commands that `ep_task` took, in order. -/
def takes (s : Ep Q) : List EpCmd := s.trace.filterMap (·.take?)

/-- The answers to the `NewCon`s, in order. -/
def answers (s : Ep Q) : List (Nat × Except QuicheError Nat) := s.trace.filterMap (·.newCon?)

def ledger (s : Ep Q) : EpLedger Q where
  cid := s.cid
  config := s.config
  conMap := s.conMap
  cons := s.cons.map EpCon.data
  fates := s.fates
  inCons := s.inCons
  answers := s.answers

/-- The next step of `ep_task` meets the conditions (module doc). -/
def apart (c : Nat) (alive : Nat → Bool) (s : Ep Q) : Bool :=
  match s.pc with
  | .inCon i => i = c || s.evt.rx = alive i
  | .cmd (.inPak (some (.ok pak))) =>
    match Q.headerFromSlice pak.data 16 with
    | .ok hdr => hdr.ty ≠ .initial ||
        s.cons[c]?.all fun r => r.scid ≠ hdr.dcid || !r.con.pc.over
    | .error _ => true
  | _ => true

/-- The conditions on a step (module doc). -/
def Apart (c : Nat) (alive : Nat → Bool) (s : Ep Q) : EpAct → Prop
  | .task => s.apart c alive
  | .otherCid => False
  | _ => True

instance (a : EpAct) : Decidable (Apart c alive s a) :=
  match a with
  | .task => inferInstanceAs (Decidable (_ = _))
  | .otherCid => isFalse id
  | .udp | .udpRecv _ | .connect _ | .connAcquire _ | .connSend _ | .connPoll _ | .connCancel _
  | .evtPoll | .dropRecv | .dropEp | .con _ _ => isTrue trivial

/-- Everything about the connections other than `c` is the same. -/
structure Undisturbed (c : Nat) (s s' : Ep Q) : Prop where
  /-- the connections, with the packets put on their channels -/
  cons : ∀ i, i ≠ c → (s.cons[i]?.map fun r => (r.data, r.con.inPaks)) =
    s'.cons[i]?.map fun r => (r.data, r.con.inPaks)
  conMap : ∀ i, i ≠ c → ∀ k, s.conMap.lookup k = some i ↔ s'.conMap.lookup k = some i
  inCons : s.inCons.filter (· ≠ c) = s'.inCons.filter (· ≠ c)
  answers : s.answers = s'.answers

/-! ## The handling of a command -/

/-- `ep_task` is at `pc`, has taken the commands `cmds`, and has the ledger `l`: the commands were
handled, from `l₀` on, but for what is left to do of the last one. -/
def Progress (c : Nat) (alive : Nat → Bool) (l₀ : EpLedger Q) (pc : EpPc) (cmds : List EpCmd)
    (l : EpLedger Q) : Prop :=
  match pc with
  | .recv => Lts.Inputs (EpLedger.Handles c alive) l₀ cmds l
  | .evtGuard cmd | .cmd cmd =>
    ∃ pre, cmds = pre ++ [cmd] ∧ Lts.Inputs (EpLedger.Handles c alive) l₀ pre l
  | .route _ _ pak =>
    ∃ pre, cmds = pre ++ [.inPak (some (.ok pak))] ∧
      Lts.Inputs (EpLedger.Handles c alive) l₀ pre l
  | .accepted i scid pak | .acceptSend i scid pak =>
    ∃ pre l₁, cmds = pre ++ [.inPak (some (.ok pak))] ∧
      Lts.Inputs (EpLedger.Handles c alive) l₀ pre l₁ ∧
      ∀ put sent, (i ≠ c → sent = alive i) → EpLedger.Handles c alive l₁ (.inPak (some (.ok pak)))
        { l with
          conMap := l.conMap.insert scid i
          fates := l.fates ++ [(pak, .created i put)]
          inCons := l.inCons ++ if sent then [i] else [] }
  | .inCon i =>
    ∃ pre cmd l₁, cmds = pre ++ [cmd] ∧ Lts.Inputs (EpLedger.Handles c alive) l₀ pre l₁ ∧
      ∀ sent, (i ≠ c → sent = alive i) → EpLedger.Handles c alive l₁ cmd
        { l with inCons := l.inCons ++ if sent then [i] else [] }
  | .newCon i scid rsp =>
    ∃ pre cmd l₁, cmds = pre ++ [cmd] ∧ Lts.Inputs (EpLedger.Handles c alive) l₀ pre l₁ ∧
      EpLedger.Handles c alive l₁ cmd
        { l with
          conMap := l.conMap.insert scid i
          answers := l.answers ++ [(rsp, .ok i)] }
  | .ended _ => True

/-! ## The ledger after a step -/

theorem data_moves {R : Nat → Con Q → Con Q → Prop} {l l' : List (EpCon Q)} (h : Moves R l l') :
    l'.map EpCon.data = l.map EpCon.data := h.map_eq fun _ _ => rfl

/-- The lines `l` were written. -/
theorem ledger_append {l : List EpObs} (ht : s'.trace = s.trace ++ l)
    (hc : s'.cons.map EpCon.data = s.cons.map EpCon.data) :
    s'.ledger = { s.ledger with
      cid := s'.cid
      config := s'.config
      conMap := s'.conMap
      fates := s.fates ++ l.filterMap (·.fate?)
      inCons := s.inCons ++ l.filterMap (·.inCon?)
      answers := s.answers ++ l.filterMap (·.newCon?) } := by
  unfold ledger fates inCons answers
  rw [ht, hc, List.filterMap_append, List.filterMap_append, List.filterMap_append]

/-- Nothing was written that the ledger has. -/
theorem ledger_still {l : List EpObs} (ht : s'.trace = s.trace ++ l)
    (hn : ∀ o ∈ l, o.fate? = none ∧ o.inCon? = none ∧ o.newCon? = none)
    (hc : s'.cons.map EpCon.data = s.cons.map EpCon.data) :
    s'.ledger = { s.ledger with cid := s'.cid, config := s'.config, conMap := s'.conMap } := by
  rw [ledger_append ht hc, List.filterMap_eq_nil_iff.mpr fun o ho => (hn o ho).1,
    List.filterMap_eq_nil_iff.mpr fun o ho => (hn o ho).2.1,
    List.filterMap_eq_nil_iff.mpr fun o ho => (hn o ho).2.2, List.append_nil, List.append_nil,
    List.append_nil]
  rfl

theorem ledger_fate {pak : UdpPak} {fate : Fate} (ht : s'.trace = s.trace ++ [.fate pak fate])
    (hc : s'.cons.map EpCon.data = s.cons.map EpCon.data) :
    s'.ledger = { s.ledger with
      cid := s'.cid
      config := s'.config
      conMap := s'.conMap
      fates := s.fates ++ [(pak, fate)] } := by
  rw [ledger_append ht hc]
  simp [ledger, EpObs.fate?, EpObs.inCon?, EpObs.newCon?]

theorem ledger_newCon {rsp : Nat} {result : Except QuicheError Nat}
    (ht : s'.trace = s.trace ++ [.newCon rsp result])
    (hc : s'.cons.map EpCon.data = s.cons.map EpCon.data) :
    s'.ledger = { s.ledger with
      cid := s'.cid
      config := s'.config
      conMap := s'.conMap
      answers := s.answers ++ [(rsp, result)] } := by
  rw [ledger_append ht hc]
  simp [ledger, EpObs.fate?, EpObs.inCon?, EpObs.newCon?]

theorem ledger_inCon {i : Nat} (ht : s'.trace = s.trace ++ [.inCon i])
    (hc : s'.cons.map EpCon.data = s.cons.map EpCon.data) :
    s'.ledger = { s.ledger with
      cid := s'.cid
      config := s'.config
      conMap := s'.conMap
      inCons := s.inCons ++ [i] } := by
  rw [ledger_append ht hc]
  simp [ledger, EpObs.fate?, EpObs.inCon?, EpObs.newCon?]

/-- A connection was created. -/
theorem ledger_spawn {x : ConnectionId × SocketAddr × Option (UdpPak × Header)}
    (ht : s'.trace = s.trace) (hc : s'.cons.map EpCon.data = s.cons.map EpCon.data ++ [x]) :
    s'.ledger = { s.ledger with
      cid := s'.cid
      config := s'.config
      conMap := s'.conMap
      cons := s.ledger.cons ++ [x] } := by
  unfold ledger fates inCons answers
  rw [ht, hc]

theorem takes_append {t : List EpObs} (ht : s'.trace = s.trace ++ t) :
    s'.takes = s.takes ++ t.filterMap (·.take?) := by
  unfold takes
  rw [ht, List.filterMap_append]

/-- A send to `c` failed only because its task has ended. -/
def EndedIs (c : Nat) (s : Ep Q) : Prop :=
  (∃ x ∈ s.fates, x.2 = .conEnded c) → ∃ r, s.cons[c]? = some r ∧ r.con.pc.over = true

/-- So an Initial packet that is handled finds the way to `c` open. -/
theorem open_of_apart (ha : s.apart c alive) (he : EndedIs c s) {pak : UdpPak} {hdr : Header}
    (hpc : s.pc = .cmd (.inPak (some (.ok pak)))) (hh : Q.headerFromSlice pak.data 16 = .ok hdr)
    (ht : hdr.ty = .initial) : s.ledger.Open c hdr.dcid := by
  intro x hx hk y hy hy'
  obtain ⟨r, hr, hov⟩ := he ⟨y, hy, hy'⟩
  have hx : (s.cons.map EpCon.data)[c]? = some x := hx
  rw [List.getElem?_map, hr, Option.map_some] at hx
  cases hx
  unfold apart at ha
  rw [hpc] at ha
  simp [hh, ht, hr, hov] at ha
  exact ha hk

/-- Only at `recv` a command is taken. -/
theorem takes_task (ht : TaskStep s s') (hpc : s.pc ≠ .recv) : s'.takes = s.takes := by
  rcases trace_task ht with he | ⟨o, he, ho⟩
  · unfold takes
    rw [he]
  · rw [takes_append he]
    cases o with
    | take cmd => exact absurd ho hpc
    | _ => exact List.append_nil _

/-- The event of a connection other than `c` finds its receiver as `alive` says. -/
theorem alive_of_apart (ha : s.apart c alive) {i : Nat} (hpc : s.pc = .inCon i) (hi : i ≠ c) :
    s.evt.rx = alive i := by
  unfold apart at ha
  rw [hpc] at ha
  simpa [hi] using ha

/-- `ep_task` is done with the command. -/
theorem progress_done {l₀ l₁ l : EpLedger Q} {pre : List EpCmd} {cmd : EpCmd} (hpc : s'.pc = .recv)
    (hc : s'.takes = pre ++ [cmd]) (hi : Lts.Inputs (EpLedger.Handles c alive) l₀ pre l₁)
    (hl : s'.ledger = l) (hh : EpLedger.Handles c alive l₁ cmd l) :
    Progress c alive l₀ s'.pc s'.takes s'.ledger := by
  rw [hpc, hc, hl]
  exact .snoc hi hh

/-- A packet is dropped, without a change to any connection. -/
theorem handles_drop {pak : UdpPak} {fate : Fate} (hd : s.Dropped pak fate) :
    EpLedger.Handles c alive s.ledger (.inPak (some (.ok pak)))
      { s.ledger with fates := s.fates ++ [(pak, fate)] } := by
  cases fate with
  | malformed =>
    obtain ⟨err, hh⟩ := hd
    exact .malformed hh
  | noRoute =>
    obtain ⟨hdr, hh, hl, ht⟩ := hd
    exact .noRoute hh hl ht
  | noPermit i =>
    obtain ⟨hdr, r, hh, hl, -, -⟩ := hd
    exact .routed hh hl (.inr (.inl rfl))
  | _ => cases hd

section Places

variable {l₀ : EpLedger Q}

/-- The Initial packet is accepted: what is left is to send it, and the event. -/
theorem progress_accept (ha : s.apart c alive) (he : EndedIs c s)
    (hp : Progress c alive l₀ s.pc s.takes s.ledger) {pak : UdpPak} {hdr : Header}
    {config : Q.Config} {con : Q.Connection}
    (hpc : s.pc = .cmd (.inPak (some (.ok pak)))) (hh : Q.headerFromSlice pak.data 16 = .ok hdr)
    (hl : s.conMap.lookup hdr.dcid = none) (ht : hdr.ty = .initial)
    (hacc : Q.accept s.cid.cid.1 pak.addr s.config = (config, .ok con))
    (htakes : s'.takes = s.takes) (hled : s'.ledger = { s.ledger with
      cid := s.cid.cid.2
      config
      cons := s.ledger.cons ++ [(s.cid.cid.1, pak.addr, some (pak, hdr))] }) :
    Progress c alive l₀ (.accepted s.cons.length s.cid.cid.1 pak) s'.takes s'.ledger := by
  rw [hpc] at hp
  obtain ⟨pre, hc, hi⟩ := hp
  refine ⟨pre, s.ledger, htakes.trans hc, hi, fun put sent hs => ?_⟩
  have hlen : s.ledger.cons.length = s.cons.length := List.length_map _
  have hopen := open_of_apart ha he hpc hh ht
  have h : EpLedger.Handles c alive s.ledger (.inPak (some (.ok pak))) _ :=
    .accepted put sent hh hl ht hopen hacc (by rw [hlen]; exact hs)
  unfold EpLedger.spawn at h
  rw [hlen] at h
  rw [hled]
  exact h

/-- The connection is made: what is left is the answer. -/
theorem progress_spawn (hp : Progress c alive l₀ s.pc s.takes s.ledger) {addr : SocketAddr}
    {rsp : Nat} {config : Q.Config} {con : Q.Connection}
    (hpc : s.pc = .cmd (.newCon addr rsp))
    (hcon : Q.connect s.cid.cid.1 addr s.config = (config, .ok con))
    (htakes : s'.takes = s.takes) (hled : s'.ledger = { s.ledger with
      cid := s.cid.cid.2
      config
      cons := s.ledger.cons ++ [(s.cid.cid.1, addr, none)] }) :
    Progress c alive l₀ (.newCon s.cons.length s.cid.cid.1 rsp) s'.takes s'.ledger := by
  rw [hpc] at hp
  obtain ⟨pre, hc, hi⟩ := hp
  refine ⟨pre, _, s.ledger, htakes.trans hc, hi, ?_⟩
  have hlen : s.ledger.cons.length = s.cons.length := List.length_map _
  have h : EpLedger.Handles c alive s.ledger (.newCon addr rsp) _ := .connected hcon
  unfold EpLedger.spawn at h
  rw [hlen] at h
  rw [hled]
  exact h

/-- A packet that was routed. -/
theorem progress_routed (hr : Routing s) (hp : Progress c alive l₀ s.pc s.takes s.ledger) {i : Nat}
    {dcid : ConnectionId} {pak : UdpPak} {fate : Fate}
    (hpc : s.pc = .route i dcid pak) (hf : EpLedger.Routed i fate) (hpc' : s'.pc = .recv)
    (ht : s'.takes = s.takes) (hl : s'.ledger = s.ledger.route dcid i (pak, fate)) :
    Progress c alive l₀ s'.pc s'.takes s'.ledger := by
  rw [hpc] at hp
  obtain ⟨pre, hc, hi⟩ := hp
  obtain ⟨hlook, hdr, hh, rfl⟩ := hr.route i dcid pak hpc
  exact progress_done hpc' (ht.trans hc) hi hl (.routed hh hlook hf)

/-- The Initial packet was sent: what is left is the event. -/
theorem progress_put (hp : Progress c alive l₀ s.pc s.takes s.ledger) {i : Nat}
    {scid : ConnectionId} {pak : UdpPak} {ok : Bool} (hpc : s.pc = .acceptSend i scid pak)
    (ht : s'.takes = s.takes) (hl : s'.ledger = { s.ledger with
      conMap := s.conMap.insert scid i
      fates := s.fates ++ [(pak, .created i ok)] }) :
    Progress c alive l₀ (.inCon i) s'.takes s'.ledger := by
  rw [hpc] at hp
  obtain ⟨pre, l₁, hc, hi, hk⟩ := hp
  refine ⟨pre, _, l₁, ht.trans hc, hi, fun sent hs => ?_⟩
  rw [hl]
  exact hk ok sent hs

/-- The event was sent, or found no receiver. -/
theorem progress_inCon (hp : Progress c alive l₀ s.pc s.takes s.ledger) {i : Nat} {sent : Bool}
    (hpc : s.pc = .inCon i) (hs : i ≠ c → sent = alive i) (hpc' : s'.pc = .recv)
    (ht : s'.takes = s.takes) (hl : s'.ledger = { s.ledger with
      inCons := s.inCons ++ if sent then [i] else [] }) :
    Progress c alive l₀ s'.pc s'.takes s'.ledger := by
  rw [hpc] at hp
  obtain ⟨pre, cmd, l₁, hc, hi, hk⟩ := hp
  exact progress_done hpc' (ht.trans hc) hi hl (hk sent hs)

/-- The answer to a `NewCon` was given. -/
theorem progress_answer (hp : Progress c alive l₀ s.pc s.takes s.ledger) {i : Nat}
    {scid : ConnectionId} {rsp : Nat} (hpc : s.pc = .newCon i scid rsp) (hpc' : s'.pc = .recv)
    (ht : s'.takes = s.takes) (hl : s'.ledger = { s.ledger with
      conMap := s.conMap.insert scid i
      answers := s.answers ++ [(rsp, .ok i)] }) :
    Progress c alive l₀ s'.pc s'.takes s'.ledger := by
  rw [hpc] at hp
  obtain ⟨pre, cmd, l₁, hc, hi, hk⟩ := hp
  exact progress_done hpc' (ht.trans hc) hi hl hk

theorem ledger_modCon (s : Ep Q) (i : Nat) (f : Con Q → Con Q) : (s.modCon i f).ledger = s.ledger :=
  ledger_still (List.append_nil _).symm nofun (data_moves (moves_modCon s i f))

theorem ledger_put (s : Ep Q) (i : Nat) (scid : ConnectionId) (pak : UdpPak) (r : Con Q)
    (ok : Bool) :
    (((s.modCon i fun _ => r).log (.fate pak (.created i ok))).insertCon scid i).ledger =
      { s.ledger with
        conMap := s.conMap.insert scid i
        fates := s.fates ++ [(pak, .created i ok)] } := by
  let t := (s.modCon i fun _ => r).log (.fate pak (.created i ok))
  have hins := insertCon_eq t scid i
  have hdata := (data_moves (moves_insertCon t scid i)).trans
    (data_moves (moves_modCon s i fun _ => r))
  show (t.insertCon scid i).ledger = _
  rw [ledger_fate (s := s) (by rw [hins]; rfl) hdata, hins]
  rfl

theorem ledger_answer (s : Ep Q) (rsp : Nat) (result : Result Nat)
    (answer : Except QuicheError Nat) :
    (((s.answer rsp result).log (.newCon rsp answer)).nextCmd).ledger =
      { s.ledger with answers := s.answers ++ [(rsp, answer)] } := by
  have hans := answer_eq s rsp result
  have hdata : (s.answer rsp result).cons.map EpCon.data = s.cons.map EpCon.data :=
    data_moves (quietly_answer s rsp result)
  let t := ((s.answer rsp result).log (.newCon rsp answer)).nextCmd
  have ht : t.trace = s.trace ++ [.newCon rsp answer] := by
    show (s.answer rsp result).trace ++ _ = _
    rw [hans]
  have hl : t.ledger = _ := ledger_newCon ht hdata
  have hcid : t.cid = s.cid := congrArg (·.cid) hans
  have hconfig : t.config = s.config := congrArg (·.config) hans
  have hmap : t.conMap = s.conMap := congrArg (·.conMap) hans
  rw [hl, hcid, hconfig, hmap]
  rfl

theorem ledger_insert (s : Ep Q) (scid : ConnectionId) (i : Nat) :
    (s.insertCon scid i).ledger = { s.ledger with conMap := s.conMap.insert scid i } := by
  have hins := insertCon_eq s scid i
  have hdata := data_moves (moves_insertCon s scid i)
  have ht : (s.insertCon scid i).trace = s.trace ++ [] := by rw [hins, List.append_nil]
  rw [ledger_still ht nofun hdata, hins]
  rfl

end Places

/-- A step of `ep_task`. -/
theorem progress_task {l₀ : EpLedger Q} (hr : Routing s) (ha : s.apart c alive) (he : EndedIs c s)
    (hp : Progress c alive l₀ s.pc s.takes s.ledger) (ht : TaskStep s s') :
    Progress c alive l₀ s'.pc s'.takes s'.ledger := by
  have htakes := takes_task ht
  cases ht with
  | @take cmd g rest hpc hq =>
    rw [hpc] at hp
    have hl : (s.log (.take cmd)).ledger = s.ledger := ledger_still (l := [.take cmd]) rfl
      (List.forall_mem_singleton.mpr ⟨rfl, rfl, rfl⟩) rfl
    refine ⟨s.takes, takes_append (s := s) (t := [.take cmd]) rfl, ?_⟩
    show Lts.Inputs _ _ _ (s.log (.take cmd)).ledger
    rw [hl]
    exact hp
  | reserved hpc => rw [hpc] at hp; exact hp
  | reserve hpc => rw [hpc] at hp; exact hp
  | streamEnd hpc =>
    rw [hpc] at hp htakes
    obtain ⟨pre, hc, hi⟩ := hp
    have hl : (s.log .streamEnd).ledger = s.ledger := ledger_still (l := [.streamEnd]) rfl
      (List.forall_mem_singleton.mpr ⟨rfl, rfl, rfl⟩) rfl
    exact progress_done rfl ((htakes nofun).trans hc) hi hl .streamEnd
  | streamErr hpc =>
    rw [hpc] at hp htakes
    obtain ⟨pre, hc, hi⟩ := hp
    exact progress_done rfl ((htakes nofun).trans hc) hi rfl (.streamErr _)
  | drop hpc hd =>
    rw [hpc] at hp htakes
    obtain ⟨pre, hc, hi⟩ := hp
    exact progress_done rfl ((htakes nofun).trans hc) hi (ledger_fate rfl rfl) (handles_drop hd)
  | refuse hpc hh hl ht hacc =>
    rw [hpc] at hp htakes
    obtain ⟨pre, hc, hi⟩ := hp
    exact progress_done rfl ((htakes nofun).trans hc) hi (ledger_fate (s := s) rfl rfl)
      (.refused hh hl ht (open_of_apart ha he hpc hh ht) hacc)
  | accept hpc hh hl ht hacc =>
    exact progress_accept ha he hp hpc hh hl ht hacc (htakes (by rw [hpc]; nofun))
      (ledger_spawn (s := s) rfl List.map_append)
  | @route pak hdr i r c' hpc hh hl hri hq =>
    rw [hpc] at hp htakes
    obtain ⟨pre, hc, hi⟩ := hp
    refine ⟨pre, (htakes nofun).trans hc, ?_⟩
    show Lts.Inputs _ _ _ (s.modCon i fun _ => c').ledger
    rw [ledger_modCon]
    exact hi
  | @deliver i dcid pak r c' hpc hri hs =>
    exact progress_routed hr hp hpc (.inl rfl) rfl (htakes (by rw [hpc]; nofun))
      (ledger_fate (s := s) rfl (data_moves (moves_modCon s i fun _ => c')))
  | @conEnded i dcid pak r c' hpc hri hs =>
    have hdata := (data_moves (moves_modCon (s.modCon i fun _ => c') i Con.unmap)).trans
      (data_moves (moves_modCon s i fun _ => c'))
    refine progress_routed hr hp hpc (.inr (.inr rfl)) rfl (htakes (by rw [hpc]; nofun)) ?_
    unfold EpLedger.route
    simp only [if_true]
    exact ledger_fate (s := s) rfl hdata
  | @permit i scid pak r c' hpc hri hq =>
    rw [hpc] at hp htakes
    obtain ⟨pre, l₁, hc, hi, hk⟩ := hp
    refine ⟨pre, l₁, (htakes nofun).trans hc, hi, ?_⟩
    have hl : (s.modCon i fun _ => c').ledger = s.ledger := ledger_modCon s i _
    rw [← hl] at hk
    exact hk
  | @put i scid pak r c' ok hpc hri hs =>
    exact progress_put hp hpc (htakes (by rw [hpc]; nofun)) (ledger_put s i scid pak c' ok)
  | inCon hpc hg hrx =>
    exact progress_inCon hp hpc (fun hi => hrx.symm.trans (alive_of_apart ha hpc hi)) rfl
      (htakes (by rw [hpc]; nofun)) (ledger_inCon (s := s) rfl rfl)
  | @noInCon i g hpc hg hrx =>
    have hsent : i ≠ c → false = alive i := fun hi => hrx.symm.trans (alive_of_apart ha hpc hi)
    refine progress_inCon hp hpc hsent rfl (htakes (by rw [hpc]; nofun)) ?_
    rw [if_neg Bool.false_ne_true, List.append_nil]
    exact ledger_still (s := s) (List.append_nil _).symm nofun (data_moves (moves_dropCons s [i]))
  | @refuseNew addr rsp config err hpc hcon =>
    have htakes := htakes (by rw [hpc]; nofun)
    rw [hpc] at hp
    obtain ⟨pre, hc, hi⟩ := hp
    exact progress_done rfl (htakes.trans hc) hi (ledger_answer _ _ _ _) (.refusedNew hcon)
  | spawnNew hpc hcon =>
    exact progress_spawn hp hpc hcon (htakes (by rw [hpc]; nofun))
      (ledger_spawn (s := s) rfl List.map_append)
  | @answerNew i scid rsp hpc =>
    refine progress_answer hp hpc rfl (htakes (by rw [hpc]; nofun)) ?_
    have hins := ledger_insert s scid i
    have hans : (s.insertCon scid i).answers = s.answers := congrArg (·.answers) hins
    unfold answerNewCon
    rw [ledger_answer, hins, hans]

/-! ## The other parties -/

/-- Only `ep_task` and other endpoints call `cid()`. -/
theorem cid_other {a : EpAct} (hs : step a s = some s') (hr : s.cmd.rx = true) (ha : a ≠ .task)
    (hc : a ≠ .otherCid) : s'.cid = s.cid := by
  cases otherStep_cases hs ha hr with
  | otherCid => exact absurd rfl hc
  | _ => rfl

theorem over_step {a : EpAct} (h : (sys Q).Reach s) (hs : step a s = some s')
    (ho : ∃ r, s.cons[c]? = some r ∧ r.con.pc.over) :
    ∃ r, s'.cons[c]? = some r ∧ r.con.pc.over := by
  obtain ⟨r, hr, ho⟩ := ho
  have hmoves : Moves (Runs fun _ => True) s.cons s'.cons →
      ∃ r, s'.cons[c]? = some r ∧ r.con.pc.over := by
    intro hm
    obtain ⟨d, hd, hrun⟩ := hm.con c r hr
    exact ⟨_, hd, over_runs hrun ho⟩
  rcases reach_cases h hs with ⟨-, ht⟩ | ⟨-, hf⟩
  · rcases cons_task ht with ⟨new, hn⟩ | hm
    · refine ⟨r, ?_, ho⟩
      rw [hn.cons, List.getElem?_append_left (List.getElem?_eq_some_iff.mp hr).1, hr]
    · exact hmoves hm
  · exact hmoves (hf.cons.mono fun _ _ _ h => h.quiet.mono fun _ _ => trivial)

theorem endedIs (h : (sys Q).Reach s) : EndedIs c s := by
  rintro ⟨x, hx, he⟩
  obtain ⟨n, hn⟩ := List.getElem?_of_mem hx
  obtain ⟨s₀, h₀, hsteps, -, -, hre⟩ := fates_reason h hn
  rw [he] at hre
  obtain ⟨hdr, r, -, -, hr, ho⟩ := hre
  have hend : (sys Q).Reach s ∧ ∃ r, s.cons[c]? = some r ∧ r.con.pc.over :=
    hsteps.invariant (I := fun t => (sys Q).Reach t ∧ ∃ r, t.cons[c]? = some r ∧ r.con.pc.over)
      (fun a t t' _ hi hst => ⟨.step a hi.1 hst, over_step hi.1 hst hi.2⟩) ⟨h₀, r, hr, ho⟩
  exact hend.2

/-- A step of another party changes nothing of the progress. -/
theorem progress_frame {a : EpAct} {l₀ : EpLedger Q} (hs : step a s = some s')
    (hr : s.cmd.rx = true) (ha : a ≠ .task) (hc : a ≠ .otherCid) (hf : Frame s s')
    (hp : Progress c alive l₀ s.pc s.takes s.ledger) :
    Progress c alive l₀ s'.pc s'.takes s'.ledger := by
  have htakes : s'.takes = s.takes := hf.filterMap_trace fun _ => rfl
  have hledger : s'.ledger = s.ledger := by
    unfold ledger
    rw [cid_other hs hr ha hc, hf.config, hf.conMap, data_moves hf.cons, fates_frame hf,
      show s'.inCons = s.inCons from hf.filterMap_trace fun _ => rfl,
      show s'.answers = s.answers from hf.filterMap_trace fun _ => rfl]
  rw [hf.pc, htakes, hledger]
  exact hp

/-- What a run of `ep_task` came to. -/
theorem progress {s₀ : Ep Q} (h₀ : (sys Q).init s₀) (h : (sys Q).StepsIf (Apart c alive) s₀ s) :
    (sys Q).Reach s ∧ Progress c alive s₀.ledger s.pc s.takes s.ledger := by
  refine h.invariant (I := fun s => (sys Q).Reach s ∧
    Progress c alive s₀.ledger s.pc s.takes s.ledger) ?_ ⟨.init h₀, ?_⟩
  · rintro a s s' hc ⟨hr, hp⟩ hs
    refine ⟨.step a hr hs, ?_⟩
    rcases reach_cases hr hs with ⟨rfl, ht⟩ | ⟨ha, hf⟩
    · exact progress_task (sys_routing hr) hc (endedIs hr) hp ht
    · refine progress_frame hs (sys_control hr).rx ha ?_ hf hp
      rintro rfl
      exact hc
  · obtain ⟨n, config, h3Config, rfl⟩ := h₀
    exact .nil

/-! ## The two runs -/

/-- A send with a permit does not wait. -/
theorem sendInPak_ne_none {r : Con Q} (hg : r.epGuard ≠ none) (pak : UdpPak) :
    r.sendInPak pak ≠ none := by
  obtain ⟨g, hg⟩ := Option.ne_none_iff_exists'.mp hg
  unfold Con.sendInPak
  rw [hg]
  simp only
  split <;> nofun

/-- The `match` on the command does not wait. -/
theorem dispatch_ne_none (hr : Routing s) (cmd : EpCmd) : s.dispatch cmd ≠ none := by
  unfold dispatch
  split
  · nofun
  · nofun
  · next pak =>
    unfold onPak
    split
    · nofun
    · next hdr hh =>
      split
      · next i hl =>
        obtain ⟨r, hi, -, -⟩ := hr.map hdr.dcid i hl
        rw [hi]
        simp only
        split <;> nofun
      · split <;> nofun
  · nofun

/-- With a permit for its event, `ep_task` waits for its next command only. -/
theorem only_waits (h : (sys Q).Reach s) (he : s.evtGuard = none → 0 < s.evt.free)
    (hs : s.taskStep = none) : s.pc = .recv ∧ s.cmd.queue = [] := by
  have hc := sys_control h
  have hr := sys_routing h
  have hsend : ∀ {i r} pak, s.cons[i]? = some r → s.pc.sends = some i →
      s.sendInPak i pak ≠ none := by
    intro i r pak hi hp
    have hg := sendInPak_ne_none ((hc.guard i r hi).mpr hp) pak
    unfold sendInPak
    rw [hi]
    simpa using hg
  unfold taskStep at hs
  split at hs
  · next hpc =>
    unfold recvCmd at hs
    split at hs
    · cases hs
    · next hq => exact ⟨hpc, hq⟩
  · next cmd hpc =>
    unfold acquireEvt at hs
    split at hs
    · cases hs
    · next hg =>
      have hf := he hg
      simp [Chan.acquire, Nat.ne_of_gt hf] at hs
  · next cmd hpc => exact absurd hs (dispatch_ne_none hr cmd)
  · next i dcid pak hpc =>
    obtain ⟨hl, -⟩ := hr.route i dcid pak hpc
    obtain ⟨r, hi, -, -⟩ := hr.map dcid i hl
    have hp := hsend pak hi (by rw [hpc]; rfl)
    unfold route at hs
    split at hs
    · next hn => exact absurd hn hp
    · cases hs
    · cases hs
  · next i scid pak hpc =>
    obtain ⟨-, r, hdr, hi, -⟩ := hr.accept i scid pak (.inl hpc)
    unfold acceptAcquire at hs
    rw [hi] at hs
    simp only at hs
    split at hs <;> cases hs
  · next i scid pak hpc =>
    obtain ⟨-, r, hdr, hi, -⟩ := hr.accept i scid pak (.inr hpc)
    unfold acceptSend at hs
    exact absurd (Option.map_eq_none_iff.mp hs) (hsend pak hi (by rw [hpc]; rfl))
  · cases hs
  · cases hs
  · next exit hpc =>
    have := hc.running
    rw [hpc] at this
    cases this

/-- Two runs that handled the same commands. -/
theorem undisturbed {s₀ : Ep Q} (hm : s₀.ledger.Mapped) (h : (sys Q).Reach s)
    (h' : (sys Q).Reach s') (hp : Lts.Inputs (EpLedger.Handles c alive) s₀.ledger s.takes s.ledger)
    (hp' : Lts.Inputs (EpLedger.Handles c alive) s₀.ledger s.takes s'.ledger)
    (hP : SameOutcomes c s.fates s'.fates) : Undisturbed c s s' := by
  have ha : EpLedger.Alike c s.ledger s'.ledger := EpLedger.alike_inputs hm hp hp' hP
  have hin : ∀ {t : Ep Q}, (sys Q).Reach t → ∀ i r, t.cons[i]? = some r → r.con.inPaks =
      ((t.fates.filter (·.2.chan? = some i)).filter (·.2.putOn i)).map Prod.fst := by
    intro t ht i r hi
    rw [((sys_routing ht).sent i r hi).inPaks_eq, List.filter_filter]
    congr 1
    refine List.filter_congr fun x _ => ?_
    by_cases hx : x.2.putOn i
    · simp [hx, Fate.chan?_of_putOn hx]
    · simp [hx]
  refine ⟨fun i hi => ?_, fun i hi k => ?_, ha.inCons, ha.answers⟩
  · have hd : (s.cons[i]?).map EpCon.data = (s'.cons[i]?).map EpCon.data := by
      rw [← List.getElem?_map, ← List.getElem?_map]
      exact congrArg (·[i]?) ha.cons
    have hfates : s.fates.filter (·.2.chan? = some i) = s'.fates.filter (·.2.chan? = some i) :=
      ha.fates i hi
    cases hs : s.cons[i]? with
    | none =>
      rw [hs] at hd
      rw [Option.map_eq_none_iff.mp hd.symm]
    | some r =>
      rw [hs] at hd
      obtain ⟨r', hr', hdata⟩ := Option.map_eq_some_iff.mp hd.symm
      rw [hr', Option.map_some, Option.map_some, hdata, hin h i r hs, hin h' i r' hr', hfates]
  · rcases ha.conMap k with he | ⟨hl, hl'⟩
    · show s.ledger.conMap.lookup k = _ ↔ s'.ledger.conMap.lookup k = _
      rw [he]
    · exact ⟨fun hk => absurd (hl.eq_of_lookup hk) hi, fun hk => absurd (hl'.eq_of_lookup hk) hi⟩

/-- Two runs from one state in which `ep_task` handled the same commands, with the same outcomes on
the channels of the connections other than `c`. -/
theorem stalled_alone {s₀ s₁ s₂ : Ep Q} (h₀ : (sys Q).init s₀)
    (h₁ : (sys Q).StepsIf (Apart c alive) s₀ s₁) (h₂ : (sys Q).StepsIf (Apart c alive) s₀ s₂)
    (hpc₁ : s₁.pc = .recv) (hpc₂ : s₂.pc = .recv) (ht : s₁.takes = s₂.takes)
    (hP : SameOutcomes c s₁.fates s₂.fates) :
    Undisturbed c s₁ s₂ ∧ ∀ s : Ep Q, (sys Q).Reach s → (s.evtGuard = none → 0 < s.evt.free) →
      s.taskStep = none → s.pc = .recv ∧ s.cmd.queue = [] := by
  obtain ⟨hr₁, hp₁⟩ := progress h₀ h₁
  obtain ⟨hr₂, hp₂⟩ := progress h₀ h₂
  rw [hpc₁] at hp₁
  rw [hpc₂, ← ht] at hp₂
  have hm : s₀.ledger.Mapped := by
    obtain ⟨n, config, h3Config, rfl⟩ := h₀
    exact fun k i hk => nomatch hk
  exact ⟨undisturbed hm hr₁ hr₂ hp₁ hp₂ hP, fun s => only_waits⟩

/-- Packets with 16 bytes of data are short packets; a connection's first send fails. -/
def failing : Quiche :=
  { Quiche.inert () with
    headerFromSlice := fun data _ =>
      .ok { ty := if data.length = 16 then .short else .initial, dcid := data }
    send := fun _ _ con => (con, .error (.other (-3))) }

/-- The first connection is created, its task makes `n` steps, it gets a packet, and another
connection is created. -/
def twoCons (n : Nat) : List EpAct :=
  EpAct.packet [] 6 ++ List.replicate n (.con 0 .task) ++ EpAct.packet (cidOf 0) 4 ++
    EpAct.packet [1] 6

/-- What each run handles. -/
def twoCmds : List EpCmd :=
  [[], cidOf 0, [1]].map fun data => .inPak (some (.ok ⟨.unspecified, data⟩))

/-- In one run the task of the first connection has not started, in the other it has ended. -/
theorem stalled_alone_two : ∃ s₁ s₂ : Ep failing,
    (s₁.fates.map (·.2) = [.created 0 true, .delivered 0, .created 1 true] ∧
      s₂.fates.map (·.2) = [.created 0 true, .conEnded 0, .created 1 true]) ∧
    Undisturbed 0 s₁ s₂ := by
  have hrun : ∀ n fates, ((sys failing).runIf (Apart 0 fun _ => true) (twoCons n)
      (quicheEp (.after 0) () none)).any (fun s =>
        decide (s.pc = .recv ∧ s.takes = twoCmds ∧ s.fates.map (·.2) = fates)) →
      ∃ s : Ep failing, (sys failing).StepsIf (Apart 0 fun _ => true)
        (quicheEp (.after 0) () none) s ∧ s.pc = .recv ∧ s.takes = twoCmds ∧
        s.fates.map (·.2) = fates := by
    intro n fates h
    obtain ⟨s, hs, hp⟩ := (Option.any_eq_true _ _).mp h
    exact ⟨s, .run hs, of_decide_eq_true hp⟩
  obtain ⟨s₁, h₁, hpc₁, ht₁, hf₁⟩ := hrun 0 [.created 0 true, .delivered 0, .created 1 true]
    (by decide +kernel)
  obtain ⟨s₂, h₂, hpc₂, ht₂, hf₂⟩ := hrun 6 [.created 0 true, .conEnded 0, .created 1 true]
    (by decide +kernel)
  refine ⟨s₁, s₂, ⟨hf₁, hf₂⟩, (stalled_alone ⟨0, (), none, rfl⟩ h₁ h₂ hpc₁ hpc₂ (ht₁.trans ht₂.symm)
    ?_).1⟩
  intro n x y hx hy _ _ hc
  have hx' : (s₁.fates.map (·.2))[n]? = some x.2 := by rw [List.getElem?_map, hx]; rfl
  have hy' : (s₂.fates.map (·.2))[n]? = some y.2 := by rw [List.getElem?_map, hy]; rfl
  rw [hf₁] at hx'
  rw [hf₂] at hy'
  -- only at place 1 the fates differ, on the channel of the first connection
  match n with
  | 0 | 2 => exact Option.some.inj (hx'.symm.trans hy')
  | 1 => exact absurd (congrArg Fate.chan? (Option.some.inj hx')).symm hc
  | n + 3 => cases hx'

end Ep
end Absquic
