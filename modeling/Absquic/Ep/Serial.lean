import Absquic.Ep.Stall
import Absquic.Lib.Gather

/-!
# `ep_task` as a sequential program

`ep_task` handles a command in several steps, between which every other party may act: the connection
that it has just spawned, other endpoints that call `cid()`, the users. `serial` is the same program
without that: a system whose state is the ledger, and that handles a command in one step
(`EpLedger.handle`). How the actions on the channels come out is an input (`Outcome`).

In every run of an endpoint, when `ep_task` waits for its next command, the ledger is the one to which
a run of `serial` over the commands that it took comes (`serialized`): its ids and its config, `con_map`,
the connections with their addresses, the fate of each packet, the events and the answers. A call of
`cid()` by another endpoint while a command is handled comes after the command there (`EpPc.finish`:
what is left to do of a command does not depend on the counter).
-/

namespace Absquic

/-- How the actions on the channels came out while a command was handled. -/
structure Outcome where
  /-- `try_acquire` found a permit. -/
  permit : Bool
  /-- The packet was put on the connection's channel. -/
  put : Bool
  /-- The event was put on the event channel. -/
  sent : Bool

namespace EpLedger

variable {Q : Quiche}

/-- A packet has its fate. -/
def note (l : EpLedger Q) (pak : UdpPak) (fate : Fate) : EpLedger Q :=
  { l with fates := l.fates ++ [(pak, fate)] }

/-- The event of connection `i`, if it was sent. -/
def event (l : EpLedger Q) (i : Nat) (sent : Bool) : EpLedger Q :=
  { l with inCons := l.inCons ++ if sent then [i] else [] }

/-- A new connection is entered. -/
def insert (l : EpLedger Q) (scid : ConnectionId) (i : Nat) : EpLedger Q :=
  { l with conMap := l.conMap.insert scid i }

/-- `NewCon` is answered. -/
def reply (l : EpLedger Q) (rsp : Nat) (result : Except QuicheError Nat) : EpLedger Q :=
  { l with answers := l.answers ++ [(rsp, result)] }

/-- `cid()` is called, and quiche has changed the config. -/
def issue (l : EpLedger Q) (config : Q.Config) : EpLedger Q := { l with cid := l.cid.cid.2, config }

/-- A connection is created. -/
def create (l : EpLedger Q) (addr : SocketAddr) (origin : Option (UdpPak × Header))
    (config : Q.Config) : EpLedger Q :=
  { l.issue config with cons := l.cons ++ [(l.cid.cid.1, addr, origin)] }

/-- Lines 224-256. -/
def accept (l : EpLedger Q) (pak : UdpPak) (hdr : Header) (o : Outcome) : EpLedger Q :=
  match Q.accept l.cid.cid.1 pak.addr l.config with
  | (config, .error _) => (l.issue config).note pak .refused
  | (config, .ok _) =>
    (((l.create pak.addr (some (pak, hdr)) config).note pak (.created l.cons.length o.put)).insert
      l.cid.cid.1 l.cons.length).event l.cons.length o.sent

/-- Lines 199-257. -/
def onPak (l : EpLedger Q) (pak : UdpPak) (o : Outcome) : EpLedger Q :=
  match Q.headerFromSlice pak.data 16 with
  | .error _ => l.note pak .malformed
  | .ok hdr =>
    match l.conMap.lookup hdr.dcid with
    | some i =>
      if o.permit then l.route hdr.dcid i (pak, if o.put then .delivered i else .conEnded i)
      else l.note pak (.noPermit i)
    | none => if hdr.ty = .initial then l.accept pak hdr o else l.note pak .noRoute

/-- Lines 259-278. -/
def onNewCon (l : EpLedger Q) (addr : SocketAddr) (rsp : Nat) : EpLedger Q :=
  match Q.connect l.cid.cid.1 addr l.config with
  | (config, .error err) => (l.issue config).reply rsp (.error err)
  | (config, .ok _) =>
    ((l.create addr none config).insert l.cid.cid.1 l.cons.length).reply rsp (.ok l.cons.length)

/-- The body of the loop of `ep_task`, without interruption. -/
def handle (l : EpLedger Q) (cmd : EpCmd) (o : Outcome) : EpLedger Q :=
  match cmd with
  | .inPak none | .inPak (some (.error _)) => l
  | .inPak (some (.ok pak)) => l.onPak pak o
  | .newCon addr rsp => l.onNewCon addr rsp

/-- `cid()` was called `n` times by other endpoints. -/
def others (l : EpLedger Q) : Nat → EpLedger Q
  | 0 => l
  | n + 1 => { l.others n with cid := (l.others n).cid.cid.2 }

end EpLedger

/-- A step of `serial`. -/
inductive SerialAct
  | handle (cmd : EpCmd) (outcome : Outcome)
  | otherCid

def SerialAct.cmd? : SerialAct → Option EpCmd
  | .handle cmd _ => some cmd
  | .otherCid => none

/-- The sequential program (module doc). -/
def serial (Q : Quiche) : Lts (EpLedger Q) SerialAct where
  init l := ∃ n config h3Config, l = (Ep.quicheEp (Q := Q) (.after n) config h3Config).ledger
  step
    | .handle cmd o, l => some (l.handle cmd o)
    | .otherCid, l => some (l.others 1)

/-- What is left to do of the command at this place. -/
def EpPc.finish {Q : Quiche} (pc : EpPc) (l : EpLedger Q) (o : Outcome) : EpLedger Q :=
  match pc with
  | .evtGuard m | .cmd m => l.handle m o
  | .route i dcid pak => l.route dcid i (pak, if o.put then .delivered i else .conEnded i)
  | .accepted i scid pak | .acceptSend i scid pak =>
    ((l.note pak (.created i o.put)).insert scid i).event i o.sent
  | .inCon i => l.event i o.sent
  | .newCon i scid rsp => (l.insert scid i).reply rsp (.ok i)
  | .recv | .ended _ => l

/-- The command that is still to be handled as a whole. -/
def EpPc.whole? : EpPc → Option EpCmd
  | .evtGuard m | .cmd m => some m
  | _ => none

namespace Ep

variable {Q : Quiche} {s s' : Ep Q}

/-! ## A step of `ep_task` -/

/-- A packet that is dropped. -/
theorem handle_drop {pak : UdpPak} {fate : Fate} (hd : s.Dropped pak fate) (o : Outcome) :
    s.ledger.handle (.inPak (some (.ok pak))) { o with permit := false } = s.ledger.note pak fate := by
  show s.ledger.onPak pak _ = _
  unfold EpLedger.onPak
  cases fate with
  | malformed =>
    obtain ⟨err, hh⟩ := hd
    rw [hh]
  | noRoute =>
    obtain ⟨hdr, hh, hl, ht⟩ := hd
    have hl : s.ledger.conMap.lookup hdr.dcid = none := hl
    rw [hh]
    dsimp only
    rw [hl]
    exact if_neg ht
  | noPermit i =>
    obtain ⟨hdr, r, hh, hl, -, -⟩ := hd
    have hl : s.ledger.conMap.lookup hdr.dcid = some i := hl
    rw [hh]
    dsimp only
    rw [hl]
    rfl
  | _ => cases hd

/-- A packet with the id of a connection, that has a permit. -/
theorem handle_routed {l : EpLedger Q} {pak : UdpPak} {hdr : Header} {i : Nat} (o : Outcome)
    (hh : Q.headerFromSlice pak.data 16 = .ok hdr) (hl : l.conMap.lookup hdr.dcid = some i) :
    l.handle (.inPak (some (.ok pak))) { o with permit := true } =
      l.route hdr.dcid i (pak, if o.put then .delivered i else .conEnded i) := by
  show l.onPak pak _ = _
  unfold EpLedger.onPak
  rw [hh]
  dsimp only
  rw [hl]
  rfl

/-- An Initial packet with an unknown id. -/
theorem handle_initial {l : EpLedger Q} {pak : UdpPak} {hdr : Header} (o : Outcome)
    (hh : Q.headerFromSlice pak.data 16 = .ok hdr) (hl : l.conMap.lookup hdr.dcid = none)
    (ht : hdr.ty = .initial) :
    l.handle (.inPak (some (.ok pak))) o = l.accept pak hdr o := by
  show l.onPak pak _ = _
  unfold EpLedger.onPak
  rw [hh]
  dsimp only
  rw [hl]
  exact if_pos ht

/-- What is left to do after a step was left to do before it. -/
theorem finish_task (ht : TaskStep s s') (hpc : s.pc ≠ .recv) (o : Outcome) :
    ∃ o', s'.pc.finish s'.ledger o = s.pc.finish s.ledger o' := by
  cases ht with
  | take hpc' => exact absurd hpc' hpc
  | reserved hpc | reserve hpc =>
    refine ⟨o, ?_⟩
    rw [hpc]
    rfl
  | streamEnd hpc =>
    refine ⟨o, ?_⟩
    rw [hpc]
    exact ledger_still (l := [.streamEnd]) rfl (List.forall_mem_singleton.mpr ⟨rfl, rfl, rfl⟩) rfl
  | streamErr hpc =>
    refine ⟨o, ?_⟩
    rw [hpc]
    rfl
  | @drop pak fate hpc hd =>
    refine ⟨{ o with permit := false }, ?_⟩
    have hl : (s.log (.fate pak fate)).nextCmd.ledger = s.ledger.note pak fate := ledger_fate rfl rfl
    rw [hpc]
    exact hl.trans (handle_drop hd o).symm
  | refuse hpc hh hl ht ha =>
    refine ⟨o, ?_⟩
    rw [hpc]
    refine Eq.trans ?_ (handle_initial o hh hl ht).symm
    unfold EpLedger.accept
    rw [show Q.accept s.ledger.cid.cid.1 _ s.ledger.config = _ from ha]
    exact ledger_fate (s := s) rfl rfl
  | @accept pak hdr config con c hpc hh hl ht ha =>
    refine ⟨o, ?_⟩
    have hlen : s.ledger.cons.length = s.cons.length := List.length_map _
    have hnew : Ep.ledger { s with
        cid := s.cid.cid.2, config
        cons := s.cons ++ [⟨s.cid.cid.1, pak.addr, some (pak, hdr), c⟩]
        pc := .accepted s.cons.length s.cid.cid.1 pak } =
          s.ledger.create pak.addr (some (pak, hdr)) config := ledger_spawn rfl List.map_append
    rw [hpc]
    refine Eq.trans ?_ (handle_initial o hh hl ht).symm
    unfold EpLedger.accept
    rw [show Q.accept s.ledger.cid.cid.1 _ s.ledger.config = _ from ha]
    dsimp only [EpPc.finish]
    rw [hnew, hlen]
    rfl
  | @route pak hdr i r c hpc hh hl =>
    refine ⟨{ o with permit := true }, ?_⟩
    rw [hpc]
    refine Eq.trans ?_ (handle_routed o hh hl).symm
    exact congrArg (EpLedger.route · hdr.dcid i _) (ledger_modCon s i fun _ => c)
  | @deliver i dcid pak r c hpc =>
    refine ⟨{ o with put := true }, ?_⟩
    rw [hpc]
    exact ledger_fate (s := s) rfl (data_moves (moves_modCon s i fun _ => c))
  | @conEnded i dcid pak r c hpc =>
    refine ⟨{ o with put := false }, ?_⟩
    have hdata := (data_moves (moves_modCon (s.modCon i fun _ => c) i Con.unmap)).trans
      (data_moves (moves_modCon s i fun _ => c))
    have hl : Ep.ledger ({ ((s.modCon i fun _ => c).modCon i Con.unmap).log
        (.fate pak (.conEnded i)) with conMap := s.conMap.erase dcid } : Ep Q).nextCmd =
          s.ledger.route dcid i (pak, .conEnded i) := by
      unfold EpLedger.route
      rw [if_pos rfl]
      exact ledger_fate rfl hdata
    rw [hpc]
    exact hl
  | @permit i scid pak r c hpc =>
    refine ⟨o, ?_⟩
    rw [hpc]
    exact congrArg (fun l : EpLedger Q => ((l.note pak _).insert scid i).event i _)
      (ledger_modCon s i fun _ => c)
  | @put i scid pak r c ok hpc =>
    refine ⟨{ o with put := ok }, ?_⟩
    rw [hpc]
    exact congrArg (EpLedger.event · i o.sent) (ledger_put s i scid pak c ok)
  | @inCon i g hpc =>
    refine ⟨{ o with sent := true }, ?_⟩
    rw [hpc]
    exact ledger_inCon (s := s) rfl rfl
  | @noInCon i g hpc =>
    refine ⟨{ o with sent := false }, ?_⟩
    have hl : Ep.ledger ((({ s with evtGuard := none } : Ep Q).dropGuards [g]).dropCons [i]).nextCmd =
        s.ledger.event i false := by
      unfold EpLedger.event
      rw [if_neg Bool.false_ne_true, List.append_nil]
      exact ledger_still (List.append_nil _).symm nofun (data_moves (moves_dropCons s [i]))
    rw [hpc]
    exact hl
  | @refuseNew addr rsp config err hpc ha =>
    refine ⟨o, ?_⟩
    rw [hpc]
    refine (ledger_answer _ _ _ _).trans ?_
    show _ = s.ledger.onNewCon addr rsp
    unfold EpLedger.onNewCon
    rw [show Q.connect s.ledger.cid.cid.1 addr s.ledger.config = _ from ha]
    rfl
  | @spawnNew addr rsp config con c hpc ha =>
    refine ⟨o, ?_⟩
    have hlen : s.ledger.cons.length = s.cons.length := List.length_map _
    have hnew : Ep.ledger { s with
        cid := s.cid.cid.2, config
        cons := s.cons ++ [⟨s.cid.cid.1, addr, none, c⟩]
        pc := .newCon s.cons.length s.cid.cid.1 rsp } = s.ledger.create addr none config :=
      ledger_spawn rfl List.map_append
    rw [hpc]
    show _ = s.ledger.onNewCon addr rsp
    unfold EpLedger.onNewCon
    rw [show Q.connect s.ledger.cid.cid.1 addr s.ledger.config = _ from ha]
    dsimp only [EpPc.finish]
    rw [hnew, hlen]
    rfl
  | @answerNew i scid rsp hpc =>
    refine ⟨o, ?_⟩
    have hins := ledger_insert s scid i
    have hans : (s.insertCon scid i).answers = s.answers := congrArg (·.answers) hins
    rw [hpc]
    show (s.answerNewCon i scid rsp).ledger = _
    unfold answerNewCon
    rw [ledger_answer, hins, hans]
    rfl

/-- Where a run of `serial` is, when the endpoint is in `s`. -/
inductive Serialized (l₀ : EpLedger Q) (s : Ep Q) : Prop
  | idle {es} (hpc : s.pc = .recv) (hr : (serial Q).run es l₀ = some s.ledger)
    (hc : es.filterMap (·.cmd?) = s.takes)
  /-- Nothing was done of the command. -/
  | whole {es cmd} (hpc : s.pc.whole? = some cmd) (hr : (serial Q).run es l₀ = some s.ledger)
    (hc : es.filterMap (·.cmd?) ++ [cmd] = s.takes)
  /-- It was begun in `l`; since then `cid()` was called `k` times by others. -/
  | begun {es l cmd k} (hpc : s.pc ≠ .recv) (hw : s.pc.whole? = none)
    (hr : (serial Q).run es l₀ = some l) (hc : es.filterMap (·.cmd?) ++ [cmd] = s.takes)
    (hf : ∀ o, ∃ o', s.pc.finish s.ledger o = (l.handle cmd o').others k)

variable {l₀ l : EpLedger Q}

theorem run_others (l : EpLedger Q) (k : Nat) :
    (serial Q).run (List.replicate k .otherCid) l = some (l.others k) := by
  induction k with
  | zero => rfl
  | succ k ih =>
    rw [List.replicate_succ', Lts.run_append, ih]
    rfl

/-- The command and the calls of `cid()` after it. -/
theorem run_handle {es : List SerialAct} (hr : (serial Q).run es l₀ = some l) (cmd : EpCmd)
    (o : Outcome) (k : Nat) :
    (serial Q).run (es ++ .handle cmd o :: List.replicate k .otherCid) l₀ =
      some ((l.handle cmd o).others k) := by
  rw [Lts.run_append, hr]
  exact run_others (l.handle cmd o) k

theorem cmds_handle (es : List SerialAct) (cmd : EpCmd) (o : Outcome) (k : Nat) :
    (es ++ SerialAct.handle cmd o :: List.replicate k .otherCid).filterMap SerialAct.cmd? =
      es.filterMap SerialAct.cmd? ++ [cmd] := by
  have hnil : (List.replicate k SerialAct.otherCid).filterMap SerialAct.cmd? = [] := by
    rw [List.filterMap_eq_nil_iff]
    intro e he
    rw [List.eq_of_mem_replicate he]
    rfl
  rw [List.filterMap_append]
  exact congrArg (es.filterMap SerialAct.cmd? ++ cmd :: ·) hnil

/-- What is left to do of a command that was begun does not depend on the counter. -/
theorem finish_others {pc : EpPc} (hw : pc.whole? = none) (l : EpLedger Q) (o : Outcome) :
    pc.finish (l.others 1) o = (pc.finish l o).others 1 := by
  cases pc <;> first | rfl | cases hw

/-- A command that nothing was done of is one that was just taken, or nothing was done in the step. -/
theorem whole_task (ht : TaskStep s s') : s'.pc.whole? = none ∨ s.pc = .recv ∨
    s'.pc.whole? = s.pc.whole? ∧ s'.ledger = s.ledger := by
  cases ht with
  | take hpc => exact .inr (.inl hpc)
  | reserved hpc | reserve hpc => exact .inr (.inr ⟨by rw [hpc]; rfl, rfl⟩)
  | _ => exact .inl rfl

theorem serialized_task (h : Serialized l₀ s) (ht : TaskStep s s') : Serialized l₀ s' := by
  have htakes := takes_task ht
  have hfin := finish_task ht
  have hwhole := whole_task ht
  -- the command was begun in `l`
  have hgo : ∀ {es cmd k} {l : EpLedger Q}, s.pc ≠ .recv → s'.pc.whole? = none →
      (serial Q).run es l₀ = some l → es.filterMap (·.cmd?) ++ [cmd] = s.takes →
      (∀ o, ∃ o', s.pc.finish s.ledger o = (l.handle cmd o').others k) → Serialized l₀ s' := by
    intro es cmd k l hpc hw hr hc hf
    have hf' : ∀ o, ∃ o', s'.pc.finish s'.ledger o = (l.handle cmd o').others k := by
      intro o
      obtain ⟨o₁, h₁⟩ := hfin hpc o
      obtain ⟨o₂, h₂⟩ := hf o₁
      exact ⟨o₂, h₁.trans h₂⟩
    by_cases hpc' : s'.pc = .recv
    · obtain ⟨o, ho⟩ := hf' ⟨true, true, true⟩
      rw [hpc'] at ho
      have hrun := run_handle hr cmd o k
      rw [← ho] at hrun
      exact .idle hpc' hrun ((cmds_handle es cmd o k).trans (hc.trans (htakes hpc).symm))
    · exact .begun hpc' hw hr (hc.trans (htakes hpc).symm) hf'
  cases h with
  | idle hpc hr hc =>
    cases ht with
    | @take cmd g rest _ hq =>
      have hl : (s.log (.take cmd)).ledger = s.ledger := ledger_still (l := [.take cmd]) rfl
        (List.forall_mem_singleton.mpr ⟨rfl, rfl, rfl⟩) rfl
      have hw : (EpPc.evtGuard cmd).whole? = some cmd := rfl
      refine .whole hw (hr.trans (congrArg some hl.symm)) ?_
      rw [hc]
      exact (takes_append (s := s) (t := [.take cmd]) rfl).symm
    | reserved hp | reserve hp | streamEnd hp | streamErr hp | drop hp | refuse hp | accept hp
    | route hp | deliver hp | conEnded hp | permit hp | put hp | inCon hp | noInCon hp | refuseNew hp
    | spawnNew hp | answerNew hp => rw [hpc] at hp; cases hp
  | @whole es cmd hpc hr hc =>
    have hne : s.pc ≠ .recv := by
      intro hp
      rw [hp] at hpc
      cases hpc
    rcases hwhole with hw | hp | ⟨hw, hl⟩
    · refine hgo (k := 0) hne hw hr hc fun o => ⟨o, ?_⟩
      cases hp : s.pc with
      | evtGuard m | cmd m => rw [hp] at hpc; cases hpc; rfl
      | _ => rw [hp] at hpc; cases hpc
    · exact absurd hp hne
    · exact .whole (hw.trans hpc) (hl ▸ hr) (hc.trans (htakes hne).symm)
  | begun hpc hw hr hc hf =>
    rcases hwhole with hw' | hp | ⟨hw', -⟩
    · exact hgo hpc hw' hr hc hf
    · exact absurd hp hpc
    · exact hgo hpc (hw'.trans hw) hr hc hf

theorem serialized_other {a : EpAct} (h : Serialized l₀ s) (hs : step a s = some s')
    (hr : s.cmd.rx = true) (ha : a ≠ .task) : Serialized l₀ s' := by
  have hf := frame_step hs ha hr
  have htakes : s'.takes = s.takes := hf.filterMap_trace fun _ => rfl
  by_cases hc : a = .otherCid
  · subst hc
    cases hs
    have hl : ∀ {es}, (serial Q).run es l₀ = some s.ledger →
        (serial Q).run (es ++ [.otherCid]) l₀ = some (s.ledger.others 1) := by
      intro es he
      rw [Lts.run_append, he]
      rfl
    have hcmds : ∀ es : List SerialAct,
        (es ++ [SerialAct.otherCid]).filterMap SerialAct.cmd? = es.filterMap SerialAct.cmd? := fun es =>
      List.filterMap_append.trans (List.append_nil _)
    cases h with
    | idle hpc he hc => exact .idle hpc (hl he) ((hcmds _).trans hc)
    | whole hpc he hc => exact .whole hpc (hl he) ((congrArg (· ++ _) (hcmds _)).trans hc)
    | @begun es l cmd k hpc hw he hc hfin =>
      refine .begun (k := k + 1) hpc hw he hc fun o => ?_
      obtain ⟨o', ho⟩ := hfin o
      refine ⟨o', (finish_others hw s.ledger o).trans ?_⟩
      rw [ho]
      rfl
  · have hledger : s'.ledger = s.ledger := by
      unfold ledger
      rw [cid_other hs hr ha hc, hf.config, hf.conMap, data_moves hf.cons, fates_frame hf,
        show s'.inCons = s.inCons from hf.filterMap_trace fun _ => rfl,
        show s'.answers = s.answers from hf.filterMap_trace fun _ => rfl]
    cases h with
    | idle hpc he hc => exact .idle (hf.pc.trans hpc) (hledger ▸ he) (hc.trans htakes.symm)
    | whole hpc he hc =>
      exact .whole (by rw [hf.pc]; exact hpc) (hledger ▸ he) (hc.trans htakes.symm)
    | begun hpc hw he hc hfin =>
      exact .begun (by rw [hf.pc]; exact hpc) (by rw [hf.pc]; exact hw) he (hc.trans htakes.symm)
        (by rw [hf.pc, hledger]; exact hfin)

theorem serialized_init (h : (sys Q).init s) : (serial Q).init s.ledger ∧ Serialized s.ledger s := by
  obtain ⟨n, config, h3Config, rfl⟩ := h
  have hnil : (serial Q).run [] (quicheEp (Q := Q) (.after n) config h3Config).ledger =
    some (quicheEp (Q := Q) (.after n) config h3Config).ledger := rfl
  exact ⟨⟨n, config, h3Config, rfl⟩, .idle rfl hnil rfl⟩

theorem serialized_step {a : EpAct} (h : (sys Q).Reach s) (hi : Serialized l₀ s)
    (hs : step a s = some s') : Serialized l₀ s' := by
  rcases reach_cases h hs with ⟨rfl, ht⟩ | ⟨ha, -⟩
  · exact serialized_task hi ht
  · exact serialized_other hi hs (sys_control h).rx ha

/-- Between two commands. -/
theorem run_of_idle (h : Serialized l₀ s) (hpc : s.pc = .recv) :
    ∃ es, (serial Q).run es l₀ = some s.ledger ∧ es.filterMap (·.cmd?) = s.takes := by
  cases h with
  | @idle es _ he hc => exact ⟨es, he, hc⟩
  | whole hw => rw [hpc] at hw; cases hw
  | begun hne => exact absurd hpc hne

/-- Between two commands the ledger is one that `serial` reaches. -/
theorem reach_serial (h : (sys Q).Reach s) (hpc : s.pc = .recv) : (serial Q).Reach s.ledger := by
  obtain ⟨l₀, h₀, hi⟩ : ∃ l₀, (serial Q).init l₀ ∧ Serialized l₀ s := by
    refine h.invariant (I := fun s => ∃ l₀, (serial Q).init l₀ ∧ Serialized l₀ s)
      (fun s h₀ => ⟨s.ledger, serialized_init h₀⟩) ?_
    rintro a s s' hr ⟨l₀, h₀, hi⟩ hs
    exact ⟨l₀, h₀, serialized_step hr hi hs⟩
  obtain ⟨es, hr, -⟩ := run_of_idle hi hpc
  exact .run h₀ hr

/-- In every run (module doc). -/
theorem serialized {as : List EpAct} {s₀ : Ep Q} (h₀ : (sys Q).init s₀)
    (hr : (sys Q).run as s₀ = some s) (hpc : s.pc = .recv) : (serial Q).init s₀.ledger ∧
      ∃ es, (serial Q).run es s₀.ledger = some s.ledger ∧ es.filterMap (·.cmd?) = s.takes := by
  have h : Serialized s₀.ledger s := by
    have hsteps := Lts.Steps.run hr (P := fun _ => True) fun _ _ => trivial
    exact (hsteps.invariant (I := fun s => (sys Q).Reach s ∧ Serialized s₀.ledger s)
      (fun a s s' _ hi hs => ⟨.step a hi.1 hs, serialized_step hi.1 hi.2 hs⟩)
      ⟨.init h₀, (serialized_init h₀).2⟩).2
  exact ⟨(serialized_init h₀).1, run_of_idle h hpc⟩

/-- While a packet is accepted, another endpoint takes an id; then `connect()` is called. -/
def interrupted : List EpAct :=
  EpAct.packet [7] 3 ++ .otherCid :: List.replicate 3 .task ++
    [.connect .unspecified, .connAcquire 0, .connSend 0] ++ List.replicate 4 .task

theorem serialized_interrupted : ∃ s : Ep (Quiche.inert ()),
    s.pc = .recv ∧ s.cons.map (·.scid) = [cidOf 0, cidOf 2] ∧
      ∃ es, (serial (Quiche.inert ())).run es (quicheEp (.after 0) () none).ledger = some s.ledger ∧
        es.filterMap (·.cmd?) = s.takes := by
  obtain ⟨s₀, h₀⟩ : ∃ s₀ : Ep (Quiche.inert ()), s₀ = quicheEp (.after 0) () none := ⟨_, rfl⟩
  have hrun : ((sys (Quiche.inert ())).run interrupted s₀).any fun s =>
      decide (s.pc = .recv ∧ s.cons.map (·.scid) = [cidOf 0, cidOf 2]) := by
    subst h₀; decide +kernel
  obtain ⟨s, hr, hs⟩ := (Option.any_eq_true _ _).mp hrun
  obtain ⟨hpc, hids⟩ := of_decide_eq_true hs
  exact ⟨s, hpc, hids, h₀ ▸ (serialized ⟨0, (), none, h₀⟩ hr hpc).2⟩

end Ep
end Absquic
