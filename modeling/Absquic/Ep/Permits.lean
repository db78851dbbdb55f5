import Absquic.Ep.Control
import Absquic.Conn.Permits

/-!
# The permits of an endpoint

The commands of `ep_task` carry guards of other semaphores than the command channel's own: `InPak`
one of `udp_task`'s, `NewCon` one of `QuicheEp.limit`. `Permits` is what every step keeps: for each
semaphore the free permits and the guards everywhere add up to its limit, and each place holds
guards of its own semaphore only. So (`sys_ledger`) at most 64 commands of each kind are queued or
being handled, whatever the other kind does, and the event channel's permits are its free ones, its
queued events and `evt_guard`.
-/

namespace Absquic

/-- The semaphore whose guard comes with a command. -/
def EpCmd.sem : EpCmd → EpSem
  | .inPak _ => .udpLimit
  | .newCon _ _ => .limit

/-- The semaphore of the guard of the command that `ep_task` handles. -/
def EpPc.sem? : EpPc → Option EpSem
  | .recv | .ended _ => none
  | .evtGuard m | .cmd m => some m.sem
  | .route _ _ _ | .accepted _ _ _ | .acceptSend _ _ _ | .inCon _ => some .udpLimit
  | .newCon _ _ _ => some .limit

/-- `con_task` waits, no command is queued, and no `http3()` call has a permit. -/
def Con.Idle {Q : Quiche} (c : Con Q) : Prop :=
  c.pc = .recv ∧ c.cmd.queue = [] ∧ c.callGuards = []
deriving Decidable

namespace Ep

variable {Q : Quiche}

/-- The guards of the `connect()` calls. -/
def connGuards (s : Ep Q) : List EpSem := s.connects.filterMap (·.guard?)

/-- The guards in the places of the commands. -/
def cmdSide (s : Ep Q) : List EpSem :=
  s.cmd.guards ++ s.cmdGuard.toList ++ s.connGuards ++ s.udpGuard.toList

/-- The guards in the places of the events. -/
def evtSide (s : Ep Q) : List EpSem := s.evt.guards ++ s.evtGuard.toList

/-- The free permits of a semaphore and its guards everywhere. -/
def total (s : Ep Q) (k : EpSem) : Nat :=
  (match k with
    | .limit => s.limit
    | .udpLimit => s.udpLimit
    | .cmd => s.cmd.free
    | .evt => s.evt.free) + s.cmdSide.count k + s.evtSide.count k

/-- What every step keeps (module doc). -/
structure Permits (s : Ep Q) : Prop where
  total : ∀ k, s.total k = 64
  queue : ∀ m ∈ s.cmd.queue, m.2 = m.1.sem
  hand : s.cmdGuard = s.pc.sem?
  conns : ∀ g ∈ s.connGuards, g = .limit
  udp : ∀ g ∈ s.udpGuard, g = .udpLimit
  evts : ∀ g ∈ s.evtSide, g = .evt

variable {s s' : Ep Q}

/-- The same permits in the same places. -/
theorem Permits.of_eq (h : Permits s) (hl : s'.limit = s.limit) (hu : s'.udpLimit = s.udpLimit)
    (hc : s'.cmd = s.cmd) (he : s'.evt = s.evt) (hn : s'.connGuards = s.connGuards)
    (hg : s'.udpGuard = s.udpGuard) (hcg : s'.cmdGuard = s.cmdGuard) (heg : s'.evtGuard = s.evtGuard)
    (hp : s'.pc.sem? = s.pc.sem?) : Permits s' := by
  have hcs : s'.cmdSide = s.cmdSide := by unfold cmdSide; rw [hc, hcg, hn, hg]
  have hes : s'.evtSide = s.evtSide := by unfold evtSide; rw [he, heg]
  refine ⟨fun k => ?_, by rw [hc]; exact h.queue, by rw [hcg, hp]; exact h.hand,
    by rw [hn]; exact h.conns, by rw [hg]; exact h.udp, by rw [hes]; exact h.evts⟩
  rw [← h.total k]
  unfold Ep.total
  rw [hcs, hes, hl, hu, hc, he]

theorem total_dropGuards (s : Ep Q) (gs : List EpSem) (k : EpSem) :
    (s.dropGuards gs).total k = s.total k + gs.count k := by
  cases k <;> simp only [total, dropGuards, Chan.free_release] <;>
    simp only [cmdSide, evtSide, connGuards, Chan.guards, Chan.queue_release] <;> omega

/-- The command is handled: its guard is dropped. -/
theorem permits_nextCmd (h : Permits s) : Permits s.nextCmd := by
  have ht : ∀ k, ({ s with cmdGuard := none } : Ep Q).total k + s.cmdGuard.toList.count k = 64 := by
    intro k
    rw [← h.total k]
    cases k <;> simp only [total, cmdSide, evtSide, connGuards, List.count_append, Option.toList_none,
      List.count_nil] <;> omega
  refine ⟨fun k => ?_, h.queue, rfl, h.conns, h.udp, h.evts⟩
  rw [← ht k, ← total_dropGuards]
  rfl

/-! ## `ep_task` -/

@[simp] theorem connGuards_set {k : Nat} {x : ConnectCall}
    (hk : s.connects[k]?.bind (·.guard?) = none) (hx : x.guard? = none) :
    (s.connects.set k x).filterMap (·.guard?) = s.connGuards :=
  List.filterMap_set_none hk hx

theorem connGuards_answer (s : Ep Q) (rsp : Nat) (result : Result Nat) :
    (s.answer rsp result).connGuards = s.connGuards := by
  unfold answer
  split
  · next hw => exact connGuards_set (by rw [hw]; rfl) rfl
  · rfl

theorem permits_answer (h : Permits s) (rsp : Nat) (result : Result Nat) :
    Permits (s.answer rsp result) := by
  have he := answer_eq s rsp result
  refine h.of_eq ?_ ?_ ?_ ?_ (connGuards_answer s rsp result) ?_ ?_ ?_ ?_ <;> rw [he]

theorem permits_insertCon (h : Permits s) (scid : ConnectionId) (i : Nat) :
    Permits (s.insertCon scid i) := by
  rw [insertCon_eq]
  exact h.of_eq rfl rfl rfl rfl rfl rfl rfl rfl rfl

theorem permits_take {cmd : EpCmd} {g : EpSem} {rest : List (EpCmd × EpSem)} (h : Permits s)
    (hpc : s.pc = .recv) (hq : s.cmd.queue = (cmd, g) :: rest) : Permits ({ s with
      cmd := { s.cmd with queue := rest }, pc := .evtGuard cmd, cmdGuard := some g }.log
        (.take cmd)) := by
  have hg : s.cmdGuard = none := by rw [h.hand, hpc]; rfl
  have hm := h.queue (cmd, g) (by rw [hq]; exact List.mem_cons_self)
  refine ⟨fun k => ?_, fun m hm => h.queue m (by rw [hq]; exact List.mem_cons_of_mem _ hm),
    congrArg some hm, h.conns, h.udp, h.evts⟩
  rw [← h.total k]
  cases k <;> simp only [total, log, cmdSide, evtSide, connGuards, Chan.guards, hq, hg,
    List.count_append, List.map_cons, Option.toList_some, Option.toList_none, List.count_nil,
    List.count_cons] <;> omega

theorem permits_reserve {cmd : EpCmd} (h : Permits s) (hpc : s.pc = .evtGuard cmd)
    (hg : s.evtGuard = none) (hf : 0 < s.evt.free) : Permits { s with
      evt := { s.evt with free := s.evt.free - 1 }, evtGuard := some .evt, pc := .cmd cmd } := by
  refine ⟨fun k => ?_, h.queue, ?_, h.conns, h.udp, fun g hg' => ?_⟩
  · rw [← h.total k]
    cases k <;> simp only [total, cmdSide, evtSide, connGuards, Chan.guards, hg, List.count_append,
      Option.toList_some, Option.toList_none, List.count_nil, List.count_singleton] <;> (simp; try omega)
  · rw [h.hand, hpc]; rfl
  · rcases List.mem_append.mp hg' with hg' | hg'
    · exact h.evts g (List.mem_append_left _ hg')
    · exact List.mem_singleton.mp hg'

/-- The event was queued, with `evt_guard`. -/
theorem permits_inCon {i : Nat} {g : EpSem} (h : Permits s) (hg : s.evtGuard = some g) :
    Permits { s with evtGuard := none, evt := s.evt.push (.inCon i) g } := by
  have hs : ({ s with evtGuard := none, evt := s.evt.push (.inCon i) g } : Ep Q).evtSide =
      s.evtSide := by
    simp [evtSide, Chan.guards, hg]
  refine ⟨fun k => ?_, h.queue, h.hand, h.conns, h.udp, by rw [hs]; exact h.evts⟩
  rw [← h.total k]
  unfold Ep.total
  rw [hs]
  rfl

/-- Guards that leave their places and are dropped. -/
theorem permits_drop {d : Ep Q} {gs : List EpSem} (ht : ∀ k, d.total k + gs.count k = 64)
    (hq : ∀ m ∈ d.cmd.queue, m.2 = m.1.sem) (hh : d.cmdGuard = d.pc.sem?)
    (hc : ∀ g ∈ d.connGuards, g = .limit) (hu : ∀ g ∈ d.udpGuard, g = .udpLimit)
    (he : ∀ g ∈ d.evtSide, g = .evt) : Permits (d.dropGuards gs) :=
  ⟨fun k => by rw [total_dropGuards, ht], hq, hh, hc, hu, he⟩

theorem permits_noInCon {g : EpSem} (h : Permits s) (hg : s.evtGuard = some g) :
    Permits (({ s with evtGuard := none } : Ep Q).dropGuards [g]) := by
  refine permits_drop (fun k => ?_) h.queue h.hand h.conns h.udp
    fun g hg => h.evts g (List.mem_append_left _ ((List.mem_append.mp hg).resolve_right nofun))
  rw [← h.total k]
  cases k <;> simp only [total, cmdSide, evtSide, connGuards, hg, List.count_append,
    Option.toList_none, Option.toList_some, List.count_nil] <;> omega

/-- The steps of `ep_task`. -/
theorem permits_task (h : Permits s) (ht : TaskStep s s') : Permits s' := by
  cases ht with
  | take hpc hq => exact permits_take h hpc hq
  | reserved hpc hg => exact h.of_eq rfl rfl rfl rfl rfl rfl rfl rfl (by rw [hpc]; rfl)
  | reserve hpc hg hf => exact permits_reserve h hpc hg hf
  | streamEnd | drop | refuse => exact permits_nextCmd (h.of_eq rfl rfl rfl rfl rfl rfl rfl rfl rfl)
  | streamErr => exact permits_nextCmd h
  | deliver | conEnded =>
    exact permits_nextCmd (h.of_eq rfl rfl rfl rfl rfl rfl rfl rfl rfl)
  | accept hpc | route hpc | permit hpc | spawnNew hpc =>
    exact h.of_eq rfl rfl rfl rfl rfl rfl rfl rfl (by rw [hpc]; rfl)
  | @put i scid pak r c ok hpc =>
    have h1 : Permits ((s.modCon i fun _ => c).log (.fate pak (.created i ok))) :=
      h.of_eq rfl rfl rfl rfl rfl rfl rfl rfl rfl
    have h2 := permits_insertCon h1 scid i
    refine h2.of_eq rfl rfl rfl rfl rfl rfl rfl rfl ?_
    rw [insertCon_eq]
    show _ = s.pc.sem?
    rw [hpc]
    rfl
  | inCon hpc hg =>
    exact permits_nextCmd ((permits_inCon h hg).of_eq rfl rfl rfl rfl rfl rfl rfl rfl rfl)
  | noInCon hpc hg =>
    exact permits_nextCmd ((permits_noInCon h hg).of_eq rfl rfl rfl rfl rfl rfl rfl rfl rfl)
  | @refuseNew addr rsp config err =>
    have h1 : Permits ({ s with cid := s.cid.cid.2, config } : Ep Q) :=
      h.of_eq rfl rfl rfl rfl rfl rfl rfl rfl rfl
    exact permits_nextCmd ((permits_answer h1 rsp _).of_eq rfl rfl rfl rfl rfl rfl rfl rfl rfl)
  | @answerNew i scid rsp =>
    have h1 := permits_answer (permits_insertCon h scid i) rsp (.ok i)
    exact permits_nextCmd (h1.of_eq rfl rfl rfl rfl rfl rfl rfl rfl rfl)

/-! ## The other parties -/

/-- A command is queued with the guard of its own semaphore, which leaves its place. -/
theorem permits_send {d : Ep Q} {cmd : EpCmd} {g : EpSem}
    (ht : ∀ k, d.total k + [g].count k = 64) (hg : g = cmd.sem)
    (hq : ∀ m ∈ d.cmd.queue, m.2 = m.1.sem) (hh : d.cmdGuard = d.pc.sem?)
    (hc : ∀ g ∈ d.connGuards, g = .limit) (hu : ∀ g ∈ d.udpGuard, g = .udpLimit)
    (he : ∀ g ∈ d.evtSide, g = .evt) : Permits { d with cmd := d.cmd.push cmd g } := by
  refine ⟨fun k => ?_, fun m hm => ?_, hh, hc, hu, he⟩
  · rw [← ht k]
    cases k <;> simp only [total, cmdSide, evtSide, connGuards, Chan.guards, Chan.push,
      List.map_append, List.map_cons, List.map_nil, List.count_append] <;> omega
  · rcases List.mem_append.mp hm with hm | hm
    · exact hq m hm
    · rw [List.mem_singleton.mp hm]; exact hg

/-- `udp_task` hands on an item. -/
theorem permits_udpSend (h : Permits s) {cmd : EpCmd} {g : EpSem} (hg : s.udpGuard = some g)
    (hcmd : cmd.sem = .udpLimit) :
    Permits { s with udpGuard := none, cmd := s.cmd.push cmd g } := by
  refine permits_send (d := { s with udpGuard := none }) (fun k => ?_)
    ((h.udp g hg).trans hcmd.symm) h.queue h.hand h.conns nofun h.evts
  rw [← h.total k]
  cases k <;> simp only [total, cmdSide, evtSide, connGuards, hg, List.count_append,
    Option.toList_none, Option.toList_some, List.count_nil] <;> omega

/-- One call changes. -/
theorem count_connGuards_set {k : Nat} {x : ConnectCall} (y : ConnectCall)
    (h : s.connects[k]? = some x) (sem : EpSem) :
    ((s.connects.set k y).filterMap (·.guard?)).count sem + x.guard?.toList.count sem =
      s.connGuards.count sem + y.guard?.toList.count sem :=
  List.count_filterMap_set y h sem

theorem mem_connGuards_set {k : Nat} {y : ConnectCall} {g : EpSem}
    (h : g ∈ (s.connects.set k y).filterMap (·.guard?)) : g ∈ s.connGuards ∨ y.guard? = some g := by
  obtain ⟨x, hx, hg⟩ := List.mem_filterMap.mp h
  rcases List.mem_or_eq_of_mem_set hx with hx | rfl
  · exact .inl (List.mem_filterMap.mpr ⟨x, hx, hg⟩)
  · exact .inr hg

/-- A `connect()` call has its permit. -/
theorem permits_connAcquire (h : Permits s) {k : Nat} {addr : SocketAddr}
    (hk : s.connects[k]? = some (.acquire addr)) (hf : s.limit ≠ 0) :
    Permits { s with limit := s.limit - 1, connects := s.connects.set k (.send addr .limit) } := by
  have hset := count_connGuards_set (.send addr .limit) hk
  refine ⟨fun k => ?_, h.queue, h.hand, fun g hg => ?_, h.udp, h.evts⟩
  · rw [← h.total k]
    have := hset k
    cases k <;> simp [total, cmdSide, evtSide, connGuards, ConnectCall.guard?] at this ⊢ <;> omega
  · rcases mem_connGuards_set hg with hg | hg
    · exact h.conns g hg
    · exact (Option.some.inj hg).symm

/-- Its permit goes with the command. -/
theorem permits_connSend (h : Permits s) {k : Nat} {addr : SocketAddr} {g : EpSem}
    (hk : s.connects[k]? = some (.send addr g)) :
    Permits { s with cmd := s.cmd.push (.newCon addr k) g, connects := s.connects.set k .wait } := by
  have hset := count_connGuards_set .wait hk
  refine permits_send (d := { s with connects := s.connects.set k .wait }) (fun k => ?_)
    (h.conns g (List.mem_filterMap.mpr ⟨_, List.mem_of_getElem? hk, rfl⟩)) h.queue h.hand
    (fun g hg => ?_) h.udp h.evts
  · rw [← h.total k]
    have := hset k
    cases k <;> simp only [total, cmdSide, evtSide, connGuards, ConnectCall.guard?,
      List.count_append, Option.toList_none, Option.toList_some, List.count_nil] at this ⊢ <;> omega
  · exact h.conns g ((mem_connGuards_set hg).resolve_right nofun)

/-- A `connect()` call is dropped, with its permit. -/
theorem permits_connCancel (h : Permits s) {k : Nat} {x : ConnectCall}
    (hk : s.connects[k]? = some x) :
    Permits (({ s with connects := s.connects.set k .cancelled } : Ep Q).dropGuards
      x.guard?.toList) := by
  have hset := count_connGuards_set .cancelled hk
  refine permits_drop (fun k => ?_) h.queue h.hand
    (fun g hg => h.conns g ((mem_connGuards_set hg).resolve_right nofun)) h.udp h.evts
  rw [← h.total k]
  have := hset k
  cases k <;> simp only [total, cmdSide, evtSide, connGuards, ConnectCall.guard?,
    List.count_append, Option.toList_none, List.count_nil] at this ⊢ <;> omega

/-- An event arrives, and its permit is free. -/
theorem permits_evtPoll (h : Permits s) {i : Nat} {g : EpSem} {rest : List (EpEvt × EpSem)}
    (hq : s.evt.queue = (.inCon i, g) :: rest) :
    Permits (({ s with evt := { s.evt with queue := rest } } : Ep Q).dropGuards [g]) := by
  refine permits_drop (fun k => ?_) h.queue h.hand h.conns h.udp fun g' hg' => ?_
  · rw [← h.total k]
    cases k <;> simp only [total, cmdSide, evtSide, connGuards, Chan.guards, hq,
      List.count_append, List.map_cons, List.count_cons, List.count_nil] <;> omega
  · refine h.evts g' ?_
    unfold evtSide Chan.guards at hg' ⊢
    rw [hq]
    exact List.mem_cons_of_mem _ hg'

theorem permits_dropRecv (h : Permits s) : Permits s.dropRecv := by
  have hd : Permits (({ s with evt := s.evt.close } : Ep Q).dropGuards s.evt.guards) := by
    refine permits_drop (fun k => ?_) h.queue h.hand h.conns h.udp fun g hg => ?_
    · rw [← h.total k]
      cases k <;> simp only [total, cmdSide, evtSide, connGuards, Chan.guards, Chan.close,
        List.count_append, List.map_nil, List.count_nil] <;> omega
    · exact h.evts g (List.mem_append_right _ hg)
  exact hd.of_eq rfl rfl rfl rfl rfl rfl rfl rfl rfl

/-- The steps of the other parties. -/
theorem permits_step {a : EpAct} (h : Permits s) (hs : step a s = some s') (ha : a ≠ .task)
    (hr : s.cmd.rx = true) : Permits s' := by
  cases otherStep_cases hs ha hr with
  | udpAcquire _ hg hf =>
    refine ⟨fun k => ?_, h.queue, h.hand, h.conns, fun g hg => (Option.mem_some_iff.mp hg).symm,
      h.evts⟩
    rw [← h.total k]
    cases k <;> simp only [total, cmdSide, evtSide, connGuards, hg, List.count_append,
      Option.toList_none, Option.toList_some, List.count_nil, List.count_singleton] <;>
      (simp; try omega)
  | udpEnd _ hg => exact (permits_udpSend h hg rfl).of_eq rfl rfl rfl rfl rfl rfl rfl rfl rfl
  | udpSend _ hg => exact (permits_udpSend h hg rfl).of_eq rfl rfl rfl rfl rfl rfl rfl rfl rfl
  | @connect addr =>
    have hn : (s.connects ++ [ConnectCall.acquire addr]).filterMap (·.guard?) = s.connGuards := by
      rw [List.filterMap_append]; exact List.append_nil _
    exact h.of_eq rfl rfl rfl rfl hn rfl rfl rfl rfl
  | connAcquire hk hf => exact permits_connAcquire h hk hf
  | connSend hk => exact permits_connSend h hk
  | connFails hk =>
    exact h.of_eq rfl rfl rfl rfl (connGuards_set (by rw [hk]; rfl) rfl) rfl rfl rfl rfl
  | connGives hk =>
    exact h.of_eq rfl rfl rfl rfl (connGuards_set (by rw [hk]; rfl) rfl) rfl rfl rfl rfl
  | connCancel hk => exact (permits_connCancel h hk).of_eq rfl rfl rfl rfl rfl rfl rfl rfl rfl
  | evtPoll hq => exact (permits_evtPoll h hq).of_eq rfl rfl rfl rfl rfl rfl rfl rfl rfl
  | dropRecv => exact permits_dropRecv h
  | _ => exact h.of_eq rfl rfl rfl rfl rfl rfl rfl rfl rfl

theorem permits_init (h : (sys Q).init s) : Permits s := by
  obtain ⟨n, config, h3Config, rfl⟩ := h
  exact ⟨fun k => by cases k <;> rfl, nofun, rfl, nofun, nofun, nofun⟩

theorem sys_permits (h : (sys Q).Reach s) : Permits s :=
  h.invariant (fun _ => permits_init) fun a s s' hr hp hs => by
    rcases reach_cases hr hs with ⟨-, ht⟩ | ⟨ha, -⟩
    · exact permits_task hp ht
    · exact permits_step hp hs ha (sys_control hr).rx

/-! ## The sums -/

/-- The commands that come with a guard of `k`, queued or being handled. -/
def commands (s : Ep Q) (k : EpSem) : Nat :=
  s.cmd.queue.countP (fun m => m.1.sem = k) + s.pc.sem?.toList.count k

/-- Each permit of an endpoint is free or in a place of its own semaphore. -/
structure Ledger (s : Ep Q) : Prop where
  /-- A queued command comes with the guard of its kind, -/
  queue : ∀ m ∈ s.cmd.queue, m.2 = m.1.sem
  /-- and so does the one being handled. -/
  hand : s.cmdGuard = s.pc.sem?
  evtTag : ∀ g ∈ s.evtSide, g = .evt
  evt : s.evt.free + s.evt.queue.length + s.evtGuard.toList.length = 64
  /-- `InPak`: with the permit that `udp_task` has for its next packet. -/
  inPaks : s.udpLimit + s.commands .udpLimit + s.udpGuard.toList.length = 64
  /-- `NewCon`: with the permits of the `connect()` calls that are about to send. -/
  newCons : s.limit + s.commands .limit + s.connGuards.length = 64

namespace Permits

theorem count_evtSide (h : Permits s) {k : EpSem} (hk : k ≠ .evt) : s.evtSide.count k = 0 :=
  List.count_eq_zero.mpr fun hm => hk (h.evts k hm)

theorem count_connGuards (h : Permits s) {k : EpSem} (hk : k ≠ .limit) : s.connGuards.count k = 0 :=
  List.count_eq_zero.mpr fun hm => hk (h.conns k hm)

theorem count_udpGuard (h : Permits s) {k : EpSem} (hk : k ≠ .udpLimit) :
    s.udpGuard.toList.count k = 0 :=
  List.count_eq_zero.mpr fun hm => hk (h.udp k (Option.mem_toList.mp hm))

/-- The guards of a kind of commands, in the queue and in the hand of `ep_task`. -/
theorem commands_eq (h : Permits s) (k : EpSem) :
    s.cmd.guards.count k + s.cmdGuard.toList.count k = s.commands k := by
  unfold commands Chan.guards
  rw [h.hand, List.count, List.countP_map]
  congr 1
  refine List.countP_congr fun m hm => ?_
  rw [Function.comp_apply, h.queue m hm]
  simp

theorem commands_zero {k : EpSem} (hl : k ≠ .limit) (hu : k ≠ .udpLimit) :
    s.commands k = 0 := by
  have hsem : ∀ m : EpCmd, m.sem ≠ k := fun m hm => by
    cases m with
    | inPak pak => exact hu hm.symm
    | newCon addr rsp => exact hl hm.symm
  have hpc : ∀ g ∈ s.pc.sem?, g ≠ k := fun g hg he => by
    cases hp : s.pc <;> rw [hp] at hg <;> cases hg <;>
      first | exact hsem _ he | exact hu he.symm | exact hl he.symm
  unfold commands
  rw [List.countP_eq_zero.mpr fun m _ => by simpa using hsem m.1,
    List.count_eq_zero.mpr fun hm => hpc k (Option.mem_toList.mp hm) rfl]

/-- The sum of one semaphore. -/
theorem sum (h : Permits s) (k : EpSem) :
    (match k with
      | .limit => s.limit
      | .udpLimit => s.udpLimit
      | .cmd => s.cmd.free
      | .evt => s.evt.free) + s.commands k + s.connGuards.count k + s.udpGuard.toList.count k +
        s.evtSide.count k = 64 := by
  have ht := h.total k
  have hc := h.commands_eq k
  unfold Ep.total cmdSide at ht
  simp only [List.count_append] at ht
  omega

theorem ledger (h : Permits s) : Ledger s := by
  refine ⟨h.queue, h.hand, h.evts, ?_, ?_, ?_⟩
  · have ht := h.sum .evt
    have he : s.evtSide.count .evt = s.evtSide.length :=
      List.count_eq_length.mpr fun g hg => (h.evts g hg).symm
    rw [commands_zero (by decide) (by decide), h.count_connGuards (by decide),
      h.count_udpGuard (by decide), he] at ht
    simp only [evtSide, Chan.guards, List.length_append, List.length_map] at ht
    omega
  · have ht := h.sum .udpLimit
    have hu : s.udpGuard.toList.count .udpLimit = s.udpGuard.toList.length :=
      List.count_eq_length.mpr fun g hg => (h.udp g (Option.mem_toList.mp hg)).symm
    rw [h.count_connGuards (by decide), h.count_evtSide (by decide), hu] at ht
    exact ht
  · have ht := h.sum .limit
    have hl : s.connGuards.count .limit = s.connGuards.length :=
      List.count_eq_length.mpr fun g hg => (h.conns g hg).symm
    rw [h.count_udpGuard (by decide), h.count_evtSide (by decide), hl] at ht
    exact ht

end Permits

theorem sys_ledger (h : (sys Q).Reach s) : Ledger s := (sys_permits h).ledger

/-- No permit of an endpoint or of its connections is lost or duplicated, and each kind of commands
stays within its own quota. -/
theorem permits_conserved (h : (sys Q).Reach s) :
    (∀ (i : Nat) r, s.cons[i]? = some r → r.con.Ledger) ∧ s.Ledger ∧
      s.commands .udpLimit ≤ 64 ∧ s.commands .limit ≤ 64 := by
  have hl := sys_ledger h
  refine ⟨fun i r hr => Con.sys_ledger (cons_reach h hr), hl, ?_, ?_⟩
  · have := hl.inPaks; omega
  · have := hl.newCons; omega

/-- A library whose timer always has 1000 time units left. -/
def slowTimer : Quiche := { Quiche.inert () with timeout := fun _ _ => some 1000 }

/-- An endpoint with an `InPak` and a `NewCon` in its queue and an event in the other one, and a
connection with two packets in its queue and a timer asleep. -/
theorem permits_conserved_queued : ∃ s : Ep slowTimer, ∃ r, s.cons[0]? = some r ∧
    (s.cmd.queue.length = 2 ∧ s.evt.queue.length = 1 ∧ s.Ledger) ∧
      r.con.cmd.queue.length = 2 ∧ r.con.sleepers.length = 1 ∧ r.con.Ledger := by
  obtain ⟨s, hr, h⟩ := Lts.Reach.of_run_any (S := sys slowTimer)
    (EpAct.packet [] 6 ++ List.replicate 6 (.con 0 .task) ++ EpAct.packet (cidOf 0) 4 ++
      EpAct.packet [] 0 ++ [.connect .unspecified, .connAcquire 0, .connSend 0])
    (fun s => decide (s.cmd.queue.length = 2 ∧ s.evt.queue.length = 1) &&
      s.cons[0]?.any fun (r : EpCon _) =>
        decide (r.con.cmd.queue.length = 2 ∧ r.con.sleepers.length = 1))
    ⟨0, (), none, rfl⟩ (by decide +kernel)
  obtain ⟨hs, h⟩ := Bool.and_eq_true_iff.mp h
  obtain ⟨hcmd, hevt⟩ := of_decide_eq_true hs
  obtain ⟨r, hc, h⟩ := (Option.any_eq_true _ _).mp h
  obtain ⟨hq, hsl⟩ := of_decide_eq_true h
  obtain ⟨hcons, hl, -⟩ := permits_conserved hr
  exact ⟨s, r, hc, ⟨hcmd, hevt, hl⟩, hq, hsl, hcons 0 r hc⟩

/-! ## A connection that waits -/

/-- While `con_task` waits and no command is queued or about to be, `try_acquire` finds a permit
unless the sleeping timers (and `ep_task` itself) have them all. -/
theorem idle_acquire_iff (h : (sys Q).Reach s) {i : Nat} {r : EpCon Q} (hr : s.cons[i]? = some r)
    (hi : r.con.Idle) : r.con.cmd.acquire.isSome ↔
      r.con.sleepers.length + r.con.epGuard.toList.length < 64 := by
  obtain ⟨hpc, hq, hc⟩ := hi
  have hcr := cons_reach h hr
  have hl := (Con.sys_ledger hcr).cmd
  have hg : r.con.cmdGuard = none := (Con.sys_control hcr).idle hpc
  rw [hq, hc, hg] at hl
  rw [Chan.acquire_isSome]
  simp only [List.length_nil, Option.toList_none] at hl
  omega

/-- After three packets, with the `Tick` and each of them asleep as a timer. -/
theorem idle_acquire_three : ∃ s : Ep slowTimer, ∃ r, s.cons[0]? = some r ∧
    r.con.sleepers.length = 4 ∧ r.con.cmd.free = 60 ∧ r.con.cmd.acquire.isSome := by
  obtain ⟨s, hr, h⟩ := Lts.Reach.of_run_any (S := sys slowTimer)
    (EpAct.packet [] 6 ++ List.replicate 12 (.con 0 .task) ++
      (List.replicate 2 (EpAct.packet (cidOf 0) 4 ++ List.replicate 6 (.con 0 .task))).flatten)
    (fun s => s.cons[0]?.any fun (r : EpCon _) =>
      decide (r.con.Idle ∧ r.con.sleepers.length = 4 ∧ r.con.cmd.free = 60 ∧
        r.con.sleepers.length + r.con.epGuard.toList.length < 64))
    ⟨0, (), none, rfl⟩ (by decide +kernel)
  obtain ⟨r, hc, h⟩ := (Option.any_eq_true _ _).mp h
  obtain ⟨hi, hs, hf, hn⟩ := of_decide_eq_true h
  exact ⟨s, r, hc, hs, hf, (idle_acquire_iff hr hc hi).mpr hn⟩

/-- After 64 packets, each of which re-armed the timer, the sleeping timers have all the permits. -/
theorem not_idle_acquire : ¬ ∀ (Q : Quiche) (s : Ep Q), (sys Q).Reach s → ∀ (i : Nat) r,
    s.cons[i]? = some r → r.con.Idle → r.con.cmd.acquire.isSome := by
  intro h
  obtain ⟨s, hr, hs⟩ := Lts.Reach.of_run_any (S := sys slowTimer)
    (EpAct.packet [] 6 ++ List.replicate 12 (.con 0 .task) ++
      (List.replicate 62 (EpAct.packet (cidOf 0) 4 ++ List.replicate 6 (.con 0 .task))).flatten)
    (fun s => s.cons[0]?.any fun (r : EpCon _) =>
      decide (r.con.Idle ∧ r.con.cmd.acquire.isSome = false))
    ⟨0, (), none, rfl⟩ (by decide +kernel)
  obtain ⟨r, hc, hs⟩ := (Option.any_eq_true _ _).mp hs
  obtain ⟨hi, hn⟩ := of_decide_eq_true hs
  rw [h slowTimer s hr 0 r hc hi] at hn
  cases hn

end Ep
end Absquic
