import Absquic.Conn.Control
import Absquic.Lib.List

/-!
# The permits of a connection

`cmdSide` and `evtSide` are the guards in the places of the command channel and of the event
channel. A step of any party moves guards between places, takes a permit into a place, or drops
guards, which gives their permits back; `Balance c c'` is what all of them keep: the sum of the free
permits of each semaphore and of its guards everywhere, and no guard gets to a place of the other
channel. So (`Ledger`, `sys_ledger`) in every reachable state each channel's free permits and the
guards in its places add up to the channel's limit.
-/

namespace Absquic
namespace Con

variable {Q : Quiche}

/-- The guards of the `http3()` calls. -/
def callGuards (c : Con Q) : List ConSem := c.calls.filterMap (·.guard?)

/-- The guards in the places of the command channel: queued commands, the command being handled,
sleepers, `http3()` calls, `ep_task`. -/
def cmdSide (c : Con Q) : List ConSem :=
  c.cmd.guards ++ c.cmdGuard.toList ++ c.sleepers.map (·.guard) ++ c.callGuards ++ c.epGuard.toList

/-- The guards in the places of the event channel: queued events, `evt_guard`. -/
def evtSide (c : Con Q) : List ConSem := c.evt.guards ++ c.evtGuard.toList

/-- The free permits of a semaphore and its guards everywhere. -/
def total (c : Con Q) (k : ConSem) : Nat :=
  (match k with | .cmd => c.cmd.free | .evt => c.evt.free) +
    c.cmdSide.count k + c.evtSide.count k

/-- What every step keeps (module doc). -/
structure Balance (c c' : Con Q) : Prop where
  total : ∀ k, c'.total k = c.total k
  cmd : c'.cmdSide.count .evt ≤ c.cmdSide.count .evt
  evt : c'.evtSide.count .cmd ≤ c.evtSide.count .cmd

namespace Balance

variable {c c' c'' : Con Q}

theorem refl (c : Con Q) : Balance c c := ⟨fun _ => rfl, Nat.le_refl _, Nat.le_refl _⟩

theorem trans (h : Balance c c') (h' : Balance c' c'') : Balance c c'' :=
  ⟨fun k => (h'.total k).trans (h.total k), Nat.le_trans h'.cmd h.cmd, Nat.le_trans h'.evt h.evt⟩

/-- The same channels and places. -/
theorem of_eq (hc : c'.cmd = c.cmd) (he : c'.evt = c.evt) (h1 : c'.cmdSide = c.cmdSide)
    (h2 : c'.evtSide = c.evtSide) : Balance c c' :=
  ⟨fun k => by unfold Con.total; rw [hc, he, h1, h2], by rw [h1], by rw [h2]⟩

end Balance

/-! ## Drops -/

@[simp] theorem callGuards_dropRsps (c : Con Q) (rs : List Nat) :
    (c.dropRsps rs).callGuards = c.callGuards := by
  refine List.filterMap_mapIdx_same fun k x => ?_
  split
  · next h => rw [h.1]; rfl
  · rfl

@[simp] theorem cmdSide_dropRsps (c : Con Q) (rs : List Nat) :
    (c.dropRsps rs).cmdSide = c.cmdSide := by
  unfold cmdSide; rw [callGuards_dropRsps]; rfl

theorem balance_dropRsps (c : Con Q) (rs : List Nat) : Balance c (c.dropRsps rs) :=
  .of_eq rfl rfl (cmdSide_dropRsps c rs) rfl

theorem total_dropGuards (c : Con Q) (gs : List ConSem) (k : ConSem) :
    (c.dropGuards gs).total k = c.total k + gs.count k := by
  cases k <;> simp only [total, dropGuards, Chan.free_release] <;>
    simp only [cmdSide, evtSide, callGuards, Chan.guards, Chan.queue_release] <;> omega

/-- Guards that leave their places (`d`) and are dropped. -/
theorem balance_drop {c d : Con Q} {gs : List ConSem}
    (ht : ∀ k, d.total k + gs.count k = c.total k) (hc : d.cmdSide.count .evt ≤ c.cmdSide.count .evt)
    (he : d.evtSide.count .cmd ≤ c.evtSide.count .cmd) : Balance c (d.dropGuards gs) :=
  ⟨fun k => by rw [total_dropGuards, ht], hc, he⟩

theorem balance_endTask (c : Con Q) (exit : Exit) : Balance c (c.endTask exit) := by
  have h1 : (c.endTask exit).cmdSide = c.sleepers.map (·.guard) ++ c.callGuards ++ c.epGuard.toList := by
    rw [show (c.endTask exit).cmdSide = [] ++ [] ++ c.sleepers.map (·.guard) ++
      (c.dropRsps c.ownedRsps).callGuards ++ c.epGuard.toList from rfl, callGuards_dropRsps]
    rfl
  have h2 : (c.endTask exit).evtSide = c.evt.guards := by
    rw [show (c.endTask exit).evtSide = c.evt.guards ++ [] from rfl, List.append_nil]
  refine ⟨fun k => ?_, ?_, ?_⟩
  · cases k
    · rw [total, total, h1, h2]
      simp only [endTask, dropGuards, dropRsps, Chan.free_close, Chan.free_release, cmdSide, evtSide,
        List.count_append]
      omega
    · rw [total, total, h1, h2]
      simp only [endTask, dropGuards, dropRsps, Chan.free_release, cmdSide, evtSide,
        List.count_append]
      omega
  · rw [h1]; simp only [cmdSide, List.count_append]; omega
  · rw [h2]; simp only [evtSide, List.count_append]; omega

/-! ## `con_task` -/

theorem balance_insertOutbound (c : Con Q) (k : UInt64) (p : H3OutboundProgress) :
    Balance c (c.insertOutbound k p) :=
  (balance_dropRsps c _).trans (.of_eq rfl rfl rfl rfl)

theorem balance_dispatch (c : Con Q) (cmd : ConCmd) : Balance c (c.dispatch cmd) := by
  cases cmd with
  | tick => exact .of_eq rfl rfl rfl rfl
  | timeout => exact .of_eq rfl rfl rfl rfl
  | inPak pak => exact .of_eq rfl rfl rfl rfl
  | http3 item rsp =>
    rw [dispatch]; split
    · exact .of_eq rfl rfl rfl rfl
    · exact balance_insertOutbound c _ _

theorem balance_schedTimeout (c : Con Q) : Balance c c.schedTimeout := by
  unfold schedTimeout; simp only; split
  · exact .of_eq rfl rfl rfl rfl
  · split
    · exact (Balance.of_eq rfl rfl rfl rfl : Balance c (c.log _)).trans (balance_endTask _ _)
    · next g hg =>
      have hg : c.cmdGuard = some g := hg
      refine ⟨fun k => ?_, ?_, Nat.le_refl _⟩
      · cases k <;> simp only [total, log, cmdSide, evtSide, callGuards, hg, List.map_append,
          List.count_append, Option.toList_some, Option.toList_none, List.map_cons, List.map_nil,
          List.count_nil] <;> omega
      · simp only [cmdSide, log, callGuards, hg, List.map_append, List.count_append,
          Option.toList_some, Option.toList_none, List.map_cons, List.map_nil, List.count_nil]
        omega

theorem balance_recvCmd {c c' : Con Q} (h : c.recvCmd = some c') (hg : c.cmdGuard = none) :
    Balance c c' := by
  unfold recvCmd at h
  split at h
  · next cmd g rest hq =>
    cases h
    refine ⟨fun k => ?_, ?_, Nat.le_refl _⟩
    · cases k <;> simp only [total, cmdSide, evtSide, callGuards, Chan.guards, hq, hg,
        List.count_append, List.map_cons, Option.toList_some, Option.toList_none, List.count_nil,
        List.count_cons] <;> omega
    · simp only [cmdSide, callGuards, Chan.guards, hq, hg, List.count_append, List.map_cons,
        Option.toList_some, Option.toList_none, List.count_nil, List.count_cons]
      omega
  · split at h
    · cases h; exact balance_endTask _ _
    · cases h

theorem balance_acquireEvt {c c' : Con Q} {next : ConPc} (h : c.acquireEvt next = some c') :
    Balance c c' := by
  unfold acquireEvt at h
  split at h
  · cases h; exact .of_eq rfl rfl rfl rfl
  · next hg =>
    obtain ⟨evt, he, rfl⟩ := Option.map_eq_some_iff.mp h
    obtain ⟨h0, rfl⟩ := Chan.acquire_eq he
    refine ⟨fun k => ?_, Nat.le_refl _, ?_⟩
    · cases k <;> simp only [total, cmdSide, evtSide, callGuards, Chan.guards, hg,
        List.count_append, Option.toList_some, Option.toList_none, List.count_nil]
      · rfl
      · rw [show [ConSem.evt].count .evt = 1 from rfl]; omega
    · simp only [evtSide, Chan.guards, hg, List.count_append, Option.toList_some,
        Option.toList_none, List.count_nil]
      exact Nat.le_refl _

theorem balance_sendEvt {c c' : Con Q} {evt : ConEvt} {ok : Bool}
    (h : c.sendEvt evt = some (c', ok)) : Balance c c' := by
  unfold sendEvt at h
  split at h
  · cases h
  · next g hg =>
    simp only at h
    split at h
    · cases h
      refine ⟨fun k => ?_, Nat.le_refl _, ?_⟩
      · cases k <;> simp only [total, log, cmdSide, evtSide, callGuards, Chan.guards, hg,
          List.count_append, Chan.free_push, Chan.queue_push, List.map_append, Option.toList_some,
          Option.toList_none, List.map_cons, List.map_nil, List.count_nil] <;> omega
      · simp only [log, evtSide, Chan.guards, hg, List.count_append, Chan.queue_push,
          List.map_append, Option.toList_some, Option.toList_none, List.map_cons, List.map_nil,
          List.count_nil]
        omega
    · cases h
      refine balance_drop (fun k => ?_) (Nat.le_refl _) ?_
      · cases k <;> simp only [total, cmdSide, evtSide, callGuards, hg, List.count_append,
          Option.toList_some, Option.toList_none, List.count_nil] <;> omega
      · simp only [evtSide, hg, List.count_append, Option.toList_none, List.count_nil]; omega

theorem balance_setupH3 (c : Con Q) : Balance c c.setupH3 := by
  unfold setupH3
  split
  · exact .refl c
  · split <;> exact .of_eq rfl rfl rfl rfl

theorem balance_establish (c : Con Q) : Balance c c.establish := by
  have hs : Balance c { c with connected := true }.setupH3 :=
    (Balance.of_eq rfl rfl rfl rfl : Balance c { c with connected := true }).trans
      (balance_setupH3 _)
  unfold establish
  split
  · simp only
    split
    · exact hs.trans (balance_endTask _ _)
    · next h => exact (hs.trans (balance_sendEvt h)).trans (.of_eq rfl rfl rfl rfl)
  · exact .of_eq rfl rfl rfl rfl

theorem balance_sendRequest (c : Con Q) (h3 : Q.H3Connection) : Balance c (c.sendRequest h3) := by
  unfold sendRequest
  split
  · exact .of_eq rfl rfl rfl rfl
  · simp only; split <;> exact .of_eq rfl rfl rfl rfl

theorem balance_sendHttp3 (c : Con Q) (item : Http3Msg) : Balance c (c.sendHttp3 item) := by
  unfold sendHttp3
  split
  · exact balance_endTask _ _
  · next h => exact (balance_sendEvt h).trans (.of_eq rfl rfl rfl rfl)
  · next h => exact (balance_sendEvt h).trans (balance_endTask _ _)

theorem balance_onEvent (c : Con Q) (stream : UInt64) (e : H3Event) :
    Balance c (c.onEvent stream e) := by
  cases e with
  | headers list hasBody =>
    rw [onEvent]; split
    · exact .of_eq rfl rfl rfl rfl
    · exact balance_sendHttp3 _ _
  | finished =>
    rw [onEvent]; split
    · exact .of_eq rfl rfl rfl rfl
    · exact (Balance.of_eq rfl rfl rfl rfl :
        Balance c { c with h3Inbound := c.h3Inbound.erase stream }).trans (balance_sendHttp3 _ _)
  | goAway => exact balance_endTask _ _
  | data => exact .of_eq rfl rfl rfl rfl
  | reset code => exact .of_eq rfl rfl rfl rfl
  | datagram => exact .of_eq rfl rfl rfl rfl

/-- New values of the quiche connections, and a line of the trace. -/
theorem balance_quiche (c : Con Q) (con : Q.Connection) (h3 : Option Q.H3Connection) (o : ConObs) :
    Balance c ({ c with con, h3Con := h3 }.log o) :=
  .of_eq rfl rfl rfl rfl

theorem balance_poll (c : Con Q) (h3 : Q.H3Connection) : Balance c (c.poll h3) := by
  unfold poll
  simp only
  split
  · exact .of_eq rfl rfl rfl rfl
  · exact (balance_quiche c _ _ _).trans (balance_endTask _ _)
  · exact (balance_quiche c _ _ _).trans (balance_onEvent _ _ _)

theorem balance_pushBody (c : Con Q) (stream : UInt64) (chunk : Bytes) :
    Balance c (c.pushBody stream chunk) := by
  unfold pushBody; split <;> exact .of_eq rfl rfl rfl rfl

theorem balance_recvBody (c : Con Q) (h3 : Q.H3Connection) (stream : UInt64) :
    Balance c (c.recvBody h3 stream) := by
  unfold recvBody
  simp only
  split
  · exact .of_eq rfl rfl rfl rfl
  · exact (balance_quiche c _ _ _).trans (balance_endTask _ _)
  · exact (balance_quiche c _ _ _).trans (balance_pushBody _ _ _)

theorem balance_recvDgram (c : Con Q) (h3 : Q.H3Connection) (flow : UInt64) :
    Balance c (c.recvDgram h3 flow) := by
  unfold recvDgram
  simp only
  split
  · exact .of_eq rfl rfl rfl rfl
  · exact (balance_quiche c _ _ _).trans (balance_endTask _ _)
  · split
    · exact (balance_quiche c _ _ _).trans (balance_endTask _ _)
    · exact balance_quiche c _ _ _

theorem balance_nextCmd (c : Con Q) : Balance c c.nextCmd := by
  have h : Balance c (({ c with cmdGuard := none } : Con Q).dropGuards c.cmdGuard.toList) := by
    refine balance_drop (fun k => ?_) ?_ (Nat.le_refl _)
    · cases k <;> simp only [total, cmdSide, evtSide, callGuards, List.count_append,
        Option.toList_none, List.count_nil] <;> omega
    · simp only [cmdSide, callGuards, List.count_append, Option.toList_none, List.count_nil]; omega
  exact h.trans (.of_eq rfl rfl rfl rfl)

theorem balance_flush (c : Con Q) : Balance c c.flush := by
  unfold flush; split
  · exact .of_eq rfl rfl rfl rfl
  · exact balance_nextCmd c

theorem balance_send (c : Con Q) : Balance c c.send := by
  unfold send
  simp only
  split
  · exact (balance_quiche c _ c.h3Con _).trans (balance_nextCmd _)
  · exact (balance_quiche c _ c.h3Con _).trans (balance_endTask _ _)
  · exact .of_eq rfl rfl rfl rfl

theorem balance_taskStep {c c' : Con Q} (h : c.taskStep = some c') (hc : Control c) :
    Balance c c' := by
  unfold taskStep at h
  split at h
  · next hpc => exact balance_recvCmd h (hc.idle hpc)
  · cases h; exact (balance_dispatch c _).trans (balance_schedTimeout _)
  · exact balance_acquireEvt h
  · cases h; exact balance_establish c
  · obtain ⟨h3, -, rfl⟩ := Option.map_eq_some_iff.mp h; exact balance_sendRequest c h3
  · exact balance_acquireEvt h
  · obtain ⟨h3, -, rfl⟩ := Option.map_eq_some_iff.mp h; exact balance_poll c h3
  · obtain ⟨h3, -, rfl⟩ := Option.map_eq_some_iff.mp h; exact balance_recvBody c h3 _
  · obtain ⟨h3, -, rfl⟩ := Option.map_eq_some_iff.mp h; exact balance_recvDgram c h3 _
  · cases h; exact balance_flush c
  · cases h; exact balance_send c
  · cases h

/-! ## The other parties -/

/-- A guard that leaves its place (`d`) goes with a command, or is dropped. -/
theorem balance_sendCmd {c d : Con Q} {g : ConSem} (cmd : ConCmd)
    (ht : ∀ k, d.total k + [g].count k = c.total k)
    (hc : d.cmdSide.count .evt + [g].count .evt ≤ c.cmdSide.count .evt)
    (he : d.evtSide.count .cmd ≤ c.evtSide.count .cmd) : Balance c (d.sendCmd cmd g).1 := by
  unfold sendCmd
  split
  · refine ⟨fun k => ?_, ?_, he⟩
    · rw [← ht k]
      cases k <;> simp only [total, cmdSide, evtSide, callGuards, Chan.guards, Chan.free_push,
        Chan.queue_push, List.map_append, List.count_append, List.map_cons, List.map_nil] <;> omega
    · refine Nat.le_trans (Nat.le_of_eq ?_) hc
      simp only [cmdSide, callGuards, Chan.guards, Chan.queue_push, List.map_append,
        List.count_append, List.map_cons, List.map_nil]
      omega
  · refine balance_drop (fun k => ?_) ?_ he
    · rw [← ht k, (balance_dropRsps d _).total]
    · rw [cmdSide_dropRsps]; omega

theorem balance_fire {c c' : Con Q} {k : Nat} (h : c.fire k = some c') : Balance c c' := by
  unfold fire at h
  split at h
  · cases h
  · next s hs =>
    split at h
    · cases h
      have hc : ∀ g, (c.sleepers.map (·.guard)).count g =
          ((c.sleepers.eraseIdx k).map (·.guard)).count g + [s.guard].count g := fun g => by
        rw [← List.eraseIdx_map]
        exact List.count_eraseIdx (by rw [List.getElem?_map, hs]; rfl) g
      refine balance_sendCmd _ (fun g => ?_) ?_ (Nat.le_refl _)
      · have := hc g
        cases g <;> simp only [total, cmdSide, evtSide, callGuards, List.count_append] <;> omega
      · have := hc .evt
        simp only [cmdSide, callGuards, List.count_append]; omega
    · cases h

theorem balance_udpSend {c c' : Con Q} {k : Nat} (h : c.udpSend k = some c') : Balance c c' := by
  unfold udpSend at h
  split at h
  · cases h
  · split at h
    · cases h; exact .of_eq rfl rfl rfl rfl
    · cases h

theorem balance_http3 {c c' : Con Q} {item : Http3Msg} (h : c.http3 item = some c') :
    Balance c c' := by
  unfold http3 at h
  split at h
  · cases h
    refine .of_eq rfl rfl ?_ rfl
    simp only [cmdSide, callGuards, List.filterMap_append]
    simp [Http3Call.guard?]
  · cases h

/-- The guards of the calls after call `k` changed from `x` to `y`. -/
theorem count_setCall {c : Con Q} {k : Nat} {x : Http3Call} (y : Http3Call)
    (h : c.calls[k]? = some x) (g : ConSem) :
    ({ c with calls := c.calls.set k y } : Con Q).callGuards.count g + x.guard?.toList.count g =
      c.callGuards.count g + y.guard?.toList.count g :=
  List.count_filterMap_set y h g

/-- A call without a guard changes to another without one. -/
theorem callGuards_setCall {c : Con Q} {k : Nat} {y : Http3Call}
    (hk : c.calls[k]?.bind (·.guard?) = none) (hy : y.guard? = none) :
    ({ c with calls := c.calls.set k y } : Con Q).callGuards = c.callGuards :=
  List.filterMap_set_none hk hy

theorem balance_callAcquire {c c' : Con Q} {k : Nat} (h : c.callAcquire k = some c') :
    Balance c c' := by
  unfold callAcquire at h
  split at h
  · next item hk =>
    obtain ⟨cmd, hc, rfl⟩ := Option.map_eq_some_iff.mp h
    obtain ⟨h0, rfl⟩ := Chan.acquire_eq hc
    have hs : ∀ g, (List.filterMap (·.guard?) (c.calls.set k (.send item .cmd))).count g =
        (List.filterMap (·.guard?) c.calls).count g + [ConSem.cmd].count g :=
      fun g => count_setCall (.send item .cmd) hk g
    have h1 : [ConSem.cmd].count .cmd = 1 := rfl
    have h2 : [ConSem.cmd].count .evt = 0 := rfl
    have := hs .cmd
    have := hs .evt
    refine ⟨fun g => ?_, ?_, Nat.le_refl _⟩
    · cases g <;> simp only [total, cmdSide, evtSide, callGuards, Chan.guards,
        List.count_append] <;> omega
    · simp only [cmdSide, callGuards, Chan.guards, List.count_append]; omega
  · cases h

theorem guard?_sendCmd (c : Con Q) (cmd : ConCmd) (g : ConSem) (k : Nat) :
    (c.sendCmd cmd g).1.calls[k]?.bind (·.guard?) = c.calls[k]?.bind (·.guard?) := by
  unfold sendCmd
  split
  · rfl
  · simp only [dropGuards, dropRsps, List.getElem?_mapIdx]
    cases c.calls[k]? with
    | none => rfl
    | some x =>
      simp only [Option.map_some, Option.bind_some]
      split
      · next h => rw [h.1]; rfl
      · rfl

theorem balance_callSend {c c' : Con Q} {k : Nat} (h : c.callSend k = some c') : Balance c c' := by
  unfold callSend at h
  split at h
  · next item g hk =>
    have hs : ∀ g', (List.filterMap (·.guard?) (c.calls.set k .wait)).count g' + [g].count g' =
        (List.filterMap (·.guard?) c.calls).count g' := fun g' => count_setCall .wait hk g'
    have hb : Balance c
        (({ c with calls := c.calls.set k .wait } : Con Q).sendCmd (.http3 item k) g).1 := by
      refine balance_sendCmd _ (fun g' => ?_) ?_ (Nat.le_refl _)
      · have := hs g'
        cases g' <;> simp only [total, cmdSide, evtSide, callGuards, List.count_append] <;> omega
      · have := hs .evt
        simp only [cmdSide, callGuards, List.count_append]; omega
    split at h
    · next c₁ hc => cases h; rw [hc] at hb; exact hb
    · next c₁ hc =>
      cases h
      have hw : c₁.calls[k]?.bind (·.guard?) = none := by
        have := guard?_sendCmd ({ c with calls := c.calls.set k .wait } : Con Q) (.http3 item k) g k
        rw [hc] at this
        rw [this, List.getElem?_set_self (List.getElem?_eq_some_iff.mp hk).1]; rfl
      rw [hc] at hb
      refine hb.trans (.of_eq rfl rfl ?_ rfl)
      unfold cmdSide
      rw [callGuards_setCall hw rfl]
  · cases h

theorem balance_callCancel {c c' : Con Q} {k : Nat} (h : c.callCancel k = some c') :
    Balance c c' := by
  unfold callCancel at h
  split at h
  · next x hk =>
    split at h
    · cases h
      have hs : ∀ g, (List.filterMap (·.guard?) (c.calls.set k .cancelled)).count g +
          x.guard?.toList.count g = (List.filterMap (·.guard?) c.calls).count g :=
        fun g => count_setCall .cancelled hk g
      refine balance_drop (d := { c with calls := c.calls.set k .cancelled }) (fun g => ?_) ?_
        (Nat.le_refl _)
      · have := hs g
        cases g <;> simp only [total, cmdSide, evtSide, callGuards, List.count_append] <;> omega
      · have := hs .evt
        simp only [cmdSide, callGuards, List.count_append]; omega
    · cases h
  · cases h

theorem balance_evtPoll {c c' : Con Q} (h : c.evtPoll = some c') : Balance c c' := by
  unfold evtPoll at h
  split at h
  · next g rest _ hq =>
    cases h
    refine balance_drop (fun k => ?_) (Nat.le_refl _) ?_
    · cases k <;> simp only [total, cmdSide, evtSide, callGuards, Chan.guards, hq,
        List.count_append, List.map_cons, List.count_cons, List.count_nil] <;> omega
    · simp only [evtSide, Chan.guards, hq, List.count_append, List.map_cons, List.count_cons]
      omega
  · cases h

theorem balance_dropRecv (c : Con Q) : Balance c c.dropRecv := by
  have h : Balance c (({ c with evt := c.evt.close } : Con Q).dropGuards c.evt.guards) := by
    refine balance_drop (fun k => ?_) (Nat.le_refl _) ?_
    · cases k <;> simp only [total, cmdSide, evtSide, callGuards, Chan.guards, Chan.free_close,
        Chan.queue_close, List.count_append, List.map_nil, List.count_nil] <;> omega
    · simp only [evtSide, Chan.guards, Chan.queue_close, List.count_append, List.map_nil,
        List.count_nil]
      omega
  exact h.trans (.of_eq rfl rfl rfl rfl)

theorem balance_tryAcquire {c c' : Con Q} (h : c.tryAcquire = some c') : Balance c c' := by
  unfold tryAcquire at h
  split at h
  · cases h
  · next hg =>
    obtain ⟨cmd, hc, rfl⟩ := Option.map_eq_some_iff.mp h
    obtain ⟨h0, rfl⟩ := Chan.acquire_eq hc
    have h1 : [ConSem.cmd].count .cmd = 1 := rfl
    have h2 : [ConSem.cmd].count .evt = 0 := rfl
    refine ⟨fun g => ?_, ?_, Nat.le_refl _⟩
    · cases g <;> simp only [total, cmdSide, evtSide, callGuards, Chan.guards, hg,
        List.count_append, Option.toList_some, Option.toList_none, List.count_nil] <;> omega
    · simp only [cmdSide, callGuards, Chan.guards, hg, List.count_append, Option.toList_some,
        Option.toList_none, List.count_nil]
      omega

theorem balance_sendInPak {c c' : Con Q} {pak : UdpPak} {ok : Bool}
    (h : c.sendInPak pak = some (c', ok)) : Balance c c' := by
  unfold sendInPak at h
  split at h
  · cases h
  · next g hg =>
    have hb : Balance c (({ c with epGuard := none } : Con Q).sendCmd (.inPak pak) g).1 := by
      refine balance_sendCmd _ (fun k => ?_) ?_ (Nat.le_refl _)
      · cases k <;> simp only [total, cmdSide, evtSide, callGuards, hg, List.count_append,
          Option.toList_some, Option.toList_none, List.count_nil] <;> omega
      · simp only [cmdSide, callGuards, hg, List.count_append, Option.toList_some,
          Option.toList_none, List.count_nil]
        omega
    split at h
    · next hc => cases h; rw [hc] at hb; exact hb.trans (.of_eq rfl rfl rfl rfl)
    · next hc => cases h; rw [hc] at hb; exact hb

/-- Every party's steps keep the balance. -/
theorem balance_step {a : ConAct} {c c' : Con Q} (h : step a c = some c') (hc : Control c) :
    Balance c c' := by
  cases a with
  | task => exact balance_taskStep h hc
  | fire k => exact balance_fire h
  | udpSend k => exact balance_udpSend h
  | http3 item => exact balance_http3 h
  | callAcquire k => exact balance_callAcquire h
  | callSend k => exact balance_callSend h
  | callCancel k => exact balance_callCancel h
  | evtPoll => exact balance_evtPoll h
  | dropRecv => cases h; exact balance_dropRecv c
  | dropCon => cases h; exact .of_eq rfl rfl rfl rfl
  | tick d => cases h; exact .of_eq rfl rfl rfl rfl
  | tryAcquire => exact balance_tryAcquire h
  | sendInPak pak =>
    obtain ⟨⟨c₁, ok⟩, hc, rfl⟩ := Option.map_eq_some_iff.mp h
    exact balance_sendInPak hc
  | unmap => cases h; exact .of_eq rfl rfl rfl rfl
  | deliver => cases h; exact .of_eq rfl rfl rfl rfl

/-! ## Every reachable state -/

/-- Where the permits of the two channels are. -/
structure Ledger (c : Con Q) : Prop where
  /-- Guards of the command channel's semaphore are in its places, -/
  cmdTag : ∀ g ∈ c.cmdSide, g = .cmd
  /-- and those of the event channel's semaphore in its places. -/
  evtTag : ∀ g ∈ c.evtSide, g = .evt
  cmd : c.cmd.free + c.cmd.queue.length + c.cmdGuard.toList.length + c.sleepers.length +
    c.callGuards.length + c.epGuard.toList.length = 64
  evt : c.evt.free + c.evt.queue.length + c.evtGuard.toList.length = 64

/-- What `Balance` keeps, from the initial state on. -/
structure Balanced (c : Con Q) : Prop where
  total : ∀ k, c.total k = 64
  cmd : c.cmdSide.count .evt = 0
  evt : c.evtSide.count .cmd = 0

theorem sys_balanced {c : Con Q} (h : (sys Q).Reach c) : Balanced c := by
  refine h.invariant (fun c hi => ?_) fun a c c' hr hc hs => ?_
  · obtain ⟨h3Config, con, hq⟩ := hi
    cases hq
    exact ⟨fun k => by cases k <;> rfl, rfl, rfl⟩
  · have hb := balance_step (Q := Q) (c := c) hs (sys_control hr)
    exact ⟨fun k => (hb.total k).trans (hc.total k),
      Nat.le_zero.mp (hc.cmd ▸ hb.cmd), Nat.le_zero.mp (hc.evt ▸ hb.evt)⟩

/-- No permit is lost or duplicated. -/
theorem sys_ledger {c : Con Q} (h : (sys Q).Reach c) : Ledger c := by
  have hb := sys_balanced h
  have hc : ∀ g ∈ c.cmdSide, g = .cmd := fun g hg => by
    cases g with
    | cmd => rfl
    | evt => exact absurd hg (List.count_eq_zero.mp hb.cmd)
  have he : ∀ g ∈ c.evtSide, g = .evt := fun g hg => by
    cases g with
    | evt => rfl
    | cmd => exact absurd hg (List.count_eq_zero.mp hb.evt)
  have hcl : c.cmdSide.count .cmd = c.cmdSide.length :=
    List.count_eq_length.mpr fun g hg => (hc g hg).symm
  have hel : c.evtSide.count .evt = c.evtSide.length :=
    List.count_eq_length.mpr fun g hg => (he g hg).symm
  refine ⟨hc, he, ?_, ?_⟩
  · have := hb.total .cmd
    rw [total, hb.evt, hcl] at this
    simp only [cmdSide, Chan.guards, List.length_append, List.length_map] at this
    omega
  · have := hb.total .evt
    rw [total, hb.cmd, hel] at this
    simp only [evtSide, Chan.guards, List.length_append, List.length_map] at this
    omega

end Con
end Absquic
