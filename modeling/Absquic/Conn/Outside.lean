import Absquic.Conn.Steps

/-!
# A connection from outside

What `ep_task` knows of a connection between two of its own steps on it: the permit it took
(`epGuard`) and the packets it put on the channel (`inPaks`) change by nobody else's step
(`quiet_step`), and a task that has ended stays so (`over_step`). Before its handles arrive at the
user (`Fresh`), nobody but `ep_task` takes a permit of the command channel (`fresh_step`).
-/

namespace Absquic

/-- The packet that was put on the command channel. -/
def ConObs.inPak? : ConObs → Option UdpPak
  | .inPak pak => some pak
  | _ => none

/-- The steps other than those by which `ep_task` takes a permit and uses it. -/
def ConAct.quiet : ConAct → Bool
  | .tryAcquire | .sendInPak _ => false
  | _ => true

namespace Con

variable {Q : Quiche}

/-- The packets that `ep_task` put on the command channel. -/
def inPaks (c : Con Q) : List UdpPak := c.trace.filterMap (·.inPak?)

/-- What `con_task` leaves alone. -/
structure Outer (c c' : Con Q) : Prop where
  handle : c'.handle = c.handle
  evtRecv : c'.evtRecv = c.evtRecv
  epGuard : c'.epGuard = c.epGuard
  inPaks : c'.inPaks = c.inPaks
  free : c.cmd.free ≤ c'.cmd.free
  calls : c.calls = [] → c'.calls = []

theorem Outer.trans {c d e : Con Q} (h : Outer c d) (h' : Outer d e) : Outer c e :=
  ⟨h'.handle.trans h.handle, h'.evtRecv.trans h.evtRecv, h'.epGuard.trans h.epGuard,
    h'.inPaks.trans h.inPaks, Nat.le_trans h.free h'.free, fun hc => h'.calls (h.calls hc)⟩

theorem inPaks_append {c c' : Con Q} {l : List ConObs} (h : c'.trace = c.trace ++ l)
    (hl : ∀ o ∈ l, o.inPak? = none) : c'.inPaks = c.inPaks := by
  unfold inPaks
  rw [h, List.filterMap_append, List.filterMap_eq_nil_iff.mpr hl, List.append_nil]

theorem Keeps.outer {c c' : Con Q} (h : Keeps c c') : Outer c c' := by
  obtain ⟨l, hl, hb⟩ := h.trace
  refine ⟨h.handle, h.evtRecv, h.epGuard, inPaks_append hl fun o ho => ?_, h.free,
    fun hc => h.calls.trans hc⟩
  have := hb o ho
  cases o <;> first | rfl | cases this

theorem dropRsps_nil {c : Con Q} (rs : List Nat) (h : c.calls = []) : (c.dropRsps rs).calls = [] := by
  unfold dropRsps; rw [h]; rfl

theorem outer_endTask (c : Con Q) (exit : Exit) : Outer c (c.endTask exit) :=
  ⟨rfl, rfl, rfl, rfl, Nat.le_add_right _ _, dropRsps_nil _⟩

theorem outer_dispatch (c : Con Q) (cmd : ConCmd) : Outer c (c.dispatch cmd) := by
  cases cmd with
  | http3 item rsp =>
    rw [dispatch]
    split
    · exact ⟨rfl, rfl, rfl, rfl, Nat.le_refl _, fun h => h⟩
    · exact ⟨rfl, rfl, rfl, rfl, Nat.le_refl _, dropRsps_nil _⟩
  | tick => exact ⟨rfl, rfl, rfl, rfl, Nat.le_refl _, fun h => h⟩
  | timeout => exact ⟨rfl, rfl, rfl, inPaks_append (l := [_]) rfl (by simp [ConObs.inPak?]),
      Nat.le_refl _, fun h => h⟩
  | inPak pak => exact ⟨rfl, rfl, rfl, inPaks_append (l := [_]) rfl (by simp [ConObs.inPak?]),
      Nat.le_refl _, fun h => h⟩

theorem outer_schedTimeout (c : Con Q) : Outer c c.schedTimeout := by
  have hl : Outer c (c.log (.timeout (Q.timeout c.now c.con))) :=
    ⟨rfl, rfl, rfl, inPaks_append (l := [_]) rfl (by simp [ConObs.inPak?]), Nat.le_refl _, fun h => h⟩
  unfold schedTimeout
  simp only
  split
  · exact hl.trans ⟨rfl, rfl, rfl, rfl, Nat.le_refl _, fun h => h⟩
  · split
    · exact hl.trans (outer_endTask _ _)
    · exact hl.trans ⟨rfl, rfl, rfl, rfl, Nat.le_refl _, fun h => h⟩

theorem outer_taskStep {c c' : Con Q} (h : c.taskStep = some c') : Outer c c' := by
  by_cases hb : c.pc.inBody
  · cases body_taskStep h hb with
    | go k => exact k.outer
    | ret k => exact k.outer.trans (outer_endTask _ _)
  · unfold taskStep at h
    split at h
    · unfold recvCmd at h
      split at h
      · cases h; exact ⟨rfl, rfl, rfl, rfl, Nat.le_refl _, fun h => h⟩
      · split at h
        · cases h; exact outer_endTask _ _
        · cases h
    · cases h; exact (outer_dispatch c _).trans (outer_schedTimeout _)
    all_goals first | cases h; done | (next hpc => exact absurd (by rw [hpc]; rfl) hb)

/-- A quiet step. -/
theorem quiet_step {a : ConAct} {c c' : Con Q} (h : step a c = some c') (ha : a.quiet) :
    c'.epGuard = c.epGuard ∧ c'.inPaks = c.inPaks := by
  by_cases ht : a = .task
  · subst ht
    have ho := outer_taskStep h
    exact ⟨ho.epGuard, ho.inPaks⟩
  · cases otherStep_cases h ht with
    | udpSend => exact ⟨rfl, inPaks_append (l := [_]) rfl (by simp [ConObs.inPak?])⟩
    | tryAcquire | sendInPak | pakLost => cases ha
    | _ => exact ⟨rfl, rfl⟩

/-- A task that has ended stays so. -/
theorem over_step {a : ConAct} {c c' : Con Q} (h : step a c = some c') (ho : c.pc.over) :
    c'.pc.over := by
  by_cases ha : a = .task
  · subst ha
    change c.taskStep = some c' at h
    unfold taskStep at h
    cases hpc : c.pc <;> rw [hpc] at h ho <;> first | cases ho; done | cases h
  · rw [(frame_step h ha).pc]; exact ho

/-- The handles are on their way to the user. -/
structure Fresh (c : Con Q) : Prop where
  handle : c.handle = .inFlight
  evtRecv : c.evtRecv = .inFlight
  calls : c.calls = []

/-- Nobody but `ep_task` takes a permit. -/
theorem fresh_step {a : ConAct} {c c' : Con Q} (hf : Fresh c) (hm : c.may a)
    (h : step a c = some c') : Fresh c' ∧ c.cmd.free ≤ c'.cmd.free := by
  obtain ⟨hh, he, hc⟩ := hf
  by_cases ht : a = .task
  · subst ht
    have ho := outer_taskStep h
    exact ⟨⟨ho.handle.trans hh, ho.evtRecv.trans he, ho.calls hc⟩, ho.free⟩
  · -- without a call and without the handles there is no step that needs them
    cases otherStep_cases h ht with
    | http3 hu => rw [hh] at hu; cases hu
    | evtPoll hu => rw [he] at hu; cases hu
    | callAcquire hk | callSend hk | callLost hk | callCancel hk => rw [hc] at hk; cases hk
    | dropRecv => simp [may, he] at hm
    | dropCon => simp [may, hh] at hm
    | tryAcquire | sendInPak | pakLost | unmap | deliver => cases hm
    | fireLost => exact ⟨⟨hh, he, hc⟩, Nat.le_add_right _ _⟩
    | _ => exact ⟨⟨hh, he, hc⟩, Nat.le_refl _⟩

/-! ## `ep_task` on the connection -/

theorem tryAcquire_spec {c c' : Con Q} (h : c.tryAcquire = some c') :
    c.epGuard = none ∧ 0 < c.cmd.free ∧
      c' = { c with cmd := { c.cmd with free := c.cmd.free - 1 }, epGuard := some .cmd } := by
  unfold tryAcquire at h
  split at h
  · cases h
  · next hg =>
    obtain ⟨cmd, hc, rfl⟩ := Option.map_eq_some_iff.mp h
    obtain ⟨hf, rfl⟩ := Chan.acquire_eq hc
    exact ⟨hg, hf, rfl⟩

theorem tryAcquire_eq_none {c : Con Q} (h : c.tryAcquire = none) :
    c.epGuard ≠ none ∨ c.cmd.free = 0 := by
  unfold tryAcquire at h
  split at h
  · next hg => exact .inl (by rw [hg]; nofun)
  · refine .inr (Nat.eq_zero_of_not_pos fun hp => ?_)
    obtain ⟨x, hx⟩ := Option.isSome_iff_exists.mp (Chan.acquire_isSome.mpr hp)
    rw [hx] at h
    cases h

/-- What `sendInPak` does: it succeeds while the task's receiver exists. -/
theorem sendInPak_spec {c c' : Con Q} {pak : UdpPak} {ok : Bool}
    (h : c.sendInPak pak = some (c', ok)) :
    ok = c.cmd.rx ∧ c'.epGuard = none ∧ c'.inPaks = c.inPaks ++ (if ok then [pak] else []) ∧
      (Fresh c → Fresh c') := by
  unfold sendInPak at h
  split at h
  · cases h
  · split at h
    · next hs =>
      cases h
      unfold sendCmd at hs
      split at hs
      · next hr =>
        cases hs
        refine ⟨hr.symm, rfl, ?_, fun hf => ⟨hf.handle, hf.evtRecv, hf.calls⟩⟩
        simp [inPaks, log, ConObs.inPak?]
      · cases hs
    · next hs =>
      cases h
      unfold sendCmd at hs
      split at hs
      · cases hs
      · next hr =>
        cases hs
        exact ⟨(Bool.eq_false_iff.mpr hr).symm, rfl, (List.append_nil _).symm,
          fun hf => ⟨hf.handle, hf.evtRecv, dropRsps_nil _ hf.calls⟩⟩

theorem quicheCon_spec {h3Config : Option Q.H3Config} {con : Q.Connection} {c : Con Q}
    (h : quicheCon h3Config con = some c) :
    Fresh c ∧ c.cmd.free = 63 ∧ c.epGuard = none ∧ c.inPaks = [] ∧ c.pc = .recv := by
  cases h
  exact ⟨⟨rfl, rfl, rfl⟩, rfl, rfl, rfl, rfl⟩

/-! ## Runs of quiet steps -/

theorem quiet_steps {c c' : Con Q} (h : (sys Q).Steps (fun a => a.quiet) c c') :
    c'.epGuard = c.epGuard ∧ c'.inPaks = c.inPaks ∧ (c.pc.over → c'.pc.over) := by
  refine h.relates (R := fun c c' => c'.epGuard = c.epGuard ∧ c'.inPaks = c.inPaks ∧
    (c.pc.over → c'.pc.over)) (fun _ => ⟨rfl, rfl, fun h => h⟩) ?_ ?_
  · rintro s t u ⟨h1, h2, h3⟩ ⟨h1', h2', h3'⟩
    exact ⟨h1'.trans h1, h2'.trans h2, fun h => h3' (h3 h)⟩
  · intro a s s' ha hs
    obtain ⟨h1, h2⟩ := quiet_step (Q := Q) (c := s) hs ha
    exact ⟨h1, h2, over_step (Q := Q) (c := s) hs⟩

end Con
end Absquic
