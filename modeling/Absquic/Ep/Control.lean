import Absquic.Ep.Steps
import Absquic.Conn.Outside
import Absquic.Conn.Control
import Absquic.Lib.List

/-!
# The control flow of `ep_task`

`Control` is what holds of `ep_task`'s place and its locals in every reachable state. No `unwrap`
panics, and the task keeps a clone of its own command sender, so `ep_task` never ends
(`Control.running`). The `try_acquire().unwrap()` at line 244 is safe because the handles of the
connection have not left `ep_task`: only the first `Tick` can be out of the channel's 64 permits.

Each connection is a reachable state of `Con.sys` (`cons_reach`).
-/

namespace Absquic

/-- The places after the event's permit was acquired. -/
def EpPc.hasEvt : EpPc → Bool
  | .recv | .evtGuard _ | .ended _ => false
  | _ => true

/-- The connection that is still to be put into `con_map`, and its id. -/
def EpPc.inserts? : EpPc → Option (Nat × ConnectionId)
  | .accepted i scid _ | .acceptSend i scid _ | .newCon i scid _ => some (i, scid)
  | _ => none

/-- The connection whose command channel `ep_task` is about to send to. -/
def EpPc.sends : EpPc → Option Nat
  | .route i _ _ | .acceptSend i _ _ => some i
  | _ => none

namespace Ep

variable {Q : Quiche}

/-! ## Connections -/

/-- The drop of both handles. -/
theorem quiet_drop (c : Con Q) : (Con.sys Q).Steps (fun a => a.quiet) c c.dropCon.dropRecv :=
  .trans (.one (a := .dropCon) rfl rfl) (.one (a := .dropRecv) rfl rfl)

theorem Moved.quiet {s : Ep Q} {j : Nat} {c c' : Con Q} (h : s.Moved j c c') :
    (Con.sys Q).Steps (fun a => a.quiet) c c' := by
  cases h with
  | rest => exact .refl c
  | @step a _ hm h => exact .one (by cases a <;> first | rfl | cases hm) h
  | deliver h => exact .one (a := .deliver) rfl rfl
  | drop h => exact quiet_drop c

/-- A connection of which `ep_task` has the handles. -/
theorem Moved.fresh {s : Ep Q} {j : Nat} {c c' : Con Q} (h : s.Moved j c c') (hj : j ∉ s.offered)
    (hf : c.Fresh) : c'.Fresh ∧ c.cmd.free ≤ c'.cmd.free := by
  cases h with
  | rest => exact ⟨hf, Nat.le_refl _⟩
  | step hm h => exact Con.fresh_step hf hm h
  | deliver h => exact absurd h hj
  | drop h => exact absurd h hj

/-- A move by a run of steps in `P`. -/
def Runs (P : ConAct → Prop) (_ : Nat) (c c' : Con Q) : Prop := (Con.sys Q).Steps P c c'

/-- A move by a run of quiet steps. -/
abbrev Quietly : Nat → Con Q → Con Q → Prop := Runs fun a => a.quiet

theorem quietly_modCon {s : Ep Q} {i : Nat} {f : Con Q → Con Q}
    (hf : ∀ c, (Con.sys Q).Steps (fun a => a.quiet) c (f c)) :
    Moves Quietly s.cons (s.modCon i f).cons := by
  refine (moves_modCon s i f).mono ?_
  rintro j c c' rfl
  split
  · exact hf c
  · exact .refl c

theorem quietly_dropCons (s : Ep Q) (is : List Nat) :
    Moves Quietly s.cons (s.dropCons is).cons := by
  refine (moves_dropCons s is).mono ?_
  rintro j c c' rfl
  split
  · exact quiet_drop c
  · exact .refl c

theorem Moves.trans_runs {P : ConAct → Prop} {l l' l'' : List (EpCon Q)} (h : Moves (Runs P) l l')
    (h' : Moves (Runs P) l' l'') : Moves (Runs P) l l'' := by
  refine ⟨h'.length.trans h.length, fun i r hr => ?_⟩
  obtain ⟨c, hc, hq⟩ := h.con i r hr
  obtain ⟨c', hc', hq'⟩ := h'.con i _ hc
  exact ⟨c', hc', Lts.Steps.trans hq hq'⟩

/-- Connection `i` moves. -/
theorem runs_modCon {P : ConAct → Prop} {s : Ep Q} {i : Nat} {r : EpCon Q} {c : Con Q}
    (hr : s.cons[i]? = some r) (hc : (Con.sys Q).Steps P r.con c) :
    Moves (Runs P) s.cons (s.modCon i fun _ => c).cons := by
  have hm := moves_modCon s i fun _ => c
  refine ⟨hm.length, fun j q hq => ?_⟩
  obtain ⟨c', hc', he⟩ := hm.con j q hq
  refine ⟨c', hc', ?_⟩
  rw [he]
  split
  · next hj => subst hj; rw [hr] at hq; cases hq; exact hc
  · exact .refl _

theorem quietly_refl (s : Ep Q) : Moves Quietly s.cons s.cons := .refl (fun _ c => .refl c) _

theorem moves_insertCon (s : Ep Q) (scid : ConnectionId) (i : Nat) :
    Moves (fun _ c c' => c' = c ∨ c' = c.unmap) s.cons (s.insertCon scid i).cons := by
  unfold insertCon
  cases s.conMap.lookup scid with
  | none => exact .refl (fun _ _ => .inl rfl) _
  | some j =>
    refine (moves_modCon s j Con.unmap).mono ?_
    rintro k c c' rfl
    split
    · exact .inr rfl
    · exact .inl rfl

theorem quietly_insertCon (s : Ep Q) (scid : ConnectionId) (i : Nat) :
    Moves Quietly s.cons (s.insertCon scid i).cons := by
  refine (moves_insertCon s scid i).mono ?_
  rintro j c c' (rfl | rfl)
  · exact .refl _
  · exact .one (a := .unmap) rfl rfl

theorem quietly_answer (s : Ep Q) (rsp : Nat) (result : Result Nat) :
    Moves Quietly s.cons (s.answer rsp result).cons := by
  unfold answer
  split
  · exact quietly_refl s
  · exact quietly_dropCons s _

/-! ## The invariant -/

/-- What holds of `ep_task` (module doc). -/
structure Control (s : Ep Q) : Prop where
  running : s.pc.over = false
  rx : s.cmd.rx = true
  idle : s.pc = .recv → s.cmdGuard = none
  evt : s.pc.hasEvt → s.evtGuard ≠ none
  offered : ∀ j ∈ s.offered, j < s.cons.length
  /-- The connection whose handles `ep_task` has is the last one, and nobody else has them. -/
  here : ∀ i, localCon s.pc = some i → i + 1 = s.cons.length ∧ i ∉ s.offered
  fresh : ∀ i r, localCon s.pc = some i → s.cons[i]? = some r → r.con.Fresh
  permit : ∀ i scid pak r, s.pc = .accepted i scid pak → s.cons[i]? = some r → 63 ≤ r.con.cmd.free
  /-- `ep_task` has a permit of a connection only on its way to send. -/
  guard : ∀ (i : Nat) r, s.cons[i]? = some r → (r.con.epGuard ≠ none ↔ s.pc.sends = some i)

theorem Control.frame {s s' : Ep Q} (h : Control s) (hf : Frame s s') : Control s' := by
  refine ⟨by rw [hf.pc]; exact h.running, hf.rx.trans h.rx,
    by rw [hf.pc, hf.cmdGuard]; exact h.idle, by rw [hf.pc, hf.evtGuard]; exact h.evt,
    fun j hj => ?_, fun i hi => ?_, fun i r' hi hr => ?_, fun i scid pak r' hi hr => ?_,
    fun i r' hr => ?_⟩
  · rw [hf.cons.length]; exact h.offered j (hf.offered j hj)
  · rw [hf.pc] at hi
    rw [hf.cons.length]
    exact ⟨(h.here i hi).1, fun hj => (h.here i hi).2 (hf.offered i hj)⟩
  · rw [hf.pc] at hi
    obtain ⟨r, hr, -, hm⟩ := hf.cons.back hr
    exact (hm.fresh (h.here i hi).2 (h.fresh i r hi hr)).1
  · rw [hf.pc] at hi
    have hl : localCon s.pc = some i := by rw [hi]; rfl
    obtain ⟨r, hr, -, hm⟩ := hf.cons.back hr
    exact Nat.le_trans (h.permit i scid pak r hi hr) (hm.fresh (h.here i hl).2 (h.fresh i r hl hr)).2
  · obtain ⟨r, hr, -, hm⟩ := hf.cons.back hr
    rw [hf.pc, (Con.quiet_steps hm.quiet).1]
    exact h.guard i r hr

/-- A step that ends with the wait for the next command. -/
theorem control_recv {s s' : Ep Q} (h : Control s) (hpc : s'.pc = .recv) (hg : s'.cmdGuard = none)
    (hr : s'.cmd.rx = s.cmd.rx) (ho : ∀ j ∈ s'.offered, j ∈ s.offered ∨ localCon s.pc = some j)
    (hl : s'.cons.length = s.cons.length)
    (hn : ∀ (i : Nat) r, s'.cons[i]? = some r → r.con.epGuard = none) : Control s' := by
  refine ⟨by rw [hpc]; rfl, hr.trans h.rx, fun _ => hg, by rw [hpc]; nofun, fun j hj => ?_,
    fun i hi => ?_, fun i r hi => ?_, fun i scid pak r hi => ?_, fun i r hi => ?_⟩
  · rw [hl]
    rcases ho j hj with hj | hj
    · exact h.offered j hj
    · have := (h.here j hj).1; omega
  · rw [hpc] at hi; cases hi
  · rw [hpc] at hi; cases hi
  · rw [hpc] at hi; cases hi
  · rw [hn i r hi, hpc]; simp [EpPc.sends]

/-- The connections moved quietly, and `ep_task` was not on its way to send. -/
theorem guard_quietly {s : Ep Q} {l : List (EpCon Q)} (h : Control s) (hs : s.pc.sends = none)
    (hm : Moves Quietly s.cons l) {i : Nat} {r : EpCon Q} (hi : l[i]? = some r) :
    r.con.epGuard = none := by
  obtain ⟨r₀, hr₀, -, hq⟩ := hm.back hi
  rw [(Con.quiet_steps hq).1]
  exact not_not.mp fun hn => nomatch hs.symm.trans ((h.guard i r₀ hr₀).mp hn)

/-- After `ep_task` sent to connection `i`, it has no permit. -/
theorem guard_sent {s : Ep Q} {i : Nat} {r : EpCon Q} {pak : UdpPak} {c : Con Q} {ok : Bool}
    {l : List (EpCon Q)} (h : Control s) (hpc : s.pc.sends = some i)
    (hc : r.con.sendInPak pak = some (c, ok)) (hm : Moves Quietly (s.modCon i fun _ => c).cons l)
    {j : Nat} {r' : EpCon Q} (hj : l[j]? = some r') : r'.con.epGuard = none := by
  obtain ⟨r₁, hr₁, -, hq⟩ := hm.back hj
  obtain ⟨r₀, hr₀, -, hd⟩ := (moves_modCon s i fun _ => c).back hr₁
  rw [(Con.quiet_steps hq).1, hd]
  split
  · exact (Con.sendInPak_spec hc).2.1
  · next hne =>
    refine not_not.mp fun hn => hne ?_
    have := (h.guard j r₀ hr₀).mp hn
    rw [hpc] at this
    exact (Option.some.inj this).symm

theorem offered_answer {s : Ep Q} {rsp : Nat} {result : Result Nat} {j : Nat}
    (h : j ∈ (s.answer rsp result).offered) : j ∈ s.offered ∨ result.toOption = some j := by
  unfold answer at h
  split at h
  · rcases List.mem_append.mp h with h | h
    · obtain ⟨y, hy, hyj⟩ := List.mem_filterMap.mp h
      rcases List.mem_or_eq_of_mem_set hy with hy | rfl
      · exact .inl (List.mem_append_left _ (List.mem_filterMap.mpr ⟨y, hy, hyj⟩))
      · cases result with
        | error err => cases hyj
        | ok i => exact .inr hyj
    · exact .inl (List.mem_append_right _ h)
  · exact .inl h

theorem insertCon_eq (s : Ep Q) (scid : ConnectionId) (i : Nat) : s.insertCon scid i =
    { s with cons := (s.insertCon scid i).cons, conMap := s.conMap.insert scid i } := by
  unfold insertCon
  cases s.conMap.lookup scid <;> rfl

theorem answer_eq (s : Ep Q) (rsp : Nat) (result : Result Nat) : s.answer rsp result =
    { s with cons := (s.answer rsp result).cons, connects := (s.answer rsp result).connects } := by
  unfold answer
  split <;> rfl

theorem control_take {s : Ep Q} {cmd : EpCmd} {g : EpSem} {rest : List (EpCmd × EpSem)}
    (h : Control s) (hpc : s.pc = .recv) : Control ({ s with
      cmd := { s.cmd with queue := rest }, pc := .evtGuard cmd, cmdGuard := some g }.log
        (.take cmd)) := by
  refine ⟨rfl, h.rx, nofun, nofun, h.offered, nofun, fun _ _ hi => (nomatch hi),
    fun _ _ _ _ hi => (nomatch hi), fun i r hi => ?_⟩
  have := h.guard i r hi
  rw [hpc] at this
  exact this

theorem control_reserve {s : Ep Q} {cmd : EpCmd} (h : Control s) (hpc : s.pc = .evtGuard cmd)
    {evt : Chan EpSem EpEvt} {g : EpSem} (hq : evt.queue = s.evt.queue) :
    Control { s with evt, evtGuard := some g, pc := .cmd cmd } := by
  refine ⟨rfl, h.rx, nofun, fun _ => nofun, fun j hj => h.offered j ?_, nofun,
    fun _ _ hi => (nomatch hi), fun _ _ _ _ hi => (nomatch hi), fun i r hi => ?_⟩
  · unfold offered at hj ⊢
    rwa [show ({ s with evt, evtGuard := some g, pc := .cmd cmd } : Ep Q).evt.queue = s.evt.queue
      from hq] at hj
  · have := h.guard i r hi
    rw [hpc] at this
    exact this

/-- A new connection, the handles of which `ep_task` has. -/
theorem control_spawn {s : Ep Q} (h : Control s) (hs : s.pc.sends = none) (hp : s.pc.hasEvt)
    {new : EpCon Q} {h3Config : Option Q.H3Config} {con : Q.Connection}
    (hc : Con.quicheCon h3Config con = some new.con) {pc : EpPc} (hl : localCon pc = some s.cons.length)
    (hn : pc.sends = none) (cid : CidGen) (config : Q.Config) :
    Control { s with cid, config, cons := s.cons ++ [new], pc } := by
  obtain ⟨hf, hfree, hg, -, -⟩ := Con.quicheCon_spec hc
  have hlast : ∀ r, (s.cons ++ [new])[s.cons.length]? = some r → r = new := fun r hr => by
    rw [List.getElem?_concat_length] at hr; exact (Option.some.inj hr).symm
  refine ⟨?_, h.rx, ?_, fun _ => h.evt hp, fun j hj => ?_, fun i hi => ?_, fun i r hi hr => ?_,
    fun i scid pak r hi hr => ?_, fun i r hr => ?_⟩
  · cases pc <;> first | rfl | cases hl
  · intro hr; rw [show pc = .recv from hr] at hl; cases hl
  · have := h.offered j hj
    show j < (s.cons ++ [new]).length
    rw [List.length_append]; exact Nat.lt_add_right _ this
  · rw [show localCon pc = some i from hi] at hl
    obtain rfl := Option.some.inj hl
    refine ⟨(List.length_append : (s.cons ++ [new]).length = _).symm, fun hj => ?_⟩
    exact Nat.lt_irrefl _ (h.offered _ hj)
  · rw [show localCon pc = some i from hi] at hl
    obtain rfl := Option.some.inj hl
    rw [hlast r hr]; exact hf
  · have hli : localCon pc = some i := by rw [show pc = .accepted i scid pak from hi]; rfl
    rw [hli] at hl
    obtain rfl := Option.some.inj hl
    rw [hlast r hr, hfree]
  · rw [show EpPc.sends pc = none from hn]
    rcases List.getElem?_concat_cases hr with hr | ⟨-, rfl⟩
    · have := h.guard i r hr
      rw [hs] at this
      exact this
    · simp [hg]

/-- `ep_task` took a permit of connection `i`. -/
theorem control_permit {s : Ep Q} {i : Nat} {r : EpCon Q} {c : Con Q} {pc : EpPc} (h : Control s)
    (hs : s.pc.sends = none) (hp : s.pc.hasEvt) (hr : s.cons[i]? = some r)
    (hc : r.con.tryAcquire = some c) (hi : pc.sends = some i)
    (hl : ∀ j, localCon pc = some j → localCon s.pc = some j) :
    Control { s.modCon i fun _ => c with pc } := by
  obtain ⟨-, -, hce⟩ := Con.tryAcquire_spec hc
  have hm := moves_modCon s i fun _ => c
  refine ⟨?_, h.rx, fun hr => ?_, fun _ => h.evt hp, fun j hj => ?_, fun j hj => ?_,
    fun j r' hj hr' => ?_, fun j scid pak r' hj => ?_, fun j r' hr' => ?_⟩
  · cases pc <;> first | rfl | cases hi
  · rw [show pc = .recv from hr] at hi; cases hi
  · show j < (s.modCon i fun _ => c).cons.length
    rw [hm.length]
    exact h.offered j hj
  · show j + 1 = (s.modCon i fun _ => c).cons.length ∧ _
    rw [hm.length]
    exact h.here j (hl j hj)
  · obtain ⟨r₀, hr₀, -, hd⟩ := hm.back hr'
    have hf := h.fresh j r₀ (hl j hj) hr₀
    rw [hd]
    split
    · next hji =>
      subst hji
      rw [hr] at hr₀
      cases hr₀
      rw [hce]
      exact ⟨hf.handle, hf.evtRecv, hf.calls⟩
    · exact hf
  · rw [show pc = .accepted j scid pak from hj] at hi; cases hi
  · obtain ⟨r₀, hr₀, -, hd⟩ := hm.back hr'
    show _ ↔ pc.sends = some j
    rw [hd, hi]
    split
    · next hji => subst hji; rw [hce]; simp
    · next hji =>
      have := h.guard j r₀ hr₀
      rw [hs] at this
      exact ⟨fun hn => (nomatch this.mp hn), fun he => absurd (Option.some.inj he).symm hji⟩

/-- The Initial packet was sent to the new connection, and the connection put into the map. -/
theorem control_put {s : Ep Q} {i : Nat} {scid : ConnectionId} {pak : UdpPak} {r : EpCon Q}
    {c : Con Q} {ok : Bool} (h : Control s) (hpc : s.pc = .acceptSend i scid pak)
    (hr : s.cons[i]? = some r) (hc : r.con.sendInPak pak = some (c, ok)) :
    Control { ((s.modCon i fun _ => c).log (.fate pak (.created i ok))).insertCon scid i with
      pc := .inCon i } := by
  have hl : localCon s.pc = some i := by rw [hpc]; rfl
  have hm := moves_modCon s i fun _ => c
  have hm' := moves_insertCon ((s.modCon i fun _ => c).log (.fate pak (.created i ok))) scid i
  have heq := insertCon_eq ((s.modCon i fun _ => c).log (.fate pak (.created i ok))) scid i
  have hlen : (((s.modCon i fun _ => c).log (.fate pak (.created i ok))).insertCon scid i).cons.length =
      s.cons.length := hm'.length.trans hm.length
  have ho : ∀ j, j ∈ (((s.modCon i fun _ => c).log (.fate pak (.created i ok))).insertCon
      scid i).offered → j ∈ s.offered := fun j hj => by rw [heq] at hj; exact hj
  refine ⟨rfl, ?_, nofun, fun _ => ?_, fun j hj => ?_, fun j hj => ?_, fun j r' hj hr' => ?_,
    fun _ _ _ _ hi => (nomatch hi), fun j r' hr' => ?_⟩
  · rw [heq]; exact h.rx
  · rw [heq]; exact h.evt (by rw [hpc]; rfl)
  · exact Nat.lt_of_lt_of_eq (h.offered j (ho j hj)) hlen.symm
  · cases hj
    obtain ⟨h1, h2⟩ := h.here i hl
    exact ⟨h1.trans hlen.symm, fun hj => h2 (ho i hj)⟩
  · cases hj
    obtain ⟨r₁, hr₁, -, hd₁⟩ := hm'.back hr'
    obtain ⟨r₀, hr₀, -, hd₀⟩ := hm.back hr₁
    rw [if_pos rfl] at hd₀
    have hf : r₁.con.Fresh := by
      rw [hd₀]; exact (Con.sendInPak_spec hc).2.2.2 (h.fresh i r hl hr)
    rcases hd₁ with hd | hd
    · rw [hd]; exact hf
    · rw [hd]; exact ⟨hf.handle, hf.evtRecv, hf.calls⟩
  · have hq := quietly_insertCon ((s.modCon i fun _ => c).log (.fate pak (.created i ok))) scid i
    rw [guard_sent h (by rw [hpc]; rfl) hc hq hr']
    simp [EpPc.sends]

/-- The steps of `ep_task` that do not end it. -/
theorem control_task {s s' : Ep Q} (h : Control s) (ht : TaskStep s s') : Control s' := by
  cases ht with
  | take hpc => exact control_take h hpc
  | @reserved cmd g hpc hg =>
    have hc : Control { s with evt := s.evt, evtGuard := some g, pc := .cmd cmd } :=
      control_reserve h hpc rfl
    rw [← hg] at hc
    exact hc
  | reserve hpc => exact control_reserve h hpc rfl
  | streamEnd hpc | streamErr hpc | drop hpc | refuse hpc =>
    exact control_recv h rfl rfl rfl (fun _ hj => .inl hj) rfl
      fun _ _ => guard_quietly h (by rw [hpc]; rfl) (quietly_refl s)
  | accept hpc _ _ _ _ hc =>
    exact control_spawn h (by rw [hpc]; rfl) (by rw [hpc]; rfl) hc rfl rfl _ _
  | route hpc _ _ hr hc =>
    exact control_permit h (by rw [hpc]; rfl) (by rw [hpc]; rfl) hr hc rfl nofun
  | @deliver i dcid pak r c hpc hr hc =>
    exact control_recv h rfl rfl rfl (fun _ hj => .inl hj) (moves_modCon s i fun _ => c).length
      fun _ _ => guard_sent h (by rw [hpc]; rfl) hc (quietly_refl _)
  | @conEnded i dcid pak r c hpc hr hc =>
    have hm : Moves Quietly (s.modCon i fun _ => c).cons
        ((s.modCon i fun _ => c).modCon i Con.unmap).cons :=
      quietly_modCon fun c => .one (a := .unmap) rfl rfl
    exact control_recv h rfl rfl rfl (fun _ hj => .inl hj)
      (hm.length.trans (moves_modCon s _ _).length)
      fun _ _ => guard_sent h (by rw [hpc]; rfl) hc hm
  | permit hpc hr hc =>
    exact control_permit h (by rw [hpc]; rfl) (by rw [hpc]; rfl) hr hc rfl
      fun j hj => by rw [hpc]; exact hj
  | put hpc hr hc => exact control_put h hpc hr hc
  | @inCon i g hpc =>
    refine control_recv h rfl rfl rfl (fun j hj => ?_) rfl
      fun _ _ => guard_quietly h (by rw [hpc]; rfl) (quietly_refl s)
    rcases List.mem_append.mp hj with hj | hj
    · exact .inl (List.mem_append_left _ hj)
    · obtain ⟨x, hx, rfl⟩ := List.mem_map.mp hj
      rcases List.mem_append.mp hx with hx | hx
      · exact .inl (List.mem_append_right _ (List.mem_map_of_mem hx))
      · rw [List.mem_singleton.mp hx, hpc]; exact .inr rfl
  | noInCon hpc =>
    have hm := quietly_dropCons s
    exact control_recv h rfl rfl rfl (fun _ hj => .inl hj) (hm _).length
      fun _ _ => guard_quietly h (by rw [hpc]; rfl) (hm _)
  | @refuseNew addr rsp config err hpc hc =>
    have hm := quietly_answer { s with cid := s.cid.cid.2, config } rsp (.error (.quiche err))
    have he := answer_eq { s with cid := s.cid.cid.2, config } rsp (.error (.quiche err))
    refine control_recv h rfl rfl ?_ (fun j hj => ?_) hm.length
      fun _ _ => guard_quietly h (by rw [hpc]; rfl) hm
    · show (Ep.answer { s with cid := s.cid.cid.2, config } rsp (.error (.quiche err))).cmd.rx = _
      rw [he]
    · rcases offered_answer hj with hj | hj
      · exact .inl hj
      · cases hj
  | spawnNew hpc _ hc =>
    exact control_spawn h (by rw [hpc]; rfl) (by rw [hpc]; rfl) hc rfl rfl _ _
  | @answerNew i scid rsp hpc =>
    have hm := (quietly_insertCon s scid i).trans_runs (quietly_answer _ rsp (.ok i))
    have he := answer_eq (s.insertCon scid i) rsp (.ok i)
    have hi := insertCon_eq s scid i
    refine control_recv h rfl rfl ?_ (fun j hj => ?_) hm.length
      fun _ _ => guard_quietly h (by rw [hpc]; rfl) hm
    · show ((s.insertCon scid i).answer rsp (.ok i)).cmd.rx = _
      rw [he, hi]
    · rcases offered_answer hj with hj | hj
      · rw [hi] at hj; exact .inl hj
      · cases hj; rw [hpc]; exact .inr rfl

theorem not_ends {s : Ep Q} (h : Control s) : ¬ Ends s := by
  intro he
  cases he with
  | closed hpc h0 =>
    unfold cmdSenders at h0
    rw [h.running] at h0
    simp at h0
  | @permit i scid pak r hpc hr hn =>
    rcases Con.tryAcquire_eq_none hn with hg | hf
    · have := (h.guard i r hr).mp hg
      rw [hpc] at this
      cases this
    · have := h.permit i scid pak r hpc hr
      omega
  | guard hpc hn => exact h.evt (by rw [hpc]; rfl) hn

theorem control_init {s : Ep Q} (h : (sys Q).init s) : Control s := by
  obtain ⟨n, config, h3Config, rfl⟩ := h
  exact ⟨rfl, rfl, fun _ => rfl, nofun, nofun, nofun, fun _ _ hi => (nomatch hi),
    fun _ _ _ _ hi => (nomatch hi), fun i r hr => (nomatch hr)⟩

theorem control_step {a : EpAct} {s s' : Ep Q} (hs : step a s = some s') (h : Control s) :
    Control s' := by
  by_cases ha : a = .task
  · subst ha
    exact control_task h ((taskStep_cases hs).resolve_right (not_ends h))
  · exact h.frame (frame_step hs ha h.rx)

/-- `ep_task`'s control flow, in every reachable state. -/
theorem sys_control {s : Ep Q} (h : (sys Q).Reach s) : Control s :=
  h.invariant (fun _ => control_init) fun a s _ _ hc hs => control_step (Q := Q) (a := a) (s := s) hs hc

/-- A step from a reachable state: of `ep_task`, or of another party. -/
theorem reach_cases {a : EpAct} {s s' : Ep Q} (h : (sys Q).Reach s) (hs : step a s = some s') :
    a = .task ∧ TaskStep s s' ∨ a ≠ .task ∧ Frame s s' := by
  have hc := sys_control h
  by_cases ha : a = .task
  · subst ha; exact .inl ⟨rfl, (taskStep_cases hs).resolve_right (not_ends hc)⟩
  · exact .inr ⟨ha, frame_step hs ha hc.rx⟩

/-! ## The trace -/

/-- Where `ep_task` logs this. -/
def Logs (s : Ep Q) : EpObs → Prop
  | .yield _ => False
  | .take _ => s.pc = .recv
  | .fate pak _ => s.pc.pak? = some pak
  | .streamEnd => s.pc = .cmd (.inPak none)
  | .newCon rsp (.error _) => ∃ addr, s.pc = .cmd (.newCon addr rsp)
  | .newCon rsp (.ok i) => ∃ scid, s.pc = .newCon i scid rsp
  | .inCon i => s.pc = .inCon i

theorem trace_answerNewCon (s : Ep Q) (i : Nat) (scid : ConnectionId) (rsp : Nat) :
    (s.answerNewCon i scid rsp).trace = s.trace ++ [.newCon rsp (.ok i)] := by
  show ((s.insertCon scid i).answer rsp (.ok i)).trace ++ _ = _
  rw [answer_eq, insertCon_eq]

/-- A step of `ep_task` logs one thing at most. -/
theorem trace_task {s s' : Ep Q} (h : TaskStep s s') :
    s'.trace = s.trace ∨ ∃ o, s'.trace = s.trace ++ [o] ∧ s.Logs o := by
  cases h with
  | take hpc | streamEnd hpc | inCon hpc => exact .inr ⟨_, rfl, hpc⟩
  | drop hpc | refuse hpc | deliver hpc | conEnded hpc => exact .inr ⟨_, rfl, by rw [Logs, hpc]; rfl⟩
  | @put i scid pak r c ok hpc =>
    refine .inr ⟨.fate pak (.created i ok), ?_, by rw [Logs, hpc]; rfl⟩
    rw [insertCon_eq]; rfl
  | @refuseNew addr rsp config err hpc =>
    refine .inr ⟨.newCon rsp (.error err), ?_, addr, hpc⟩
    show (Ep.answer { s with cid := s.cid.cid.2, config } rsp (.error (.quiche err))).trace ++ _ = _
    rw [answer_eq]
  | @answerNew i scid rsp hpc =>
    exact .inr ⟨.newCon rsp (.ok i), trace_answerNewCon s i scid rsp, scid, hpc⟩
  | _ => exact .inl rfl

/-- What a step logs. -/
theorem trace_step {a : EpAct} {s s' : Ep Q} (h : (sys Q).Reach s) (hs : step a s = some s') :
    ∃ l, s'.trace = s.trace ++ l ∧ ∀ o ∈ l, s.Logs o ∨ ∃ item, o = .yield item := by
  rcases reach_cases h hs with ⟨-, ht⟩ | ⟨-, hf⟩
  · rcases trace_task ht with he | ⟨o, he, ho⟩
    · exact ⟨[], by rw [he, List.append_nil], nofun⟩
    · exact ⟨[o], he, fun x hx => .inl (List.mem_singleton.mp hx ▸ ho)⟩
  · obtain ⟨l, hl, hy⟩ := hf.trace
    exact ⟨l, hl, fun o ho => .inr (hy o ho)⟩

/-- What was logged stays. -/
theorem trace_prefix {s s' : Ep Q} (h : (sys Q).Reach s) (hs : (sys Q).Steps (fun _ => True) s s') :
    s.trace <+: s'.trace := by
  have hi : (sys Q).Reach s' ∧ s.trace <+: s'.trace := by
    refine hs.invariant (I := fun t => (sys Q).Reach t ∧ s.trace <+: t.trace) ?_ ⟨h, List.prefix_refl _⟩
    rintro a t t' - ⟨hr, hp⟩ hst
    obtain ⟨l, hl, -⟩ := trace_step hr hst
    exact ⟨.step a hr hst, hp.trans ⟨l, hl.symm⟩⟩
  exact hi.2

/-! ## The connections of a reachable state -/

/-- `ep_task` created the connection `new`. -/
structure Spawned (s s' : Ep Q) (new : EpCon Q) : Prop where
  cons : s'.cons = s.cons ++ [new]
  init : (Con.sys Q).init new.con
  cid : s'.cid = s.cid.cid.2
  scid : new.scid = s.cid.cid.1
  conMap : s'.conMap = s.conMap
  inserts : s'.pc.inserts? = some (s.cons.length, new.scid)
  origin : ∀ x, new.origin = some x → s.pc = .cmd (.inPak (some (.ok x.1))) ∧
    Q.headerFromSlice x.1.data 16 = .ok x.2 ∧ s.conMap.lookup x.2.dcid = none ∧ x.2.ty = .initial

/-- The connections after a step of `ep_task`: a new one at the end, or each moved. -/
theorem cons_task {s s' : Ep Q} (h : TaskStep s s') :
    (∃ new, Spawned s s' new) ∨
      Moves (Runs fun _ => True) s.cons s'.cons := by
  have hq : ∀ {l : List (EpCon Q)}, Moves Quietly s.cons l → Moves (Runs fun _ => True) s.cons l :=
    fun h => h.mono fun _ _ _ h => h.mono fun _ _ => trivial
  have hsend : ∀ {c c' : Con Q} {pak : UdpPak} {ok : Bool}, c.sendInPak pak = some (c', ok) →
      (Con.sys Q).Steps (fun _ => True) c c' := fun {c c' pak ok} h =>
    .one (a := .sendInPak pak) trivial (by show (c.sendInPak pak).map _ = _; rw [h]; rfl)
  cases h with
  | accept hpc hh hl ht _ hc =>
    exact .inl ⟨_, rfl, ⟨_, _, hc⟩, rfl, rfl, rfl, rfl, fun x hx => by cases hx; exact ⟨hpc, hh, hl, ht⟩⟩
  | spawnNew _ _ hc => exact .inl ⟨_, rfl, ⟨_, _, hc⟩, rfl, rfl, rfl, rfl, fun x hx => (nomatch hx)⟩
  | route _ _ _ hr hc => exact .inr (runs_modCon hr (.one (a := .tryAcquire) trivial hc))
  | permit _ hr hc => exact .inr (runs_modCon hr (.one (a := .tryAcquire) trivial hc))
  | deliver _ hr hc => exact .inr (runs_modCon hr (hsend hc))
  | conEnded _ hr hc =>
    refine .inr ((runs_modCon hr (hsend hc)).trans_runs ((quietly_modCon ?_).mono ?_))
    · exact fun c => .one (a := .unmap) rfl rfl
    · exact fun _ _ _ h => h.mono fun _ _ => trivial
  | @put i scid pak r c ok _ hr hc =>
    have hm := quietly_insertCon ((s.modCon i fun _ => c).log (.fate pak (.created i ok))) scid i
    exact .inr ((runs_modCon hr (hsend hc)).trans_runs
      (hm.mono fun _ _ _ h => h.mono fun _ _ => trivial))
  | noInCon => exact .inr (hq (quietly_dropCons s _))
  | @refuseNew addr rsp config err =>
    have hm := quietly_answer { s with cid := s.cid.cid.2, config } rsp (.error (.quiche err))
    exact .inr (hq hm)
  | answerNew => exact .inr (hq ((quietly_insertCon s _ _).trans_runs (quietly_answer _ _ _)))
  | _ => exact .inr (hq (quietly_refl s))

/-- Each connection is a reachable state of its own system. -/
theorem cons_reach {s : Ep Q} (h : (sys Q).Reach s) {i : Nat} {r : EpCon Q}
    (hr : s.cons[i]? = some r) : (Con.sys Q).Reach r.con := by
  refine h.family (T := Con.sys Q) (P := fun _ => True) (g := fun s => s.cons.map (·.con)) ?_ ?_ i
    r.con (by rw [List.getElem?_map, hr]; rfl)
  · rintro s ⟨n, config, h3Config, rfl⟩; rfl
  · intro a s s' hs hst i c' hc'
    obtain ⟨r', hr', rfl⟩ := Option.map_eq_some_iff.mp (List.getElem?_map ▸ hc')
    have hback : Moves (Runs fun _ => True) s.cons s'.cons → ∃ c,
        (s.cons.map (·.con))[i]? = some c ∧ (Con.sys Q).Steps (fun _ => True) c r'.con := by
      intro hm
      obtain ⟨r, hr, -, hs⟩ := hm.back hr'
      exact ⟨r.con, by rw [List.getElem?_map, hr]; rfl, hs⟩
    rcases reach_cases hs hst with ⟨-, ht⟩ | ⟨-, hf⟩
    · rcases cons_task ht with ⟨new, hn⟩ | hm
      · rcases List.getElem?_concat_cases (hn.cons ▸ hr') with hr' | ⟨-, rfl⟩
        · exact .inr ⟨r'.con, by rw [List.getElem?_map, hr']; rfl, .refl _⟩
        · exact .inl hn.init
      · exact .inr (hback hm)
    · exact .inr (hback (hf.cons.mono fun _ _ _ h => h.quiet.mono fun _ _ => trivial))

/-! ## No `unwrap` panics -/

/-- Neither task has panicked, and every `unwrap` that a task is about to reach finds a value. -/
structure Unwraps (s : Ep Q) : Prop where
  ep : s.pc ≠ .ended .panicked
  con : ∀ r ∈ s.cons, r.con.pc ≠ .ended .panicked
  /-- The permit of the first `Tick`. -/
  tick : ∀ (h3Config : Option Q.H3Config) con, Con.quicheCon h3Config con ≠ none
  /-- The permit of the first packet. -/
  accept : ∀ i scid pak, s.pc = .accepted i scid pak →
    ∃ r, s.cons[i]? = some r ∧ r.con.tryAcquire ≠ none
  inCon : ∀ i, s.pc = .inCon i → s.evtGuard ≠ none
  /-- The guard of a command, for the sleeper. -/
  cmdGuard : ∀ r ∈ s.cons, ∀ cmd, r.con.pc = .cmd cmd → (r.con.dispatch cmd).cmdGuard ≠ none
  /-- The permit of `Connected`. -/
  connected : ∀ r ∈ s.cons, r.con.pc = .established →
    ({ r.con with connected := true } : Con Q).setupH3.evtGuard ≠ none
  /-- The permit of a message. -/
  message : ∀ r ∈ s.cons, r.con.pc = .poll → r.con.evtGuard ≠ none

/-- The connection that `ep_task` accepts has a permit: its `con_task` and its sleepers cannot hold
more than the first one, wherever that is. -/
theorem accepted_permit {s : Ep Q} (h : Control s) {i : Nat} {scid : ConnectionId} {pak : UdpPak}
    (hpc : s.pc = .accepted i scid pak) :
    ∃ r, s.cons[i]? = some r ∧ r.con.tryAcquire ≠ none := by
  have hi : i < s.cons.length := by
    have := (h.here i (by rw [hpc]; rfl)).1
    omega
  refine ⟨s.cons[i], List.getElem?_eq_getElem hi, fun hn => ?_⟩
  have hr := List.getElem?_eq_getElem hi
  rcases Con.tryAcquire_eq_none hn with hg | hf
  · have hsend := (h.guard i _ hr).mp hg
    rw [hpc] at hsend
    cases hsend
  · have := h.permit i scid pak _ hpc hr
    omega

/-- In every reachable state. -/
theorem unwraps {s : Ep Q} (h : (sys Q).Reach s) : Unwraps s := by
  have hc := sys_control h
  have hcon : ∀ r ∈ s.cons, Con.Control r.con := by
    intro r hr
    obtain ⟨i, hi⟩ := List.mem_iff_getElem?.mp hr
    exact Con.sys_control (cons_reach h hi)
  constructor
  case ep =>
    intro hp
    have hrun := hc.running
    rw [hp] at hrun
    cases hrun
  case con =>
    intro r hr hp
    have hexit := (hcon r hr).exit _ hp
    cases hexit
  case tick => exact fun h3Config con => nofun
  case accept => exact fun i scid pak hpc => accepted_permit hc hpc
  case inCon => exact fun i hpc => hc.evt (by rw [hpc]; rfl)
  case cmdGuard =>
    intro r hr cmd hpc
    have hd := Con.control_dispatch (hcon r hr) hpc
    exact hd.busy cmd ((Con.pc_dispatch r.con cmd).trans hpc)
  case connected =>
    intro r hr hpc
    rw [Con.setupH3_spec]
    exact (hcon r hr).evt (by rw [hpc]; rfl)
  case message => exact fun r hr hpc => (hcon r hr).evt (by rw [hpc]; rfl)

/-- A connection whose task runs before its packet is put. -/
theorem unwraps_accepted : ∃ s : Ep (Quiche.inert ()), s.cons.length = 1 ∧ Unwraps s := by
  obtain ⟨s, hr, hs⟩ := Lts.Reach.of_run_any (S := sys (Quiche.inert ()))
    (EpAct.packet [] 3 ++ [.con 0 .task, .con 0 .task])
    (fun (s : Ep (Quiche.inert ())) => decide (s.cons.length = 1)) ⟨0, (), none, rfl⟩
    (by decide +kernel)
  exact ⟨s, of_decide_eq_true hs, unwraps hr⟩

end Ep
end Absquic
