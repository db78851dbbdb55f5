import Absquic.Conn.Commands

/-!
# The calls of `on_timeout`

After each command `con_task` reads `timeout()` of quiche, and if the timer is armed, a sleeper is to
send a `Timeout` at its deadline. So a connection has many sleepers at a time, which ring in any order
after their deadlines. `timerEvts` is what happens about the timer.

In every run (`on_time`): a deadline that rings was asked for, and is asked for once for each time that it
rings; the calls of `on_timeout` answer the sleepers in the order in which they rang, each once
and never before its deadline; and as long as the task runs no deadline is lost: a sleeper waits
for it, its `Timeout` is on the command channel, or the call was made.
-/

namespace Absquic

/-- What happens about the timer. -/
inductive TimerEvt
  /-- `timeout()` gave a deadline, and a sleeper was spawned. -/
  | asked (deadline : Instant)
  /-- The sleeper has sent its `Timeout`. -/
  | rung (deadline : Instant)
  /-- `on_timeout` was called. -/
  | called (time : Instant)

namespace TimerEvt

def asked? : TimerEvt → Option Instant
  | .asked t => some t
  | _ => none

def rung? : TimerEvt → Option Instant
  | .rung t => some t
  | _ => none

def called? : TimerEvt → Option Instant
  | .called t => some t
  | _ => none

end TimerEvt

namespace Con

variable {Q : Quiche} {c c' : Con Q}

/-- What a step does about the timer. -/
def timerEvts (a : ConAct) (c _ : Con Q) : List TimerEvt :=
  match a with
  | .task =>
    match c.pc with
    | .cmd m => (if m = .timeout then [.called c.now] else []) ++
        (Q.timeout c.now (c.dispatch m).con).toList.map fun d => .asked (c.now + d)
    | _ => []
  | .fire k => if c.cmd.rx then c.sleepers[k]?.toList.map fun s => .rung s.timeout else []
  | _ => []

/-- The deadlines that were asked for, -/
def askeds (l : List TimerEvt) : List Instant := l.filterMap (·.asked?)

/-- those that rang, -/
def rungs (l : List TimerEvt) : List Instant := l.filterMap (·.rung?)

/-- and the times of the calls of `on_timeout`. -/
def calleds (l : List TimerEvt) : List Instant := l.filterMap (·.called?)

/-- The deadlines of the sleepers. -/
def deadlines (c : Con Q) : List Instant := c.sleepers.map (·.timeout)

/-- The `Timeout`s on the command channel, with the one in the hand of `con_task`. -/
def timeouts (c : Con Q) : Nat := ((cmds Q).queue c).count .timeout

/-- What happened about the timer is in order (module doc). -/
structure OnTime (c : Con Q) (l : List TimerEvt) : Prop where
  asked : (rungs l ++ c.deadlines).Subperm (askeds l)
  /-- Each call has a sleeper that it answers, and comes after its deadline. -/
  called : (calleds l).length ≤ (rungs l).length
  due : List.Forall₂ (· ≤ ·) ((rungs l).take (calleds l).length) (calleds l)
  /-- As long as the task runs, nothing is lost. -/
  all : c.pc.over = false → (rungs l ++ c.deadlines).Perm (askeds l) ∧
    (rungs l).length = (calleds l).length + c.timeouts

/-! ## One step -/

/-- The events of a step, and what it does to the sleepers and to the command channel. -/
structure Ticks (c c' : Con Q) (l : List TimerEvt) : Prop where
  now : c.now ≤ c'.now
  running : c'.pc.over = false → c.pc.over = false
  sleepers : (rungs l ++ c'.deadlines).Subperm (c.deadlines ++ askeds l)
  all : c'.pc.over = false → (rungs l ++ c'.deadlines).Perm (c.deadlines ++ askeds l)
  due : ∀ t ∈ rungs l, t ≤ c.now
  new : ∀ t ∈ askeds l, c.now ≤ t
  flow : c'.pc.over = false → (calleds l).length + c'.timeouts = c.timeouts + (rungs l).length
  /-- A call is made for a `Timeout` in hand. -/
  called : calleds l = [] ∨
    calleds l = [c.now] ∧ rungs l = [] ∧ c.pc.over = false ∧ 0 < c.timeouts

theorem length_calleds (a : ConAct) (c c' : Con Q) :
    (calleds (timerEvts a c c')).length = (handles a c c').count .timeout := by
  have hasked : ∀ (o : Option Duration) (f : Duration → Instant),
      (o.toList.map fun d => TimerEvt.asked (f d)).filterMap (·.called?) = [] := by
    intro o f
    cases o <;> rfl
  cases a with
  | task =>
    unfold timerEvts handles calleds
    cases hpc : c.pc with
    | cmd m =>
      dsimp only
      rw [List.filterMap_append, hasked, List.append_nil]
      by_cases hm : m = .timeout
      · subst hm; rfl
      · rw [if_neg hm]
        exact (List.count_eq_zero_of_not_mem fun h => hm (List.mem_singleton.mp h).symm).symm
    | _ => rfl
  | fire k =>
    unfold timerEvts handles calleds
    dsimp only
    split
    · cases c.sleepers[k]? <;> rfl
    · rfl
  | _ => rfl

theorem rungs_task (c c' : Con Q) : rungs (timerEvts .task c c') = [] := by
  have hasked : ∀ (o : Option Duration) (f : Duration → Instant),
      (o.toList.map fun d => TimerEvt.asked (f d)).filterMap (·.rung?) = [] := by
    intro o f
    cases o <;> rfl
  unfold timerEvts rungs
  dsimp only
  split
  · rw [List.filterMap_append, hasked, List.append_nil]
    split <;> rfl
  · rfl

theorem length_rungs {a : ConAct} (hs : step a c = some c') :
    (rungs (timerEvts a c c')).length = (putCmd a c c').count .timeout := by
  have hne : ∀ {m : ConCmd}, m ≠ .timeout → [m].count .timeout = 0 := fun hm =>
    List.count_eq_zero_of_not_mem fun h => hm (List.mem_singleton.mp h).symm
  cases a with
  | task =>
    rw [rungs_task]
    unfold putCmd
    split <;> rfl
  | fire k =>
    unfold timerEvts putCmd
    dsimp only
    split
    · change c.fire k = some c' at hs
      unfold fire at hs
      cases hk : c.sleepers[k]? with
      | none => rw [hk] at hs; cases hs
      | some s => rfl
    · rfl
  | callSend k =>
    unfold putCmd
    split
    · dsimp only
      split
      · exact (hne (by rintro ⟨⟩)).symm
      · rfl
    · rfl
  | sendInPak pak =>
    unfold putCmd
    split
    · exact (hne (by rintro ⟨⟩)).symm
    · rfl
  | _ =>
    unfold putCmd
    split <;> rfl

theorem deadlines_congr (h : c'.sleepers = c.sleepers) : c'.deadlines = c.deadlines := by
  unfold deadlines
  rw [h]

/-- The read of the timeout: a sleeper with the deadline. -/
theorem deadlines_schedTimeout (hg : c.cmdGuard ≠ none) : c.schedTimeout.now = c.now ∧
    c.schedTimeout.deadlines =
      c.deadlines ++ (Q.timeout c.now c.con).toList.map fun d => c.now + d := by
  unfold schedTimeout
  dsimp only
  cases hd : Q.timeout c.now c.con with
  | none => exact ⟨rfl, (List.append_nil _).symm⟩
  | some d =>
    dsimp only
    split
    · next hn => exact absurd hn hg
    · exact ⟨rfl, List.map_append⟩

theorem deadlines_task (hr : (sys Q).Reach c) (hs : c.taskStep = some c') :
    c'.now = c.now ∧ c'.deadlines = c.deadlines ++ askeds (timerEvts .task c c') := by
  have hstill : c.pc.cmd? = none → askeds (timerEvts .task c c') = [] := by
    intro hn
    unfold timerEvts askeds
    cases hpc : c.pc with
    | cmd m => rw [hpc] at hn; cases hn
    | _ => rfl
  by_cases hb : c.pc.inBody
  · have hn : c.pc.cmd? = none := by cases hpc : c.pc <;> rw [hpc] at hb <;> first | rfl | cases hb
    rw [hstill hn, List.append_nil]
    cases body_taskStep hs hb with
    | go k => exact ⟨k.now, deadlines_congr k.sleepers⟩
    | ret k => exact ⟨k.now, deadlines_congr k.sleepers⟩
  · unfold taskStep at hs
    split at hs
    · next hpc =>
      rw [hstill (by rw [hpc]; rfl), List.append_nil]
      unfold recvCmd at hs
      split at hs
      · cases hs; exact ⟨rfl, rfl⟩
      · split at hs
        · cases hs; exact ⟨rfl, rfl⟩
        · cases hs
    · next m hpc =>
      cases hs
      have hg := (control_dispatch (sys_control hr) hpc).busy m ((pc_dispatch c m).trans hpc)
      obtain ⟨hnow, hd⟩ := deadlines_schedTimeout hg
      obtain ⟨⟨_, _, _, _, _, _, he⟩, -⟩ := dispatch_spec c m
      have hnow' : (c.dispatch m).now = c.now := by rw [he]
      refine ⟨hnow.trans hnow', ?_⟩
      have hdd : (c.dispatch m).deadlines = c.deadlines := by rw [he]; rfl
      rw [hd, hdd, hnow']
      congr 1
      unfold timerEvts askeds
      rw [hpc]
      dsimp only
      rw [List.filterMap_append]
      split <;> cases Q.timeout c.now (c.dispatch m).con <;> rfl
    all_goals first | cases hs; done | (next hpc => exact absurd (by rw [hpc]; rfl) hb)

theorem askeds_other {a : ConAct} (ha : a ≠ .task) (c c' : Con Q) :
    askeds (timerEvts a c c') = [] ∧ calleds (timerEvts a c c') = [] := by
  cases a with
  | task => exact absurd rfl ha
  | fire k =>
    unfold timerEvts askeds calleds
    dsimp only
    split
    · cases c.sleepers[k]? <;> exact ⟨rfl, rfl⟩
    · exact ⟨rfl, rfl⟩
  | _ => exact ⟨rfl, rfl⟩

/-- A sleeper that rings is due. -/
theorem due_fire {k : Nat} {s : Sleeper} (hs : step (.fire k) c = some c')
    (hk : c.sleepers[k]? = some s) : s.timeout ≤ c.now := by
  change c.fire k = some c' at hs
  unfold fire at hs
  rw [hk] at hs
  dsimp only at hs
  split at hs
  · assumption
  · cases hs

theorem perm_deadlines {k : Nat} {s : Sleeper} (hk : c.sleepers[k]? = some s) :
    (s.timeout :: (c.sleepers.eraseIdx k).map (·.timeout)).Perm c.deadlines := by
  obtain ⟨hlt, rfl⟩ := List.getElem?_eq_some_iff.mp hk
  exact (List.getElem_cons_eraseIdx_perm hlt).map (·.timeout)

theorem rungs_fire {k : Nat} {s : Sleeper} (hr : c.cmd.rx = true) (hk : c.sleepers[k]? = some s) :
    rungs (timerEvts (.fire k) c c') = [s.timeout] := by
  unfold timerEvts
  dsimp only
  rw [if_pos hr, hk]
  rfl

/-- The steps of the other parties. -/
theorem deadlines_other {a : ConAct} (hs : step a c = some c') (ha : a ≠ .task) :
    (rungs (timerEvts a c c') ++ c'.deadlines).Subperm c.deadlines ∧
      (c.cmd.rx = true → (rungs (timerEvts a c c') ++ c'.deadlines).Perm c.deadlines) ∧
      ∀ t ∈ rungs (timerEvts a c c'), t ≤ c.now := by
  have hstill : ∀ {l}, rungs l = [] → c'.deadlines = c.deadlines →
      (rungs l ++ c'.deadlines).Subperm c.deadlines ∧
        (c.cmd.rx = true → (rungs l ++ c'.deadlines).Perm c.deadlines) ∧
        ∀ t ∈ rungs l, t ≤ c.now := by
    intro l hl hd
    rw [hl, hd]
    exact ⟨List.Subperm.refl _, fun _ => .rfl, nofun⟩
  have hfire := @due_fire Q c c'
  cases otherStep_cases hs ha with
  | @fire k s hk hr =>
    rw [rungs_fire hr hk]
    have hp := perm_deadlines hk
    exact ⟨hp.subperm, fun _ => hp, List.forall_mem_singleton.mpr (hfire hs hk)⟩
  | @fireLost k s hk hr =>
    have hl : timerEvts (.fire k) c
        (({ c with sleepers := c.sleepers.eraseIdx k } : Con Q).dropGuards [s.guard]) = [] := by
      unfold timerEvts
      dsimp only
      rw [if_neg (by rw [hr]; exact Bool.false_ne_true)]
    rw [hl]
    refine ⟨?_, fun hx => absurd (hr.symm.trans hx) Bool.false_ne_true, by rintro t ⟨⟩⟩
    exact (List.sublist_cons_self _ _).subperm.trans (perm_deadlines hk).subperm
  | _ => exact hstill rfl rfl

/-- A new deadline is not over. -/
theorem askeds_task (c c' : Con Q) : ∀ t ∈ askeds (timerEvts .task c c'), c.now ≤ t := by
  intro t ht
  obtain ⟨e, he, het⟩ := List.mem_filterMap.mp ht
  unfold timerEvts at he
  cases hpc : c.pc with
  | cmd m =>
    rw [hpc] at he
    rcases List.mem_append.mp he with he | he
    · split at he
      · rw [List.mem_singleton.mp he] at het
        cases het
      · cases he
    · obtain ⟨d, -, rfl⟩ := List.mem_map.mp he
      cases het
      exact Nat.le_add_right _ _
  | _ => rw [hpc] at he; cases he

/-- The call of `on_timeout`. -/
theorem calleds_task (ho : c.pc.over = false) : calleds (timerEvts .task c c') = [] ∨
    calleds (timerEvts .task c c') = [c.now] ∧ rungs (timerEvts .task c c') = [] ∧
      c.pc.over = false ∧ 0 < c.timeouts := by
  have hlen := length_calleds .task c c'
  by_cases hm : c.pc = .cmd .timeout
  · refine .inr ⟨?_, rungs_task c c', ho, ?_⟩
    · unfold timerEvts calleds
      rw [hm]
      dsimp only
      rw [if_pos rfl, List.filterMap_append]
      cases Q.timeout c.now (c.dispatch .timeout).con <;> rfl
    · refine List.count_pos_iff.mpr (List.mem_append_left _ ?_)
      rw [hm]
      exact List.mem_singleton.mpr rfl
  · refine .inl (List.length_eq_zero_iff.mp (hlen.trans (List.count_eq_zero_of_not_mem fun h => hm ?_)))
    unfold handles at h
    cases hpc : c.pc with
    | cmd m =>
      rw [hpc] at h
      rw [List.mem_singleton.mp h]
    | _ => rw [hpc] at h; cases h

theorem ticks_step {a : ConAct} (h : (sys Q).Reach c) (hs : step a c = some c') :
    Ticks c c' (timerEvts a c c') := by
  have hflow : c'.pc.over = false → (calleds (timerEvts a c c')).length + c'.timeouts =
      c.timeouts + (rungs (timerEvts a c c')).length := by
    intro ho
    obtain ⟨-, hf⟩ := (cmds_lawful Q).flow a c c' h hs (by simp [cmds, ho])
    have hcount := congrArg (List.count .timeout) hf
    rw [List.count_append, List.count_append] at hcount
    rw [length_calleds, length_rungs hs]
    exact hcount
  by_cases ha : a = .task
  · subst ha
    have hov := (taskStep_cases hs (sys_control h)).not_over
    obtain ⟨hnow, hd⟩ := deadlines_task h hs
    refine ⟨le_of_eq hnow.symm, fun _ => hov, ?_, fun _ => ?_, ?_, askeds_task c c', hflow, ?_⟩
    · rw [rungs_task, hd]
      exact List.Subperm.refl _
    · rw [rungs_task, hd]
      exact .rfl
    · rw [rungs_task]
      rintro t ⟨⟩
    · exact calleds_task hov
  · have hf := frame_step hs ha
    obtain ⟨hsub, hperm, hdue⟩ := deadlines_other hs ha
    obtain ⟨hasked, hcalled⟩ := askeds_other ha c c'
    refine ⟨hf.now, fun ho => hf.pc ▸ ho, ?_, fun ho => ?_, hdue, ?_, hflow, .inl hcalled⟩
    · rwa [hasked, List.append_nil]
    · rw [hasked, List.append_nil]
      refine hperm ?_
      rw [(sys_control h).rx, ← hf.pc, ho]
      rfl
    · rw [hasked]
      rintro t ⟨⟩

/-! ## The runs -/

/-- The invariant: what rang was due. -/
structure Ordered (c : Con Q) (l : List TimerEvt) : Prop extends OnTime c l where
  past : ∀ t ∈ rungs l, t ≤ c.now

theorem rungs_append (l l' : List TimerEvt) : rungs (l ++ l') = rungs l ++ rungs l' :=
  List.filterMap_append

theorem askeds_append (l l' : List TimerEvt) : askeds (l ++ l') = askeds l ++ askeds l' :=
  List.filterMap_append

theorem calleds_append (l l' : List TimerEvt) : calleds (l ++ l') = calleds l ++ calleds l' :=
  List.filterMap_append

theorem Ordered.next {l e : List TimerEvt} (h : Ordered c l) (ht : Ticks c c' e) :
    Ordered c' (l ++ e) := by
  have hnow := ht.now
  have hlen := h.called
  refine ⟨⟨?_, ?_, ?_, fun ho => ?_⟩, ?_⟩
  · rw [rungs_append, askeds_append, List.append_assoc]
    refine ((List.subperm_append_left _).mpr ht.sleepers).trans ?_
    rw [← List.append_assoc]
    exact (List.subperm_append_right _).mpr h.asked
  · rw [calleds_append, rungs_append, List.length_append, List.length_append]
    rcases ht.called with hn | ⟨hc, hn, ho, hpos⟩
    · rw [hn, List.length_nil]
      omega
    · have := (h.all ho).2
      rw [hc, hn, List.length_singleton, List.length_nil]
      omega
  · rw [calleds_append, rungs_append]
    rcases ht.called with hn | ⟨hc, hn, ho, hpos⟩
    · rw [hn, List.append_nil, List.take_append_of_le_length hlen]
      exact h.due
    · -- the first sleeper whose call was not made is that of the `Timeout` in hand
      have hlt : (calleds l).length < (rungs l).length := by
        have := (h.all ho).2
        omega
      rw [hc, hn, List.append_nil, List.length_append, List.length_singleton,
        List.take_succ_eq_append_getElem hlt]
      exact List.rel_append h.due (.cons (h.past _ (List.getElem_mem hlt)) .nil)
  · have ho₀ := ht.running ho
    obtain ⟨hp, hn⟩ := h.all ho₀
    have hflow := ht.flow ho
    constructor
    · rw [rungs_append, askeds_append, List.append_assoc]
      refine ((ht.all ho).append_left _).trans ?_
      rw [← List.append_assoc]
      exact hp.append_right _
    · rw [calleds_append, rungs_append, List.length_append, List.length_append]
      omega
  · rw [rungs_append]
    refine List.forall_mem_append.mpr ⟨fun t hm => Nat.le_trans (h.past t hm) hnow, fun t hm => ?_⟩
    exact Nat.le_trans (ht.due t hm) hnow

theorem ordered {as : List ConAct} {c₀ : Con Q} (h₀ : (sys Q).init c₀)
    (hr : (sys Q).run as c₀ = some c) : Ordered c ((sys Q).gather timerEvts as c₀) := by
  refine Lts.init_gather (fun a c c' l h hi hs => hi.next (ticks_step h hs)) h₀ hr ?_
  obtain ⟨h3Config, con, hq⟩ := h₀
  cases hq
  exact ⟨⟨List.nil_subperm, Nat.le_refl 0, .nil, fun _ => ⟨.rfl, rfl⟩⟩, by rintro t ⟨⟩⟩

/-- In every run (module doc). -/
theorem on_time {as : List ConAct} {c₀ : Con Q} (h₀ : (sys Q).init c₀)
    (hr : (sys Q).run as c₀ = some c) : OnTime c ((sys Q).gather timerEvts as c₀) :=
  (ordered h₀ hr).toOnTime

/-- A library whose connections have timers, one after another; a packet or `on_timeout` stops the
first. -/
def timers : Quiche :=
  { Quiche.inert ([] : List Duration) with
    timeout := fun _ (l : List Duration) => l.head?
    onTimeout := fun _ (l : List Duration) => l.tail
    recv := fun _ _ _ (l : List Duration) => l.tail }

/-- A timer is armed when the first `Tick` is handled, and a shorter one when a packet is: its sleeper
rings first. -/
def twoRings : List ConAct :=
  [.deliver, .tryAcquire, .sendInPak ⟨.unspecified, [7]⟩] ++ List.replicate 12 .task ++
    [.tick 5, .fire 1] ++ List.replicate 6 .task ++ [.tick 5, .fire 0] ++ List.replicate 6 .task

theorem on_time_two : ∃ (c : Con timers) (l : List TimerEvt),
    (askeds l = [(9 : Nat), (4 : Nat)] ∧ rungs l = [(4 : Nat), (9 : Nat)] ∧
      calleds l = [(5 : Nat), (10 : Nat)]) ∧ OnTime c l := by
  have hrun : (quicheCon (Q := timers) none [(9 : Nat), (4 : Nat)]).any fun c₀ =>
      ((sys timers).run twoRings c₀).isSome &&
        decide (askeds ((sys timers).gather timerEvts twoRings c₀) = [(9 : Nat), (4 : Nat)] ∧
          rungs ((sys timers).gather timerEvts twoRings c₀) = [(4 : Nat), (9 : Nat)] ∧
          calleds ((sys timers).gather timerEvts twoRings c₀) = [(5 : Nat), (10 : Nat)]) := by
    decide +kernel
  obtain ⟨c₀, h₀, h⟩ := (Option.any_eq_true _ _).mp hrun
  obtain ⟨hr, h⟩ := Bool.and_eq_true_iff.mp h
  obtain ⟨c, hr⟩ := Option.isSome_iff_exists.mp hr
  exact ⟨c, _, of_decide_eq_true h, on_time ⟨_, _, h₀⟩ hr⟩

end Con
end Absquic
