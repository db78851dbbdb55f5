import Absquic.Conn.Deadline
import Absquic.Conn.Served

/-!
# Every deadline is answered

In a run in which the tasks go on, the clock goes beyond the deadlines of the sleepers, and those that are
due wake up (`TimerRun`), each deadline that `con_task` has asked for is answered by a call of
`on_timeout`, unless the task ends (`deadlines_answered`).

Once the clock is beyond some deadlines, the sleepers with these get fewer: a new one is not due before
its command is handled. When none is left, their `Timeout`s are on the command channel or were
handled, and what is on the channel is handled later.
-/

namespace Absquic.Con

variable {Q : Quiche} {c c' : Con Q}

/-- How many sleepers have a deadline before `t`. -/
def early (t : Instant) (c : Con Q) : Nat := c.deadlines.countP (· < t)

/-- A sleeper with a deadline before `t` wakes up at time `n`. -/
def Wakes (r : (sys Q).Execution) (t : Instant) (n : Nat) : Prop :=
  ∃ k s, r.act n = some (.fire k) ∧ (r.state n).sleepers[k]? = some s ∧ s.timeout < t

/-- The parties that have to go on, and the time. -/
structure TimerRun (r : (sys Q).Execution) : Prop extends FairRun r where
  /-- The clock goes beyond each deadline. -/
  clock : ∀ n, ∀ s ∈ (r.state n).sleepers, ∃ m ≥ n, s.timeout < (r.state m).now
  /-- Sleepers that are due do not all sleep on. -/
  wake : ∀ t n, (∀ m ≥ n, t ≤ (r.state m).now ∧ 0 < (r.state m).early t) → ∃ m ≥ n, Wakes r t m

/-- What happened about the timer until time `n`. -/
def timerLog (r : (sys Q).Execution) (n : Nat) : List TimerEvt :=
  (sys Q).gather timerEvts (r.acts 0 n) (r.state 0)

/-! ## The sleepers -/

/-- Once the clock is at `t`, no sleeper with an earlier deadline is new, and those that ring go. -/
theorem early_step {a : ConAct} {t : Instant} (h : (sys Q).Reach c) (hs : step a c = some c')
    (ht : t ≤ c.now) : (rungs (timerEvts a c c')).countP (· < t) + c'.early t ≤ c.early t := by
  have hticks := ticks_step h hs
  have hle := hticks.sleepers.countP_le (· < t)
  have hnew : (askeds (timerEvts a c c')).countP (· < t) = 0 := by
    refine List.countP_eq_zero.mpr fun u hu => ?_
    have := hticks.new u hu
    simp only [decide_eq_true_eq, Nat.not_lt]
    exact Nat.le_trans ht this
  rw [List.countP_append, List.countP_append, hnew] at hle
  exact hle

theorem length_calleds_gather (as : List ConAct) (c : Con Q) :
    (calleds ((sys Q).gather timerEvts as c)).length =
      ((cmds Q).taken (sys Q) as c).count .timeout := by
  induction as generalizing c with
  | nil => rfl
  | cons a as ih =>
    unfold Fifo.taken Lts.gather
    cases (sys Q).step a c with
    | none => rfl
    | some c' =>
      dsimp only
      rw [calleds_append, List.length_append, length_calleds, List.count_append, ih c']
      rfl

/-! ## The runs -/

variable {r : (sys Q).Execution}

theorem timerLog_add (r : (sys Q).Execution) (n k : Nat) : timerLog r (n + k) =
    timerLog r n ++ (sys Q).gather timerEvts (r.acts n k) (r.state n) :=
  r.gather_to timerEvts n k

theorem ordered_at (r : (sys Q).Execution) (n : Nat) : Ordered (r.state n) (timerLog r n) :=
  ordered r.start (r.run_to n)

theorem now_mono (r : (sys Q).Execution) {n m : Nat} (h : n ≤ m) :
    (r.state n).now ≤ (r.state m).now :=
  r.keeps (P := fun c => (r.state n).now ≤ c.now) (Nat.le_refl _)
    (fun j _ _ _ hs ih => Nat.le_trans ih (ticks_step (r.reach j) hs).now) m h

namespace TimerRun

/-- The clock goes beyond all the deadlines of a time. -/
theorem beyond (h : TimerRun r) (n : Nat) :
    ∃ m ≥ n, ∀ s ∈ (r.state n).sleepers, s.timeout < (r.state m).now := by
  suffices hl : ∀ l : List Sleeper, (∀ s ∈ l, s ∈ (r.state n).sleepers) →
      ∃ m ≥ n, ∀ s ∈ l, s.timeout < (r.state m).now from hl _ fun _ hs => hs
  intro l
  induction l with
  | nil => exact fun _ => ⟨n, le_rfl, by rintro s ⟨⟩⟩
  | cons s l ih =>
    intro hl
    obtain ⟨hs, hl⟩ := List.forall_mem_cons.mp hl
    obtain ⟨m, hm, hall⟩ := ih hl
    obtain ⟨k, hk, hlt⟩ := h.clock n s hs
    refine ⟨max m k, hm.trans (Nat.le_max_left m k), List.forall_mem_cons.mpr ⟨?_, fun u hu => ?_⟩⟩
    · exact Nat.lt_of_lt_of_le hlt (now_mono r (Nat.le_max_right m k))
    · exact Nat.lt_of_lt_of_le (hall u hu) (now_mono r (Nat.le_max_left m k))

/-- The sleepers with a deadline before `t` all wake up. -/
theorem silence (h : TimerRun r) {t : Instant} {n : Nat} (ht : t ≤ (r.state n).now)
    (ho : ∀ m ≥ n, (r.state m).pc.over = false) : ∃ m ≥ n, (r.state m).early t = 0 := by
  by_contra hno
  have hpos : ∀ m ≥ n, 0 < (r.state m).early t := fun m hm =>
    Nat.pos_of_ne_zero fun hz => hno ⟨m, hm, hz⟩
  have hnow : ∀ m ≥ n, t ≤ (r.state m).now := fun m hm => Nat.le_trans ht (now_mono r hm)
  refine Lts.Execution.no_descent (M := Wakes r t) (f := fun m => (r.state m).early t) (n := n)
    (fun m hm => ?_) (fun m hm _ => ?_) fun m hm hw => ?_
  · exact h.wake t m fun k hk => ⟨hnow k (hm.trans hk), hpos k (hm.trans hk)⟩
  · rcases r.step m with ⟨-, hs⟩ | ⟨a, -, hs⟩
    · rw [hs]
    · exact (Nat.le_add_left _ _).trans (early_step (r.reach m) hs (hnow m hm))
  · obtain ⟨k, s, hact, hk, hlt⟩ := hw
    have hrx : (r.state m).cmd.rx = true := by
      rw [(sys_control (r.reach m)).rx, ho m hm]
      rfl
    have hle := early_step (a := .fire k) (r.reach m) (Lts.Execution.step_act hact) (hnow m hm)
    rw [rungs_fire hrx hk, List.countP_singleton, if_pos (decide_eq_true hlt)] at hle
    show (r.state (m + 1)).early t < (r.state m).early t
    omega

/-- What was asked for rings. -/
theorem rings (h : TimerRun r) (n : Nat) (ho : ∀ m ≥ n, (r.state m).pc.over = false) :
    ∃ m ≥ n, (askeds (timerLog r n)).Subperm (rungs (timerLog r m)) := by
  obtain ⟨k, hk, hbeyond⟩ := h.beyond n
  obtain ⟨t, ht⟩ : ∃ t, t = (r.state k).now := ⟨_, rfl⟩
  obtain ⟨m, hm, hsilent⟩ := h.silence (le_of_eq ht) fun m hm => ho m (hk.trans hm)
  obtain ⟨l, rfl⟩ := Nat.exists_eq_add_of_le (hk.trans hm)
  refine ⟨n + l, Nat.le_add_right n l, ?_⟩
  obtain ⟨hp, -⟩ := (ordered_at r n).all (ho n le_rfl)
  obtain ⟨hp', -⟩ := (ordered_at r (n + l)).all (ho _ (Nat.le_add_right n l))
  refine List.subperm_ext_iff.mpr fun u _ => ?_
  have hc := hp.count_eq u
  have hc' := hp'.count_eq u
  rw [List.count_append] at hc hc'
  by_cases hu : u < t
  · -- no sleeper has this deadline any more
    have hgone : (r.state (n + l)).deadlines.count u = 0 :=
      List.count_eq_zero_of_not_mem fun hm => List.countP_eq_zero.mp hsilent u hm (decide_eq_true hu)
    have hasked : askeds (timerLog r (n + l)) = askeds (timerLog r n) ++
        askeds ((sys Q).gather timerEvts (r.acts n l) (r.state n)) := by
      rw [timerLog_add, askeds_append]
    rw [hasked, List.count_append] at hc'
    omega
  · -- they had all rung before
    have hgone : (r.state n).deadlines.count u = 0 := by
      refine List.count_eq_zero_of_not_mem fun hm => hu ?_
      obtain ⟨s, hs, rfl⟩ := List.mem_map.mp hm
      exact ht ▸ hbeyond s hs
    rw [timerLog_add, rungs_append, List.count_append]
    omega

end TimerRun

/-- The deadlines whose calls of `on_timeout` were made: the `j`-th call answers the `j`-th sleeper that
rang. -/
def answered (l : List TimerEvt) : List Instant := (rungs l).take (calleds l).length

/-- See the module doc. -/
theorem deadlines_answered (d : Q.Drains) (h : TimerRun r) (n : Nat) : ∃ m ≥ n,
    (r.state m).pc.over ∨ (askeds (timerLog r n)).Subperm (answered (timerLog r m)) := by
  by_cases ho : ∀ m ≥ n, (r.state m).pc.over = false
  · obtain ⟨m, hm, hsub⟩ := h.rings n ho
    obtain ⟨k, hk | hk⟩ := h.goesOn.commands d m
    · have ho := ho (m + k) (by omega)
      exact absurd hk (by simp [cmds, ho])
    · refine ⟨m + k, by omega, .inr ?_⟩
      have hcount := hk.sublist.count_le .timeout
      have hrung := ((ordered_at r m).all (ho m hm)).2
      have hlen : (rungs (timerLog r m)).length ≤ (calleds (timerLog r (m + k))).length := by
        rw [timerLog_add, calleds_append, List.length_append, length_calleds_gather]
        unfold timeouts at hrung
        omega
      -- so those that rang until `m` are answered
      have hpre : rungs (timerLog r m) <+: answered (timerLog r (m + k)) := by
        refine List.prefix_take_iff.mpr ⟨?_, hlen⟩
        rw [timerLog_add, rungs_append]
        exact List.prefix_append _ _
      exact hsub.trans hpre.sublist.subperm
  · obtain ⟨m, hm, hov⟩ : ∃ m ≥ n, (r.state m).pc.over = true := by
      by_contra hn
      exact ho fun m hm => Bool.eq_false_of_not_eq_true fun hov => hn ⟨m, hm, hov⟩
    exact ⟨m, hm, .inl hov⟩

def timersDrains : timers.Drains where
  left _ _ := 0
  unsent _ := 0
  poll h := by cases h
  body h := by cases h
  bodyDone _ := Nat.le_refl 0
  dgram h := by cases h
  dgramDone _ := Nat.le_refl 0
  send h := by cases h

theorem deadlines_answered_two : ∃ r : (sys timers).Execution,
    askeds (timerLog r 15) = [(9 : Nat), (4 : Nat)] ∧ ∃ m ≥ 15, (r.state m).pc.over ∨
      (askeds (timerLog r 15)).Subperm (answered (timerLog r m)) := by
  have hrun : (quicheCon (Q := timers) none [(9 : Nat), (4 : Nat)]).any fun c₀ =>
      decide (askeds ((sys timers).gather timerEvts (twoRings.take 15) c₀) = [(9 : Nat), (4 : Nat)]) &&
      ((List.range twoRings.length).all fun n => ((sys timers).run (twoRings.take n) c₀).any fun c =>
        c.sleepers.all fun s => s.timeout < 10) &&
      ((sys timers).run twoRings c₀).any fun c => c.taskStep.isNone && c.evtPoll.isNone &&
        decide ((c.evtRecv = .user ∧ c.pc = .recv) ∧ c.now = 10 ∧ c.sleepers = []) := by decide +kernel
  obtain ⟨c₀, h₀, h⟩ := (Option.any_eq_true _ _).mp hrun
  obtain ⟨h, hend⟩ := Bool.and_eq_true_iff.mp h
  obtain ⟨hlog, hall⟩ := Bool.and_eq_true_iff.mp h
  obtain ⟨c, hc, hend⟩ := (Option.any_eq_true _ _).mp hend
  obtain ⟨hend, hlast⟩ := Bool.and_eq_true_iff.mp hend
  obtain ⟨htask, hpoll⟩ := Bool.and_eq_true_iff.mp hend
  obtain ⟨⟨huser, hpc⟩, hnow, hnone⟩ := of_decide_eq_true hlast
  have hinit : (sys timers).init c₀ := ⟨_, _, h₀⟩
  obtain ⟨r, hr⟩ : ∃ r, r = Lts.Execution.ofRun hinit (Option.isSome_iff_exists.mpr ⟨c, hc⟩) :=
    ⟨_, rfl⟩
  have hlog₁₅ : timerLog r 15 = (sys timers).gather timerEvts (twoRings.take 15) c₀ := by
    subst hr
    rfl
  have hstate : ∀ n, r.state (n + twoRings.length) = c := by
    subst hr
    exact Lts.Execution.state_ofRun_end hinit hc
  have hfair : ∀ a, (step a c).isNone → r.Fair fun b => b = a := by
    intro a ha
    subst hr
    exact Lts.Execution.fair_ofRun_act hinit hc ha
  refine ⟨r, hlog₁₅ ▸ of_decide_eq_true hlog, deadlines_answered timersDrains
    ⟨⟨hfair .task htask, hfair .evtPoll hpoll, ⟨0 + twoRings.length, ?_⟩, fun n => ?_⟩,
      fun n s hs => ?_, fun t n hdue => ?_⟩ 15⟩
  · rw [hstate, huser]
    rintro ⟨⟩
  · refine ⟨n + twoRings.length, Nat.le_add_right .., ?_⟩
    rw [hstate, hpc]
    rintro ⟨⟩
  · refine ⟨n + twoRings.length, Nat.le_add_right .., ?_⟩
    rw [hstate, hnow]
    by_cases hn : n < twoRings.length
    · obtain ⟨e, he, hlt⟩ := (Option.any_eq_true _ _).mp
        (List.all_eq_true.mp hall n (List.mem_range.mpr hn))
      have hst : r.state n = e := by
        subst hr
        exact Lts.Execution.state_ofRun hinit _ he
      rw [hst] at hs
      exact of_decide_eq_true (List.all_eq_true.mp hlt s hs)
    · obtain ⟨k, rfl⟩ := Nat.exists_eq_add_of_le' (Nat.le_of_not_lt hn)
      rw [hstate, hnone] at hs
      cases hs
  · have hlast := (hdue (n + twoRings.length) (Nat.le_add_right ..)).2
    rw [hstate] at hlast
    unfold early deadlines at hlast
    rw [hnone] at hlast
    cases hlast

end Absquic.Con
