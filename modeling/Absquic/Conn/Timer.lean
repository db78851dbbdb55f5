import Absquic.Conn.Control

/-!
# The quiche timer

`con_task` reads `timeout()` once in its loop body (line 208), before the h3 part and the send loop.
`Covered`: the timer is served by a sleeper, or by a `Timeout` command on its way. The read
establishes it (`covered_schedTimeout`), time and the other parties keep it (`Covered.later`), and
the rest of the loop body keeps it as long as no call there sets or shortens the timer (`Unarmed`).
-/

namespace Absquic

/-- `timeout()` is the time left until an instant that moves only by calls. -/
def Quiche.CountsDown (Q : Quiche) : Prop :=
  ∀ now k con d', Q.timeout (now + k) con = some d' →
    ∃ d, Q.timeout now con = some d ∧ d ≤ k + d'

namespace Con

variable {Q : Quiche}

/-- A `Timeout` is outstanding that fires no later than `t`. -/
def Outstanding (c : Con Q) (t : Instant) : Prop :=
  (∃ s ∈ c.sleepers, s.timeout ≤ t) ∨ ∃ m ∈ c.cmd.queue, m.1 = .timeout
deriving Decidable

/-- The quiche timer, if it is armed, is served in time. -/
def Covered (c : Con Q) : Prop :=
  ∀ d ∈ Q.timeout c.now c.con, c.Outstanding (c.now + d)
deriving Decidable

/-- The timer of `con'` goes off no earlier than that of `con`. -/
def NotEarlier (Q : Quiche) (now : Instant) (con con' : Q.Connection) : Prop :=
  ∀ d', Q.timeout now con' = some d' → ∃ d, Q.timeout now con = some d ∧ d ≤ d'

/-- A call of quiche that `con_task` makes after it read the timeout neither sets nor shortens the
timer. -/
def Unarmed (c : Con Q) (a : ConAct) : Prop :=
  a = .task → c.pc.inBody → NotEarlier Q c.now c.con c.conAfter

theorem Outstanding.mono {c : Con Q} {t t' : Instant} (h : c.Outstanding t) (ht : t ≤ t') :
    c.Outstanding t' := by
  rcases h with ⟨s, hs, hst⟩ | h
  · exact .inl ⟨s, hs, Nat.le_trans hst ht⟩
  · exact .inr h

theorem Outstanding.frame {c c' : Con Q} {t : Instant} (h : c.Outstanding t) (hf : Frame c c')
    (hr : c.cmd.rx = true) : c'.Outstanding t := by
  obtain ⟨l, hl, -⟩ := hf.queue
  rcases h with ⟨s, hs, hst⟩ | ⟨m, hm, hmt⟩
  · rcases hf.sleepers s hs with hs | hs
    · exact .inl ⟨s, hs, hst⟩
    · exact .inr ⟨_, hs hr, rfl⟩
  · exact .inr ⟨m, hl ▸ List.mem_append_left l hm, hmt⟩

/-- Time passes, and the other parties act. -/
theorem Covered.later {c c' : Con Q} (hq : Q.CountsDown) (h : Covered c) (hf : Frame c c')
    (hr : c.cmd.rx = true) : Covered c' := by
  intro d' hd'
  obtain ⟨k, hk⟩ := Nat.exists_eq_add_of_le hf.now
  rw [hf.con, hk] at hd'
  obtain ⟨d, hd, hle⟩ := hq _ _ _ _ hd'
  refine ((h d hd).frame hf hr).mono ?_
  rw [hk, Nat.add_assoc]
  exact Nat.add_le_add_left hle _

/-- The read of the timeout: a sleeper that serves it. -/
theorem covered_schedTimeout {c : Con Q} (hg : c.cmdGuard ≠ none) : Covered c.schedTimeout := by
  unfold schedTimeout
  simp only
  split
  · next h =>
    intro d hd
    rw [show Q.timeout c.now c.con = some d from hd] at h
    cases h
  · next d h =>
    split
    · next hn => exact absurd hn hg
    · intro d' hd'
      rw [show Q.timeout c.now c.con = some d' from hd'] at h
      cases h
      exact .inl ⟨_, List.mem_append_right _ (List.mem_singleton.mpr rfl), Nat.le_refl _⟩

/-- The loop body after the read, with a call that leaves the timer alone. -/
theorem covered_keeps {c c' : Con Q} (h : Covered c) (hk : Keeps c c')
    (hn : NotEarlier Q c.now c.con c'.con) : Covered c' := by
  intro d' hd'
  rw [hk.now] at hd'
  obtain ⟨d, hd, hle⟩ := hn d' hd'
  have ho := (h d hd).mono (Nat.add_le_add_left hle c.now)
  rw [hk.now]
  unfold Outstanding at ho ⊢
  rwa [hk.sleepers, hk.queue]

/-- Where the timer is covered. -/
def Timed (c : Con Q) : Prop := c.pc.inBody ∨ c.Waits → c.Covered

theorem timed_task {c c' : Con Q} (h : c.taskStep = some c') (hc : Control c) (ht : Timed c)
    (hu : c.Unarmed .task) : Timed c' := by
  by_cases hb : c.pc.inBody
  · have hcon := con_taskStep h
    cases body_taskStep h hb with
    | go k => exact fun _ => covered_keeps (ht (.inl hb)) k (hcon ▸ hu rfl hb)
    | ret k => exact fun hw => hw.elim nofun fun hw => nomatch hw.1
  · unfold taskStep at h
    split at h
    · unfold recvCmd at h
      split at h
      · cases h; exact fun hw => hw.elim nofun fun hw => nomatch hw.1
      · split at h
        · cases h; exact fun hw => hw.elim nofun fun hw => nomatch hw.1
        · cases h
    · next cmd hpc =>
      cases h
      have hg := (control_dispatch hc hpc).busy cmd ((pc_dispatch c cmd).trans hpc)
      exact fun _ => covered_schedTimeout hg
    all_goals first | cases h; done | (next hpc => exact absurd (by rw [hpc]; rfl) hb)

theorem timed_other {a : ConAct} {c c' : Con Q} (hq : Q.CountsDown) (h : step a c = some c')
    (ha : a ≠ .task) (hc : Control c) (ht : Timed c) : Timed c' := by
  have hf := frame_step h ha
  intro hw
  rw [hf.pc] at hw
  have hw' := hw.imp_right (Waits.of_frame · hf)
  have hr : c.cmd.rx = true := by
    rw [hc.rx]
    rcases hw' with hb | hb
    · cases hp : c.pc <;> first | rfl | (rw [hp] at hb; cases hb)
    · rw [hb.1]; rfl
  exact (ht hw').later hq hf hr

theorem timed_step {a : ConAct} {c c' : Con Q} (hq : Q.CountsDown) (h : step a c = some c')
    (hc : Control c) (ht : Timed c) (hu : c.Unarmed a) : Timed c' := by
  by_cases ha : a = .task
  · subst ha; exact timed_task h hc ht hu
  · exact timed_other hq h ha hc ht

/-- In every run in which no call after the read of the timeout sets or shortens the timer,
`con_task` waits only with its timer covered. -/
theorem timer_covered (hq : Q.CountsDown) {c : Con Q} (h : (sys Q).ReachIf Unarmed c)
    (hw : c.Waits) : c.Covered := by
  have ht : Timed c := by
    refine h.invariant (fun c hi => ?_) fun a c c' hr ht hu hs =>
      timed_step (Q := Q) (c := c) hq hs (sys_control hr) ht hu
    obtain ⟨h3Config, con, hc⟩ := hi
    cases hc
    exact fun hw => hw.elim nofun fun ⟨_, ht⟩ => nomatch ht
  exact ht (.inr hw)

/-- The time left until `t`, now and `k` later. -/
theorem left_le (t now k : Nat) : t - now ≤ k + (t - (now + k)) := by omega

/-- A library whose connections have a timer, at the instant that they are. -/
def armed (new : Instant) : Quiche :=
  { Quiche.inert new with timeout := fun now (t : Instant) => some (t - now) }

/-- A connection that is armed from the start. -/
theorem timer_covered_armed : ∃ c : Con (armed 7),
    c.Waits ∧ (armed 7).timeout c.now c.con = some (7 : Nat) ∧ c.Covered := by
  have hq : (armed 7).CountsDown := fun now k t d' h => by
    cases h; exact ⟨_, rfl, left_le t now k⟩
  have hu : ∀ (c : Con (armed 7)) a, c.Unarmed a := by
    intro c a _ _ d hd
    have hc : c.conAfter = c.con := by
      unfold conAfter
      split <;> try rfl
      · split
        · cases c.h3Config <;> rfl
        · rfl
      · split <;> rfl
    exact ⟨d, hc ▸ hd, Nat.le_refl _⟩
  obtain ⟨c₀, h₀⟩ : ∃ c₀, quicheCon (Q := armed 7) none (7 : Nat) = some c₀ := ⟨_, rfl⟩
  obtain ⟨c, hr, h⟩ := Lts.Reach.of_run_any (S := sys (armed 7)) (List.replicate 6 .task)
    (fun c => decide (c.Waits ∧ (armed 7).timeout c.now c.con = some (7 : Nat))) ⟨_, _, h₀⟩
    (by cases h₀; decide +kernel)
  have h := of_decide_eq_true h
  exact ⟨c, h.1, h.2, timer_covered hq (.of_reach hu hr) h.1⟩

/-- A library whose connections send one packet, which arms the timer. -/
def lossTimer : Quiche :=
  { Quiche.inert (none : Option Instant) with
    timeout := fun now (t : Option Instant) => t.map (· - now)
    send := fun now _ (t : Option Instant) => match t with
      | none => (some (now + 5), .ok ([], ⟨.unspecified, 0⟩))
      | some t => (some t, .error .done) }

/-- The timer that a sent packet arms is not covered. -/
theorem not_timer_covered : ¬ ∀ Q : Quiche, Q.CountsDown → ∀ c : Con Q, (sys Q).Reach c →
    c.Waits → c.Covered := by
  intro h
  have hq : lossTimer.CountsDown := fun now k t d' h => by
    cases t with
    | none => cases h
    | some t => cases h; exact ⟨_, rfl, left_le t now k⟩
  obtain ⟨c₀, h₀⟩ : ∃ c₀, quicheCon (Q := lossTimer) none (none : Option Nat) = some c₀ := ⟨_, rfl⟩
  obtain ⟨c, hr, hc⟩ := Lts.Reach.of_run_any (S := sys lossTimer) (List.replicate 7 .task)
    (fun c => decide (c.Waits ∧ ¬ c.Covered)) ⟨_, _, h₀⟩ (by cases h₀; decide +kernel)
  have hc := of_decide_eq_true hc
  exact hc.2 (h _ hq c hr hc.1)

end Con
end Absquic
