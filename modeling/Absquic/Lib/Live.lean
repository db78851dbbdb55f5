import Absquic.Lib.Fifo
import Mathlib.Data.Nat.Find
import Mathlib.Order.WellFounded

/-!
# Infinite runs

An execution of a system (`Execution`) has a state for every time; between two times some action is
made, or nothing happens. A party is a set of actions. It is treated fairly (`Fair`) if it moves again
and again unless it is blocked again and again.

* `Fair.descent`: a party that is treated fairly and is not blocked for good does not bring a rank
  down for ever that nobody raises.
* `part`: what a part of the state does in such a run is one of its own, and its parties are treated
  fairly, too (`Fair.part`).
* `Fifo.Lawful.served`: if the receiver of a queue is such a party, and its moves bring the rank down
  until it takes something, then what is queued at a time is taken later, in its order, or the
  receiver goes. The rank is one of the time, so that it may count down what is known to end
  (`exists_countdown`).
-/

namespace Lts

variable {σ α ι : Type*} {S : Lts σ α}

/-- Some action in `P` is enabled. -/
def Enabled (S : Lts σ α) (P : α → Prop) (s : σ) : Prop := ∃ a, P a ∧ (S.step a s).isSome

/-- An infinite run (module doc). -/
structure Execution (S : Lts σ α) where
  state : Nat → σ
  /-- The action, if any, between this time and the next. -/
  act : Nat → Option α
  start : S.init (state 0)
  next : ∀ n, match act n with
    | some a => S.step a (state n) = some (state (n + 1))
    | none => state (n + 1) = state n

namespace Execution

variable {r : S.Execution}

/-- The party `P` moves at time `n`. -/
def Moves (r : S.Execution) (P : α → Prop) (n : Nat) : Prop := ∃ a, r.act n = some a ∧ P a

/-- Weak fairness (module doc). -/
def Fair (r : S.Execution) (P : α → Prop) : Prop :=
  ∀ n, (∀ m ≥ n, S.Enabled P (r.state m)) → ∃ m ≥ n, r.Moves P m

/-- The actions from time `n` on, `k` times. -/
def acts (r : S.Execution) (n : Nat) : Nat → List α
  | 0 => []
  | k + 1 => (r.act n).toList ++ r.acts (n + 1) k

theorem step (r : S.Execution) (n : Nat) :
    r.act n = none ∧ r.state (n + 1) = r.state n ∨
      ∃ a, r.act n = some a ∧ S.step a (r.state n) = some (r.state (n + 1)) := by
  have h := r.next n
  cases ha : r.act n with
  | none => rw [ha] at h; exact .inl ⟨rfl, h⟩
  | some a => rw [ha] at h; exact .inr ⟨a, rfl, h⟩

theorem step_act {a : α} {n : Nat} (h : r.act n = some a) :
    S.step a (r.state n) = some (r.state (n + 1)) := by
  have hs := r.next n
  rwa [h] at hs

theorem Moves.step {a : α} {n : Nat} (h : r.Moves (fun b => b = a) n) :
    S.step a (r.state n) = some (r.state (n + 1)) := by
  obtain ⟨b, hb, rfl⟩ := h
  exact step_act hb

theorem run_next (r : S.Execution) (n : Nat) :
    S.run (r.act n).toList (r.state n) = some (r.state (n + 1)) := by
  rcases r.step n with ⟨ha, h⟩ | ⟨a, ha, h⟩
  · rw [ha, h]; rfl
  · rw [ha]; exact run_one h

theorem run_acts (r : S.Execution) (n k : Nat) :
    S.run (r.acts n k) (r.state n) = some (r.state (n + k)) := by
  induction k generalizing n with
  | zero => rfl
  | succ k ih =>
    rw [acts, run_append, r.run_next n, Option.bind_some, ih (n + 1), Nat.add_right_comm]
    rfl

/-- The run up to time `n`. -/
theorem run_to (r : S.Execution) (n : Nat) : S.run (r.acts 0 n) (r.state 0) = some (r.state n) := by
  have h := r.run_acts 0 n
  rwa [Nat.zero_add] at h

theorem reach (r : S.Execution) (n : Nat) : S.Reach (r.state n) := .run r.start (r.run_to n)

/-- What the steps from time `n` on keep holds from then on. -/
theorem keeps {P : σ → Prop} {n : Nat} (hn : P (r.state n)) (hk : ∀ m ≥ n, ∀ a, r.act m = some a →
    S.step a (r.state m) = some (r.state (m + 1)) → P (r.state m) → P (r.state (m + 1))) :
    ∀ m ≥ n, P (r.state m) := by
  intro m hm
  induction m, hm using Nat.le_induction with
  | base => exact hn
  | succ m hm ih =>
    rcases r.step m with ⟨-, hs⟩ | ⟨a, ha, hs⟩
    · rwa [hs]
    · exact hk m hm a ha hs ih

theorem acts_add (r : S.Execution) (n k l : Nat) :
    r.acts n (k + l) = r.acts n k ++ r.acts (n + k) l := by
  induction k generalizing n with
  | zero => rw [Nat.zero_add]; rfl
  | succ k ih =>
    rw [Nat.add_right_comm, acts, acts, ih, List.append_assoc, Nat.add_right_comm n 1 k]
    rfl

/-- What was gathered until a later time. -/
theorem gather_to (r : S.Execution) (f : α → σ → σ → List ι) (n k : Nat) :
    S.gather f (r.acts 0 (n + k)) (r.state 0) =
      S.gather f (r.acts 0 n) (r.state 0) ++ S.gather f (r.acts n k) (r.state n) := by
  rw [acts_add, gather_append (r.run_to n), Nat.zero_add]

theorem gather_next {f : α → σ → σ → List ι} {n : Nat} {a : α} (h : r.act n = some a) :
    S.gather f (r.acts 0 (n + 1)) (r.state 0) =
      S.gather f (r.acts 0 n) (r.state 0) ++ f a (r.state n) (r.state (n + 1)) := by
  have hacts : r.acts n 1 = [a] := by
    rw [acts, acts, h]
    rfl
  rw [gather_to, hacts, gather_one (run_one (step_act h))]

theorem mem_acts {n k : Nat} {a : α} (h : a ∈ r.acts n k) : ∃ m ≥ n, r.act m = some a := by
  induction k generalizing n with
  | zero => cases h
  | succ k ih =>
    rcases List.mem_append.mp h with h | h
    · exact ⟨n, le_rfl, Option.mem_toList.mp h⟩
    · obtain ⟨m, hm, ha⟩ := ih h
      exact ⟨m, (Nat.le_succ n).trans hm, ha⟩

/-- What a run gave, one of its steps gave. -/
theorem mem_gather_acts {f : α → σ → σ → List ι} {n k : Nat} {x : ι}
    (h : x ∈ S.gather f (r.acts n k) (r.state n)) :
    ∃ m < n + k, ∃ a, r.act m = some a ∧ x ∈ f a (r.state m) (r.state (m + 1)) := by
  induction k with
  | zero => cases h
  | succ k ih =>
    rw [acts_add, gather_append (r.run_acts n k)] at h
    rcases List.mem_append.mp h with h | h
    · obtain ⟨m, hm, hx⟩ := ih h
      exact ⟨m, Nat.lt_succ_of_lt hm, hx⟩
    · have hrun := r.run_next (n + k)
      rw [acts, acts, List.append_nil] at h
      cases ha : r.act (n + k) with
      | none =>
        rw [ha] at h
        cases h
      | some a =>
        rw [ha, Option.toList_some] at h hrun
        rw [gather_one hrun] at h
        exact ⟨n + k, Nat.lt_succ_self _, a, ha, h⟩

/-- Every step meets `C`. -/
def Meets (r : S.Execution) (C : σ → α → Prop) : Prop := ∀ n a, r.act n = some a → C (r.state n) a

theorem Meets.reachIf {C : σ → α → Prop} (h : r.Meets C) (n : Nat) : S.ReachIf C (r.state n) := by
  induction n with
  | zero => exact .init r.start
  | succ n ih =>
    rcases r.step n with ⟨-, hs⟩ | ⟨a, ha, hs⟩
    · rwa [hs]
    · exact .step a ih (h n a ha) hs

/-- A run, after which nothing happens. -/
def ofRun {as : List α} {s₀ : σ} (h₀ : S.init s₀) (h : (S.run as s₀).isSome) : S.Execution where
  state n := (S.run (as.take n) s₀).getD s₀
  act n := as[n]?
  start := h₀
  next n := by
    have hpre : ∀ k, ∃ t, S.run (as.take k) s₀ = some t := fun k => by
      obtain ⟨u, hu⟩ := Option.isSome_iff_exists.mp h
      rw [← List.take_append_drop k as, run_append] at hu
      obtain ⟨t, ht, -⟩ := Option.bind_eq_some_iff.mp hu
      exact ⟨t, ht⟩
    obtain ⟨t, ht⟩ := hpre n
    obtain ⟨u, hu⟩ := hpre (n + 1)
    cases ha : as[n]? with
    | none =>
      have hlen := List.getElem?_eq_none_iff.mp ha
      simp only
      rw [List.take_of_length_le (by omega), List.take_of_length_le hlen]
    | some a =>
      simp only
      rw [List.take_add_one, ha, run_append, ht, Option.bind_some] at hu
      rw [List.take_add_one, ha, run_append, ht, Option.bind_some, hu]
      obtain ⟨v, hv, hu⟩ := Option.bind_eq_some_iff.mp hu
      cases hu
      exact hv

theorem state_ofRun {as : List α} {s₀ s : σ} (h₀ : S.init s₀) (h : (S.run as s₀).isSome) {n : Nat}
    (hn : S.run (as.take n) s₀ = some s) : (ofRun h₀ h).state n = s := by
  show (S.run (as.take n) s₀).getD s₀ = s
  rw [hn]
  rfl

theorem state_ofRun_end {as : List α} {s₀ s : σ} (h₀ : S.init s₀) (h : S.run as s₀ = some s)
    (n : Nat) : (ofRun h₀ (h ▸ rfl : (S.run as s₀).isSome)).state (n + as.length) = s := by
  refine state_ofRun h₀ _ ?_
  rwa [List.take_of_length_le (Nat.le_add_left ..)]

/-- A party that cannot move at the end of a run is treated fairly. -/
theorem fair_ofRun {as : List α} {s₀ s : σ} (h₀ : S.init s₀) (h : S.run as s₀ = some s)
    {P : α → Prop} (hp : ¬ S.Enabled P s) : (ofRun h₀ (h ▸ rfl : (S.run as s₀).isSome)).Fair P := by
  intro n hen
  refine absurd (hen (n + as.length) (Nat.le_add_right ..)) ?_
  rwa [state_ofRun_end h₀ h]

/-- What cannot be done at the end of a run is done fairly. -/
theorem fair_ofRun_act {as : List α} {s₀ s : σ} (h₀ : S.init s₀) (h : S.run as s₀ = some s) {a : α}
    (ha : (S.step a s).isNone) :
    (ofRun h₀ (h ▸ rfl : (S.run as s₀).isSome)).Fair fun b => b = a := by
  refine fair_ofRun h₀ h ?_
  rintro ⟨b, rfl, hb⟩
  rw [Option.isNone_iff_eq_none.mp ha] at hb
  cases hb

/-- A party that is treated fairly and is enabled until it moves, moves. -/
theorem Fair.moves {P : α → Prop} (h : r.Fair P) {n : Nat} (he : S.Enabled P (r.state n))
    (hk : ∀ m ≥ n, S.Enabled P (r.state m) → ¬ r.Moves P m → S.Enabled P (r.state (m + 1))) :
    ∃ m ≥ n, r.Moves P m := by
  by_contra hn
  have hn : ∀ m ≥ n, ¬ r.Moves P m := fun m hm hp => hn ⟨m, hm, hp⟩
  have hall : ∀ m ≥ n, S.Enabled P (r.state m) := by
    intro m hm
    induction m, hm using Nat.le_induction with
    | base => exact he
    | succ m hm ih => exact hk m hm ih (hn m hm)
  obtain ⟨m, hm, hp⟩ := h n hall
  exact hn m hm hp

/-- What happens again and again, at the times in `M`, does not bring a rank down for ever that nothing
raises. -/
theorem no_descent {M : Nat → Prop} {β : Type*} [Preorder β] [WellFoundedLT β] {f : Nat → β} {n : Nat}
    (hmove : ∀ m ≥ n, ∃ k ≥ m, M k) (hle : ∀ m ≥ n, ¬ M m → f (m + 1) ≤ f m)
    (hlt : ∀ m ≥ n, M m → f (m + 1) < f m) : False := by
  have hmono : ∀ m ≥ n, ∀ k ≥ m, f k ≤ f m := by
    intro m hm k hk
    induction k, hk using Nat.le_induction with
    | base => exact le_rfl
    | succ k hk ih =>
      by_cases hp : M k
      · exact (hlt k (hm.trans hk) hp).le.trans ih
      · exact (hle k (hm.trans hk) hp).trans ih
  -- no rank is the last one
  have hdown : ∀ b : β, ∀ m ≥ n, f m ≠ b := by
    intro b
    induction b using WellFoundedLT.induction with
    | _ b ih =>
      rintro m hm rfl
      obtain ⟨k, hk, hp⟩ := hmove m hm
      exact ih _ ((hlt k (hm.trans hk) hp).trans_le (hmono m hm k hk)) (k + 1)
        (hm.trans (Nat.le_succ_of_le hk)) rfl
  exact hdown _ n le_rfl rfl

/-- What does not last for ever can be counted down while it lasts. -/
theorem exists_countdown {M : Nat → Prop} (h : ∀ n, ∃ m ≥ n, ¬ M m) :
    ∃ w : Nat → Nat, ∀ n, M n → w (n + 1) < w n := by
  classical
  refine ⟨fun n => Nat.find (h n) - n, fun n hn => ?_⟩
  obtain ⟨hle, hnot⟩ := Nat.find_spec (h n)
  have hne : Nat.find (h n) ≠ n := fun he => hnot (by rw [he]; exact hn)
  have hnext : Nat.find (h (n + 1)) ≤ Nat.find (h n) := Nat.find_min' _ ⟨by omega, hnot⟩
  show Nat.find (h (n + 1)) - (n + 1) < Nat.find (h n) - n
  omega

/-- The rule of the descent (module doc). -/
theorem Fair.descent {P : α → Prop} (h : r.Fair P) {β : Type*} [Preorder β] [WellFoundedLT β]
    {f : Nat → β} {n : Nat} (hen : ∀ m ≥ n, ∃ k ≥ m, S.Enabled P (r.state k))
    (hk : ∀ m ≥ n, S.Enabled P (r.state m) → ¬ r.Moves P m → S.Enabled P (r.state (m + 1)))
    (hle : ∀ m ≥ n, ¬ r.Moves P m → f (m + 1) ≤ f m)
    (hlt : ∀ m ≥ n, r.Moves P m → f (m + 1) < f m) : False := by
  refine no_descent (M := r.Moves P) (fun m hm => ?_) hle hlt
  obtain ⟨k, hk₀, he⟩ := hen m hm
  obtain ⟨j, hj, hp⟩ := h.moves he fun j hj => hk j (hm.trans (hk₀.trans hj))
  exact ⟨j, hk₀.trans hj, hp⟩

/-! ## A part of the system -/

section Part

variable {τ β : Type*} {T : Lts τ β} {g : σ → τ} {f : α → σ → σ → Option β}

/-- The infinite run of a part `g` of the state, whose own step in a step of the whole is `f`. -/
def part (r : S.Execution) (hi : ∀ s, S.init s → T.init (g s))
    (hf : ∀ a s s', S.step a s = some s' → T.run (f a s s').toList (g s) = some (g s')) :
    T.Execution where
  state n := g (r.state n)
  act n := (r.act n).bind fun a => f a (r.state n) (r.state (n + 1))
  start := hi _ r.start
  next n := by
    rcases r.step n with ⟨ha, hs⟩ | ⟨a, ha, hs⟩
    · rw [ha, hs]
      rfl
    · rw [ha, Option.bind_some]
      have hrun := hf a _ _ hs
      cases hb : f a (r.state n) (r.state (n + 1)) with
      | none =>
        rw [hb] at hrun
        exact (Option.some.inj hrun).symm
      | some b =>
        rw [hb, Option.toList_some, run_cons] at hrun
        obtain ⟨t, ht, hn⟩ := Option.bind_eq_some_iff.mp hrun
        cases hn
        exact ht

/-- A party of the part is treated fairly, if its steps are those of one of the whole. -/
theorem Fair.part {P : α → Prop} {P' : β → Prop} (h : r.Fair P) (hi : ∀ s, S.init s → T.init (g s))
    (hf : ∀ a s s', S.step a s = some s' → T.run (f a s s').toList (g s) = some (g s'))
    (hen : ∀ n, T.Enabled P' (g (r.state n)) → S.Enabled P (r.state n))
    (ha : ∀ a s s', P a → S.step a s = some s' → ∃ b, f a s s' = some b ∧ P' b) :
    (r.part hi hf).Fair P' := by
  intro n hall
  obtain ⟨m, hm, a, hact, hp⟩ := h n fun m hm => hen m (hall m hm)
  obtain ⟨b, hb, hp'⟩ := ha a _ _ hp (step_act hact)
  refine ⟨m, hm, b, ?_, hp'⟩
  show (r.act m).bind _ = some b
  rw [hact]
  exact hb

end Part

end Execution
end Lts

namespace Fifo

variable {σ α ι : Type*} {F : Fifo σ α ι} {S : Lts σ α}

/-- The receiver takes something at time `n`. -/
def Takes (F : Fifo σ α ι) (r : S.Execution) (n : Nat) : Prop :=
  F.taken S (r.acts n 1) (r.state n) ≠ []

theorem taken_add (F : Fifo σ α ι) (r : S.Execution) (n k l : Nat) :
    F.taken S (r.acts n (k + l)) (r.state n) = F.taken S (r.acts n k) (r.state n) ++
      F.taken S (r.acts (n + k) l) (r.state (n + k)) := by
  rw [Lts.Execution.acts_add, taken, Lts.gather_append (r.run_acts n k)]
  rfl

/-- If something is taken whenever something is queued, everything is. -/
theorem Lawful.all_taken (h : F.Lawful S) {r : S.Execution} {n : Nat} (ht : ∀ m ≥ n,
    F.queue (r.state m) ≠ [] → ∃ j ≥ m, F.live (r.state j) = false ∨ F.Takes r j) :
    ∃ k, F.live (r.state (n + k)) = false ∨
      F.queue (r.state n) <+: F.taken S (r.acts n k) (r.state n) := by
  have hkept : ∀ k, F.Kept (r.state (n + k)) (F.queue (r.state n) ++ F.put S (r.acts n k) (r.state n))
      (F.taken S (r.acts n k) (r.state n)) := fun k => h.run (r.reach n) (r.run_acts n k)
  -- the number of things taken grows, as long as one of them is left
  have hgrow : ∀ j ≤ (F.queue (r.state n)).length, ∃ k, F.live (r.state (n + k)) = false ∨
      j ≤ (F.taken S (r.acts n k) (r.state n)).length := by
    intro j
    induction j with
    | zero => exact fun _ => ⟨0, .inr (Nat.zero_le _)⟩
    | succ j ih =>
      intro hj
      obtain ⟨k, hk | hk⟩ := ih (by omega)
      · exact ⟨k, .inl hk⟩
      cases hl : F.live (r.state (n + k)) with
      | false => exact ⟨k, .inl hl⟩
      | true =>
        by_cases hlt : j < (F.taken S (r.acts n k) (r.state n)).length
        · exact ⟨k, .inr hlt⟩
        have hq : F.queue (r.state (n + k)) ≠ [] := by
          intro hq
          have hall := congrArg List.length ((hkept k).all hl)
          rw [hq, List.append_nil, List.length_append] at hall
          omega
        obtain ⟨m, hm, hlm | htm⟩ := ht (n + k) (Nat.le_add_right n k) hq
        · obtain ⟨l, rfl⟩ := Nat.exists_eq_add_of_le hm
          exact ⟨k + l, .inl (by rwa [← Nat.add_assoc])⟩
        · obtain ⟨l, rfl⟩ := Nat.exists_eq_add_of_le hm
          refine ⟨k + l + 1, .inr ?_⟩
          have hone := List.length_pos_iff.mpr htm
          rw [taken_add, taken_add, List.length_append, List.length_append, ← Nat.add_assoc]
          omega
  obtain ⟨k, hk | hk⟩ := hgrow _ le_rfl
  · exact ⟨k, .inl hk⟩
  · exact ⟨k, .inr (List.prefix_of_prefix_length_le (List.prefix_append _ _) (hkept k).inOrder hk)⟩

/-- What is queued stays until something is taken. -/
theorem Lawful.stays (h : F.Lawful S) {r : S.Execution} {n : Nat} (hl : F.live (r.state (n + 1)))
    (ht : ¬ F.Takes r n) (hq : F.queue (r.state n) ≠ []) : F.queue (r.state (n + 1)) ≠ [] := by
  intro hn
  have hall := (h.run (r.reach n) (r.run_acts n 1)).all hl
  rw [not_not.mp ht, hn] at hall
  exact hq (List.append_eq_nil_iff.mp hall.symm).1

/-- What the receiver takes at time `n`, if the step is `a`. -/
theorem takes_of_act {r : S.Execution} {n : Nat} {a : α} (ha : r.act n = some a)
    (ht : F.takes a (r.state n) (r.state (n + 1)) ≠ []) : F.Takes r n := by
  have hrun := r.run_next n
  unfold Takes taken Lts.Execution.acts
  rw [ha] at hrun ⊢
  rwa [Lts.Execution.acts, List.append_nil, Option.toList_some, Lts.gather_one hrun]

/-- If the receiver can take something whenever something is queued, and is treated fairly, everything
is taken. -/
theorem Lawful.polled (h : F.Lawful S) {r : S.Execution} {P : α → Prop} (hf : r.Fair P) {n : Nat}
    (hen : ∀ m ≥ n, F.live (r.state m) → F.queue (r.state m) ≠ [] → S.Enabled P (r.state m))
    (ht : ∀ a s s', S.Reach s → P a → S.step a s = some s' → F.takes a s s' ≠ []) :
    ∃ k, F.live (r.state (n + k)) = false ∨
      F.queue (r.state n) <+: F.taken S (r.acts n k) (r.state n) := by
  refine h.all_taken fun m hm hq => ?_
  by_contra hn
  have hl : ∀ j ≥ m, F.live (r.state j) = true := fun j hj =>
    Bool.eq_true_of_not_eq_false fun hl => hn ⟨j, hj, .inl hl⟩
  have hnot : ∀ j ≥ m, ¬ F.Takes r j := fun j hj ht => hn ⟨j, hj, .inr ht⟩
  have hq : ∀ j ≥ m, F.queue (r.state j) ≠ [] := by
    intro j hj
    induction j, hj using Nat.le_induction with
    | base => exact hq
    | succ j hj ih => exact h.stays (hl _ (Nat.le_succ_of_le hj)) (hnot j hj) ih
  obtain ⟨j, hj, a, ha, hp⟩ := hf m fun j hj => hen j (hm.trans hj) (hl j hj) (hq j hj)
  exact hnot j hj (takes_of_act ha (ht a _ _ (r.reach j) hp (Lts.Execution.step_act ha)))

/-- See the module doc. -/
theorem Lawful.served (h : F.Lawful S) {r : S.Execution} {P : α → Prop} (hf : r.Fair P)
    {β : Type*} [Preorder β] [WellFoundedLT β] {f : Nat → β}
    (hen : ∀ n, F.queue (r.state n) ≠ [] →
      ∃ m ≥ n, F.live (r.state m) = false ∨ F.queue (r.state m) = [] ∨ S.Enabled P (r.state m))
    (hk : ∀ a s s', S.Reach s → ¬ P a → S.step a s = some s' → S.Enabled P s → S.Enabled P s')
    (hle : ∀ n, ¬ r.Moves P n → f (n + 1) ≤ f n)
    (hlt : ∀ n a, P a → S.step a (r.state n) = some (r.state (n + 1)) →
      F.takes a (r.state n) (r.state (n + 1)) = [] → f (n + 1) < f n) (n : Nat) :
      ∃ k, F.live (r.state (n + k)) = false ∨
        F.queue (r.state n) <+: F.taken S (r.acts n k) (r.state n) := by
  refine h.all_taken fun n _ hq => ?_
  by_contra hn
  have hl : ∀ m ≥ n, F.live (r.state m) = true := fun m hm =>
    Bool.eq_true_of_not_eq_false fun hl => hn ⟨m, hm, .inl hl⟩
  have ht : ∀ m ≥ n, ¬ F.Takes r m := fun m hm ht => hn ⟨m, hm, .inr ht⟩
  have hq : ∀ m ≥ n, F.queue (r.state m) ≠ [] := by
    intro m hm
    induction m, hm using Nat.le_induction with
    | base => exact hq
    | succ m hm ih => exact h.stays (hl _ (Nat.le_succ_of_le hm)) (ht m hm) ih
  refine hf.descent (f := f) (n := n) (fun m hm => ?_) (fun m hm he hp => ?_)
    (fun m _ hp => hle m hp) fun m hm hp => ?_
  · obtain ⟨k, hk, hd | hd | hd⟩ := hen m (hq m hm)
    · exact absurd (hl k (hm.trans hk)) (by rw [hd]; exact Bool.false_ne_true)
    · exact absurd hd (hq k (hm.trans hk))
    · exact ⟨k, hk, hd⟩
  · rcases r.step m with ⟨-, hs⟩ | ⟨a, ha, hs⟩
    · rwa [hs]
    · exact hk a _ _ (r.reach m) (fun hpa => hp ⟨a, ha, hpa⟩) hs he
  · obtain ⟨a, ha, hpa⟩ := hp
    exact hlt m a hpa (Lts.Execution.step_act ha)
      (not_not.mp fun hta => ht m hm (takes_of_act ha hta))

end Fifo
