import Mathlib.Logic.Relation
import Mathlib.Data.List.Basic

/-!
# Labelled systems and their runs

A system (`Lts`) is a type of states, the initial states, and the step that an action makes from a
state (`none`: the action is not enabled there). The step is a function, so a run (`Lts.run`) of
a list of actions can be computed; every interleaving of the parties is a choice of actions.

* `Reach`: the states of the runs; `Reach.invariant`: an inductive invariant holds of them.
* `ReachIf C`: the states of the runs whose every step meets `C`; `runIf` computes such a run.
* `Steps P`: some run of actions in `P` leads from one state to another; `StepsIf C`: some run whose
  every step meets `C` does.
* `history`: the value of a variable that records what a run does.
* `Reach.family`: a system that holds a growing list of components, each of which starts in an
  initial state of `T` and moves by runs of `T`, holds only reachable states of `T`.
-/

/-- A labelled system (module doc). -/
structure Lts (σ α : Type*) where
  /-- The states in which a run starts. -/
  init : σ → Prop
  /-- The state after an action, if the action is enabled. -/
  step : α → σ → Option σ

namespace Lts

variable {σ α τ β : Type*}

/-- The state after the actions `as`, one after the other. -/
def run (S : Lts σ α) : List α → σ → Option σ
  | [], s => some s
  | a :: as, s => (S.step a s).bind (S.run as)

/-- The states that a run reaches. -/
inductive Reach (S : Lts σ α) : σ → Prop
  | init {s : σ} : S.init s → Reach S s
  | step {s s' : σ} (a : α) : Reach S s → S.step a s = some s' → Reach S s'

/-- The states of the runs whose every step meets `C`. -/
inductive ReachIf (S : Lts σ α) (C : σ → α → Prop) : σ → Prop
  | init {s : σ} : S.init s → ReachIf S C s
  | step {s s' : σ} (a : α) : ReachIf S C s → C s a → S.step a s = some s' → ReachIf S C s'

/-- The state after the actions, if every step meets `C`. -/
def runIf (S : Lts σ α) (C : σ → α → Prop) [∀ s a, Decidable (C s a)] : List α → σ → Option σ
  | [], s => some s
  | a :: as, s => if C s a then (S.step a s).bind (S.runIf C as) else none

/-- Some run of actions in `P` leads from `s` to `s'`. -/
def Steps (S : Lts σ α) (P : α → Prop) : σ → σ → Prop :=
  Relation.ReflTransGen fun s s' => ∃ a, P a ∧ S.step a s = some s'

/-- Some run whose every step meets `C` leads from `s` to `s'`. -/
def StepsIf (S : Lts σ α) (C : σ → α → Prop) : σ → σ → Prop :=
  Relation.ReflTransGen fun s s' => ∃ a, C s a ∧ S.step a s = some s'

variable {S : Lts σ α} {T : Lts τ β}

@[simp] theorem run_nil (s : σ) : S.run [] s = some s := rfl

theorem run_cons (a : α) (as : List α) (s : σ) : S.run (a :: as) s = (S.step a s).bind (S.run as) :=
  rfl

section Steps

variable {P P' : α → Prop}

theorem Steps.refl (s : σ) : S.Steps P s s := Relation.ReflTransGen.refl

theorem Steps.one {s s' : σ} {a : α} (hp : P a) (h : S.step a s = some s') : S.Steps P s s' :=
  .single ⟨a, hp, h⟩

theorem Steps.trans {s t u : σ} (h : S.Steps P s t) (h' : S.Steps P t u) : S.Steps P s u :=
  Relation.ReflTransGen.trans h h'

theorem Steps.mono (hp : ∀ a, P a → P' a) {s s' : σ} (h : S.Steps P s s') : S.Steps P' s s' := by
  induction h with
  | refl => exact .refl s
  | tail _ hst ih => obtain ⟨a, ha, hs⟩ := hst; exact ih.trans (.one (hp a ha) hs)

theorem Steps.run {s s' : σ} {as : List α} (h : S.run as s = some s') (hp : ∀ a ∈ as, P a) :
    S.Steps P s s' := by
  induction as generalizing s with
  | nil => cases h; exact .refl _
  | cons a as ih =>
    obtain ⟨t, ht, hr⟩ := Option.bind_eq_some_iff.mp h
    exact (Steps.one (hp a List.mem_cons_self) ht).trans
      (ih hr fun b hb => hp b (List.mem_cons_of_mem a hb))

/-- What every step of the run keeps, the run keeps. -/
theorem Steps.invariant {I : σ → Prop} (hs : ∀ a s s', P a → I s → S.step a s = some s' → I s')
    {s s' : σ} (h : S.Steps P s s') (h0 : I s) : I s' := by
  induction h with
  | refl => exact h0
  | tail _ hst ih => obtain ⟨a, hp, ha⟩ := hst; exact hs a _ _ hp ih ha

/-- A relation that every step of the run is in, and that composes, relates the run's ends. -/
theorem Steps.relates {R : σ → σ → Prop} (h0 : ∀ s, R s s) (ht : ∀ s t u, R s t → R t u → R s u)
    (hs : ∀ a s s', P a → S.step a s = some s' → R s s') {s s' : σ} (h : S.Steps P s s') :
    R s s' :=
  h.invariant (fun a _ _ hp hr hst => ht _ _ _ hr (hs a _ _ hp hst)) (h0 s)

theorem Reach.steps {s s' : σ} (h : S.Reach s) (hs : S.Steps P s s') : S.Reach s' :=
  hs.invariant (fun a _ _ _ hr hst => .step a hr hst) h

end Steps

section StepsIf

variable {C : σ → α → Prop}

theorem StepsIf.refl (s : σ) : S.StepsIf C s s := Relation.ReflTransGen.refl

theorem StepsIf.head {s t u : σ} {a : α} (hc : C s a) (h : S.step a s = some t)
    (ht : S.StepsIf C t u) : S.StepsIf C s u := Relation.ReflTransGen.head ⟨a, hc, h⟩ ht

/-- What every such step keeps, such a run keeps. -/
theorem StepsIf.invariant {I : σ → Prop}
    (hs : ∀ a s s', C s a → I s → S.step a s = some s' → I s') {s s' : σ} (h : S.StepsIf C s s')
    (h0 : I s) : I s' := by
  induction h with
  | refl => exact h0
  | tail _ hst ih => obtain ⟨a, hc, ha⟩ := hst; exact hs a _ _ hc ih ha

end StepsIf

theorem Reach.run {s s' : σ} {as : List α} (h : S.init s) (hr : S.run as s = some s') :
    S.Reach s' :=
  (Reach.init h).steps (Steps.run hr (P := fun _ => True) fun _ _ => trivial)

/-- A run from an initial state, and what it is observed to end with. -/
theorem Reach.of_run_any {s : σ} (as : List α) (p : σ → Bool) (h : S.init s)
    (hr : (S.run as s).any p) : ∃ s', S.Reach s' ∧ p s' := by
  obtain ⟨s', hs, hp⟩ := (Option.any_eq_true _ _).mp hr
  exact ⟨s', .run h hs, hp⟩

/-- An inductive invariant holds of every reachable state. A step may use that the state before it
is reachable. -/
theorem Reach.invariant {I : σ → Prop} (h0 : ∀ s, S.init s → I s)
    (hs : ∀ a s s', S.Reach s → I s → S.step a s = some s' → I s') {s : σ} (h : S.Reach s) :
    I s := by
  induction h with
  | init hi => exact h0 _ hi
  | step a hr hst ih => exact hs a _ _ hr ih hst

theorem ReachIf.reach {C : σ → α → Prop} {s : σ} (h : S.ReachIf C s) : S.Reach s := by
  induction h with
  | init hi => exact .init hi
  | step a _ _ hst ih => exact .step a ih hst

theorem ReachIf.of_reach {C : σ → α → Prop} (hc : ∀ s a, C s a) {s : σ} (h : S.Reach s) :
    S.ReachIf C s := by
  induction h with
  | init hi => exact .init hi
  | step a _ hst ih => exact .step a ih (hc _ a) hst

theorem ReachIf.mono {C D : σ → α → Prop} (hc : ∀ s a, C s a → D s a) {s : σ}
    (h : S.ReachIf C s) : S.ReachIf D s := by
  induction h with
  | init hi => exact .init hi
  | step a _ h hst ih => exact .step a ih (hc _ a h) hst

theorem ReachIf.run {C : σ → α → Prop} [∀ s a, Decidable (C s a)] {as : List α} {s s' : σ}
    (h : S.ReachIf C s) (hr : S.runIf C as s = some s') : S.ReachIf C s' := by
  induction as generalizing s with
  | nil => cases hr; exact h
  | cons a as ih =>
    unfold runIf at hr
    split at hr
    · next hc =>
      obtain ⟨t, ht, hr⟩ := Option.bind_eq_some_iff.mp hr
      exact ih (.step a h hc ht) hr
    · cases hr

theorem run_of_runIf {C : σ → α → Prop} [∀ s a, Decidable (C s a)] {as : List α} {s s' : σ}
    (hr : S.runIf C as s = some s') : S.run as s = some s' := by
  induction as generalizing s with
  | nil => exact hr
  | cons a as ih =>
    unfold runIf at hr
    split at hr
    · obtain ⟨t, ht, hr⟩ := Option.bind_eq_some_iff.mp hr
      rw [run_cons, ht]
      exact ih hr
    · cases hr

theorem StepsIf.run {C : σ → α → Prop} [∀ s a, Decidable (C s a)] {as : List α} {s s' : σ}
    (hr : S.runIf C as s = some s') : S.StepsIf C s s' := by
  induction as generalizing s with
  | nil => cases hr; exact .refl _
  | cons a as ih =>
    unfold runIf at hr
    split at hr
    · next hc =>
      obtain ⟨t, ht, hr⟩ := Option.bind_eq_some_iff.mp hr
      exact .head hc ht (ih hr)
    · cases hr

/-- A run from an initial state whose steps meet `C`, and what it is observed to end with. -/
theorem ReachIf.of_run_any {C : σ → α → Prop} [∀ s a, Decidable (C s a)] {s : σ} (as : List α)
    (p : σ → Bool) (h : S.init s) (hr : (S.runIf C as s).any p) : ∃ s', S.ReachIf C s' ∧ p s' := by
  obtain ⟨s', hs, hp⟩ := (Option.any_eq_true _ _).mp hr
  exact ⟨s', (ReachIf.init h).run hs, hp⟩

/-- If each step on the way to a state with `G` keeps `I` exactly if it meets `C`, then `I` holds at
the end of a run exactly if it held at the start and every step met `C`. -/
theorem run_keeps_iff {C : σ → α → Prop} [∀ s a, Decidable (C s a)] {G I : σ → Prop}
    (hs : ∀ a s s', S.Reach s → S.step a s = some s' → G s' → G s ∧ (I s' ↔ I s ∧ C s a))
    {as : List α} {s s' : σ} (h : S.Reach s) (hr : S.run as s = some s') (hg : G s') :
    G s ∧ (I s' ↔ I s ∧ S.runIf C as s = some s') := by
  induction as generalizing s with
  | nil =>
    cases hr
    exact ⟨hg, fun hi => ⟨hi, rfl⟩, fun hi => hi.1⟩
  | cons a as ih =>
    obtain ⟨t, ht, hr⟩ := Option.bind_eq_some_iff.mp hr
    obtain ⟨hgt, hit⟩ := ih (.step a h ht) hr
    obtain ⟨hgs, his⟩ := hs a s t h ht hgt
    refine ⟨hgs, ?_⟩
    rw [hit, his, runIf]
    by_cases hc : C s a
    · rw [if_pos hc, ht, Option.bind_some]
      simp [hc]
    · rw [if_neg hc]
      simp [hc]

/-- The invariant rule for the runs whose steps meet `C`. -/
theorem ReachIf.invariant {C : σ → α → Prop} {I : σ → Prop} (h0 : ∀ s, S.init s → I s)
    (hs : ∀ a s s', S.Reach s → I s → C s a → S.step a s = some s' → I s') {s : σ}
    (h : S.ReachIf C s) : I s := by
  induction h with
  | init hi => exact h0 _ hi
  | step a hr hc hst ih => exact hs a _ _ hr.reach ih hc hst

/-- The components of a system are reachable states of the component's own system `T`, if each
component of a step's result is new and initial, or moved by a run of `T` (module doc). -/
theorem Reach.family {P : β → Prop} {g : σ → List τ} (h0 : ∀ s, S.init s → g s = [])
    (hs : ∀ a s s', S.Reach s → S.step a s = some s' → ∀ (i : Nat) c', (g s')[i]? = some c' →
      T.init c' ∨ ∃ c, (g s)[i]? = some c ∧ T.Steps P c c') {s : σ} (h : S.Reach s) :
    ∀ (i : Nat) c, (g s)[i]? = some c → T.Reach c := by
  induction h with
  | init hi => intro i c hc; rw [h0 _ hi] at hc; cases hc
  | step a hr hst ih =>
    intro i c' hc'
    obtain hi | ⟨c, hc, hcc⟩ := hs a _ _ hr hst i c' hc'
    · exact .init hi
    · exact (ih i c hc).steps hcc

/-! ## History variables -/

/-- The value of a history variable after the actions: `f` says what a step does to it. -/
def history {η : Type*} (S : Lts σ α) (f : α → σ → σ → η → η) : List α → σ → η → η
  | [], _, v => v
  | a :: as, s, v => match S.step a s with
    | none => v
    | some s' => S.history f as s' (f a s s' v)

/-- The invariant rule for a history variable. -/
theorem run_history {η : Type*} {f : α → σ → σ → η → η} {I : σ → η → Prop}
    (hs : ∀ a s s' v, S.Reach s → I s v → S.step a s = some s' → I s' (f a s s' v)) {as : List α}
    {s s' : σ} {v : η} (h : S.Reach s) (hr : S.run as s = some s') (hi : I s v) :
    I s' (S.history f as s v) := by
  induction as generalizing s v with
  | nil => cases hr; exact hi
  | cons a as ih =>
    obtain ⟨t, ht, hr⟩ := Option.bind_eq_some_iff.mp hr
    rw [history, ht]
    exact ih (.step a h ht) hr (hs a s t v h hi ht)

/-! ## Relations with inputs -/

/-- The relation `R` leads from `s` to `s'` with the inputs `is`. -/
inductive Inputs {ι : Type*} (R : σ → ι → σ → Prop) (s : σ) : List ι → σ → Prop
  | nil : Inputs R s [] s
  | snoc {is : List ι} {i : ι} {s' s'' : σ} :
    Inputs R s is s' → R s' i s'' → Inputs R s (is ++ [i]) s''

namespace Inputs

variable {ι : Type*} {R : σ → ι → σ → Prop} {is : List ι} {i : ι} {s s' t t' : σ}

theorem eq_of_nil (h : Inputs R s [] s') : s' = s := by
  generalize hl : ([] : List ι) = js at h
  cases h with
  | nil => rfl
  | snoc h hr => simp at hl

theorem of_snoc (h : Inputs R s (is ++ [i]) s') : ∃ u, Inputs R s is u ∧ R u i s' := by
  generalize hl : is ++ [i] = js at h
  cases h with
  | nil => simp at hl
  | snoc h hr =>
    obtain ⟨rfl, hi⟩ := List.append_inj' hl rfl
    cases hi
    exact ⟨_, h, hr⟩

/-- Two runs with the same inputs. What each pair of steps keeps (as long as `P` holds after them,
which then held before), the two runs keep. -/
theorem two_runs {K P : σ → σ → Prop}
    (hp : ∀ i s s' t t', R s i s' → R t i t' → P s' t' → P s t)
    (hk : ∀ i s s' t t', K s t → R s i s' → R t i t' → P s' t' → K s' t') (h : Inputs R s is s')
    (h' : Inputs R t is t') (hP : P s' t') (hK : K s t) : K s' t' := by
  induction h generalizing t' with
  | nil => rwa [h'.eq_of_nil]
  | snoc h hr ih =>
    obtain ⟨u, hu, hr'⟩ := h'.of_snoc
    exact hk _ _ _ _ _ (ih hu (hp _ _ _ _ _ hr hr' hP)) hr hr' hP

end Inputs

end Lts
