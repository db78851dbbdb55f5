import Absquic.Lib.Lts

/-!
# What a run gives

`gather f` lists what the steps of a run give, in order, where `f` says what one step gives. A list
that depends on the whole run (what a party was handed, what it took out of a queue) is gathered; no
state has to record it. `run_gather` is the invariant rule: what relates the state to the list so far
(`run_gather₂`: to two lists).

A part `g` of the state that each step moves by a run of another system `T` is moved by a run of `T`:
the steps of the part, gathered (`run_part`).
-/

namespace Lts

variable {σ α τ β ι κ : Type*} {S : Lts σ α} {T : Lts τ β}

/-- What the steps of a run give, in order. -/
def gather (S : Lts σ α) (f : α → σ → σ → List ι) : List α → σ → List ι
  | [], _ => []
  | a :: as, s => match S.step a s with
    | none => []
    | some s' => f a s s' ++ S.gather f as s'

@[simp] theorem gather_nil (f : α → σ → σ → List ι) (s : σ) : S.gather f [] s = [] := rfl

theorem gather_cons {f : α → σ → σ → List ι} {a : α} {as : List α} {s s' : σ}
    (h : S.step a s = some s') : S.gather f (a :: as) s = f a s s' ++ S.gather f as s' := by
  rw [gather, h]

theorem gather_congr {f g : α → σ → σ → List ι}
    (hfg : ∀ a s s', S.step a s = some s' → f a s s' = g a s s') (as : List α) (s : σ) :
    S.gather f as s = S.gather g as s := by
  induction as generalizing s with
  | nil => rfl
  | cons a as ih =>
    unfold gather
    split
    · rfl
    · next s' hs => rw [hfg a s s' hs, ih]

theorem mem_gather {f : α → σ → σ → List ι} {as : List α} {s : σ} {x : ι}
    (h : x ∈ S.gather f as s) : ∃ a ∈ as, ∃ t t', x ∈ f a t t' := by
  induction as generalizing s with
  | nil => cases h
  | cons a as ih =>
    unfold gather at h
    split at h
    · cases h
    · next s' _ =>
      rcases List.mem_append.mp h with h | h
      · exact ⟨a, List.mem_cons_self, s, s', h⟩
      · obtain ⟨b, hb, hx⟩ := ih h
        exact ⟨b, List.mem_cons_of_mem a hb, hx⟩

theorem filterMap_gather (q : ι → Option κ) (f : α → σ → σ → List ι) (as : List α) (s : σ) :
    (S.gather f as s).filterMap q = S.gather (fun a s s' => (f a s s').filterMap q) as s := by
  induction as generalizing s with
  | nil => rfl
  | cons a as ih =>
    unfold gather
    split
    · rfl
    · rw [List.filterMap_append, ih]

/-- The invariant rule for two lists that a run gives. -/
theorem run_gather₂ {f : α → σ → σ → List ι} {g : α → σ → σ → List κ}
    {I : σ → List ι → List κ → Prop} (hs : ∀ a s s' l m, S.Reach s → I s l m →
      S.step a s = some s' → I s' (l ++ f a s s') (m ++ g a s s'))
    {as : List α} {s s' : σ} {l : List ι} {m : List κ} (h : S.Reach s) (hr : S.run as s = some s')
    (hi : I s l m) : I s' (l ++ S.gather f as s) (m ++ S.gather g as s) := by
  induction as generalizing s l m with
  | nil => cases hr; rwa [gather_nil, gather_nil, List.append_nil, List.append_nil]
  | cons a as ih =>
    obtain ⟨t, ht, hr⟩ := Option.bind_eq_some_iff.mp hr
    rw [gather_cons ht, gather_cons ht, ← List.append_assoc, ← List.append_assoc]
    exact ih (.step a h ht) hr (hs a s t l m h hi ht)

/-- The invariant rule for what a run gives. -/
theorem run_gather {f : α → σ → σ → List ι} {I : σ → List ι → Prop}
    (hs : ∀ a s s' l, S.Reach s → I s l → S.step a s = some s' → I s' (l ++ f a s s'))
    {as : List α} {s s' : σ} {l : List ι} (h : S.Reach s) (hr : S.run as s = some s')
    (hi : I s l) : I s' (l ++ S.gather f as s) :=
  run_gather₂ (g := f) (I := fun s l _ => I s l) (fun a s s' l _ => hs a s s' l) (m := []) h hr hi

/-- The same, for a run from the start. -/
theorem init_gather {f : α → σ → σ → List ι} {I : σ → List ι → Prop}
    (hs : ∀ a s s' l, S.Reach s → I s l → S.step a s = some s' → I s' (l ++ f a s s'))
    {as : List α} {s s' : σ} (h : S.init s) (hr : S.run as s = some s') (hi : I s []) :
    I s' (S.gather f as s) :=
  run_gather (l := []) hs (.init h) hr hi

theorem run_one {a : α} {s s' : σ} (h : S.step a s = some s') : S.run [a] s = some s' := by
  rw [run_cons, h]
  rfl

theorem run_append (as bs : List α) (s : σ) :
    S.run (as ++ bs) s = (S.run as s).bind (S.run bs) := by
  induction as generalizing s with
  | nil => rfl
  | cons a as ih =>
    rw [List.cons_append, run_cons, run_cons, Option.bind_assoc]
    exact Option.bind_congr fun t _ => ih t

theorem gather_one {f : α → σ → σ → List ι} {a : α} {s s' : σ} (h : S.run [a] s = some s') :
    S.gather f [a] s = f a s s' := by
  obtain ⟨t, ht, h⟩ := Option.bind_eq_some_iff.mp h
  cases h
  rw [gather_cons ht, gather_nil, List.append_nil]

theorem gather_append {f : α → σ → σ → List ι} {as bs : List α} {s t : σ}
    (h : S.run as s = some t) : S.gather f (as ++ bs) s = S.gather f as s ++ S.gather f bs t := by
  induction as generalizing s with
  | nil => cases h; rfl
  | cons a as ih =>
    obtain ⟨u, hu, h⟩ := Option.bind_eq_some_iff.mp h
    rw [List.cons_append, gather_cons hu, gather_cons hu, ih h, List.append_assoc]

/-- The run of a part (module doc). -/
theorem run_part {g : σ → τ} {p : α → σ → σ → List β}
    (hp : ∀ a s s', S.step a s = some s' → T.run (p a s s') (g s) = some (g s')) {as : List α}
    {s s' : σ} (h : S.run as s = some s') : T.run (S.gather p as s) (g s) = some (g s') := by
  induction as generalizing s with
  | nil => cases h; rfl
  | cons a as ih =>
    obtain ⟨t, ht, h⟩ := Option.bind_eq_some_iff.mp h
    rw [gather_cons ht, run_append, hp a s t ht]
    exact ih h

/-- What the run of a part gives. -/
theorem gather_part {g : σ → τ} {p : α → σ → σ → List β} {f : β → τ → τ → List ι}
    (hp : ∀ a s s', S.step a s = some s' → T.run (p a s s') (g s) = some (g s')) {as : List α}
    {s s' : σ} (h : S.run as s = some s') : T.gather f (S.gather p as s) (g s) =
      S.gather (fun a s s' => T.gather f (p a s s') (g s)) as s := by
  induction as generalizing s with
  | nil => rfl
  | cons a as ih =>
    obtain ⟨t, ht, h⟩ := Option.bind_eq_some_iff.mp h
    rw [gather_cons ht, gather_cons ht, gather_append (hp a s t ht), ih h]

end Lts
