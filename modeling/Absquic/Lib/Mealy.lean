import Mathlib.Data.List.Induction
import Mathlib.Logic.Function.Basic

/-!
# Interleaved inputs

A machine (`Mealy`) reads its inputs one by one and answers each with at most one output. The copies
`M.each` of a machine, one for every key, read inputs that come with a key in any interleaving.

* `own k l`: what the keyed list `l` has for `k`, in order.
* `final_each`, `own_out_each`: copy `k` is in the state that its own inputs lead to, and puts out
  what they give, whatever the other copies read in between.
* `keys_out_each`: the keys of all outputs are those of the inputs that give one, in order.
* `filter_out_each`: the outputs for some of the keys are what the inputs for these keys give alone.
-/

/-- What the keyed list has for `k`. -/
def own {κ α : Type*} [DecidableEq κ] (k : κ) (l : List (κ × α)) : List α :=
  l.filterMap fun x => if x.1 = k then some x.2 else none

section own

variable {κ α β : Type*} [DecidableEq κ] {k : κ}

@[simp] theorem own_nil : own k ([] : List (κ × α)) = [] := rfl

@[simp] theorem own_append (l l' : List (κ × α)) : own k (l ++ l') = own k l ++ own k l' :=
  List.filterMap_append

@[simp] theorem own_singleton (x : κ × α) : own k [x] = if x.1 = k then [x.2] else [] := by
  unfold own
  by_cases h : x.1 = k <;> simp [h]

theorem own_filter {p : κ → Bool} (hp : p k) (l : List (κ × α)) :
    own k (l.filter (p ·.1)) = own k l := by
  induction l with
  | nil => rfl
  | cons x l ih =>
    rw [show x :: l = [x] ++ l from rfl, List.filter_append, own_append, own_append, ih]
    by_cases hx : x.1 = k
    · rw [show [x].filter (p ·.1) = [x] by simp [hx, hp]]
    · by_cases hpx : p x.1 <;> simp [hx, hpx]

theorem map_filter_fst (l : List (κ × α)) (f : κ → α → β) :
    (l.filter (·.1 = k)).map (fun x => f x.1 x.2) = (own k l).map (f k) := by
  induction l with
  | nil => rfl
  | cons x l ih =>
    rw [show x :: l = [x] ++ l from rfl, own_append, List.filter_append, List.map_append, ih,
      List.map_append]
    by_cases h : x.1 = k <;> simp [h]

end own

/-- A machine that answers an input with one output at most. -/
structure Mealy (σ ι ω : Type*) where
  init : σ
  step : σ → ι → σ × Option ω

namespace Mealy

variable {σ ι ω κ : Type*} (M : Mealy σ ι ω)

/-- The state after the inputs, and the outputs. -/
def exec (l : List ι) : σ × List ω :=
  l.foldl (fun x i => ((M.step x.1 i).1, x.2 ++ (M.step x.1 i).2.toList)) (M.init, [])

def final (l : List ι) : σ := (M.exec l).1

def out (l : List ι) : List ω := (M.exec l).2

@[simp] theorem final_nil : M.final [] = M.init := rfl

@[simp] theorem out_nil : M.out [] = [] := rfl

theorem exec_concat (l : List ι) (i : ι) :
    M.exec (l ++ [i]) = ((M.step (M.final l) i).1, M.out l ++ (M.step (M.final l) i).2.toList) := by
  unfold final out exec
  rw [List.foldl_append]
  rfl

@[simp] theorem final_concat (l : List ι) (i : ι) :
    M.final (l ++ [i]) = (M.step (M.final l) i).1 := congrArg Prod.fst (M.exec_concat l i)

@[simp] theorem out_concat (l : List ι) (i : ι) :
    M.out (l ++ [i]) = M.out l ++ (M.step (M.final l) i).2.toList :=
  congrArg Prod.snd (M.exec_concat l i)

/-- More inputs give more outputs. -/
theorem out_grows (l l' : List ι) : M.out l <+: M.out (l ++ l') := by
  induction l' using List.reverseRecOn with
  | nil =>
    have h : M.out (l ++ []) = M.out l := congrArg M.out (List.append_nil l)
    exact h.symm ▸ List.prefix_rfl
  | append_singleton l' i ih =>
    rw [← List.append_assoc, out_concat]
    exact ih.trans (List.prefix_append _ _)

variable [DecidableEq κ]

/-- A copy of the machine for every key. -/
def each (κ : Type*) [DecidableEq κ] : Mealy (κ → σ) (κ × ι) (κ × ω) where
  init _ := M.init
  step s x := (Function.update s x.1 (M.step (s x.1) x.2).1, (M.step (s x.1) x.2).2.map (x.1, ·))

theorem each_step (st : κ → σ) (k : κ) (i : ι) (k' : κ) :
    ((M.each κ).step st (k, i)).1 k' = if k' = k then (M.step (st k) i).1 else st k' :=
  Function.update_apply _ _ _ _

/-- The state of copy `k` (module doc). -/
theorem final_each (k : κ) (l : List (κ × ι)) : (M.each κ).final l k = M.final (own k l) := by
  induction l using List.reverseRecOn with
  | nil => rfl
  | append_singleton l x ih =>
    rw [final_concat, own_append, own_singleton, each_step]
    by_cases h : x.1 = k
    · rw [if_pos h, if_pos h.symm, final_concat, h, ih]
    · rw [if_neg h, if_neg (Ne.symm h), List.append_nil, ih]

/-- An output of copy `k` is that of its own machine. -/
theorem step_each (k : κ) (l : List (κ × ι)) (i : ι) :
    ((M.each κ).step ((M.each κ).final l) (k, i)).2 =
      (M.step (M.final (own k l)) i).2.map (k, ·) := by
  rw [← M.final_each k l]
  rfl

/-- The outputs of copy `k` (module doc). -/
theorem own_out_each (k : κ) (l : List (κ × ι)) :
    own k ((M.each κ).out l) = M.out (own k l) := by
  induction l using List.reverseRecOn with
  | nil => rfl
  | append_singleton l x ih =>
    obtain ⟨k', i⟩ := x
    rw [out_concat, own_append, ih, own_append, own_singleton, step_each]
    by_cases h : k' = k
    · subst h
      rw [if_pos rfl, out_concat]
      cases (M.step (M.final (own k' l)) i).2 <;> simp
    · rw [if_neg h, List.append_nil]
      cases (M.step (M.final (own k' l)) i).2 <;> simp [h]

/-- The keys of the outputs, if `q` tells the inputs that give one. -/
theorem keys_out_each {l : List (κ × ι)} {q : κ × ι → Bool}
    (hq : ∀ pre k i post, l = pre ++ (k, i) :: post →
      (M.step (M.final (own k pre)) i).2.isSome = q (k, i)) :
    ((M.each κ).out l).map Prod.fst = (l.filter q).map Prod.fst := by
  induction l using List.reverseRecOn with
  | nil => rfl
  | append_singleton l x ih =>
    obtain ⟨k, i⟩ := x
    have hl := ih fun pre k' i' post h => hq pre k' i' (post ++ [(k, i)]) (by rw [h]; simp)
    have hx := hq l k i [] rfl
    rw [out_concat, List.map_append, hl, List.filter_append, List.map_append, step_each]
    congr 1
    cases ho : (M.step (M.final (own k l)) i).2 <;> rw [ho] at hx <;> simp [← hx]

/-- The outputs for the keys in `p` are those of the inputs for them (module doc). -/
theorem filter_out_each (p : κ → Bool) (l : List (κ × ι)) :
    ((M.each κ).out l).filter (p ·.1) = (M.each κ).out (l.filter (p ·.1)) := by
  induction l using List.reverseRecOn with
  | nil => rfl
  | append_singleton l x ih =>
    obtain ⟨k, i⟩ := x
    rw [out_concat, List.filter_append, ih, List.filter_append, step_each]
    by_cases hp : p k
    · rw [show [(k, i)].filter (p ·.1) = [(k, i)] by simp [hp], out_concat, step_each,
        own_filter hp]
      cases (M.step (M.final (own k l)) i).2 <;> simp [hp]
    · rw [show [(k, i)].filter (p ·.1) = [] by simp [hp]]
      cases (M.step (M.final (own k l)) i).2 <;> simp [hp]

end Mealy
