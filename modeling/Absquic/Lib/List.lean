import Mathlib.Data.List.AList
import Mathlib.Data.List.Perm.Basic
import Mathlib.Data.List.Induction

/-!
# Lists and maps

Counts after one item of a list leaves it or changes, maps with an index that keep what is read
of each item, the places of the items that a filter keeps, the items at the first places, where an
item is that was appended (or was there before), what comes after the first item of a kind, and items
of one kind with none of another kind after them. The size of a map after an insertion and an erasure.
-/

namespace List

variable {α β : Type*}

/-- A map with an index that keeps what `q` reads of each item keeps what `q` collects. -/
theorem filterMap_mapIdx_same {l : List α} {f : Nat → α → α} {q : α → Option β}
    (h : ∀ k x, q (f k x) = q x) : (l.mapIdx f).filterMap q = l.filterMap q := by
  induction l generalizing f with
  | nil => rfl
  | cons x l ih =>
    rw [mapIdx_cons, filterMap_cons, filterMap_cons, h 0 x, ih fun k x => h (k + 1) x]

/-- The items, and one of them taken out. -/
theorem count_eraseIdx [DecidableEq α] {l : List α} {i : Nat} {a : α} (h : l[i]? = some a) (k : α) :
    l.count k = (l.eraseIdx i).count k + [a].count k := by
  obtain ⟨hi, rfl⟩ := getElem?_eq_some_iff.mp h
  rw [← (getElem_cons_eraseIdx_perm hi).count_eq k, count_cons, count_cons, count_nil]
  omega

/-- What `q` collects, and one item changed to `b`. -/
theorem count_filterMap_set [DecidableEq β] {l : List α} {i : Nat} {a : α} (b : α)
    {q : α → Option β} (h : l[i]? = some a) (k : β) :
    ((l.set i b).filterMap q).count k + (q a).toList.count k =
      (l.filterMap q).count k + (q b).toList.count k := by
  induction l generalizing i with
  | nil => cases h
  | cons x l ih =>
    cases i with
    | zero =>
      cases h
      rw [set_cons_zero, filterMap_cons, filterMap_cons]
      cases q a <;> cases q b <;> simp only [count_cons, Option.toList_none, Option.toList_some,
        count_nil] <;> omega
    | succ i =>
      have := ih h
      rw [set_cons_succ, filterMap_cons, filterMap_cons]
      cases q x <;> simp only [count_cons] <;> omega

theorem perm_filterMap_set [DecidableEq β] {l : List α} {i : Nat} {a : α} (b : α)
    {q : α → Option β} (h : l[i]? = some a) :
    ((l.set i b).filterMap q ++ (q a).toList).Perm (l.filterMap q ++ (q b).toList) := by
  refine perm_iff_count.mpr fun k => ?_
  rw [count_append, count_append]
  exact count_filterMap_set b h k

/-- What `q` collects, when an item of which it collects nothing is changed to another such. -/
theorem filterMap_set_none {l : List α} {i : Nat} {b : α} {q : α → Option β}
    (h : l[i]?.bind q = none) (hb : q b = none) : (l.set i b).filterMap q = l.filterMap q := by
  induction l generalizing i with
  | nil => rfl
  | cons x l ih =>
    cases i with
    | zero =>
      have h : q x = none := h
      rw [set_cons_zero, filterMap_cons_none hb, filterMap_cons_none h]
    | succ i =>
      rw [set_cons_succ, filterMap_cons, filterMap_cons, ih h]

/-- The items that a filter keeps are those at the places it keeps, in order. -/
theorem filter_map_some (l : List α) (p : α → Bool) :
    (l.filter p).map some = ((range l.length).filter fun n => l[n]?.any p).map (l[·]?) := by
  induction l using reverseRecOn with
  | nil => rfl
  | append_singleton l a ih =>
    have hget : ∀ n ∈ range l.length, (l ++ [a])[n]? = l[n]? := fun n hn =>
      getElem?_append_left (mem_range.mp hn)
    have hlast : (l ++ [a])[l.length]? = some a := getElem?_concat_length
    have hfilter : (range l.length).filter (fun n => (l ++ [a])[n]?.any p) =
        (range l.length).filter fun n => l[n]?.any p :=
      filter_congr fun n hn => by rw [hget n hn]
    rw [length_append, length_singleton, range_succ, filter_append, map_append, ih, filter_append,
      map_append, hfilter, map_congr_left fun n hn => (hget n (mem_of_mem_filter hn)).symm]
    congr 1
    simp only [filter_singleton, hlast, Option.any_some]
    cases p a with
    | false => rfl
    | true => simp

/-- The items at the first places. -/
theorem map_range_getElem? {l : List α} {n : Nat} (h : n ≤ l.length) :
    (range n).map (l[·]?) = (l.take n).map some := by
  refine ext_getElem? fun i => ?_
  rw [getElem?_map, getElem?_map]
  by_cases hi : i < n
  · rw [getElem?_range hi, getElem?_take_of_lt hi, Option.map_some, getElem?_eq_getElem (by omega)]
    rfl
  · rw [getElem?_eq_none (by simpa using hi), getElem?_eq_none (by simp; omega)]
    rfl

/-- An item of `l ++ [a]` is one of `l`, or the last one. -/
theorem getElem?_concat_cases {l : List α} {a b : α} {i : Nat} (h : (l ++ [a])[i]? = some b) :
    l[i]? = some b ∨ i = l.length ∧ b = a := by
  obtain ⟨hi, -⟩ := getElem?_eq_some_iff.mp h
  rw [length_append, length_singleton] at hi
  by_cases hlt : i < l.length
  · rw [getElem?_append_left hlt] at h
    exact .inl h
  · obtain rfl : i = l.length := by omega
    rw [getElem?_concat_length] at h
    exact .inr ⟨rfl, (Option.some.inj h).symm⟩

/-- An item of `l ++ [a]` that is not in `l` is the last one. -/
theorem concat_eq_append_cons {l pre post : List α} {a x : α} (h : l ++ [a] = pre ++ x :: post)
    (hx : x ∉ l) : post = [] ∧ a = x := by
  rcases eq_nil_or_concat post with rfl | ⟨post, y, rfl⟩
  · obtain ⟨-, hy⟩ := append_inj' h rfl
    exact ⟨rfl, List.singleton_inj.mp hy⟩
  · rw [concat_eq_append, ← cons_append, ← append_assoc] at h
    obtain ⟨rfl, -⟩ := append_inj' h rfl
    exact absurd (mem_append_right _ mem_cons_self) hx

/-- An item of `l ++ m` that is not in `m` is in `l`. -/
theorem append_eq_append_cons {l m pre post : List α} {a : α} (h : l ++ m = pre ++ a :: post)
    (ha : a ∉ m) : ∃ rest, post = rest ++ m ∧ l = pre ++ a :: rest := by
  rcases append_eq_append_iff.mp h with ⟨as, -, hm⟩ | ⟨bs, hl, hm⟩
  · exact absurd (hm ▸ mem_append_right as mem_cons_self) ha
  · cases bs with
    | nil => exact absurd (mem_of_mem_head? (by rw [← nil_append m, ← hm]; rfl)) ha
    | cons b bs =>
      obtain ⟨rfl, hp⟩ := cons_eq_cons.mp hm
      exact ⟨bs, hp, hl⟩

/-- What comes after the first item with `p`. -/
def afterFirst (p : α → Bool) : List α → List α
  | [] => []
  | a :: l => if p a then l else afterFirst p l

theorem afterFirst_append (p : α → Bool) (l m : List α) :
    (l ++ m).afterFirst p = if l.any p then l.afterFirst p ++ m else m.afterFirst p := by
  induction l with
  | nil => rfl
  | cons a l ih =>
    rw [cons_append, afterFirst, afterFirst, any_cons]
    cases p a with
    | true => rfl
    | false => exact ih

theorem afterFirst_eq_nil {p : α → Bool} {l : List α} (h : ∀ a ∈ l, p a = false) :
    l.afterFirst p = [] := by
  induction l with
  | nil => rfl
  | cons a l ih =>
    rw [afterFirst, h a mem_cons_self, if_neg Bool.false_ne_true]
    exact ih fun b hb => h b (mem_cons_of_mem a hb)

/-- An item is before the first item with `p`, or has `p`, or comes after it. -/
theorem mem_takeWhile_or_afterFirst {p : α → Bool} {l : List α} {a : α} (h : a ∈ l) :
    a ∈ l.takeWhile (!p ·) ∨ p a ∨ a ∈ l.afterFirst p := by
  induction l with
  | nil => cases h
  | cons b l ih =>
    rw [afterFirst, takeWhile_cons]
    cases hb : p b with
    | true =>
      rcases mem_cons.mp h with rfl | h
      · exact .inr (.inl hb)
      · exact .inr (.inr h)
    | false =>
      rcases mem_cons.mp h with rfl | h
      · exact .inl mem_cons_self
      · exact (ih h).imp_left (mem_cons_of_mem b)

/-- What is made of the items before the first one with `p` and of those after it, if nothing is made of
that one. -/
theorem filterMap_takeWhile_afterFirst {β : Type*} {p : α → Bool} {f : α → Option β}
    (hp : ∀ a, p a → f a = none) (l : List α) :
    (l.takeWhile (!p ·)).filterMap f ++ (l.afterFirst p).filterMap f = l.filterMap f := by
  induction l with
  | nil => rfl
  | cons a l ih =>
    rw [takeWhile_cons, afterFirst]
    cases ha : p a with
    | true => exact (filterMap_cons_none (hp a ha)).symm
    | false =>
      cases hf : f a with
      | none =>
        rw [filterMap_cons_none hf]
        exact Eq.trans (congrArg (· ++ _) (filterMap_cons_none hf)) ih
      | some b =>
        rw [filterMap_cons_some hf]
        exact Eq.trans (congrArg (· ++ _) (filterMap_cons_some hf)) (congrArg (b :: ·) ih)

/-- Some item with `p` has no item with `q` after it. -/
def unanswered (p q : α → Bool) : List α → Bool
  | [] => false
  | a :: l => (p a && !l.any q) || unanswered p q l

theorem unanswered_append (p q : α → Bool) (l m : List α) :
    (l ++ m).unanswered p q = ((l.unanswered p q && !m.any q) || m.unanswered p q) := by
  induction l with
  | nil => rfl
  | cons a l ih =>
    rw [cons_append, unanswered, unanswered, ih, any_append, Bool.not_or]
    cases p a <;> cases l.any q <;> cases m.any q <;> simp

/-- Nothing is unanswered: every item with `p` has an item with `q` after it. -/
theorem unanswered_eq_false {p q : α → Bool} {l : List α} :
    l.unanswered p q = false ↔ ∀ pre a post, l = pre ++ a :: post → p a → post.any q := by
  constructor
  · rintro h pre a post rfl hp
    rw [unanswered_append, Bool.or_eq_false_iff, unanswered, hp] at h
    simpa using (Bool.or_eq_false_iff.mp h.2).1
  · intro h
    induction l with
    | nil => rfl
    | cons a l ih =>
      rw [unanswered, Bool.or_eq_false_iff]
      refine ⟨?_, ih fun pre b post hl => h (a :: pre) b post (by rw [hl]; rfl)⟩
      cases hp : p a with
      | false => rfl
      | true => simpa using h [] a l rfl hp

end List

namespace AList

variable {κ α : Type*} [DecidableEq κ] {m : AList fun _ : κ => α} {k : κ}

theorem length_keys_insert (h : k ∉ m) (x : α) : (m.insert k x).keys.length = m.keys.length + 1 := by
  rw [keys_insert, List.length_cons, List.erase_of_not_mem (mem_keys.not.mp h)]

theorem length_keys_erase (h : k ∈ m) : (m.erase k).keys.length + 1 = m.keys.length := by
  have hk := mem_keys.mp h
  rw [keys_erase, List.length_erase_of_mem hk]
  exact Nat.succ_pred_eq_of_pos (List.length_pos_of_mem hk)

end AList
