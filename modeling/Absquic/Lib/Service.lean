import Absquic.Lib.List

/-!
# A queue that is served out of order

Those who arrive are numbered, and any of those who wait may be served next (`Service.serve`); a
service is stamped, and records who came earlier and still waited (`Served.overtaken`).

* `Service.Ok`: everybody was served once or waits, and whom a service overtook has a smaller number
  and had not been served.
* `Service.Ok.order_iff`: they were served in the order of their arrival if and only if nobody was
  overtaken.
-/

universe u

/-- A service (module doc). -/
structure Served (β : Type u) where
  number : Nat
  stamp : β
  overtaken : List Nat

/-- Who waits, in the order of arrival, and who was served. -/
structure Service (β : Type u) where
  waiting : List Nat
  served : List (Served β)

namespace Service

variable {β : Type u}

def new : Service β := ⟨[], []⟩

/-- How many have arrived. -/
def arrived (q : Service β) : Nat := q.served.length + q.waiting.length

/-- The numbers of those who were served. -/
def numbers (q : Service β) : List Nat := q.served.map (·.number)

def arrive (q : Service β) : Service β := { q with waiting := q.waiting ++ [q.arrived] }

/-- Number `k` of those who wait is served. -/
def serve (q : Service β) (k : Nat) (stamp : β) : Service β :=
  match q.waiting[k]? with
  | none => q
  | some number =>
    { waiting := q.waiting.eraseIdx k
      served := q.served ++ [{ number, stamp, overtaken := q.waiting.take k }] }

/-- What arrivals and services keep (module doc). -/
structure Ok (q : Service β) : Prop where
  once : (q.numbers ++ q.waiting).Perm (List.range q.arrived)
  sorted : q.waiting.Pairwise (· < ·)
  behind : ∀ pre x post, q.served = pre ++ x :: post →
    ∀ m ∈ x.overtaken, m < x.number ∧ m ∉ pre.map (·.number)
  inOrder : (∀ x ∈ q.served, x.overtaken = []) → q.numbers ++ q.waiting = List.range q.arrived

variable {q : Service β} {k n : Nat} {stamp : β}

theorem serve_eq (h : q.waiting[k]? = some n) : q.serve k stamp =
    { waiting := q.waiting.eraseIdx k
      served := q.served ++ [{ number := n, stamp, overtaken := q.waiting.take k }] } := by
  unfold serve
  rw [h]

theorem arrived_arrive (q : Service β) : q.arrive.arrived = q.arrived + 1 := by
  simp [arrived, arrive, Nat.add_assoc]

theorem arrived_serve (h : q.waiting[k]? = some n) (stamp : β) :
    (q.serve k stamp).arrived = q.arrived := by
  obtain ⟨hk, -⟩ := List.getElem?_eq_some_iff.mp h
  rw [serve_eq h]
  simp only [arrived, List.length_append, List.length_singleton, List.length_eraseIdx_of_lt hk]
  omega

namespace Ok

theorem new : (Service.new : Service β).Ok :=
  ⟨.refl _, .nil, fun pre _ _ h => (by cases pre <;> cases h), fun _ => rfl⟩

theorem waiting_lt (h : q.Ok) (hn : n ∈ q.waiting) : n < q.arrived :=
  List.mem_range.mp (h.once.mem_iff.mp (List.mem_append_right _ hn))

theorem served_lt (h : q.Ok) {x : Served β} (hx : x ∈ q.served) : x.number < q.arrived :=
  List.mem_range.mp (h.once.mem_iff.mp (List.mem_append_left _ (List.mem_map_of_mem hx)))

theorem not_served (h : q.Ok) (hn : n ∈ q.waiting) : n ∉ q.numbers := fun hs =>
  (List.nodup_append.mp (h.once.nodup_iff.mpr List.nodup_range)).2.2 n hs n hn rfl

theorem arrive (h : q.Ok) : q.arrive.Ok := by
  have hnum : q.arrive.numbers ++ q.arrive.waiting =
      (q.numbers ++ q.waiting) ++ [q.arrived] := (List.append_assoc _ _ _).symm
  refine ⟨?_, ?_, h.behind, fun ho => ?_⟩
  · rw [hnum, arrived_arrive, List.range_succ]
    exact h.once.append_right _
  · refine List.pairwise_append.mpr ⟨h.sorted, List.pairwise_singleton _ _, fun m hm n hn => ?_⟩
    rw [List.mem_singleton.mp hn]
    exact h.waiting_lt hm
  · rw [hnum, arrived_arrive, List.range_succ, h.inOrder ho]

/-- Those who came before number `k` of those who wait have smaller numbers. -/
theorem lt_of_mem_take (h : q.Ok) (hk : q.waiting[k]? = some n) {m : Nat}
    (hm : m ∈ q.waiting.take k) : m < n := by
  obtain ⟨hlt, rfl⟩ := List.getElem?_eq_some_iff.mp hk
  obtain ⟨i, hi, rfl⟩ := List.mem_take_iff_getElem.mp hm
  exact List.pairwise_iff_getElem.mp h.sorted i k _ hlt (by omega)

theorem serve (h : q.Ok) (hk : q.waiting[k]? = some n) (stamp : β) : (q.serve k stamp).Ok := by
  obtain ⟨hlt, hn⟩ := List.getElem?_eq_some_iff.mp hk
  have harr := arrived_serve hk stamp
  rw [serve_eq hk] at harr ⊢
  have hnum : ∀ x : Served β, x.number = n →
      ({ waiting := q.waiting.eraseIdx k, served := q.served ++ [x] } : Service β).numbers ++
        q.waiting.eraseIdx k = q.numbers ++ n :: q.waiting.eraseIdx k := by
    rintro x rfl
    simp [numbers]
  refine ⟨?_, h.sorted.eraseIdx k, fun pre x post hp m hm => ?_, fun ho => ?_⟩
  · rw [harr]
    refine List.Perm.trans ?_ h.once
    rw [show _ ++ _ = _ from hnum _ rfl, ← hn]
    exact (List.getElem_cons_eraseIdx_perm hlt).append_left _
  · rcases List.eq_nil_or_concat post with rfl | ⟨rest, y, rfl⟩
    · obtain ⟨rfl, hx⟩ := List.append_inj' hp rfl
      obtain rfl := List.singleton_inj.mp hx
      have hw := List.mem_of_mem_take hm
      exact ⟨h.lt_of_mem_take hk hm, h.not_served hw⟩
    · rw [List.concat_eq_append, ← List.cons_append, ← List.append_assoc] at hp
      obtain ⟨hp, -⟩ := List.append_inj' hp rfl
      exact h.behind pre x rest hp m hm
  · have htake : q.waiting.take k = [] := ho _ (List.mem_append_right _ List.mem_cons_self)
    have hk0 : k = 0 := by
      rcases List.take_eq_nil_iff.mp htake with h0 | h0
      · exact h0
      · rw [h0] at hlt; cases hlt
    subst hk0
    have hw : n :: q.waiting.eraseIdx 0 = q.waiting := by
      revert hk
      cases q.waiting with
      | nil => nofun
      | cons w rest => intro hk; cases hk; rfl
    rw [harr, show _ ++ _ = _ from hnum _ rfl, hw]
    exact h.inOrder fun x hx => ho x (List.mem_append_left _ hx)

/-- They were served in the order of arrival if and only if nobody was overtaken. -/
theorem order_iff (h : q.Ok) :
    q.numbers = List.range q.served.length ↔ ∀ x ∈ q.served, x.overtaken = [] := by
  refine ⟨fun hn x hx => List.eq_nil_iff_forall_not_mem.mpr fun m hm => ?_, fun ho => ?_⟩
  · obtain ⟨pre, post, hp⟩ := List.append_of_mem hx
    obtain ⟨hlt, hno⟩ := h.behind pre x post hp m hm
    -- number `i` was served at place `i`, so `m` was served before
    have hget : ∀ i < q.served.length, q.numbers[i]? = some i := fun i hi => by
      rw [hn, List.getElem?_range hi]
    have hnum : q.numbers = pre.map (·.number) ++ x.number :: post.map (·.number) := by
      rw [numbers, hp, List.map_append, List.map_cons]
    have hlen : pre.length < q.served.length := by
      rw [hp, List.length_append, List.length_cons]
      omega
    have hx' := hget pre.length hlen
    rw [hnum, List.getElem?_append_right (by simp), List.length_map, Nat.sub_self] at hx'
    have hx' : x.number = pre.length := Option.some.inj hx'
    have hm' := hget m (by omega)
    rw [hnum, List.getElem?_append_left (by simpa [hx'] using hlt)] at hm'
    exact hno (List.mem_of_getElem? hm')
  · have hpre : q.numbers <+: List.range q.arrived := ⟨q.waiting, h.inOrder ho⟩
    rw [List.prefix_iff_eq_take.mp hpre, List.take_range]
    congr 1
    simp only [numbers, List.length_map, arrived]
    omega

end Ok
end Service
