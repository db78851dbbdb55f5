import Absquic.Ep.Routing
import Mathlib.Data.List.Nodup

/-!
# Connection ids and the map of connections

* The counter: `cidOf` is injective, so up to 2^64 ids that a process got are pairwise distinct
  (`CidGen.nodup`).
* `Cids`: an endpoint's connections have different ids among the process's, and a connection that is
  still to be put into `con_map` is not in it.
* `Routable`: a connection whose task has not ended is in `con_map`, under its own id. It follows
  that `con_map.insert` finds its key absent (`absent_insert`), and that what leaves the map had
  ended (`removed_over`).
-/

namespace Absquic

/-! ## The counter -/

/-- Two numbers with the same digits up to `b ^ n`. -/
theorem mod_pow_eq_of_digits {b x y : Nat} : ∀ n, (∀ k < n, x / b ^ k % b = y / b ^ k % b) →
    x % b ^ n = y % b ^ n
  | 0, _ => by rw [Nat.pow_zero, Nat.mod_one, Nat.mod_one]
  | n + 1, h => by
    have ih := mod_pow_eq_of_digits n fun k hk => h k (Nat.lt_succ_of_lt hk)
    rw [Nat.mod_pow_succ, Nat.mod_pow_succ, ih, h n (Nat.lt_succ_self n)]

theorem toLeBytes_injective : Function.Injective toLeBytes := by
  intro a b h
  have hdigit : ∀ k < 8, a.toNat / 256 ^ k % 256 = b.toNat / 256 ^ k % 256 := fun k hk => by
    have hk := List.map_inj_left.mp h k (List.mem_range.mpr hk)
    simpa using congrArg UInt8.toNat hk
  have hmod := mod_pow_eq_of_digits 8 hdigit
  have ha : a.toNat < 256 ^ 8 := a.toNat_lt
  have hb : b.toNat < 256 ^ 8 := b.toNat_lt
  rw [Nat.mod_eq_of_lt ha, Nat.mod_eq_of_lt hb] at hmod
  exact UInt64.toNat_inj.mp hmod

theorem cidOf_injective : Function.Injective cidOf := fun _ _ h =>
  toLeBytes_injective (List.append_cancel_right h)

@[simp] theorem length_cidOf (id : UInt64) : (cidOf id).length = 16 := by
  simp [cidOf, toLeBytes]

namespace CidGen

theorem next_after (n : Nat) : (after n).next = UInt64.ofNat n := by
  induction n with
  | zero => rfl
  | succ n ih =>
    show (after n).next + 1 = _
    rw [ih, UInt64.ofNat_add]
    rfl

theorem issued_after (n : Nat) :
    (after n).issued = (List.range n).map fun m => cidOf (UInt64.ofNat m) := by
  induction n with
  | zero => rfl
  | succ n ih =>
    show (after n).issued ++ [cidOf (after n).next] = _
    rw [ih, next_after, List.range_succ, List.map_append]
    rfl

theorem length_issued_after (n : Nat) : (after n).issued.length = n := by
  rw [issued_after, List.length_map, List.length_range]

/-- Before the counter is back at 0, no id comes twice. -/
theorem nodup_after {n : Nat} (hn : n ≤ 2 ^ 64) : (after n).issued.Nodup := by
  rw [issued_after]
  refine List.nodup_range.map_on fun x hx y hy h => ?_
  have hx : x < 2 ^ 64 := Nat.lt_of_lt_of_le (List.mem_range.mp hx) hn
  have hy : y < 2 ^ 64 := Nat.lt_of_lt_of_le (List.mem_range.mp hy) hn
  have := congrArg UInt64.toNat (cidOf_injective h)
  rwa [UInt64.toNat_ofNat_of_lt' hx, UInt64.toNat_ofNat_of_lt' hy] at this

theorem length_of_mem_after {n : Nat} {id : ConnectionId} (h : id ∈ (after n).issued) :
    id.length = 16 := by
  rw [issued_after] at h
  obtain ⟨m, -, rfl⟩ := List.mem_map.mp h
  exact length_cidOf _

end CidGen

namespace Ep

variable {Q : Quiche} {s s' : Ep Q}

/-! ## What a step does to the ids and to the map -/

def scids (s : Ep Q) : List ConnectionId := s.cons.map (·.scid)

/-- What is not about the states of the connections does not move. -/
theorem Moves.map_eq {β : Type} {R : Nat → Con Q → Con Q → Prop} {l l' : List (EpCon Q)}
    {f : EpCon Q → β} (h : Moves R l l') (hf : ∀ r c, f { r with con := c } = f r) :
    l'.map f = l.map f := by
  refine List.ext_getElem? fun i => ?_
  rw [List.getElem?_map, List.getElem?_map]
  cases hl : l[i]? with
  | none =>
    have : l'.length ≤ i := h.length ▸ List.getElem?_eq_none_iff.mp hl
    rw [List.getElem?_eq_none this]
  | some r =>
    obtain ⟨c, hc, -⟩ := h.con i r hl
    rw [hc, Option.map_some, Option.map_some, hf]

/-- The ids after a step of `ep_task`: a new connection has the id that `cid()` returned. -/
theorem scids_task (ht : TaskStep s s') :
    (s'.cid = s.cid ∨ s'.cid = s.cid.cid.2) ∧ s'.scids = s.scids ∨
      s'.cid = s.cid.cid.2 ∧ s'.scids = s.scids ++ [s.cid.cid.1] := by
  have hcid : s'.cid = s.cid ∨ s'.cid = s.cid.cid.2 := by
    cases ht with
    | accept | refuse | spawnNew => exact .inr rfl
    | put => rw [insertCon_eq]; exact .inl rfl
    | @refuseNew addr rsp config err =>
      refine .inr ?_
      show (Ep.answer { s with cid := s.cid.cid.2, config } rsp (.error (.quiche err))).cid = _
      rw [answer_eq]
    | @answerNew i scid rsp =>
      refine .inl ?_
      show ((s.insertCon scid i).answer rsp (.ok i)).cid = _
      rw [answer_eq, insertCon_eq]
    | _ => exact .inl rfl
  rcases cons_task ht with ⟨new, hn⟩ | hm
  · exact .inr ⟨hn.cid, by unfold scids; rw [hn.cons, List.map_append, ← hn.scid]; rfl⟩
  · exact .inl ⟨hcid, hm.map_eq fun _ _ => rfl⟩

/-- What a step of `ep_task` does to `con_map`. -/
inductive Remapped (s s' : Ep Q) : Prop
  | same (hm : s'.conMap = s.conMap)
    (hi : ∀ x, s.pc.inserts? = some x → s'.pc.inserts? = some x)
    (hn : ∀ x, s'.pc.inserts? = some x → s.pc.inserts? = some x ∨ s.cons.length ≤ x.1)
  | erase {i : Nat} {r : EpCon Q} {dcid : ConnectionId} (hl : s.conMap.lookup dcid = some i)
    (hr : s.cons[i]? = some r) (ho : r.con.pc.over = true) (hm : s'.conMap = s.conMap.erase dcid)
    (hi : s.pc.inserts? = none) (hn : s'.pc.inserts? = none)
  | insert {i : Nat} {scid : ConnectionId} (hi : s.pc.inserts? = some (i, scid))
    (hm : s'.conMap = s.conMap.insert scid i) (hn : s'.pc.inserts? = none)

theorem remapped_task (hr : Routing s)
    (hrx : ∀ (i : Nat) r, s.cons[i]? = some r → r.con.cmd.rx = !r.con.pc.over)
    (ht : TaskStep s s') : Remapped s s' := by
  cases ht with
  | accept hpc | spawnNew hpc =>
    refine .same rfl (fun x hx => by rw [hpc] at hx; cases hx) fun x hx => ?_
    cases hx
    exact .inr (Nat.le_refl _)
  | permit hpc =>
    refine .same rfl (fun x hx => ?_) (fun x hx => .inl ?_)
    · rw [hpc] at hx; exact hx
    · rw [hpc]; exact hx
  | @conEnded i dcid pak r c hpc hi hs =>
    have hx := (Con.sendInPak_spec hs).1.trans (hrx i r hi)
    exact .erase (hr.route i dcid pak hpc).1 hi (by simpa using hx) rfl (by rw [hpc]; rfl) rfl
  | put hpc => exact .insert (by rw [hpc]; rfl) (by rw [insertCon_eq]; rfl) rfl
  | @answerNew i scid rsp hpc =>
    refine .insert (by rw [hpc]; rfl) ?_ rfl
    show ((s.insertCon scid i).answer rsp (.ok i)).conMap = _
    rw [answer_eq, insertCon_eq]
  | @refuseNew addr rsp config err hpc =>
    refine .same ?_ (fun x hx => by rw [hpc] at hx; cases hx) fun x hx => (nomatch hx)
    show (Ep.answer { s with cid := s.cid.cid.2, config } rsp (.error (.quiche err))).conMap = _
    rw [answer_eq]
  | take hpc | reserved hpc | reserve hpc | streamEnd hpc | streamErr hpc | drop hpc | refuse hpc
  | route hpc | deliver hpc | inCon hpc | noInCon hpc =>
    exact .same rfl (fun x hx => by rw [hpc] at hx; cases hx) fun x hx => (nomatch hx)

/-! ## The ids of the connections -/

/-- What holds of the ids of an endpoint. -/
structure Cids (s : Ep Q) : Prop where
  cid : ∃ n, s.cid = .after n
  scids : s.scids.Sublist s.cid.issued
  /-- A connection that is still to be put into the map is not in it. -/
  fresh : ∀ i scid, s.pc.inserts? = some (i, scid) → ∀ k, s.conMap.lookup k ≠ some i

theorem issued_cid (g : CidGen) : g.cid.2.issued = g.issued ++ [g.cid.1] := rfl

theorem Cids.step_cid {g g' : CidGen} (h : ∃ n, g = .after n) (hg : g' = g ∨ g' = g.cid.2) :
    (∃ n, g' = .after n) ∧ ∃ l, g'.issued = g.issued ++ l := by
  obtain ⟨n, hn⟩ := h
  rcases hg with rfl | rfl
  · exact ⟨⟨n, hn⟩, [], (List.append_nil _).symm⟩
  · exact ⟨⟨n + 1, by rw [hn]; rfl⟩, [g.cid.1], issued_cid g⟩

theorem cids_task (h : Cids s) (hr : Routing s)
    (hrx : ∀ (i : Nat) r, s.cons[i]? = some r → r.con.cmd.rx = !r.con.pc.over)
    (ht : TaskStep s s') : Cids s' := by
  have hcid : s'.cid = s.cid ∨ s'.cid = s.cid.cid.2 :=
    (scids_task ht).elim (·.1) fun h => .inr h.1
  obtain ⟨hn, l, hl⟩ := Cids.step_cid h.cid hcid
  refine ⟨hn, ?_, fun i scid hi k hk => ?_⟩
  · rcases scids_task ht with ⟨-, hs⟩ | ⟨hc, hs⟩
    · rw [hs, hl]; exact h.scids.trans (List.sublist_append_left _ _)
    · rw [hs, hc, issued_cid]; exact h.scids.append (List.Sublist.refl _)
  · cases remapped_task hr hrx ht with
    | same hm _ hnew =>
      rw [hm] at hk
      rcases hnew _ hi with hi | hlen
      · exact h.fresh i scid hi k hk
      · obtain ⟨r, hri, -⟩ := hr.map k i hk
        exact absurd (List.getElem?_eq_some_iff.mp hri).1 (Nat.not_lt.mpr hlen)
    | erase _ _ _ _ _ hn => rw [hn] at hi; cases hi
    | insert _ _ hn => rw [hn] at hi; cases hi

theorem sys_cids (h : (sys Q).Reach s) : Cids s := by
  refine h.invariant (fun s hi => ?_) fun a s s' hr hc hs => ?_
  · obtain ⟨n, config, h3Config, rfl⟩ := hi
    exact ⟨⟨n, rfl⟩, List.nil_sublist _, fun _ _ h => (nomatch h)⟩
  · rcases reach_cases hr hs with ⟨-, ht⟩ | ⟨-, hf⟩
    · exact cids_task hc (sys_routing hr) (cons_rx hr) ht
    · obtain ⟨hn, l, hl⟩ := Cids.step_cid hc.cid hf.cid
      refine ⟨hn, ?_, by rw [hf.pc, hf.conMap]; exact hc.fresh⟩
      rw [show s'.scids = s.scids from hf.cons.map_eq fun _ _ => rfl, hl]
      exact hc.scids.trans (List.sublist_append_left _ _)

/-! ## The map -/

/-- A connection whose task has not ended is in the map under its id, or `ep_task` is about to put it
there. -/
def Routable (s : Ep Q) : Prop :=
  ∀ (i : Nat) r, s.cons[i]? = some r → r.con.pc.over = false →
    s.pc.inserts? = some (i, r.scid) ∨ s.conMap.lookup r.scid = some i

theorem nodup_scids (h : Cids s) (hn : s.cid.issued.length ≤ 2 ^ 64) : s.scids.Nodup := by
  obtain ⟨n, hc⟩ := h.cid
  rw [hc, CidGen.length_issued_after] at hn
  exact h.scids.nodup (hc ▸ CidGen.nodup_after hn)

theorem eq_of_scid {i j : Nat} {r r' : EpCon Q} (hn : s.scids.Nodup) (hi : s.cons[i]? = some r)
    (hj : s.cons[j]? = some r') (he : r.scid = r'.scid) : i = j := by
  have hlt : i < s.scids.length := by
    unfold scids; rw [List.length_map]; exact (List.getElem?_eq_some_iff.mp hi).1
  refine (List.getElem?_inj hlt hn).mp ?_
  unfold scids
  rw [List.getElem?_map, List.getElem?_map, hi, hj, Option.map_some, Option.map_some, he]

/-- The id that goes into the map is that of the connection. -/
theorem inserts_known (h : Routing s) {i : Nat} {scid : ConnectionId}
    (hi : s.pc.inserts? = some (i, scid)) : ∃ r, s.cons[i]? = some r ∧ r.scid = scid := by
  cases hpc : s.pc <;> rw [hpc] at hi <;> cases hi
  · obtain ⟨-, r, _, hr, hs, -⟩ := h.accept _ _ _ (.inl hpc); exact ⟨r, hr, hs⟩
  · obtain ⟨-, r, _, hr, hs, -⟩ := h.accept _ _ _ (.inr hpc); exact ⟨r, hr, hs⟩
  · obtain ⟨r, hr, hs, -⟩ := h.connect _ _ _ hpc; exact ⟨r, hr, hs⟩

/-- `con_map.insert` finds its key absent. -/
theorem absent_insert (h : (sys Q).Reach s) (hn : s.cid.issued.length ≤ 2 ^ 64) {i : Nat}
    {scid : ConnectionId} (hi : s.pc.inserts? = some (i, scid)) : s.conMap.lookup scid = none := by
  have hc := sys_cids h
  have hr := sys_routing h
  rw [Option.eq_none_iff_forall_ne_some]
  intro j hj
  obtain ⟨r', hr', hs', -⟩ := hr.map scid j hj
  obtain ⟨r, hri, hs⟩ := inserts_known hr hi
  obtain rfl := eq_of_scid (nodup_scids hc hn) hri hr' (hs.trans hs'.symm)
  exact hc.fresh i scid hi scid hj

theorem over_runs {P : ConAct → Prop} {i : Nat} {c c' : Con Q} (h : Runs P i c c')
    (ho : c.pc.over) : c'.pc.over :=
  Lts.Steps.invariant (I := fun c => c.pc.over)
    (fun _ c _ _ ho hs => Con.over_step (Q := Q) (c := c) hs ho) h ho

/-- What was in the map before a step of `ep_task`, and is not after it, had ended. -/
theorem map_task (h : (sys Q).Reach s) (hn : s.cid.issued.length ≤ 2 ^ 64) (ht : TaskStep s s')
    {k : ConnectionId} {i : Nat} (hk : s.conMap.lookup k = some i) :
    s'.conMap.lookup k = some i ∨ ∃ r, s.cons[i]? = some r ∧ r.con.pc.over := by
  cases remapped_task (sys_routing h) (cons_rx h) ht with
  | same hm => rw [hm]; exact .inl hk
  | @erase j r dcid hl hr ho hm =>
    by_cases hkd : k = dcid
    · subst hkd
      rw [hk] at hl
      cases hl
      exact .inr ⟨r, hr, ho⟩
    · rw [hm, AList.lookup_erase_ne hkd]; exact .inl hk
  | @insert j scid hi hm =>
    have hks : k ≠ scid := fun hks => by
      rw [hks, absent_insert h hn hi] at hk
      cases hk
    rw [hm, AList.lookup_insert_ne hks]
    exact .inl hk

theorem routable_task (h : (sys Q).Reach s) (hn : s.cid.issued.length ≤ 2 ^ 64) (hl : Routable s)
    (ht : TaskStep s s') : Routable s' := by
  have hkeep : ∀ {i : Nat} {r : EpCon Q}, s.cons[i]? = some r → r.con.pc.over = false →
      s'.pc.inserts? = some (i, r.scid) ∨ s'.conMap.lookup r.scid = some i := by
    intro i r hr ho
    rcases hl i r hr ho with hi | hk
    · cases remapped_task (sys_routing h) (cons_rx h) ht with
      | same _ hsame => exact .inl (hsame _ hi)
      | erase _ _ _ _ hnone => rw [hnone] at hi; cases hi
      | insert hj hm =>
        rw [hi] at hj
        cases hj
        rw [hm, AList.lookup_insert]
        exact .inr rfl
    · rcases map_task h hn ht hk with hk | ⟨r', hr', ho'⟩
      · exact .inr hk
      · rw [hr] at hr'
        cases hr'
        rw [ho] at ho'
        cases ho'
  intro i r' hi ho
  rcases cons_task ht with ⟨new, hs⟩ | hm
  · rcases List.getElem?_concat_cases (hs.cons ▸ hi) with hi | ⟨rfl, rfl⟩
    · exact hkeep hi ho
    · exact .inl hs.inserts
  · obtain ⟨r, hr, he, hrun⟩ := hm.back hi
    rw [show r'.scid = r.scid by rw [he]]
    refine hkeep hr ?_
    rw [← Bool.not_eq_true] at ho ⊢
    exact fun h => ho (over_runs hrun h)

theorem routable_frame (hl : Routable s) (hf : Frame s s') : Routable s' := by
  intro i r' hi ho
  obtain ⟨r, hr, he, hm⟩ := hf.cons.back hi
  rw [hf.pc, hf.conMap, show r'.scid = r.scid by rw [he]]
  refine hl i r hr ?_
  rw [← Bool.not_eq_true] at ho ⊢
  exact fun h => ho (over_runs (i := i) hm.quiet h)

theorem length_issued_step {a : EpAct} (h : (sys Q).Reach s) (hs : step a s = some s') :
    (s'.cid = s.cid ∨ s'.cid = s.cid.cid.2) ∧ s.cid.issued.length ≤ s'.cid.issued.length := by
  have hcid : s'.cid = s.cid ∨ s'.cid = s.cid.cid.2 := by
    rcases reach_cases h hs with ⟨-, ht⟩ | ⟨-, hf⟩
    · exact (scids_task ht).elim (·.1) fun h => .inr h.1
    · exact hf.cid
  refine ⟨hcid, ?_⟩
  rcases hcid with h | h
  · rw [h]
  · rw [h, issued_cid, List.length_append]; exact Nat.le_add_right _ _

/-- While the counter has not come back to 0, the connections stay routable. -/
theorem sys_routable (h : (sys Q).Reach s) (hn : s.cid.issued.length ≤ 2 ^ 64) : Routable s := by
  induction h with
  | init hi =>
    obtain ⟨n, config, h3Config, rfl⟩ := hi
    exact fun i r hr => (nomatch hr)
  | step a hr hs ih =>
    have hn := Nat.le_trans (length_issued_step hr hs).2 hn
    rcases reach_cases hr hs with ⟨-, ht⟩ | ⟨-, hf⟩
    · exact routable_task hr hn (ih hn) ht
    · exact routable_frame (ih hn) hf

/-- What leaves the map, or is replaced there, had ended. -/
theorem removed_over {a : EpAct} (h : (sys Q).Reach s) (hn : s.cid.issued.length ≤ 2 ^ 64)
    (hs : step a s = some s') {k : ConnectionId} {i : Nat} (hk : s.conMap.lookup k = some i)
    (hk' : s'.conMap.lookup k ≠ some i) : ∃ r, s.cons[i]? = some r ∧ r.con.pc.over := by
  rcases reach_cases h hs with ⟨-, ht⟩ | ⟨-, hf⟩
  · exact (map_task h hn ht hk).resolve_left hk'
  · rw [hf.conMap] at hk'; exact absurd hk hk'

end Ep
end Absquic
