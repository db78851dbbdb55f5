import Absquic.Ep.Cids

/-!
# A process

The counter of `cid()` is a static, so the endpoints of a process share it. `Proc` is a process with
any number of endpoints: an endpoint is made at any time, and any party of any endpoint may step. A
`cid()` call of one endpoint is an `otherCid` step of each other, so each endpoint is in a reachable
state of its own system (`sys_eps`), and what holds there holds in the process.
-/

namespace Absquic

/-- A process (module doc). -/
structure Proc (Q : Quiche) where
  cid : CidGen
  eps : List (Ep Q)

inductive ProcAct (Q : Quiche)
  | quicheEp (config : Q.Config) (h3Config : Option Q.H3Config)
  | ep (k : Nat) (a : EpAct)

namespace Proc

variable {Q : Quiche}

/-- A step of endpoint `k`; the others see the counter's new value. -/
def stepEp (p : Proc Q) (k : Nat) (a : EpAct) : Option (Proc Q) :=
  match p.eps[k]?, a with
  | none, _ | _, .otherCid => none
  | some s, a => (s.step a).map fun s' =>
    ⟨s'.cid, (p.eps.set k s').map fun e => { e with cid := s'.cid }⟩

def step : ProcAct Q → Proc Q → Option (Proc Q)
  | .quicheEp config h3Config, p =>
    some { p with eps := p.eps ++ [Ep.quicheEp p.cid config h3Config] }
  | .ep k a, p => p.stepEp k a

def sys (Q : Quiche) : Lts (Proc Q) (ProcAct Q) where
  init p := p = ⟨.after 0, []⟩
  step := step

variable {p p' : Proc Q}

/-- What a step of endpoint `k` does. -/
theorem stepEp_cases {k : Nat} {a : EpAct} (h : p.stepEp k a = some p') :
    ∃ s s', p.eps[k]? = some s ∧ s.step a = some s' ∧ p'.cid = s'.cid ∧
      ∀ (j : Nat) e', p'.eps[j]? = some e' → j = k ∧ e' = s' ∨
        j ≠ k ∧ ∃ e, p.eps[j]? = some e ∧ e' = { e with cid := s'.cid } := by
  unfold stepEp at h
  split at h
  · cases h
  · cases h
  · next s hk _ =>
    obtain ⟨s', hs, rfl⟩ := Option.map_eq_some_iff.mp h
    refine ⟨s, s', hk, hs, rfl, fun j e' hj => ?_⟩
    obtain ⟨e, he, rfl⟩ := Option.map_eq_some_iff.mp (List.getElem?_map ▸ hj)
    by_cases hjk : j = k
    · subst hjk
      rw [List.getElem?_set_self (List.getElem?_eq_some_iff.mp hk).1] at he
      cases he
      exact .inl ⟨rfl, rfl⟩
    · rw [List.getElem?_set_ne (Ne.symm hjk)] at he
      exact .inr ⟨hjk, e, he, rfl⟩

/-- The endpoints share the counter, and each is in a reachable state of its own system. -/
structure Shared (p : Proc Q) : Prop where
  cid : ∃ n, p.cid = .after n
  eps : ∀ (k : Nat) s, p.eps[k]? = some s → s.cid = p.cid ∧ (Ep.sys Q).Reach s

/-- The other endpoints see the `cid()` call. -/
theorem reach_otherCid {e : Ep Q} {g : CidGen} (h : (Ep.sys Q).Reach e)
    (hg : g = e.cid ∨ g = e.cid.cid.2) : (Ep.sys Q).Reach { e with cid := g } := by
  rcases hg with rfl | rfl
  · exact h
  · exact .step .otherCid h rfl

theorem shared_step {a : ProcAct Q} (h : Shared p) (hs : step a p = some p') : Shared p' := by
  obtain ⟨n, hn⟩ := h.cid
  cases a with
  | quicheEp config h3Config =>
    cases hs
    refine ⟨⟨n, hn⟩, fun k s hk => ?_⟩
    rcases List.getElem?_concat_cases hk with hk | ⟨-, rfl⟩
    · exact h.eps k s hk
    · exact ⟨rfl, .init ⟨n, config, h3Config, by rw [hn]⟩⟩
  | ep k a =>
    obtain ⟨s, s', hk, hst, hc, heps⟩ := stepEp_cases hs
    obtain ⟨hcid, hr⟩ := h.eps k s hk
    have hcs : s'.cid = p.cid ∨ s'.cid = p.cid.cid.2 := hcid ▸ (Ep.length_issued_step hr hst).1
    refine ⟨?_, fun j e' hj => ?_⟩
    · rw [hc]
      rcases hcs with hcs | hcs
      · exact ⟨n, hcs.trans hn⟩
      · exact ⟨n + 1, by rw [hcs, hn]; rfl⟩
    · rcases heps j e' hj with ⟨-, rfl⟩ | ⟨-, e, he, rfl⟩
      · exact ⟨hc.symm, .step a hr hst⟩
      · obtain ⟨hce, hre⟩ := h.eps j e he
        exact ⟨hc.symm, reach_otherCid hre (hce ▸ hcs)⟩

theorem sys_shared (h : (sys Q).Reach p) : Shared p := by
  refine h.invariant (fun p hp => ?_) fun a p _ _ hi hs => shared_step (p := p) (a := a) hi hs
  rw [show p = ⟨.after 0, []⟩ from hp]
  exact ⟨⟨0, rfl⟩, fun k s hk => (nomatch hk)⟩

/-- Each endpoint of a process is in a reachable state of its own system. -/
theorem sys_eps (h : (sys Q).Reach p) {k : Nat} {s : Ep Q} (hk : p.eps[k]? = some s) :
    (Ep.sys Q).Reach s := ((sys_shared h).eps k s hk).2

/-- What `con_map` is good for, in a process that has not used up the counter. -/
structure Routable (p : Proc Q) : Prop where
  /-- The ids that `cid()` returned. -/
  distinct : p.cid.issued.Nodup
  bytes : ∀ id ∈ p.cid.issued, id.length = 16
  /-- The next `con_map.insert` is on an absent key. -/
  insert : ∀ (k : Nat) s, p.eps[k]? = some s → ∀ i scid, s.pc.inserts? = some (i, scid) →
    s.conMap.lookup scid = none
  /-- Between two commands a live connection is in the map, under its own id only. -/
  live : ∀ (k : Nat) s, p.eps[k]? = some s → s.pc = .recv →
    ∀ (i : Nat) r, s.cons[i]? = some r → r.con.pc.over = false →
      ∀ id, s.conMap.lookup id = some i ↔ id = r.scid
  /-- An entry that a step removes, or replaces, was that of a connection that had ended. -/
  removed : ∀ a p', step a p = some p' → ∀ (k : Nat) s s', p.eps[k]? = some s →
    p'.eps[k]? = some s' → ∀ id i, s.conMap.lookup id = some i → s'.conMap.lookup id ≠ some i →
      ∃ r, s.cons[i]? = some r ∧ r.con.pc.over

/-- With at most 2^64 calls of `cid()`, live connections stay routable under their own ids. -/
theorem cids_routable (h : (sys Q).Reach p) (hn : p.cid.issued.length ≤ 2 ^ 64) : Routable p := by
  have hsh := sys_shared h
  obtain ⟨n, hcn⟩ := hsh.cid
  have hlen : n ≤ 2 ^ 64 := by rwa [hcn, CidGen.length_issued_after] at hn
  have hep : ∀ {k : Nat} {s : Ep Q}, p.eps[k]? = some s →
      (Ep.sys Q).Reach s ∧ s.cid.issued.length ≤ 2 ^ 64 := fun hk =>
    let ⟨hc, hr⟩ := hsh.eps _ _ hk; ⟨hr, hc ▸ hn⟩
  refine ⟨hcn ▸ CidGen.nodup_after hlen, fun id hid => ?_, fun k s hk i scid hi => ?_,
    fun k s hk hpc i r hi ho id => ⟨fun hid => ?_, ?_⟩, fun a p' hs k s s' hk hk' id i hid hid' => ?_⟩
  · rw [hcn] at hid; exact CidGen.length_of_mem_after hid
  · exact Ep.absent_insert (hep hk).1 (hep hk).2 hi
  · obtain ⟨r', hr', hs', -⟩ := (Ep.sys_routing (hep hk).1).map id i hid
    rw [hi] at hr'
    cases hr'
    exact hs'.symm
  · rintro rfl
    have := Ep.sys_routable (hep hk).1 (hep hk).2 i r hi ho
    rw [hpc] at this
    exact this.resolve_left nofun
  · have hsame : s'.conMap = s.conMap → False := fun he => hid' (he ▸ hid)
    cases a with
    | quicheEp config h3Config =>
      cases hs
      rw [List.getElem?_append_left (List.getElem?_eq_some_iff.mp hk).1, hk] at hk'
      cases hk'
      exact (hsame rfl).elim
    | ep j a =>
      obtain ⟨t, t', ht, hst, -, heps⟩ := stepEp_cases hs
      rcases heps k s' hk' with ⟨rfl, rfl⟩ | ⟨-, e, he, rfl⟩
      · rw [hk] at ht
        cases ht
        exact Ep.removed_over (hep hk).1 (hep hk).2 hst hid hid'
      · rw [hk] at he
        cases he
        exact (hsame rfl).elim

/-- Two endpoints with a connection each. -/
theorem cids_routable_two : ∃ p : Proc (Quiche.inert ()), p.cid.issued.length = 2 ∧ Routable p := by
  obtain ⟨p, hr, h⟩ := Lts.Reach.of_run_any (S := sys (Quiche.inert ()))
    ([.quicheEp () none, .quicheEp () none] ++
      [0, 1].flatMap fun k => [.connect .unspecified, .connAcquire 0, .connSend 0, .task, .task, .task,
        .task].map (.ep k))
    (fun p => decide (p.cid.issued.length = 2)) rfl (by decide +kernel)
  have h := of_decide_eq_true h
  exact ⟨p, h, cids_routable hr (by rw [h]; decide)⟩

end Proc
end Absquic
