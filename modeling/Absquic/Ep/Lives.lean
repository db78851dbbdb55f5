import Absquic.Ep.Serial

/-!
# The life of a connection in `con_map`

What packets find of a connection (`EpLedger.found`), in the order in which `ep_task` handles them: the
one that it was created for, if it was accepted; then those with its id, that it is given or that are
dropped for lack of a permit; and maybe at last one that finds that its task has ended. With that one
the entry in `con_map` goes, and no other packet comes to the connection (`Lived`).

So `con_map` is the connections that no packet has found ended, each under its id, and nothing else
(`Lives`): the entry of a connection that has ended stays until a packet comes for it. As long as the
ids are different this holds of the sequential program (`serial_lives`), and so of `ep_task`.
-/

namespace Absquic

/-- The packet has the id `scid`. -/
def Quiche.HasId (Q : Quiche) (pak : UdpPak) (scid : ConnectionId) : Prop :=
  ∃ hdr, Q.headerFromSlice pak.data 16 = .ok hdr ∧ hdr.dcid = scid

/-- The connection had ended. -/
def Fate.isEnd : Fate → Bool
  | .conEnded _ => true
  | _ => false

namespace EpLedger

variable {Q : Quiche} {l l' : EpLedger Q}

/-- What packets found of connection `i`. -/
def found (l : EpLedger Q) (i : Nat) : List (UdpPak × Fate) := l.fates.filter (·.2.chan? = some i)

/-- The packet that connection `i` was created for. -/
def Begins (i : Nat) (origin : Option (UdpPak × Header)) (first : List (UdpPak × Fate)) : Prop :=
  match origin with
  | none => first = []
  | some (pak, _) => ∃ put, first = [(pak, .created i put)]

/-- A packet for connection `i`, whose id is `scid`. -/
def Meets (Q : Quiche) (i : Nat) (scid : ConnectionId) (y : UdpPak × Fate) : Prop :=
  Q.HasId y.1 scid ∧ (y.2 = .delivered i ∨ y.2 = .noPermit i)

/-- The life of connection `i` (module doc). -/
inductive Lived (l : EpLedger Q) (i : Nat) (x : ConnectionId × SocketAddr × Option (UdpPak × Header)) :
    Prop
  | mapped {first mid} (hf : l.found i = first ++ mid) (hb : Begins i x.2.2 first)
    (hm : ∀ y ∈ mid, Meets Q i x.1 y) (hk : l.conMap.lookup x.1 = some i)
  | gone {first mid pak} (hf : l.found i = first ++ mid ++ [(pak, .conEnded i)])
    (hb : Begins i x.2.2 first) (hm : ∀ y ∈ mid, Meets Q i x.1 y) (hp : Q.HasId pak x.1)
    (hk : l.conMap.lookup x.1 = none)

/-- What `con_map` holds (module doc). -/
structure Lives (l : EpLedger Q) : Prop where
  con : ∀ i x, l.cons[i]? = some x → Lived l i x
  map : ∀ k i, l.conMap.lookup k = some i → ∃ x, l.cons[i]? = some x ∧ x.1 = k
  /-- Its size. -/
  size : l.conMap.keys.length + l.fates.countP (·.2.isEnd) = l.cons.length
  /-- A packet has to do with a connection that was created. -/
  known : ∀ y ∈ l.fates, ∀ i, y.2.chan? = some i → i < l.cons.length

/-! ## One command -/

/-- What one command does to the connections. -/
inductive Turn (l l' : EpLedger Q) : Prop
  | still {f} (hc : l'.cons = l.cons) (hm : l'.conMap = l.conMap) (hf : l'.fates = l.fates ++ f)
    (hn : ∀ y ∈ f, y.2.chan? = none)
  | meets {y i k} (hc : l'.cons = l.cons) (hm : l'.conMap = l.conMap)
    (hf : l'.fates = l.fates ++ [y]) (hl : l.conMap.lookup k = some i) (hy : Meets Q i k y)
  | ends {pak i k} (hc : l'.cons = l.cons) (hm : l'.conMap = l.conMap.erase k)
    (hf : l'.fates = l.fates ++ [(pak, .conEnded i)]) (hl : l.conMap.lookup k = some i)
    (hp : Q.HasId pak k)
  | creates {x first} (hc : l'.cons = l.cons ++ [x])
    (hm : l'.conMap = l.conMap.insert x.1 l.cons.length) (hf : l'.fates = l.fates ++ first)
    (hb : Begins l.cons.length x.2.2 first)

theorem turn_accept (l : EpLedger Q) (pak : UdpPak) (hdr : Header) (o : Outcome) :
    Turn l (l.accept pak hdr o) := by
  unfold accept
  split
  · exact .still rfl rfl rfl (List.forall_mem_singleton.mpr rfl)
  · exact .creates (x := (_, _, some (pak, hdr))) rfl rfl rfl ⟨o.put, rfl⟩

theorem turn_onPak (l : EpLedger Q) (pak : UdpPak) (o : Outcome) : Turn l (l.onPak pak o) := by
  unfold onPak
  split
  · exact .still rfl rfl rfl (List.forall_mem_singleton.mpr rfl)
  · next hdr hh =>
    have hid : Q.HasId pak hdr.dcid := ⟨hdr, hh, rfl⟩
    split
    · next i hl =>
      split
      · cases o.put with
        | true =>
          refine .meets rfl ?_ rfl hl ⟨hid, .inl rfl⟩
          show (if Fate.delivered i = .conEnded i then l.conMap.erase hdr.dcid else l.conMap) = _
          exact if_neg (by rintro ⟨⟩)
        | false =>
          refine .ends rfl ?_ rfl hl hid
          exact if_pos rfl
      · exact .meets rfl rfl rfl hl ⟨hid, .inr rfl⟩
    · split
      · exact turn_accept l pak hdr o
      · exact .still rfl rfl rfl (List.forall_mem_singleton.mpr rfl)

theorem turn_handle (l : EpLedger Q) (cmd : EpCmd) (o : Outcome) : Turn l (l.handle cmd o) := by
  unfold handle
  split
  · exact .still rfl rfl (List.append_nil _).symm nofun
  · exact .still rfl rfl (List.append_nil _).symm nofun
  · exact turn_onPak l _ o
  · unfold onNewCon
    split
    · exact .still rfl rfl (List.append_nil _).symm nofun
    · exact .creates (x := (_, _, none)) rfl rfl (List.append_nil _).symm rfl

/-! ## The invariant -/

theorem found_append {f : List (UdpPak × Fate)} (hf : l'.fates = l.fates ++ f) (i : Nat) :
    l'.found i = l.found i ++ f.filter (·.2.chan? = some i) := by
  unfold found
  rw [hf, List.filter_append]

/-- Packets that have to do with another connection, or with none. -/
theorem found_other {f : List (UdpPak × Fate)} {i : Nat} (hf : l'.fates = l.fates ++ f)
    (hn : ∀ y ∈ f, y.2.chan? ≠ some i) : l'.found i = l.found i := by
  rw [found_append hf, List.filter_eq_nil_iff.mpr fun y hy => by simpa using hn y hy, List.append_nil]

theorem found_one {y : UdpPak × Fate} {i : Nat} (hf : l'.fates = l.fates ++ [y])
    (hy : y.2.chan? = some i) : l'.found i = l.found i ++ [y] := by
  rw [found_append hf, List.filter_singleton, hy]
  simp

/-- Different connections have different ids. -/
def Distinct (l : EpLedger Q) : Prop := (l.cons.map (·.1)).Nodup

theorem Distinct.eq (h : l.Distinct) {i j : Nat} {x y} (hi : l.cons[i]? = some x)
    (hj : l.cons[j]? = some y) (he : x.1 = y.1) : i = j := by
  have hlt : i < (l.cons.map (·.1)).length := by
    rw [List.length_map]
    exact (List.getElem?_eq_some_iff.mp hi).1
  refine (List.getElem?_inj hlt h).mp ?_
  rw [List.getElem?_map, List.getElem?_map, hi, hj, Option.map_some, Option.map_some, he]

theorem Distinct.back (h : l'.Distinct) (ht : Turn l l') : l.Distinct := by
  cases ht with
  | still hc | meets hc | ends hc =>
    unfold Distinct at h
    rwa [hc] at h
  | creates hc =>
    unfold Distinct at h
    rw [hc, List.map_append] at h
    exact h.of_append_left

/-- The packet is not about connection `i`. -/
theorem Lived.keep {i : Nat} {x} (h : Lived l i x) (hf : l'.found i = l.found i)
    (hk : l'.conMap.lookup x.1 = l.conMap.lookup x.1) : Lived l' i x := by
  cases h with
  | mapped hf' hb hm hk' => exact .mapped (hf.trans hf') hb hm (hk.trans hk')
  | gone hf' hb hm hp hk' => exact .gone (hf.trans hf') hb hm hp (hk.trans hk')

/-- The connection with the id is in the map. -/
theorem Lived.of_lookup {i : Nat} {x} (h : Lived l i x) (hk : l.conMap.lookup x.1 = some i) :
    ∃ first mid, l.found i = first ++ mid ∧ Begins i x.2.2 first ∧ ∀ y ∈ mid, Meets Q i x.1 y := by
  cases h with
  | mapped hf hb hm => exact ⟨_, _, hf, hb, hm⟩
  | gone _ _ _ _ hn => exact nomatch hk.symm.trans hn

theorem Meets.chan? {i : Nat} {k : ConnectionId} {y : UdpPak × Fate} (h : Meets Q i k y) :
    y.2.chan? = some i := by
  rcases h.2 with h | h <;> rw [h] <;> rfl

theorem Meets.isEnd {i : Nat} {k : ConnectionId} {y : UdpPak × Fate} (h : Meets Q i k y) :
    y.2.isEnd = false := by
  rcases h.2 with h | h <;> rw [h] <;> rfl

/-- A packet comes to a connection. -/
theorem lives_meets (h : Lives l) {y : UdpPak × Fate} {i : Nat} {k : ConnectionId}
    (hc : l'.cons = l.cons) (hm : l'.conMap = l.conMap) (hf : l'.fates = l.fates ++ [y])
    (hl : l.conMap.lookup k = some i) (hy : Meets Q i k y) : Lives l' := by
  obtain ⟨x, hx, rfl⟩ := h.map k i hl
  refine ⟨fun j z hz => ?_, fun k j hk => ?_, ?_, fun z hz j hj => ?_⟩
  · rw [hc] at hz
    by_cases hij : j = i
    · subst hij
      obtain rfl := Option.some.inj (hx.symm.trans hz)
      obtain ⟨first, mid, hfm, hb, hall⟩ := (h.con j x hz).of_lookup hl
      have hfound : l'.found j = first ++ (mid ++ [y]) := by
        rw [found_one hf hy.chan?, hfm, List.append_assoc]
      refine .mapped hfound hb ?_ (hm ▸ hl)
      exact List.forall_mem_append.mpr ⟨hall, List.forall_mem_singleton.mpr hy⟩
    · refine (h.con j z hz).keep (found_other hf ?_) (by rw [hm])
      rw [List.forall_mem_singleton, hy.chan?]
      exact fun he => hij (Option.some.inj he).symm
  · rw [hm] at hk
    rw [hc]
    exact h.map k j hk
  · rw [hm, hf, hc, List.countP_append, List.countP_singleton, hy.isEnd]
    exact h.size
  · rw [hc]
    rw [hf] at hz
    rcases List.mem_append.mp hz with hz | hz
    · exact h.known z hz j hj
    · obtain rfl := List.mem_singleton.mp hz
      rw [hy.chan?] at hj
      obtain rfl := Option.some.inj hj
      exact (List.getElem?_eq_some_iff.mp hx).1

/-- A packet finds that a connection has ended. -/
theorem lives_ends (h : Lives l) (hd : l.Distinct) {pak : UdpPak} {i : Nat} {k : ConnectionId}
    (hc : l'.cons = l.cons) (hm : l'.conMap = l.conMap.erase k)
    (hf : l'.fates = l.fates ++ [(pak, .conEnded i)]) (hl : l.conMap.lookup k = some i)
    (hp : Q.HasId pak k) : Lives l' := by
  obtain ⟨x, hx, rfl⟩ := h.map k i hl
  have hmem : x.1 ∈ l.conMap := AList.lookup_isSome.mp (by rw [hl]; rfl)
  refine ⟨fun j z hz => ?_, fun k j hk => ?_, ?_, fun z hz j hj => ?_⟩
  · rw [hc] at hz
    by_cases hij : j = i
    · subst hij
      obtain rfl := Option.some.inj (hx.symm.trans hz)
      obtain ⟨first, mid, hfm, hb, hall⟩ := (h.con j x hz).of_lookup hl
      have hfound : l'.found j = first ++ mid ++ [(pak, .conEnded j)] := by
        rw [found_one hf rfl, hfm]
      exact .gone hfound hb hall hp (by rw [hm, AList.lookup_erase])
    · refine (h.con j z hz).keep (found_other hf ?_) ?_
      · rw [List.forall_mem_singleton]
        exact fun he => hij (Option.some.inj he).symm
      · rw [hm]
        exact AList.lookup_erase_ne fun he => hij (hd.eq hz hx he)
  · rw [hc]
    refine h.map k j ?_
    by_cases hkx : k = x.1
    · subst hkx
      rw [hm, AList.lookup_erase] at hk
      cases hk
    · rwa [hm, AList.lookup_erase_ne hkx] at hk
  · have hlen := AList.length_keys_erase hmem
    have hs := h.size
    rw [hm, hf, hc, List.countP_append, List.countP_singleton, if_pos (show Fate.isEnd _ from rfl)]
    omega
  · rw [hc]
    rw [hf] at hz
    rcases List.mem_append.mp hz with hz | hz
    · exact h.known z hz j hj
    · obtain rfl := List.mem_singleton.mp hz
      obtain rfl := Option.some.inj hj
      exact (List.getElem?_eq_some_iff.mp hx).1

theorem Begins.chan? {i : Nat} {origin : Option (UdpPak × Header)} {first : List (UdpPak × Fate)}
    (h : Begins i origin first) : ∀ y ∈ first, y.2.chan? = some i ∧ y.2.isEnd = false := by
  cases origin with
  | none => rw [show first = [] from h]; simp
  | some o =>
    obtain ⟨put, rfl⟩ := h
    exact List.forall_mem_singleton.mpr ⟨rfl, rfl⟩

/-- A connection is created. -/
theorem lives_creates (h : Lives l) (hd : l'.Distinct) {x} {first : List (UdpPak × Fate)}
    (hc : l'.cons = l.cons ++ [x]) (hm : l'.conMap = l.conMap.insert x.1 l.cons.length)
    (hf : l'.fates = l.fates ++ first) (hb : Begins l.cons.length x.2.2 first) : Lives l' := by
  have hx : l'.cons[l.cons.length]? = some x := by rw [hc, List.getElem?_concat_length]
  have hold : ∀ {j z}, l.cons[j]? = some z → l'.cons[j]? = some z ∧ j ≠ l.cons.length ∧ z.1 ≠ x.1 := by
    intro j z hz
    have hlt := (List.getElem?_eq_some_iff.mp hz).1
    have hz' : l'.cons[j]? = some z := by rw [hc, List.getElem?_append_left hlt, hz]
    exact ⟨hz', Nat.ne_of_lt hlt, fun he => Nat.ne_of_lt hlt (hd.eq hz' hx he)⟩
  have habs : x.1 ∉ l.conMap := by
    intro hin
    obtain ⟨j, hj⟩ := Option.isSome_iff_exists.mp (AList.lookup_isSome.mpr hin)
    obtain ⟨z, hz, he⟩ := h.map x.1 j hj
    exact (hold hz).2.2 he
  refine ⟨fun j z hz => ?_, fun k j hk => ?_, ?_, fun z hz j hj => ?_⟩
  · rcases List.getElem?_concat_cases (hc ▸ hz) with hz | ⟨rfl, rfl⟩
    · obtain ⟨-, hne, hid⟩ := hold hz
      refine (h.con j z hz).keep (found_other hf fun y hy he => ?_) ?_
      · rw [(hb.chan? y hy).1] at he
        exact hne (Option.some.inj he).symm
      · rw [hm, AList.lookup_insert_ne hid]
    · have hnone : l.found l.cons.length = [] := by
        refine List.filter_eq_nil_iff.mpr fun y hy he => ?_
        exact Nat.lt_irrefl _ (h.known y hy _ (of_decide_eq_true he))
      have hfound : l'.found l.cons.length = first ++ [] := by
        rw [found_append hf, hnone, List.filter_eq_self.mpr fun y hy => by simp [(hb.chan? y hy).1]]
        exact (List.append_nil _).symm
      exact .mapped hfound hb (by rintro y ⟨⟩) (by rw [hm, AList.lookup_insert])
  · by_cases hkx : k = x.1
    · subst hkx
      rw [hm, AList.lookup_insert] at hk
      obtain rfl := Option.some.inj hk
      exact ⟨x, hx, rfl⟩
    · rw [hm, AList.lookup_insert_ne hkx] at hk
      obtain ⟨z, hz, he⟩ := h.map k j hk
      exact ⟨z, (hold hz).1, he⟩
  · have hnone : first.countP (·.2.isEnd) = 0 :=
      List.countP_eq_zero.mpr fun y hy => by simp [(hb.chan? y hy).2]
    have hs := h.size
    rw [hm, hf, hc, AList.length_keys_insert habs, List.countP_append, hnone, List.length_append,
      List.length_singleton]
    omega
  · rw [hc, List.length_append]
    rw [hf] at hz
    rcases List.mem_append.mp hz with hz | hz
    · exact Nat.lt_succ_of_lt (h.known z hz j hj)
    · rw [(hb.chan? z hz).1] at hj
      obtain rfl := Option.some.inj hj
      exact Nat.lt_succ_self _

theorem lives_still (h : Lives l) {f : List (UdpPak × Fate)} (hc : l'.cons = l.cons)
    (hm : l'.conMap = l.conMap) (hf : l'.fates = l.fates ++ f) (hn : ∀ y ∈ f, y.2.chan? = none) :
    Lives l' := by
  refine ⟨fun j z hz => ?_, fun k j hk => ?_, ?_, fun z hz j hj => ?_⟩
  · rw [hc] at hz
    refine (h.con j z hz).keep (found_other hf fun y hy he => ?_) (by rw [hm])
    exact nomatch (hn y hy).symm.trans he
  · rw [hm] at hk
    rw [hc]
    exact h.map k j hk
  · have hnone : f.countP (·.2.isEnd) = 0 := by
      refine List.countP_eq_zero.mpr fun y hy he => ?_
      have hy := hn y hy
      cases hy₂ : y.2 <;> rw [hy₂] at hy he <;> first | cases hy; done | cases he
    rw [hm, hf, hc, List.countP_append, hnone]
    exact h.size
  · rw [hc]
    rw [hf] at hz
    rcases List.mem_append.mp hz with hz | hz
    · exact h.known z hz j hj
    · exact nomatch (hn z hz).symm.trans hj

theorem Lives.turn (h : Lives l) (ht : Turn l l') (hd : l'.Distinct) : Lives l' := by
  have hd₀ := hd.back ht
  cases ht with
  | still hc hm hf hn => exact lives_still h hc hm hf hn
  | meets hc hm hf hl hy => exact lives_meets h hc hm hf hl hy
  | ends hc hm hf hl hp => exact lives_ends h hd₀ hc hm hf hl hp
  | creates hc hm hf hb => exact lives_creates h hd hc hm hf hb

/-- In every run of the sequential program whose connections have different ids. -/
theorem serial_lives (h : (serial Q).Reach l) : l.Distinct → Lives l := by
  refine h.invariant (I := fun l => l.Distinct → Lives l) (fun l hl _ => ?_) fun a l l' _ ih hs => ?_
  · obtain ⟨n, config, h3Config, rfl⟩ := hl
    exact ⟨nofun, nofun, rfl, nofun⟩
  · cases a with
    | handle cmd o =>
      cases hs
      have ht := turn_handle l cmd o
      exact fun hd => (ih (hd.back ht)).turn ht hd
    | otherCid =>
      cases hs
      have ht : Turn l (l.others 1) := .still rfl rfl (List.append_nil _).symm nofun
      exact fun hd => (ih (hd.back ht)).turn ht hd

end EpLedger

namespace Ep

variable {Q : Quiche} {s : Ep Q}

/-- Whenever `ep_task` waits for its next command, as long as the counter has not come back to 0
(module doc). -/
theorem con_lives (h : (sys Q).Reach s) (hn : s.cid.issued.length ≤ 2 ^ 64) (hpc : s.pc = .recv) :
    s.ledger.Lives := by
  refine EpLedger.serial_lives (reach_serial h hpc) ?_
  show ((s.cons.map EpCon.data).map (·.1)).Nodup
  rw [List.map_map]
  exact nodup_scids (sys_cids h) hn

/-- The first of two connections has ended, and then two packets with its id come. -/
theorem con_lives_gone : ∃ s : Ep failing, (s.conMap.keys = [cidOf 1] ∧ s.cons.length = 2 ∧
    s.fates.map (·.2) = [.created 0 true, .conEnded 0, .created 1 true, .noRoute]) ∧
      s.ledger.Lives := by
  obtain ⟨s, hr, h⟩ := Lts.Reach.of_run_any (S := sys failing)
    (twoCons 6 ++ EpAct.packet (cidOf 0) 3)
    (fun s => decide (s.conMap.keys = [cidOf 1] ∧ s.cons.length = 2 ∧ s.fates.map (·.2) =
      [.created 0 true, .conEnded 0, .created 1 true, .noRoute]) &&
        decide (s.pc = .recv ∧ s.cid.issued.length ≤ 2 ^ 64)) ⟨0, (), none, rfl⟩ (by decide +kernel)
  obtain ⟨h, hw⟩ := Bool.and_eq_true_iff.mp h
  obtain ⟨hpc, hn⟩ := of_decide_eq_true hw
  exact ⟨s, of_decide_eq_true h, con_lives hr hn hpc⟩

end Ep
end Absquic
