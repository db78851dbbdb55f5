import Absquic.Ep.Routing
import Absquic.Ep.Accept

/-!
# What `ep_task` keeps from command to command

`EpLedger` is what the handling of a command depends on (the ids, the config, `con_map` and the data
of the connections), and what was done so far. `Handles` is what one command does to it. The
outcomes of `try_acquire` and of `send` on the connections' channels are open, and so is whether an
event finds its receiver; of the events of connections other than `c` it is given by `alive`.

`Alike`: two ledgers agree on all connections but `c`. They may differ in what happened on the
channel of `c`, and `con_map` in the entry of `c`: it may be gone in one of them after a send failed
(`Stale`). If the outcomes on the other channels are the same, this stays so whatever is handled
(`alike_handles`).
-/

namespace Absquic

/-- The command that `ep_task` took. -/
def EpObs.take? : EpObs → Option EpCmd
  | .take cmd => some cmd
  | _ => none

/-- The answer to a `NewCon`. -/
def EpObs.newCon? : EpObs → Option (Nat × Except QuicheError Nat)
  | .newCon rsp result => some (rsp, result)
  | _ => none

/-- The connection on whose channel `ep_task` acted. -/
def Fate.chan? : Fate → Option Nat
  | .delivered i | .created i _ | .noPermit i | .conEnded i => some i
  | _ => none

/-- A packet was put on the channel of connection `i`. -/
theorem Fate.chan?_of_putOn {i : Nat} {fate : Fate} (h : fate.putOn i) : fate.chan? = some i := by
  cases fate <;> simp_all [putOn, chan?]

/-- See the module doc. -/
structure EpLedger (Q : Quiche) where
  cid : CidGen
  config : Q.Config
  conMap : HashMap ConnectionId Nat
  cons : List (ConnectionId × SocketAddr × Option (UdpPak × Header))
  fates : List (UdpPak × Fate)
  inCons : List Nat
  answers : List (Nat × Except QuicheError Nat)

/-- Where two lists of fates tell of an action on the same channel, which is not that of `c`, its
outcome is the same. -/
def SameOutcomes (c : Nat) (l m : List (UdpPak × Fate)) : Prop :=
  ∀ (n : Nat) x y, l[n]? = some x → m[n]? = some y → x.2.chan? = y.2.chan? →
    x.2.chan? ≠ none → x.2.chan? ≠ some c → x.2 = y.2

namespace EpLedger

variable {Q : Quiche} {c : Nat} {alive : Nat → Bool} {l l' m m' : EpLedger Q}

/-- No send to `c` has failed, if `k` is its id. -/
def Open (l : EpLedger Q) (c : Nat) (k : ConnectionId) : Prop :=
  ∀ x, l.cons[c]? = some x → x.1 = k → ∀ y ∈ l.fates, y.2 ≠ .conEnded c

/-- A new connection, with the counter and the config after it. -/
def spawn (l : EpLedger Q) (addr : SocketAddr) (origin : Option (UdpPak × Header))
    (config : Q.Config) : EpLedger Q :=
  { l with
    cid := l.cid.cid.2
    config
    cons := l.cons ++ [(l.cid.cid.1, addr, origin)]
    conMap := l.conMap.insert l.cid.cid.1 l.cons.length }

/-- The packet with the id `k` was routed to connection `i`. -/
def route (l : EpLedger Q) (k : ConnectionId) (i : Nat) (x : UdpPak × Fate) : EpLedger Q :=
  { l with
    fates := l.fates ++ [x]
    conMap := if x.2 = .conEnded i then l.conMap.erase k else l.conMap }

/-- What may become of a packet for connection `i`. -/
def Routed (i : Nat) (fate : Fate) : Prop :=
  fate = .delivered i ∨ fate = .noPermit i ∨ fate = .conEnded i

/-- One command is handled (module doc). -/
inductive Handles (c : Nat) (alive : Nat → Bool) (l : EpLedger Q) : EpCmd → EpLedger Q → Prop
  | streamEnd : Handles c alive l (.inPak none) l
  | streamErr (err : IoError) : Handles c alive l (.inPak (some (.error err))) l
  | malformed {pak err} (hh : Q.headerFromSlice pak.data 16 = .error err) :
    Handles c alive l (.inPak (some (.ok pak))) { l with fates := l.fates ++ [(pak, .malformed)] }
  | noRoute {pak hdr} (hh : Q.headerFromSlice pak.data 16 = .ok hdr)
    (hl : l.conMap.lookup hdr.dcid = none) (ht : hdr.ty ≠ .initial) :
    Handles c alive l (.inPak (some (.ok pak))) { l with fates := l.fates ++ [(pak, .noRoute)] }
  | routed {pak hdr i fate} (hh : Q.headerFromSlice pak.data 16 = .ok hdr)
    (hl : l.conMap.lookup hdr.dcid = some i)
    (hf : Routed i fate) :
    Handles c alive l (.inPak (some (.ok pak))) (l.route hdr.dcid i (pak, fate))
  | refused {pak hdr config err} (hh : Q.headerFromSlice pak.data 16 = .ok hdr)
    (hl : l.conMap.lookup hdr.dcid = none) (ht : hdr.ty = .initial) (hn : l.Open c hdr.dcid)
    (ha : Q.accept l.cid.cid.1 pak.addr l.config = (config, .error err)) :
    Handles c alive l (.inPak (some (.ok pak))) { l with
      cid := l.cid.cid.2, config, fates := l.fates ++ [(pak, .refused)] }
  | accepted {pak hdr config con} (put sent : Bool) (hh : Q.headerFromSlice pak.data 16 = .ok hdr)
    (hl : l.conMap.lookup hdr.dcid = none) (ht : hdr.ty = .initial) (hn : l.Open c hdr.dcid)
    (ha : Q.accept l.cid.cid.1 pak.addr l.config = (config, .ok con))
    (hs : l.cons.length ≠ c → sent = alive l.cons.length) :
    Handles c alive l (.inPak (some (.ok pak))) { l.spawn pak.addr (some (pak, hdr)) config with
      fates := l.fates ++ [(pak, .created l.cons.length put)]
      inCons := l.inCons ++ if sent then [l.cons.length] else [] }
  | refusedNew {addr rsp config err}
    (ha : Q.connect l.cid.cid.1 addr l.config = (config, .error err)) :
    Handles c alive l (.newCon addr rsp) { l with
      cid := l.cid.cid.2, config, answers := l.answers ++ [(rsp, .error err)] }
  | connected {addr rsp config con}
    (ha : Q.connect l.cid.cid.1 addr l.config = (config, .ok con)) :
    Handles c alive l (.newCon addr rsp) { l.spawn addr none config with
      answers := l.answers ++ [(rsp, .ok l.cons.length)] }

/-! ## Two ledgers -/

/-- The entry of `c` at its id is there, or it was removed after a send to `c` failed. -/
def Stale (l : EpLedger Q) (c : Nat) (k : ConnectionId) : Prop :=
  (∃ x, l.cons[c]? = some x ∧ x.1 = k) ∧
    (l.conMap.lookup k = some c ∨ l.conMap.lookup k = none ∧ ∃ y ∈ l.fates, y.2 = .conEnded c)

/-- `con_map` leads to connections by their ids. -/
def Mapped (l : EpLedger Q) : Prop :=
  ∀ k i, l.conMap.lookup k = some i → ∃ x, l.cons[i]? = some x ∧ x.1 = k

/-- The ledgers agree on all connections but `c`. -/
structure Alike (c : Nat) (l m : EpLedger Q) : Prop where
  cid : l.cid = m.cid
  config : l.config = m.config
  cons : l.cons = m.cons
  answers : l.answers = m.answers
  length : l.fates.length = m.fates.length
  fates : ∀ i, i ≠ c →
    l.fates.filter (·.2.chan? = some i) = m.fates.filter (·.2.chan? = some i)
  inCons : l.inCons.filter (· ≠ c) = m.inCons.filter (· ≠ c)
  conMap : ∀ k, l.conMap.lookup k = m.conMap.lookup k ∨ l.Stale c k ∧ m.Stale c k

theorem Alike.refl (c : Nat) (l : EpLedger Q) : Alike c l l :=
  ⟨rfl, rfl, rfl, rfl, rfl, fun _ _ => rfl, rfl, fun _ => .inl rfl⟩

theorem Alike.symm (h : Alike c l m) : Alike c m l :=
  ⟨h.cid.symm, h.config.symm, h.cons.symm, h.answers.symm, h.length.symm,
    fun i hi => (h.fates i hi).symm, h.inCons.symm,
    fun k => (h.conMap k).imp Eq.symm And.symm⟩

/-- What is stale stays so, as long as its entry does not come back as another. -/
theorem Stale.mono {k : ConnectionId} (h : l.Stale c k) (hc : ∃ t, l'.cons = l.cons ++ t)
    (hf : ∃ t, l'.fates = l.fates ++ t) (hm : l'.conMap.lookup k = l.conMap.lookup k) :
    l'.Stale c k := by
  obtain ⟨⟨x, hx, hk⟩, hmap⟩ := h
  obtain ⟨t, ht⟩ := hc
  obtain ⟨u, hu⟩ := hf
  refine ⟨⟨x, ?_, hk⟩, ?_⟩
  · rw [ht, List.getElem?_append_left (List.getElem?_eq_some_iff.mp hx).1, hx]
  · rw [hm, hu]
    refine hmap.imp_right (And.imp_right ?_)
    rintro ⟨y, hy, he⟩
    exact ⟨y, List.mem_append_left _ hy, he⟩

/-- A fate that is not about another connection than `c`. -/
def Private (c : Nat) (x : UdpPak × Fate) : Prop := ∀ i, i ≠ c → x.2.chan? ≠ some i

/-- The fates after one more packet. -/
theorem filter_fates {i : Nat} (hi : i ≠ c) {u v : List (UdpPak × Fate)} {x y : UdpPak × Fate}
    (h : u.filter (·.2.chan? = some i) = v.filter (·.2.chan? = some i))
    (hxy : x = y ∨ Private c x ∧ Private c y) :
    (u ++ [x]).filter (·.2.chan? = some i) = (v ++ [y]).filter (·.2.chan? = some i) := by
  rw [List.filter_append, List.filter_append, h]
  rcases hxy with rfl | ⟨hx, hy⟩
  · rfl
  · simp [hx i hi, hy i hi]

/-- A packet is handled that creates no connection. -/
theorem Alike.log (h : Alike c l m) {x y : UdpPak × Fate} {M N : HashMap ConnectionId Nat}
    (hxy : x = y ∨ Private c x ∧ Private c y)
    (hmap : ∀ k, M.lookup k = N.lookup k ∨
      ({ l with fates := l.fates ++ [x], conMap := M } : EpLedger Q).Stale c k ∧
      ({ m with fates := m.fates ++ [y], conMap := N } : EpLedger Q).Stale c k) :
    Alike c { l with fates := l.fates ++ [x], conMap := M }
      { m with fates := m.fates ++ [y], conMap := N } where
  cid := h.cid
  config := h.config
  cons := h.cons
  answers := h.answers
  length := by simp [h.length]
  fates _ hi := filter_fates hi (h.fates _ hi) hxy
  inCons := h.inCons
  conMap := hmap

/-- If the maps stay as they are. -/
theorem Alike.same_map (h : Alike c l m) (x y : UdpPak × Fate) (k : ConnectionId) :
    l.conMap.lookup k = m.conMap.lookup k ∨
      ({ l with fates := l.fates ++ [x] } : EpLedger Q).Stale c k ∧
      ({ m with fates := m.fates ++ [y] } : EpLedger Q).Stale c k :=
  (h.conMap k).imp_right fun ⟨hl, hm⟩ =>
    ⟨hl.mono ⟨[], by simp⟩ ⟨[x], rfl⟩ rfl, hm.mono ⟨[], by simp⟩ ⟨[y], rfl⟩ rfl⟩

/-- A connection is created in both. -/
theorem Alike.spawn (h : Alike c l m) (addr : SocketAddr) (origin : Option (UdpPak × Header))
    (config : Q.Config) : Alike c (l.spawn addr origin config) (m.spawn addr origin config) where
  cid := congrArg (·.cid.2) h.cid
  config := rfl
  cons := by
    show l.cons ++ _ = m.cons ++ _
    rw [h.cons, h.cid]
  answers := h.answers
  length := h.length
  fates := h.fates
  inCons := h.inCons
  conMap k := by
    show (l.conMap.insert l.cid.cid.1 l.cons.length).lookup k =
      (m.conMap.insert m.cid.cid.1 m.cons.length).lookup k ∨ _
    rw [h.cid, h.cons]
    by_cases hk : k = m.cid.cid.1
    · subst hk
      rw [AList.lookup_insert, AList.lookup_insert]
      exact .inl rfl
    · rw [AList.lookup_insert_ne hk, AList.lookup_insert_ne hk]
      refine (h.conMap k).imp_right fun ⟨hl, hm⟩ => ⟨?_, ?_⟩
      · refine hl.mono ⟨_, rfl⟩ ⟨[], by simp [EpLedger.spawn]⟩ ?_
        exact AList.lookup_insert_ne (h.cid ▸ hk)
      · exact hm.mono ⟨_, rfl⟩ ⟨[], by simp [EpLedger.spawn]⟩ (AList.lookup_insert_ne hk)

/-! ## One command in both -/

theorem Routed.chan? {i : Nat} {fate : Fate} (h : Routed i fate) : fate.chan? = some i := by
  rcases h with rfl | rfl | rfl <;> rfl

theorem private_of_chan? {x : UdpPak × Fate} (h : x.2.chan? = some c) : Private c x := by
  intro i hi he
  rw [h] at he
  exact hi (Option.some.inj he).symm

theorem lookup_route {k k' : ConnectionId} (hk : k' ≠ k) (i : Nat) (x : UdpPak × Fate) :
    (l.route k i x).conMap.lookup k' = l.conMap.lookup k' := by
  unfold route
  simp only
  split
  · exact AList.lookup_erase_ne hk
  · rfl

theorem Mapped.route (h : l.Mapped) {k : ConnectionId} {i : Nat} {x : UdpPak × Fate} :
    (l.route k i x).Mapped := by
  intro k' j hj
  refine h k' j ?_
  unfold EpLedger.route at hj
  simp only at hj
  split at hj
  · by_cases hk : k' = k
    · subst hk
      rw [AList.lookup_erase] at hj
      cases hj
    · rwa [AList.lookup_erase_ne hk] at hj
  · exact hj

theorem Mapped.spawn (h : l.Mapped) (addr : SocketAddr) (origin : Option (UdpPak × Header))
    (config : Q.Config) : (l.spawn addr origin config).Mapped := by
  intro k i hi
  have hnew := Ep.map_insert (P := fun k i => i = l.cons.length ∧ k = l.cid.cid.1) ⟨rfl, rfl⟩ hi
  rcases hnew with hi | ⟨rfl, rfl⟩
  · obtain ⟨x, hx, hk⟩ := h k i hi
    refine ⟨x, ?_, hk⟩
    show (l.cons ++ _)[i]? = _
    rw [List.getElem?_append_left (List.getElem?_eq_some_iff.mp hx).1, hx]
  · exact ⟨_, List.getElem?_concat_length, rfl⟩

theorem mapped_handles {cmd : EpCmd} (h : l.Mapped) (hh : Handles c alive l cmd l') :
    l'.Mapped := by
  cases hh with
  | routed => exact h.route
  | @accepted pak hdr config => exact h.spawn pak.addr (some (pak, hdr)) config
  | @connected addr _ config => exact h.spawn addr none config
  | _ => exact h

/-- After a packet for `c`, its entry is stale. -/
theorem stale_route (hl : l.Mapped) {k : ConnectionId} (hk : l.conMap.lookup k = some c)
    (x : UdpPak × Fate) : (l.route k c x).Stale c k := by
  refine ⟨hl k c hk, ?_⟩
  by_cases hx : x.2 = .conEnded c
  · refine .inr ⟨?_, x, List.mem_append_right _ (List.mem_singleton.mpr rfl), hx⟩
    unfold route
    simp only [if_pos hx]
    exact AList.lookup_erase k l.conMap
  · refine .inl ?_
    unfold route
    simp only [if_neg hx]
    exact hk

/-- The entry that a stale one can lead to. -/
theorem Stale.eq_of_lookup {k : ConnectionId} {i : Nat} (h : l.Stale c k)
    (hi : l.conMap.lookup k = some i) : i = c := by
  rcases h.2 with hc | ⟨hn, -⟩
  · rw [hi] at hc
    exact Option.some.inj hc
  · rw [hi] at hn
    cases hn

/-- A packet for one of the connections, in both. -/
theorem Alike.route (h : Alike c l m) (hl : l.Mapped) (hm : m.Mapped) {pak : UdpPak}
    {k : ConnectionId} {i j : Nat} {fate fate' : Fate} (hi : l.conMap.lookup k = some i)
    (hj : m.conMap.lookup k = some j) (hf : Routed i fate) (hf' : Routed j fate')
    (hP : SameOutcomes c (l.fates ++ [(pak, fate)]) (m.fates ++ [(pak, fate')])) :
    Alike c (l.route k i (pak, fate)) (m.route k j (pak, fate')) := by
  have hsame : ∀ k', k' ≠ k → (l.route k i (pak, fate)).conMap.lookup k' =
      (m.route k j (pak, fate')).conMap.lookup k' ∨ (l.route k i (pak, fate)).Stale c k' ∧
        (m.route k j (pak, fate')).Stale c k' := by
    intro k' hk
    rw [lookup_route hk, lookup_route hk]
    refine (h.conMap k').imp_right fun ⟨hs, hs'⟩ => ⟨?_, ?_⟩
    · exact hs.mono ⟨[], by simp [EpLedger.route]⟩ ⟨_, rfl⟩ (lookup_route hk _ _)
    · exact hs'.mono ⟨[], by simp [EpLedger.route]⟩ ⟨_, rfl⟩ (lookup_route hk _ _)
  have hij : i = j := by
    rcases h.conMap k with he | ⟨hs, hs'⟩
    · exact Option.some.inj (hi.symm.trans (he.trans hj))
    · rw [hs.eq_of_lookup hi, hs'.eq_of_lookup hj]
  subst hij
  by_cases hc : i = c
  · -- the channel of `c`: any two outcomes
    subst hc
    refine h.log (.inr ⟨private_of_chan? hf.chan?, private_of_chan? hf'.chan?⟩) fun k' => ?_
    by_cases hk : k' = k
    · subst hk
      exact .inr ⟨stale_route hl hi _, stale_route hm hj _⟩
    · exact hsame k' hk
  · have hlast : (m.fates ++ [(pak, fate')])[l.fates.length]? = some (pak, fate') := by
      rw [h.length]
      exact List.getElem?_concat_length
    have he : fate = fate' := by
      refine hP l.fates.length _ _ List.getElem?_concat_length hlast ?_ ?_ ?_
      · exact hf.chan?.trans hf'.chan?.symm
      · exact fun hn => nomatch hf.chan?.symm.trans hn
      · exact fun hn => hc (Option.some.inj (hf.chan?.symm.trans hn))
    subst he
    refine h.log (.inl rfl) fun k' => ?_
    by_cases hk : k' = k
    · subst hk
      refine .inl ?_
      by_cases hx : fate = .conEnded i
      · simp only [hx, if_true, AList.lookup_erase]
      · simp only [hx, if_false]
        exact hi.trans hj.symm
    · exact hsame k' hk

/-- A packet for `c` in one ledger, whose entry is gone in the other. -/
theorem Alike.route_gone (h : Alike c l m) (hl : l.Mapped) {pak : UdpPak} {k : ConnectionId}
    {i : Nat} {fate : Fate} (hi : l.conMap.lookup k = some i) (hn : m.conMap.lookup k = none)
    (hf : Routed i fate) :
    Alike c (l.route k i (pak, fate)) { m with fates := m.fates ++ [(pak, .noRoute)] } := by
  obtain ⟨hs, hs'⟩ : l.Stale c k ∧ m.Stale c k :=
    (h.conMap k).resolve_left fun he => by rw [hi, hn] at he; cases he
  obtain rfl := hs.eq_of_lookup hi
  refine h.log (N := m.conMap) (.inr ⟨private_of_chan? hf.chan?, fun _ _ => nofun⟩) fun k' => ?_
  by_cases hk : k' = k
  · subst hk
    exact .inr ⟨stale_route hl hi _, hs'.mono ⟨[], by simp⟩ ⟨_, rfl⟩ rfl⟩
  · show (l.route k i (pak, fate)).conMap.lookup k' = _ ∨ _
    rw [lookup_route hk]
    refine (h.conMap k').imp_right fun ⟨hs, hs'⟩ => ⟨?_, hs'.mono ⟨[], by simp⟩ ⟨_, rfl⟩ rfl⟩
    exact hs.mono ⟨[], by simp⟩ ⟨_, rfl⟩ (lookup_route (x := (pak, fate)) hk i)

/-- An Initial packet comes to the accept path in both ledgers or in neither. -/
theorem Alike.not_open (h : Alike c l m) {k : ConnectionId} {i : Nat}
    (hi : l.conMap.lookup k = some i) (hn : m.conMap.lookup k = none) (ho : m.Open c k) :
    False := by
  rcases h.conMap k with he | ⟨-, ⟨x, hx, hk⟩, hm⟩
  · rw [hi, hn] at he
    cases he
  · rcases hm with hc | ⟨-, y, hy, he⟩
    · rw [hn] at hc
      cases hc
    · exact ho x hx hk y hy he

/-- A connection is accepted in both. -/
theorem Alike.accepted (h : Alike c l m) (pak : UdpPak) (hdr : Header) (config : Q.Config)
    {put put' sent sent' : Bool} (hs : l.cons.length ≠ c → sent = sent')
    (hP : SameOutcomes c (l.fates ++ [(pak, .created l.cons.length put)])
      (m.fates ++ [(pak, .created m.cons.length put')])) :
    Alike c
      { l.spawn pak.addr (some (pak, hdr)) config with
        fates := l.fates ++ [(pak, .created l.cons.length put)]
        inCons := l.inCons ++ if sent then [l.cons.length] else [] }
      { m.spawn pak.addr (some (pak, hdr)) config with
        fates := m.fates ++ [(pak, .created m.cons.length put')]
        inCons := m.inCons ++ if sent' then [m.cons.length] else [] } := by
  have hlen : l.cons.length = m.cons.length := by rw [h.cons]
  have hspawn := h.spawn pak.addr (some (pak, hdr)) config
  rw [← hlen] at hP ⊢
  have hput : l.cons.length ≠ c → put = put' := by
    intro hc
    have hlast : (m.fates ++ [(pak, Fate.created l.cons.length put')])[l.fates.length]? =
        some (pak, .created l.cons.length put') := by
      rw [h.length]
      exact List.getElem?_concat_length
    have he := hP l.fates.length _ _ List.getElem?_concat_length hlast rfl nofun
      fun hn => hc (Option.some.inj hn)
    cases he
    rfl
  refine ⟨hspawn.cid, rfl, hspawn.cons, h.answers, by simp [h.length], fun i hi => ?_, ?_,
    fun k => ?_⟩
  · refine filter_fates hi (h.fates i hi) ?_
    by_cases hc : l.cons.length = c
    · exact .inr ⟨private_of_chan? (congrArg _ hc), private_of_chan? (congrArg _ hc)⟩
    · rw [hput hc]
      exact .inl rfl
  · show (l.inCons ++ _).filter _ = (m.inCons ++ _).filter _
    rw [List.filter_append, List.filter_append, h.inCons]
    by_cases hc : l.cons.length = c
    · cases sent <;> cases sent' <;> simp [hc]
    · rw [hs hc]
  · refine (hspawn.conMap k).imp_right fun ⟨hl, hm⟩ => ⟨?_, ?_⟩
    · exact hl.mono ⟨[], by simp⟩ ⟨[_], rfl⟩ rfl
    · exact hm.mono ⟨[], by simp⟩ ⟨[_], rfl⟩ rfl

/-- The same command is handled in both ledgers. -/
theorem alike_handles {cmd : EpCmd} (h : Alike c l m) (hl : l.Mapped) (hm : m.Mapped)
    (hh : Handles c alive l cmd l') (hh' : Handles c alive m cmd m')
    (hP : SameOutcomes c l'.fates m'.fates) : Alike c l' m' := by
  -- the two ledgers read the same header
  have hdr_eq : ∀ {pak : UdpPak} {hdr hdr' : Header}, Q.headerFromSlice pak.data 16 = .ok hdr →
      Q.headerFromSlice pak.data 16 = .ok hdr' → hdr' = hdr := by
    intro pak hdr hdr' h h'
    rw [h] at h'
    exact (Except.ok.inj h').symm
  cases hh with
  | streamEnd => cases hh'; exact h
  | streamErr => cases hh'; exact h
  | malformed hh =>
    cases hh' with
    | malformed => exact h.log (.inl rfl) (h.same_map _ _)
    | noRoute hh' | routed hh' | refused hh' | accepted _ _ hh' => rw [hh] at hh'; cases hh'
  | noRoute hh hn ht =>
    cases hh' with
    | malformed hh' => rw [hh] at hh'; cases hh'
    | noRoute => exact h.log (.inl rfl) (h.same_map _ _)
    | routed hh' hj hf =>
      obtain rfl := hdr_eq hh hh'
      exact (h.symm.route_gone hm hj hn hf).symm
    | refused hh' _ ht' | accepted _ _ hh' _ ht' =>
      obtain rfl := hdr_eq hh hh'
      exact absurd ht' ht
  | routed hh hi hf =>
    cases hh' with
    | malformed hh' => rw [hh] at hh'; cases hh'
    | noRoute hh' hn =>
      obtain rfl := hdr_eq hh hh'
      exact h.route_gone hl hi hn hf
    | routed hh' hj hf' =>
      obtain rfl := hdr_eq hh hh'
      exact h.route hl hm hi hj hf hf' hP
    | refused hh' hn _ ho | accepted _ _ hh' hn _ ho =>
      obtain rfl := hdr_eq hh hh'
      exact (h.not_open hi hn ho).elim
  | @refused pak hdr config err hh hn ht ho ha =>
    cases hh' with
    | malformed hh' => rw [hh] at hh'; cases hh'
    | noRoute hh' _ ht' =>
      obtain rfl := hdr_eq hh hh'
      exact absurd ht ht'
    | routed hh' hj =>
      obtain rfl := hdr_eq hh hh'
      exact (h.symm.not_open hj hn ho).elim
    | refused _ _ _ _ ha' =>
      rw [h.cid, h.config, ha'] at ha
      cases ha
      have hlog := h.log (x := (pak, .refused)) (.inl rfl) (h.same_map _ _)
      exact { hlog with cid := congrArg (·.cid.2) h.cid, config := rfl }
    | accepted _ _ _ _ _ _ ha' =>
      rw [h.cid, h.config, ha'] at ha
      cases ha
  | @accepted pak hdr config con put sent hh hn ht ho ha hs =>
    cases hh' with
    | malformed hh' => rw [hh] at hh'; cases hh'
    | noRoute hh' _ ht' =>
      obtain rfl := hdr_eq hh hh'
      exact absurd ht ht'
    | routed hh' hj =>
      obtain rfl := hdr_eq hh hh'
      exact (h.symm.not_open hj hn ho).elim
    | refused _ _ _ _ ha' =>
      rw [h.cid, h.config, ha'] at ha
      cases ha
    | accepted put' sent' hh' _ _ _ ha' hs' =>
      obtain rfl := hdr_eq hh hh'
      rw [h.cid, h.config, ha'] at ha
      cases ha
      refine h.accepted pak _ config (fun hc => ?_) hP
      rw [hs hc, hs' (h.cons ▸ hc), h.cons]
  | refusedNew ha =>
    cases hh' with
    | refusedNew ha' =>
      rw [h.cid, h.config, ha'] at ha
      cases ha
      exact { h with
        cid := congrArg (·.cid.2) h.cid
        config := rfl
        answers := congrArg (· ++ _) h.answers }
    | connected ha' =>
      rw [h.cid, h.config, ha'] at ha
      cases ha
  | @connected addr rsp config con ha =>
    cases hh' with
    | refusedNew ha' =>
      rw [h.cid, h.config, ha'] at ha
      cases ha
    | connected ha' =>
      rw [h.cid, h.config, ha'] at ha
      cases ha
      have hspawn := h.spawn addr none config
      rw [h.cons]
      exact { hspawn with answers := congrArg (· ++ _) h.answers }

/-- What was done stays done. -/
theorem fates_handles {cmd : EpCmd} (hh : Handles c alive l cmd l') :
    ∃ t, l'.fates = l.fates ++ t := by
  cases hh with
  | streamEnd | streamErr | refusedNew => exact ⟨[], (List.append_nil _).symm⟩
  | connected => exact ⟨[], (List.append_nil _).symm⟩
  | _ => exact ⟨_, rfl⟩

theorem SameOutcomes.of_append {u v t w : List (UdpPak × Fate)}
    (h : SameOutcomes c (u ++ t) (v ++ w)) : SameOutcomes c u v := by
  intro n x y hx hy
  refine h n x y ?_ ?_
  · rw [List.getElem?_append_left (List.getElem?_eq_some_iff.mp hx).1, hx]
  · rw [List.getElem?_append_left (List.getElem?_eq_some_iff.mp hy).1, hy]

/-- Two ledgers after the same commands. -/
theorem alike_inputs {l₀ : EpLedger Q} {cmds : List EpCmd} (hl₀ : l₀.Mapped)
    (hl : Lts.Inputs (Handles c alive) l₀ cmds l) (hm : Lts.Inputs (Handles c alive) l₀ cmds m)
    (hP : SameOutcomes c l.fates m.fates) : Alike c l m := by
  have hk := hl.two_runs (K := fun l m => l.Mapped ∧ m.Mapped ∧ Alike c l m)
    (P := fun l m => SameOutcomes c l.fates m.fates) ?_ ?_ hm hP ⟨hl₀, hl₀, .refl c l₀⟩
  · exact hk.2.2
  · intro cmd l l' m m' hl hm hP
    obtain ⟨t, ht⟩ := fates_handles hl
    obtain ⟨w, hw⟩ := fates_handles hm
    rw [ht, hw] at hP
    exact SameOutcomes.of_append hP
  · rintro cmd l l' m m' ⟨hml, hmm, ha⟩ hl hm hP
    exact ⟨mapped_handles hml hl, mapped_handles hmm hm, alike_handles ha hml hmm hl hm hP⟩

end EpLedger
end Absquic
