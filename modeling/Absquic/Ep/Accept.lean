import Absquic.Ep.Cids

/-!
# The connections of one attempt

A client that has not heard from the server sends its Initial packets, and repeats them, with a
destination id of its own choice. `ep_task` accepts a connection under a fresh id and puts it into
`con_map` under that id only (the older `ep_task` put it there under the client's id). So a later
Initial packet of the same attempt leads to the same connection if and only if the client chose the
very id that the server drew (`attempt_iff`).

`OneAttempt` is what one attempt should come to while its first connection is alive; `SameId` is the
condition on the steps under which it does (`one_attempt`).
-/

namespace Absquic

/-- The connection that the event announces. -/
def EpObs.inCon? : EpObs → Option Nat
  | .inCon i => some i
  | _ => none

/-- The Initial packet is from `addr`, and for `dcid`. -/
def ofPair (addr : SocketAddr) (dcid : ConnectionId) : Option (UdpPak × Header) → Bool
  | some (pak, hdr) => pak.addr = addr && hdr.dcid = dcid
  | none => false

namespace Ep

variable {Q : Quiche} {s s' : Ep Q} {addr : SocketAddr} {dcid : ConnectionId} {i : Nat}

/-- What the connections were accepted for. -/
def origins (s : Ep Q) : List (Option (UdpPak × Header)) := s.cons.map (·.origin)

/-- The first connection that was accepted for the pair. -/
def first? (s : Ep Q) (addr : SocketAddr) (dcid : ConnectionId) : Option Nat :=
  s.origins.findIdx? (ofPair addr dcid)

/-- The connections of the events that `ep_task` emitted. -/
def inCons (s : Ep Q) : List Nat := s.trace.filterMap (·.inCon?)

/-- An Initial packet of the pair. -/
def Attempt (Q : Quiche) (addr : SocketAddr) (dcid : ConnectionId) (pak : UdpPak) : Prop :=
  pak.addr = addr ∧
    ∃ hdr, Q.headerFromSlice pak.data 16 = .ok hdr ∧ hdr.ty = .initial ∧ hdr.dcid = dcid

/-- One attempt comes to the connection `i` only. -/
structure OneAttempt (s : Ep Q) (addr : SocketAddr) (dcid : ConnectionId) (i : Nat) : Prop where
  accepted : ∀ (j : Nat) r, s.cons[j]? = some r → ofPair addr dcid r.origin → j = i
  inCon : (s.inCons.filter fun j => s.origins[j]?.any (ofPair addr dcid)).length ≤ 1
  /-- Each packet has a fate, but for the one that `ep_task` has and those on their way to it. -/
  flow : s.fates.map Prod.fst ++ s.pc.pak?.toList ++ s.inbound = s.yielded
  /-- The Initial packets of the attempt that come after the one it was created for. -/
  routed : ∀ pre x put post, s.fates = pre ++ (x, .created i put) :: post →
    ∀ y ∈ post, Attempt Q addr dcid y.1 → y.2 = .delivered i ∨ y.2 = .noPermit i

/-- If `ep_task` is about to handle an Initial packet whose pair has a live first connection, the
packet is for that connection's own id. -/
def sameId (s : Ep Q) : Bool :=
  match s.pc with
  | .cmd (.inPak (some (.ok pak))) =>
    match Q.headerFromSlice pak.data 16 with
    | .ok hdr =>
      match (s.first? pak.addr hdr.dcid).bind (s.cons[·]?) with
      | some r => hdr.ty ≠ .initial || r.con.pc.over || hdr.dcid = r.scid
      | none => true
    | .error _ => true
  | _ => true

/-- The condition on a step. -/
def SameId (s : Ep Q) (a : EpAct) : Prop :=
  s.cid.issued.length ≤ 2 ^ 64 ∧ (match a with | .task => s.sameId | _ => true) = true

instance (s : Ep Q) (a : EpAct) : Decidable (SameId s a) := inferInstanceAs (Decidable (_ ∧ _))

/-! ## Events -/

/-- The event that a step of `ep_task` emits. -/
theorem inCons_task (ht : TaskStep s s') : s'.inCons = s.inCons ∨
    ∃ i, s'.inCons = s.inCons ++ [i] ∧ localCon s.pc = some i ∧ localCon s'.pc = none := by
  have happ : ∀ {l : List EpObs}, s'.trace = s.trace ++ l →
      s'.inCons = s.inCons ++ l.filterMap (·.inCon?) := fun hl => by
    unfold inCons; rw [hl, List.filterMap_append]
  rcases trace_task ht with he | ⟨o, he, ho⟩
  · exact .inl (by unfold inCons; rw [he])
  · cases o with
    | inCon i =>
      have hpc : s.pc = .inCon i := ho
      refine .inr ⟨i, happ he, by rw [hpc]; rfl, ?_⟩
      cases hl : localCon s'.pc with
      | none => rfl
      | some j =>
        -- only the steps on the way to the event have a connection afterwards
        cases ht with
        | accept hp | permit hp | put hp | spawnNew hp => rw [hpc] at hp; cases hp
        | _ => cases hl
    | _ => exact .inl ((happ he).trans (List.append_nil _))

/-- The connection whose handles `ep_task` has after a step. -/
theorem localCon_task (ht : TaskStep s s') {i : Nat} (hi : localCon s'.pc = some i) :
    localCon s.pc = some i ∨ i = s.cons.length := by
  cases ht with
  | accept | spawnNew => cases hi; exact .inr rfl
  | permit hpc | put hpc => cases hi; rw [hpc]; exact .inl rfl
  | _ => cases hi

/-- One event for each connection, and none for the one whose handles `ep_task` still has. -/
structure Events (s : Ep Q) : Prop where
  nodup : s.inCons.Nodup
  past : ∀ i ∈ s.inCons, i < s.cons.length ∧ localCon s.pc ≠ some i

theorem length_cons_task (ht : TaskStep s s') : s.cons.length ≤ s'.cons.length := by
  rcases cons_task ht with ⟨new, hn⟩ | hm
  · rw [hn.cons, List.length_append]; exact Nat.le_add_right _ _
  · exact Nat.le_of_eq hm.length.symm

theorem events_task (hc : Control s) (h : Events s) (ht : TaskStep s s') : Events s' := by
  have hlen := length_cons_task ht
  have hold : ∀ i ∈ s.inCons, i < s'.cons.length ∧ localCon s'.pc ≠ some i := by
    intro i hi
    obtain ⟨hlt, hl⟩ := h.past i hi
    refine ⟨Nat.lt_of_lt_of_le hlt hlen, fun hi' => ?_⟩
    rcases localCon_task ht hi' with hi' | rfl
    · exact hl hi'
    · exact Nat.lt_irrefl _ hlt
  rcases inCons_task ht with he | ⟨i, he, hi, hi'⟩
  · rw [← he] at hold
    exact ⟨by rw [he]; exact h.nodup, hold⟩
  · have hi_new : i ∉ s.inCons := fun hm => (h.past i hm).2 hi
    refine ⟨?_, fun j hj => ?_⟩
    · rw [he]; exact List.nodup_append.mpr ⟨h.nodup, List.nodup_singleton i, by
        intro a ha b hb hab
        rw [List.mem_singleton.mp hb] at hab
        exact hi_new (hab ▸ ha)⟩
    · rw [he] at hj
      rcases List.mem_append.mp hj with hj | hj
      · exact hold j hj
      · rw [List.mem_singleton.mp hj, hi']
        have := (hc.here i hi).1
        exact ⟨by omega, nofun⟩

theorem sys_events (h : (sys Q).Reach s) : Events s := by
  refine h.invariant (fun s hi => ?_) fun a s s' hr he hs => ?_
  · obtain ⟨n, config, h3Config, rfl⟩ := hi
    exact ⟨List.nodup_nil, nofun⟩
  · rcases reach_cases hr hs with ⟨-, ht⟩ | ⟨-, hf⟩
    · exact events_task (sys_control hr) he ht
    · have hin : s'.inCons = s.inCons := hf.filterMap_trace fun _ => rfl
      exact ⟨hin ▸ he.nodup, fun i hi => by
        rw [hf.cons.length, hf.pc]; exact he.past i (hin ▸ hi)⟩

/-! ## The first connection of a pair -/

/-- Connection `i` is the first of the pair, and alive. -/
def Leads (s : Ep Q) (addr : SocketAddr) (dcid : ConnectionId) (i : Nat) : Prop :=
  s.first? addr dcid = some i ∧ ∃ r, s.cons[i]? = some r ∧ r.con.pc.over = false

theorem Leads.not_over (h : s.Leads addr dcid i) {r : EpCon Q} (hr : s.cons[i]? = some r) :
    r.con.pc.over = false := by
  obtain ⟨-, r', hr', ho⟩ := h
  rw [hr] at hr'
  cases hr'
  exact ho

/-- No connection before it is of the pair. -/
theorem Leads.le (h : s.Leads addr dcid i) {j : Nat} {r : EpCon Q} (hj : s.cons[j]? = some r)
    (hp : ofPair addr dcid r.origin) : i ≤ j := by
  refine Nat.le_of_not_lt fun hlt => ?_
  obtain ⟨hi, -, hno⟩ := List.findIdx?_eq_some_iff_getElem.mp h.1
  have hg : s.origins[j]? = some r.origin := by unfold origins; rw [List.getElem?_map, hj]; rfl
  have := hno j hlt
  rw [(List.getElem?_eq_some_iff.mp hg).2] at this
  exact this hp

/-- The first connection of a pair was that before the step, or is new. -/
theorem leads_moves {P : ConAct → Prop} (hm : Moves (Runs P) s.cons s'.cons)
    (h : s'.Leads addr dcid i) : s.Leads addr dcid i := by
  obtain ⟨hf, r', hr', ho⟩ := h
  obtain ⟨r, hr, -, hrun⟩ := hm.back hr'
  refine ⟨?_, r, hr, ?_⟩
  · unfold first? origins at hf ⊢
    rwa [hm.map_eq fun _ _ => rfl] at hf
  · rw [← Bool.not_eq_true] at ho ⊢
    exact fun h => ho (over_runs hrun h)

theorem leads_task (ht : TaskStep s s') (h : s'.Leads addr dcid i) :
    s.Leads addr dcid i ∨ i = s.cons.length := by
  rcases cons_task ht with ⟨new, hn⟩ | hm
  · obtain ⟨hf, r, hr, ho⟩ := h
    have hor : s'.origins = s.origins ++ [new.origin] := by
      unfold origins; rw [hn.cons, List.map_append]; rfl
    unfold first? at hf
    rw [hor, List.findIdx?_append] at hf
    cases hs : s.first? addr dcid with
    | some k =>
      rw [show s.origins.findIdx? (ofPair addr dcid) = some k from hs] at hf
      obtain rfl : k = i := Option.some.inj hf
      have hlt : k < s.cons.length := by
        obtain ⟨hlt, -⟩ := List.findIdx?_eq_some_iff_getElem.mp hs
        unfold origins at hlt
        rwa [List.length_map] at hlt
      rw [hn.cons, List.getElem?_append_left hlt] at hr
      exact .inl ⟨hs, r, hr, ho⟩
    | none =>
      rw [hn.cons] at hr
      have hlt := (List.getElem?_eq_some_iff.mp hr).1
      rw [show s.origins.findIdx? (ofPair addr dcid) = none from hs, Option.none_or] at hf
      obtain ⟨k, hk, rfl⟩ := Option.map_eq_some_iff.mp hf
      rw [List.length_append, List.length_singleton] at hlt
      have : s.origins.length = s.cons.length := List.length_map _
      exact .inr (by omega)
  · exact .inl (leads_moves hm h)

/-- Under the condition an Initial packet of the pair finds its first connection in `con_map`. -/
theorem lookup_attempt (h : (sys Q).Reach s) (hc : SameId s .task) {pak : UdpPak}
    (hpc : s.pc = .cmd (.inPak (some (.ok pak)))) (ha : Attempt Q addr dcid pak)
    (hl : s.Leads addr dcid i) : s.conMap.lookup dcid = some i := by
  obtain ⟨rfl, hdr, hh, ht, rfl⟩ := ha
  obtain ⟨hf, r, hr, ho⟩ := hl
  obtain ⟨hn, hs⟩ := hc
  have hs : s.sameId = true := hs
  have hid : hdr.dcid = r.scid := by
    unfold sameId at hs
    simpa [hpc, hh, hf, hr, ht, ho] using hs
  rw [hid]
  have := sys_routable h hn i r hr ho
  rw [hpc] at this
  exact this.resolve_left nofun

/-! ## The whole run -/

/-- What every step keeps that meets the condition. -/
structure Attempts (s : Ep Q) : Prop where
  accepted : ∀ addr dcid i, s.Leads addr dcid i → ∀ (j : Nat) r, s.cons[j]? = some r →
    ofPair addr dcid r.origin → j = i
  routed : ∀ addr dcid i, s.Leads addr dcid i → ∀ pre x put post,
    s.fates = pre ++ (x, .created i put) :: post →
    ∀ y ∈ post, Attempt Q addr dcid y.1 → y.2 = .delivered i ∨ y.2 = .noPermit i
  route : ∀ addr dcid i, s.Leads addr dcid i → ∀ j id pak, s.pc = .route j id pak →
    Attempt Q addr dcid pak → j = i

/-- What `ep_task` does with an Initial packet of a pair that has a live first connection. -/
theorem fate_attempt (h : (sys Q).Reach s) (hi : Attempts s) (hc : SameId s .task) {pak : UdpPak}
    {f : Fate} (hd : s.pc.Done pak f) (hr : s.Reason pak f) (hl : s.Leads addr dcid i)
    (ha : Attempt Q addr dcid pak) (hf : s.fatesOf i ≠ []) : f = .delivered i ∨ f = .noPermit i := by
  obtain ⟨rfl, hdr, hh, ht, rfl⟩ := id ha
  have hrt := sys_routing h
  cases hpc : s.pc <;> rw [hpc] at hd <;> try cases hd; done
  · next m =>
    obtain ⟨rfl, hcon⟩ := hd
    have hlk := lookup_attempt h hc hpc ha hl
    cases f with
    | malformed =>
      obtain ⟨err, he⟩ := hr
      rw [hh] at he
      cases he
    | noPermit j =>
      obtain ⟨hdr', r, hh', hlk', -⟩ := hr
      rw [hh] at hh'
      cases hh'
      rw [hlk] at hlk'
      cases hlk'
      exact .inr rfl
    | conEnded j =>
      obtain ⟨hdr', r, hh', hlk', hj, ho⟩ := hr
      rw [hh] at hh'
      cases hh'
      rw [hlk] at hlk'
      cases hlk'
      rw [hl.not_over hj] at ho
      cases ho
    | refused =>
      obtain ⟨hdr', err, hh', hlk', -⟩ := hr
      rw [hh] at hh'
      cases hh'
      rw [hlk] at hlk'
      cases hlk'
    | noRoute =>
      obtain ⟨hdr', hh', -, hty⟩ := hr
      rw [hh] at hh'
      cases hh'
      exact absurd ht hty
    | _ => cases hcon
  · next j id p =>
    obtain ⟨rfl, rfl | rfl⟩ := hd
    · rw [hi.route _ _ i hl j id p hpc ha]; exact .inl rfl
    · obtain rfl := hi.route _ _ i hl j id p hpc ha
      obtain ⟨hdr', r, -, -, hj, ho⟩ := hr
      rw [hl.not_over hj] at ho
      cases ho
  · next j scid p =>
    obtain ⟨rfl, put, rfl⟩ := hd
    obtain ⟨hnone, r, hdr', hj, -, ho, hh', -⟩ := hrt.accept j scid p (.inr hpc)
    rw [hh] at hh'
    cases hh'
    have hji := hi.accepted _ _ i hl j r hj (by rw [ho]; simp [ofPair])
    exact absurd (hji ▸ hnone) hf

theorem accepted_task (h : (sys Q).Reach s) (hi : Attempts s) (hc : SameId s .task)
    (ht : TaskStep s s') (hl : s'.Leads addr dcid i) {j : Nat} {r : EpCon Q}
    (hj : s'.cons[j]? = some r) (hp : ofPair addr dcid r.origin) : j = i := by
  have hle := hl.le hj hp
  rcases cons_task ht with ⟨new, hn⟩ | hm
  · rcases List.getElem?_concat_cases (hn.cons ▸ hj) with hj | ⟨rfl, rfl⟩
    · rcases leads_task ht hl with hls | rfl
      · exact hi.accepted _ _ _ hls j r hj hp
      · exact absurd hle (Nat.not_le.mpr (List.getElem?_eq_some_iff.mp hj).1)
    · rcases leads_task ht hl with hls | rfl
      · -- a second connection: the packet would have found the first one in the map
        cases ho : r.origin with
        | none => rw [ho] at hp; cases hp
        | some x =>
          obtain ⟨hpc, hh, hlk, hty⟩ := hn.origin x ho
          rw [ho] at hp
          have hp : x.1.addr = addr ∧ x.2.dcid = dcid := by simpa [ofPair] using hp
          have := lookup_attempt h hc hpc ⟨hp.1, x.2, hh, hty, hp.2⟩ hls
          rw [← hp.2, hlk] at this
          cases this
      · rfl
  · obtain ⟨r₀, hr₀, he, -⟩ := hm.back hj
    exact hi.accepted _ _ _ (leads_moves hm hl) j r₀ hr₀ (by rw [he] at hp; exact hp)

theorem routed_task (h : (sys Q).Reach s) (hi : Attempts s) (hc : SameId s .task)
    (ht : TaskStep s s') (hl : s'.Leads addr dcid i) {pre post : List (UdpPak × Fate)} {x : UdpPak}
    {put : Bool} (hf : s'.fates = pre ++ (x, .created i put) :: post) {y : UdpPak × Fate}
    (hy : y ∈ post) (ha : Attempt Q addr dcid y.1) : y.2 = .delivered i ∨ y.2 = .noPermit i := by
  have hrt := sys_routing h
  obtain ⟨l, hh⟩ := handled_task (sys_control h) hrt (cons_rx h) ht
  rw [hh.fates] at hf
  have hmem : ∀ {l' : List (UdpPak × Fate)}, s.fates = pre ++ (x, .created i put) :: l' →
      s.fatesOf i ≠ [] := fun hl' hn => by
    have : (x, Fate.created i put) ∈ s.fatesOf i :=
      List.mem_filter.mpr ⟨by rw [hl']; simp, by simp [Fate.con?]⟩
    rw [hn] at this
    cases this
  rcases List.append_eq_append_iff.mp hf with ⟨as, hpre, hl'⟩ | ⟨as, hfs, hl'⟩
  · -- the packet of the step created the connection: nothing comes after it
    have hlen := hh.length
    rw [hl'] at hlen
    simp only [List.length_append, List.length_cons] at hlen
    have : post = [] := List.eq_nil_of_length_eq_zero (by omega)
    rw [this] at hy
    cases hy
  · cases as with
    | nil =>
      have hlen := hh.length
      rw [← show _ = l from hl', List.length_cons] at hlen
      have : post = [] := List.eq_nil_of_length_eq_zero (by omega)
      rw [this] at hy
      cases hy
    | cons c as =>
      obtain ⟨rfl, hpost⟩ := List.cons_eq_cons.mp hl'
      rcases leads_task ht hl with hls | rfl
      · rw [hpost] at hy
        rcases List.mem_append.mp hy with hy | hy
        · exact hi.routed _ _ _ hls pre x put as hfs y hy ha
        · obtain ⟨hd, hr⟩ := hh.reason y hy
          exact fate_attempt h hi hc hd hr hls ha (hmem hfs)
      · exact absurd (hrt.new _ (Nat.le_refl _)) (hmem hfs)

theorem attempts_task (h : (sys Q).Reach s) (hi : Attempts s) (hc : SameId s .task)
    (ht : TaskStep s s') : Attempts s' := by
  refine ⟨fun addr dcid i hl j r hj hp => accepted_task h hi hc ht hl hj hp,
    fun addr dcid i hl pre x put post hf y hy ha => routed_task h hi hc ht hl hf hy ha,
    fun addr dcid i hl j id pak hpc' ha => ?_⟩
  cases ht with
  | @route pak' hdr j' r c hpc hh hlk hr hcq =>
    cases hpc'
    have hls := leads_moves (runs_modCon hr (.one (a := .tryAcquire) (P := fun _ => True) trivial hcq)) hl
    have := lookup_attempt h hc hpc ha hls
    obtain ⟨-, hdr', hh', -, rfl⟩ := ha
    rw [hh] at hh'
    cases hh'
    rw [hlk] at this
    exact Option.some.inj this
  | _ => cases hpc'

theorem attempts_frame (hi : Attempts s) (hf : Frame s s') : Attempts s' := by
  have hl : ∀ {addr dcid i}, s'.Leads addr dcid i → s.Leads addr dcid i := fun h =>
    leads_moves (hf.cons.mono fun _ _ _ h => h.quiet) h
  refine ⟨fun addr dcid i h j r hj hp => ?_, fun addr dcid i h => ?_, fun addr dcid i h => ?_⟩
  · obtain ⟨r₀, hr₀, he, -⟩ := hf.cons.back hj
    exact hi.accepted _ _ _ (hl h) j r₀ hr₀ (by rw [he] at hp; exact hp)
  · rw [fates_frame hf]; exact hi.routed _ _ _ (hl h)
  · rw [hf.pc]; exact hi.route _ _ _ (hl h)

/-- In a run whose steps meet the condition, one attempt comes to one connection while that is
alive. -/
theorem one_attempt (h : (sys Q).ReachIf SameId s) {r : EpCon Q}
    (hf : s.first? addr dcid = some i) (hr : s.cons[i]? = some r) (ho : r.con.pc.over = false) :
    OneAttempt s addr dcid i := by
  have ha : Attempts s := by
    refine h.invariant (fun s hi => ?_) fun a s s' hr hi hc hs => ?_
    · obtain ⟨n, config, h3Config, rfl⟩ := hi
      exact ⟨fun _ _ _ hl => (nomatch hl.1), fun _ _ _ hl => (nomatch hl.1),
        fun _ _ _ hl => (nomatch hl.1)⟩
    · rcases reach_cases hr hs with ⟨rfl, ht⟩ | ⟨-, hf⟩
      · exact attempts_task hr hi hc ht
      · exact attempts_frame hi hf
  have hl : s.Leads addr dcid i := ⟨hf, r, hr, ho⟩
  refine ⟨ha.accepted _ _ _ hl, ?_, (sys_routing h.reach).flow, ha.routed _ _ _ hl⟩
  have hall : ∀ j ∈ s.inCons.filter fun j => s.origins[j]?.any (ofPair addr dcid), j = i := by
    intro j hj
    obtain ⟨x, hx, hp⟩ := (Option.any_eq_true _ _).mp (List.mem_filter.mp hj).2
    obtain ⟨q, hq, rfl⟩ := Option.map_eq_some_iff.mp (List.getElem?_map ▸ hx)
    exact ha.accepted _ _ _ hl j q hq hp
  have hnd := (sys_events h.reach).nodup.filter fun j => s.origins[j]?.any (ofPair addr dcid)
  rw [List.eq_replicate_of_mem hall, List.nodup_replicate] at hnd
  exact hnd

/-- An Initial packet of a pair that has a live first connection leads to that connection if and only
if the client chose its id. -/
theorem attempt_iff (h : (sys Q).Reach s) (hn : s.cid.issued.length ≤ 2 ^ 64) {pak : UdpPak}
    (hpc : s.pc = .cmd (.inPak (some (.ok pak)))) (ha : Attempt Q addr dcid pak)
    (hl : s.Leads addr dcid i) {r : EpCon Q} (hi : s.cons[i]? = some r)
    (hs : step .task s = some s') :
    (s'.pc = .route i dcid pak ∨ s'.fates = s.fates ++ [(pak, .noPermit i)]) ↔ dcid = r.scid := by
  have ht := (reach_cases h hs).resolve_right (fun h => h.1 rfl)
  obtain ⟨hdr, hh, hty, hd⟩ := id ha.2
  constructor
  · intro ho
    have hlk : s.conMap.lookup dcid = some i := by
      rcases ho with ho | ho
      · cases ht.2 with
        | route hpc' hh' hlk =>
          cases ho
          exact hlk
        | _ => cases ho
      · obtain ⟨l, hl'⟩ := handled_task (sys_control h) (sys_routing h) (cons_rx h) ht.2
        have := hl'.fates
        rw [ho] at this
        obtain rfl := List.append_cancel_left this
        obtain ⟨-, hdr', r', hh', hlk, -⟩ := hl'.reason _ (List.mem_singleton.mpr rfl)
        rw [hh] at hh'
        cases hh'
        rwa [hd] at hlk
    obtain ⟨r', hr', hsc, -⟩ := (sys_routing h).map dcid i hlk
    rw [hi] at hr'
    cases hr'
    exact hsc.symm
  · intro hid
    have hlk : s.conMap.lookup dcid = some i := by
      have := sys_routable h hn i r hi (hl.not_over hi)
      rw [hpc] at this
      exact hid ▸ this.resolve_left nofun
    subst hd
    cases ht.2 with
    | @route pak' hdr' j r' c hpc' hh' hlk' =>
      rw [hpc] at hpc'
      cases hpc'
      rw [hh] at hh'
      cases hh'
      rw [hlk] at hlk'
      cases hlk'
      exact .inl rfl
    | @drop pak' f hpc' hd' =>
      rw [hpc] at hpc'
      cases hpc'
      cases f with
      | malformed => obtain ⟨err, he⟩ := hd'; rw [hh] at he; cases he
      | noPermit j =>
        obtain ⟨hdr', r', hh', hlk', -⟩ := hd'
        rw [hh] at hh'
        cases hh'
        rw [hlk] at hlk'
        cases hlk'
        exact .inr (fates_append (l := [.fate pak (.noPermit i)]) rfl)
      | noRoute =>
        obtain ⟨hdr', hh', -, hty'⟩ := hd'
        rw [hh] at hh'
        cases hh'
        exact absurd hty hty'
      | _ => cases hd'
    | refuse hpc' hh' hlk' | accept hpc' hh' hlk' =>
      rw [hpc] at hpc'
      cases hpc'
      rw [hh] at hh'
      cases hh'
      rw [hlk] at hlk'
      cases hlk'
    | take hpc' | reserved hpc' | reserve hpc' | streamEnd hpc' | streamErr hpc' | deliver hpc'
    | conEnded hpc' | permit hpc' | put hpc' | inCon hpc' | noInCon hpc' | refuseNew hpc'
    | spawnNew hpc' | answerNew hpc' =>
      rw [hpc] at hpc'
      cases hpc'

/-- The client chose the id that the server drew. -/
theorem one_attempt_same : ∃ s : Ep (Quiche.inert ()), s.fates.length = 2 ∧
    OneAttempt s .unspecified (cidOf 0) 0 := by
  obtain ⟨s, hr, h⟩ := Lts.ReachIf.of_run_any (S := sys (Quiche.inert ())) (C := SameId)
    (EpAct.packet (cidOf 0) 6 ++ EpAct.packet (cidOf 0) 4)
    (fun s => decide (s.fates.length = 2 ∧ s.first? .unspecified (cidOf 0) = some 0) &&
      s.cons[0]?.any fun r => !r.con.pc.over) ⟨0, (), none, rfl⟩ (by decide +kernel)
  obtain ⟨h, ha⟩ := (Bool.and_eq_true _ _).mp h
  obtain ⟨hl, hf⟩ := of_decide_eq_true h
  obtain ⟨r, hc, ho⟩ := (Option.any_eq_true _ _).mp ha
  exact ⟨s, hl, one_attempt hr hf hc (by simpa using ho)⟩

/-- An Initial packet that comes twice makes two connections. -/
theorem not_one_attempt : ¬ ∀ (Q : Quiche) (s : Ep Q), (sys Q).Reach s → ∀ addr dcid i r,
    s.first? addr dcid = some i → s.cons[i]? = some r → r.con.pc.over = false →
    OneAttempt s addr dcid i := by
  intro h
  obtain ⟨s, hr, hs⟩ := Lts.Reach.of_run_any (S := sys (Quiche.inert ()))
    (EpAct.packet [] 6 ++ EpAct.packet [] 6)
    (fun s => decide (s.first? .unspecified [] = some 0) &&
      (s.cons[0]?.any fun r => !r.con.pc.over) &&
      s.cons[1]?.any fun r => ofPair .unspecified [] r.origin) ⟨0, (), none, rfl⟩ (by decide +kernel)
  obtain ⟨hs, h1⟩ := (Bool.and_eq_true _ _).mp hs
  obtain ⟨hf, h0⟩ := (Bool.and_eq_true _ _).mp hs
  obtain ⟨r, hc, ho⟩ := (Option.any_eq_true _ _).mp h0
  obtain ⟨r', hc', hp⟩ := (Option.any_eq_true _ _).mp h1
  have := (h _ s hr _ _ 0 r (of_decide_eq_true hf) hc (by simpa using ho)).accepted 1 r' hc' hp
  cases this

end Ep
end Absquic
