import Absquic.Bound.Path

/-!
# From quiche to the socket

Every packet that `send` of quiche gives is handed to `Udp::send` by a task of its own, and the future
of that call puts it on the socket. In a run of an endpoint on a socket (`outbound`):

* a connection hands over packets that quiche gave it, each once; the others wait for their time;
* the socket is handed these packets, those of a connection in the order in which it hands them over,
  and what others send on it;
* each of them went out as a datagram, is held by its future, or was lost: it found the socket gone,
  the socket refused it, or its future was dropped. Nothing else goes out.
-/

namespace Absquic

/-- The datagram that was put on the socket. -/
def UdpObs.datagram? : UdpObs → Option UdpPak
  | .datagram _ pak => some pak
  | _ => none

/-- The packet of a `send` on its way. -/
def UdpCall.pak? : UdpCall → Option UdpPak
  | .send pak => some pak
  | _ => none

namespace TokioUdp

variable {u u' : TokioUdp}

/-! ## The socket -/

/-- The datagrams that were put on the socket. -/
def datagrams (u : TokioUdp) : List UdpPak := u.trace.filterMap (·.datagram?)

/-- The packets that the futures hold. -/
def sending (u : TokioUdp) : List UdpPak := u.calls.filterMap (·.pak?)

/-- The packet with which `send` is called in the step. -/
def sends (a : UdpAct) (_ _ : TokioUdp) : List UdpPak :=
  match a with
  | .send pak => [pak]
  | _ => []

/-- The packet that is lost in the step (module doc). -/
def loses (a : UdpAct) (u _ : TokioUdp) : List UdpPak :=
  match a with
  | .send pak => if u.alive then [] else [pak]
  | .sendTo k (.error _) | .dropCall k => (u.calls[k]?.bind (·.pak?)).toList
  | _ => []

/-- What became of the packets with which `send` was called. -/
def Accounted (u : TokioUdp) (sent lost : List UdpPak) : Prop :=
  (u.datagrams ++ u.sending ++ lost).Perm sent

/-- A future that held `pak` is over. -/
theorem sending_set {k : Nat} {pak : UdpPak} {x : UdpCall} (hk : u.calls[k]? = some (.send pak))
    (hx : x.pak? = none) (p : UdpPak) :
    ((u.calls.set k x).filterMap (·.pak?)).count p + [pak].count p = u.sending.count p := by
  have hc := List.count_filterMap_set x (q := (·.pak?)) hk p
  rwa [hx] at hc

/-- A call that is made. -/
theorem sending_append (calls : List UdpCall) (x : UdpCall) :
    (calls ++ [x]).filterMap (·.pak?) = calls.filterMap (·.pak?) ++ x.pak?.toList := by
  rw [List.filterMap_append]
  cases x <;> rfl

theorem datagrams_append {l : List UdpObs} (ht : u'.trace = u.trace ++ l) :
    u'.datagrams = u.datagrams ++ l.filterMap (·.datagram?) := by
  rw [datagrams, ht, List.filterMap_append]
  rfl

/-- What was put on the socket stays. -/
theorem datagrams_keep {a : UdpAct} (hs : step a u = some u') : u.datagrams <+: u'.datagrams := by
  obtain ⟨l, hl⟩ : ∃ l, u'.trace = u.trace ++ l := by
    cases step_cases hs with
    | poll | shut | pending | pak | send | sendTo => exact ⟨_, rfl⟩
    | wake => rw [wake_eq]; exact ⟨_, List.append_assoc ..⟩
    | closeWake =>
      obtain ⟨l, ht, -⟩ := trace_closed u _
      exact ⟨l, ht⟩
    | _ => exact ⟨[], (List.append_nil _).symm⟩
  rw [datagrams_append hl]
  exact List.prefix_append _ _

/-- A step in which no packet goes anywhere. -/
theorem Accounted.keep {sent lost : List UdpPak} (h : Accounted u sent lost) {l : List UdpObs}
    (ht : u'.trace = u.trace ++ l) (hl : ∀ o ∈ l, o.datagram? = none)
    (hp : u'.sending = u.sending) : Accounted u' (sent ++ []) (lost ++ []) := by
  unfold Accounted
  rw [datagrams_append ht, List.filterMap_eq_nil_iff.mpr hl, hp, List.append_nil, List.append_nil,
    List.append_nil]
  exact h

/-- A packet is lost with its future. -/
theorem Accounted.lose {sent lost : List UdpPak} (h : Accounted u sent lost) {k : Nat}
    {pak : UdpPak} {x : UdpCall} (hk : u.calls[k]? = some (.send pak)) (hx : x.pak? = none) :
    Accounted { u with calls := u.calls.set k x } (sent ++ [])
      (lost ++ (u.calls[k]?.bind (·.pak?)).toList) := by
  refine List.perm_iff_count.mpr fun p => ?_
  have hc := List.perm_iff_count.mp h p
  have hset := sending_set hk hx p
  rw [hk]
  show List.count p (u.datagrams ++ (u.calls.set k x).filterMap (·.pak?) ++ (lost ++ [pak])) = _
  simp only [List.count_append, List.append_nil] at hc ⊢
  omega

theorem accounted_step {a : UdpAct} {sent lost : List UdpPak} (h : Accounted u sent lost)
    (hs : step a u = some u') :
    Accounted u' (sent ++ sends a u u') (lost ++ loses a u u') := by
  cases step_cases hs with
  | poll | shut | pending | pak => exact h.keep rfl (List.forall_mem_singleton.mpr rfl) rfl
  | load | register | reload | store | err | dropRecv | closeImmediate | closeStore =>
    exact h.keep (List.append_nil _).symm nofun rfl
  | @wake err =>
    refine h.keep (l := (u.waker.map UdpObs.woken).toList ++ [.ready (some (.error (.os err)))])
      ?_ (fun o ho => ?_) ?_
    · rw [wake_eq]
      exact List.append_assoc ..
    · rcases List.mem_append.mp ho with ho | ho
      · obtain ⟨w, -, rfl⟩ := Option.map_eq_some_iff.mp (Option.mem_toList.mp ho)
        rfl
      · rw [List.mem_singleton.mp ho]
        rfl
    · rw [wake_eq]
      rfl
  | @closeWake k =>
    obtain ⟨l, ht, hl⟩ := trace_closed u (u.closers.set k .done)
    refine h.keep ht (fun o ho => ?_) ?_
    · rcases hl o ho with rfl | ⟨w, rfl⟩ <;> rfl
    · rw [wake_eq]
      rfl
  | @send pak =>
    refine List.perm_iff_count.mpr fun p => ?_
    have hc := List.perm_iff_count.mp h p
    have hd : (u.send pak).datagrams = u.datagrams :=
      (datagrams_append (l := [.send u.calls.length]) rfl).trans (List.append_nil _)
    have hp : (u.send pak).sending =
        u.sending ++ (if u.alive then UdpCall.send pak else .sent (.error socketClosed)).pak?.toList :=
      sending_append ..
    rw [hd, hp]
    unfold sends loses
    simp only [List.count_append] at hc ⊢
    split
    · show _ + (_ + List.count p [pak]) + (_ + List.count p []) = _
      rw [List.count_nil]
      omega
    · show _ + (_ + List.count p []) + _ = _
      rw [List.count_nil]
      omega
  | @sendTo k pak hk =>
    refine List.perm_iff_count.mpr fun p => ?_
    have hc := List.perm_iff_count.mp h p
    have hset := sending_set hk (x := .sent (.ok ())) rfl p
    have hd : datagrams ({ u with calls := u.calls.set k (.sent (.ok ())) }.log (.datagram k pak)) =
        u.datagrams ++ [pak] := datagrams_append (l := [.datagram k pak]) rfl
    rw [hd]
    show List.count p (u.datagrams ++ [pak] ++ (u.calls.set k _).filterMap (·.pak?) ++ (lost ++ [])) =
      List.count p (sent ++ [])
    simp only [List.count_append, List.append_nil] at hc ⊢
    omega
  | sendErr hk => exact h.lose hk rfl
  | addr =>
    refine h.keep (List.append_nil _).symm nofun ?_
    refine (sending_append ..).trans ?_
    split <;> exact List.append_nil _
  | @localAddr k r hk =>
    refine h.keep (List.append_nil _).symm nofun ?_
    exact List.filterMap_set_none (by rw [hk]; rfl) rfl
  | dropCall hk => exact h.lose hk rfl

/-- In every run of a socket. -/
theorem accounted {as : List UdpAct} {u₀ : TokioUdp} (h₀ : sys.init u₀)
    (hr : sys.run as u₀ = some u) : Accounted u (sys.gather sends as u₀) (sys.gather loses as u₀) :=
  Lts.run_gather₂ (I := Accounted) (l := []) (m := [])
    (fun _ _ _ _ _ _ h hs => accounted_step h hs) (.init h₀) hr (by cases h₀; exact .refl _)

end TokioUdp

/-! ## A connection -/

namespace Con

variable {Q : Quiche}

/-- The packet that is handed over in the step. -/
def handsOver (a : ConAct) (c _ : Con Q) : List UdpPak :=
  match a with
  | .udpSend k => (c.senders[k]?.map (·.pak)).toList
  | _ => []

theorem handed_next {a : ConAct} {c c' : Con Q} (h : (sys Q).Reach c) (hs : step a c = some c') :
    c'.handed = c.handed ++ handsOver a c c' := by
  have hnone : (∀ k, a ≠ .udpSend k) → handsOver a c c' = [] := fun ha => by
    cases a with
    | udpSend k => exact absurd rfl (ha k)
    | _ => rfl
  cases pace_cases h hs with
  | handOver hk _ _ _ hh =>
    rw [hh, handsOver, hk]
    rfl
  | produce ha _ _ hh | other ha _ _ hh => rw [hh, hnone ha, List.append_nil]

/-- Each packet that quiche gave was handed over, or waits for its time. -/
theorem produced_perm {c : Con Q} (h : (sys Q).Reach c) :
    (c.produced.map (·.pak)).Perm (c.handed ++ c.senders.map (·.pak)) := by
  refine h.invariant (I := fun c => (c.produced.map (·.pak)).Perm
    (c.handed ++ c.senders.map (·.pak))) ?_ fun a c c' h hi hs => ?_
  · rintro c ⟨h3Config, con, hq⟩
    cases hq
    exact .refl _
  · cases pace_cases h hs with
    | @handOver k s hk _ hsd hp hh =>
      rw [hp, hh, hsd, List.append_assoc]
      refine hi.trans (List.Perm.append_left _ ?_)
      refine List.perm_iff_count.mpr fun p => ?_
      have hc := List.count_eraseIdx (l := c.senders.map (·.pak)) (i := k)
        (by rw [List.getElem?_map, hk]; rfl) p
      rw [hc, List.eraseIdx_map, List.count_append, Nat.add_comm]
    | produce _ hsd hp hh =>
      rw [hp, hh, hsd, List.map_append, List.map_append, ← List.append_assoc]
      exact hi.append_right _
    | other _ hsd hp hh => rwa [hp, hh, hsd]

end Con

namespace Bound

variable {Q : Quiche} {b b' : Bound Q}

/-! ## The run of the socket -/

/-- The packet that is handed to the socket in the step, with the connection it is from. -/
def offers (a : BoundAct) (b _ : Bound Q) : List (Option Nat × UdpPak) :=
  match a with
  | .udpSend i k => ((b.ep.cons[i]?.bind (·.con.senders[k]?)).map fun x => (some i, x.pak)).toList
  | .udp (.send pak) => [(none, pak)]
  | _ => []

/-- The step of the socket in a step of the whole. -/
def udpAct (a : BoundAct) (b b' : Bound Q) : List UdpAct :=
  match a with
  | .ep _ =>
    match b'.ep.udpPc with
    | .ended => [.dropRecv]
    | _ => []
  | .poll => [.poll]
  | .sockPoll r => [.sockPoll r]
  | .udpSend i k => ((b.ep.cons[i]?.bind (·.con.senders[k]?)).map fun x => .send x.pak).toList
  | .udp a => [a]

theorem polled_udp {udp : TokioUdp} (h : b.polled udp = some b') : b'.udp = udp := by
  unfold polled at h
  split at h
  · obtain ⟨ep, -, rfl⟩ := Option.map_eq_some_iff.mp h
    rfl
  · cases h
    rfl

theorem udpAct_step {a : BoundAct} (h : step a b = some b') :
    TokioUdp.sys.run (udpAct a b b') b.udp = some b'.udp := by
  cases a with
  | ep e =>
    change b.stepEp e = some b' at h
    unfold stepEp at h
    split at h
    · obtain ⟨ep, -, rfl⟩ := Option.map_eq_some_iff.mp h
      unfold udpAct
      dsimp only
      rw [dropRecv_ep]
      unfold dropRecv
      dsimp only
      cases ep.udpPc <;> rfl
    · cases h
  | poll =>
    change b.poll = some b' at h
    unfold Bound.poll at h
    split at h
    · obtain ⟨u, hu, hp⟩ := Option.bind_eq_some_iff.mp h
      rw [polled_udp hp]
      exact Lts.run_one (S := TokioUdp.sys) (a := .poll) hu
    · cases h
  | sockPoll r =>
    change b.sockPoll r = some b' at h
    unfold Bound.sockPoll at h
    split at h
    · obtain ⟨u, hu, hp⟩ := Option.bind_eq_some_iff.mp h
      rw [polled_udp hp]
      exact Lts.run_one (S := TokioUdp.sys) (a := .sockPoll r) hu
    · cases h
  | udpSend i k =>
    change b.udpSend i k = some b' at h
    unfold Bound.udpSend at h
    split at h
    · cases h
    · next x hx =>
      obtain ⟨ep, -, rfl⟩ := Option.map_eq_some_iff.mp h
      unfold udpAct
      dsimp only
      rw [hx]
      rfl
  | udp a =>
    change b.stepUdp a = some b' at h
    unfold stepUdp at h
    split at h
    · obtain ⟨u, hu, rfl⟩ := Option.map_eq_some_iff.mp h
      exact Lts.run_one (S := TokioUdp.sys) (a := a) hu
    · cases h

/-- The run of the socket in a run of the whole. -/
def udpRun (as : List BoundAct) (b : Bound Q) : List UdpAct := (sys Q).gather udpAct as b

theorem run_udp {as : List BoundAct} {b₀ : Bound Q} (h : (sys Q).run as b₀ = some b) :
    TokioUdp.sys.run (udpRun as b₀) b₀.udp = some b.udp :=
  Lts.run_part (g := Bound.udp) (fun _ _ _ hs => udpAct_step hs) h

/-! ## Outbound -/

/-- The packets that the socket was handed in a run. -/
def offered (as : List BoundAct) (b : Bound Q) : List (Option Nat × UdpPak) :=
  (sys Q).gather offers as b

/-- The packets that were lost at the socket in a run. -/
def lost (as : List BoundAct) (b : Bound Q) : List UdpPak :=
  TokioUdp.sys.gather TokioUdp.loses (udpRun as b) b.udp

/-- The packet, if connection `i` handed it over. -/
def ofCon (i : Nat) (x : Option Nat × UdpPak) : Option UdpPak := if x.1 = some i then some x.2 else none

/-- What the socket is handed, as calls of `send`. -/
theorem sends_eq {a : BoundAct} (h : step a b = some b') :
    TokioUdp.sys.gather TokioUdp.sends (udpAct a b b') b.udp = (offers a b b').map Prod.snd := by
  have hstep := udpAct_step h
  cases a with
  | ep e =>
    unfold udpAct
    dsimp only
    cases b'.ep.udpPc <;> rfl
  | poll => exact Lts.gather_one hstep
  | sockPoll r => exact Lts.gather_one hstep
  | udpSend i k =>
    unfold udpAct offers at *
    dsimp only at *
    cases hx : b.ep.cons[i]?.bind (·.con.senders[k]?) with
    | none => rfl
    | some x =>
      rw [hx] at hstep
      exact Lts.gather_one hstep
  | udp a =>
    refine (Lts.gather_one hstep).trans ?_
    cases a <;> rfl

/-- A step of a connection in which nothing is handed over. -/
theorem handsOver_none {i j : Nat} {a : ConAct} (ha : ∀ k, a ≠ .udpSend k) (s s' : Ep Q) :
    Ep.atCon i Con.handsOver (.con j a) s s' = [] := by
  unfold Ep.atCon
  dsimp only
  split
  · split
    · cases a with
      | udpSend k => exact absurd rfl (ha k)
      | _ => rfl
    · rfl
  · rfl

/-- Sender `k` of connection `j` hands its packet over. -/
theorem handsOver_some {s s' : Ep Q} {j k : Nat} (h : Ep.step (.con j (.udpSend k)) s = some s')
    (i : Nat) : Ep.atCon i Con.handsOver (.con j (.udpSend k)) s s' =
      (((s.cons[j]?.bind (·.con.senders[k]?)).map fun x => (some j, x.pak)).toList).filterMap
        (ofCon i) := by
  change s.conStep j (.udpSend k) = some s' at h
  unfold Ep.conStep at h
  split at h
  · cases h
  · next r hr =>
    split at h
    · obtain ⟨c, hc, rfl⟩ := Option.map_eq_some_iff.mp h
      unfold Ep.atCon
      dsimp only
      by_cases hij : j = i
      · subst hij
        have hr' : (s.modCon j fun _ => c).cons[j]? = some { r with con := c } := by
          show (s.cons.modify j _)[j]? = _
          rw [List.getElem?_modify_eq, hr]
          rfl
        rw [if_pos rfl, hr, hr', Option.bind_some]
        unfold Con.handsOver ofCon
        dsimp only
        cases r.con.senders[k]? with
        | none => rfl
        | some x => simp
      · rw [if_neg hij]
        refine (List.filterMap_eq_nil_iff.mpr fun x hx => ?_).symm
        obtain ⟨y, -, rfl⟩ := Option.map_eq_some_iff.mp (Option.mem_toList.mp hx)
        exact if_neg fun hi => hij (Option.some.inj hi)
    · cases h

/-- What the steps of connection `i` hand over. -/
theorem handsOver_eq {a : BoundAct} (h : step a b = some b') (i : Nat) :
    (Ep.sys Q).gather (Ep.atCon i Con.handsOver) (epAct a b b') b.ep =
      (offers a b b').filterMap (ofCon i) := by
  have hstep := epAct_step h
  have hpolled : ∀ {item : Option (Result UdpPak)},
      (Ep.sys Q).run [.udpRecv item] b.ep = some b'.ep →
      (Ep.sys Q).gather (Ep.atCon i Con.handsOver) [.udpRecv item] b.ep = [] := fun h =>
    Lts.gather_one h
  cases a with
  | ep e =>
    refine (Lts.gather_one hstep).trans ?_
    change b.stepEp e = some b' at h
    unfold stepEp at h
    split at h
    · next ha =>
      cases e with
      | con j a => exact handsOver_none (fun k hk => by rw [hk] at ha; cases ha) _ _
      | _ => rfl
    · cases h
  | poll | sockPoll r =>
    unfold epAct at hstep ⊢
    dsimp only at hstep ⊢
    split
    · next item hr =>
      rw [hr] at hstep
      exact hpolled hstep
    · rfl
  | udpSend j k =>
    obtain ⟨ep, he, hep⟩ := Option.bind_eq_some_iff.mp hstep
    obtain rfl : ep = b'.ep := Option.some.inj hep
    exact (Lts.gather_one hstep).trans (handsOver_some he i)
  | udp a => cases a <;> rfl

/-- The packets of connection `i` are those that it handed over, in that order. -/
theorem offered_con {as : List BoundAct} {b₀ : Bound Q} (h₀ : (sys Q).init b₀)
    (hr : (sys Q).run as b₀ = some b) {i : Nat} {r : EpCon Q} (hi : b.ep.cons[i]? = some r) :
    (offered as b₀).filterMap (ofCon i) = r.con.handed := by
  have hhanded : r.con.handed =
      (Ep.sys Q).gather (Ep.atCon i Con.handsOver) (epRun as b₀) b₀.ep := by
    refine Ep.run_con (I := fun c l => c.handed = l) (fun a c c' ha => ?_) (fun c hc => ?_)
      (fun a c c' l hc hl hs => ?_) h₀.1 (run_ep hr) hi
    · cases a <;> first | rfl | cases ha
    · obtain ⟨h3Config, con, hq⟩ := hc
      cases hq
      rfl
    · rw [← hl]
      exact Con.handed_next hc hs
  rw [hhanded, offered, Lts.filterMap_gather, epRun, Lts.gather_part (T := Ep.sys Q) (g := Bound.ep)
    (p := epAct) (fun _ _ _ hs => epAct_step hs) hr]
  exact Lts.gather_congr (fun a b b' hs => (handsOver_eq hs i).symm) as b₀

/-- A connection that handed a packet over is a connection of the endpoint. -/
theorem offered_known {as : List BoundAct} {b₀ : Bound Q} (h₀ : (sys Q).init b₀)
    (hr : (sys Q).run as b₀ = some b) :
    ∀ x ∈ offered as b₀, ∀ i, x.1 = some i → b.ep.cons[i]? ≠ none := by
  refine Lts.init_gather (f := offers) (I := fun b (l : List (Option Nat × UdpPak)) =>
      ∀ x ∈ l, ∀ i, x.1 = some i → b.ep.cons[i]? ≠ none)
    (fun a b b' l h hl hs x hx i hi hn => ?_) h₀ hr (fun x hx => nomatch hx)
  have hback : b.ep.cons[i]? = none := by
    rcases (parts_step hs).ep with he | ⟨e, he, -⟩
    · rwa [he] at hn
    · exact Option.eq_none_iff_forall_ne_some.mpr fun r hr =>
        Ep.cons_stay (reach_ep h) he hr hn
  rcases List.mem_append.mp hx with hx | hx
  · exact hl x hx i hi hback
  · unfold offers at hx
    split at hx
    · next j k =>
      obtain ⟨y, hy, rfl⟩ := Option.map_eq_some_iff.mp (Option.mem_toList.mp hx)
      cases hi
      rw [hback] at hy
      cases hy
    · rw [List.mem_singleton.mp hx] at hi
      cases hi
    · cases hx

/-- What became of the packets `offered` to the socket, of which `lost` were lost (module doc). -/
structure Outbound (b : Bound Q) (offered : List (Option Nat × UdpPak)) (lost : List UdpPak) :
    Prop where
  /-- Each packet that quiche gave a connection was handed over once, or waits. -/
  produced : ∀ (i : Nat) r, b.ep.cons[i]? = some r →
    (r.con.produced.map (·.pak)).Perm (r.con.handed ++ r.con.senders.map (·.pak))
  /-- The socket is handed those of a connection in the order of their hand-over. -/
  own : ∀ (i : Nat) r, b.ep.cons[i]? = some r → offered.filterMap (ofCon i) = r.con.handed
  known : ∀ x ∈ offered, ∀ i, x.1 = some i → b.ep.cons[i]? ≠ none
  /-- Each went out once, or is held by its future, or was lost. -/
  flow : (b.udp.datagrams ++ b.udp.sending ++ lost).Perm (offered.map Prod.snd)

/-- From quiche to the socket, in every run. -/
theorem outbound {as : List BoundAct} {b₀ : Bound Q} (h₀ : (sys Q).init b₀)
    (hr : (sys Q).run as b₀ = some b) : Outbound b (offered as b₀) (lost as b₀) := by
  refine ⟨fun i r hi => Con.produced_perm (Ep.cons_reach (reach_ep (.run h₀ hr)) hi),
    fun i r hi => offered_con h₀ hr hi, offered_known h₀ hr, ?_⟩
  have hacc := TokioUdp.accounted h₀.2 (run_udp hr)
  have hsends : TokioUdp.sys.gather TokioUdp.sends (udpRun as b₀) b₀.udp =
      (offered as b₀).map Prod.snd := by
    rw [offered, ← List.filterMap_eq_map, Lts.filterMap_gather, udpRun, Lts.gather_part
      (T := TokioUdp.sys) (g := Bound.udp) (p := udpAct) (fun _ _ _ hs => udpAct_step hs) hr]
    refine Lts.gather_congr (fun a b b' hs => ?_) as b₀
    rw [List.filterMap_eq_map]
    exact sends_eq hs
  rwa [hsends] at hacc

/-- If nobody else sends on the socket, every datagram is a packet that quiche gave. -/
theorem produced_of_datagram {as : List BoundAct} {b₀ : Bound Q} (h₀ : (sys Q).init b₀)
    (hr : (sys Q).run as b₀ = some b) (ha : ∀ a ∈ as, ∀ pak, a ≠ .udp (.send pak)) :
    ∀ pak ∈ b.udp.datagrams, ∃ (i : Nat) (r : EpCon Q), b.ep.cons[i]? = some r ∧
      pak ∈ r.con.produced.map (·.pak) := by
  intro pak hpak
  have hout := outbound h₀ hr
  obtain ⟨⟨from?, pak⟩, hx, rfl⟩ := List.mem_map.mp
    (hout.flow.subset (List.mem_append_left _ (List.mem_append_left _ hpak)))
  cases from? with
  | none =>
    obtain ⟨a, hm, b, b', hab⟩ := Lts.mem_gather hx
    unfold offers at hab
    split at hab
    · obtain ⟨y, -, hy⟩ := Option.map_eq_some_iff.mp (Option.mem_toList.mp hab)
      cases hy
    · exact absurd rfl (ha _ hm _)
    · cases hab
  | some i =>
    obtain ⟨r, hi⟩ := Option.ne_none_iff_exists'.mp (hout.known _ hx i rfl)
    refine ⟨i, r, hi, (hout.produced i r hi).mem_iff.mpr (List.mem_append_left _ ?_)⟩
    rw [← hout.own i r hi]
    exact List.mem_filterMap.mpr ⟨_, hx, if_pos rfl⟩

/-- A library whose `send` gives a new connection two packets. -/
def twoPackets : Quiche :=
  { Con.sending with
    accept := fun _ _ _ => ((), .ok [([1], ⟨.unspecified, 0⟩), ([2], ⟨.unspecified, 0⟩)]) }

/-- The packets of a connection are handed over, the second one first; the socket takes that one and
refuses the other, and a third one, of somebody else, is on its way. -/
def twoSent : List BoundAct :=
  arrival [] 6 ++ List.replicate 8 (.ep (.con 0 .task)) ++
    [.udpSend 0 1, .udpSend 0 0, .udp (.sendTo 0 (.ok ())), .udp (.sendTo 1 (.error 5)),
      .udp (.send ⟨.unspecified, [3]⟩)]

theorem outbound_two : ∃ b : Bound twoPackets, b.udp.datagrams = [⟨.unspecified, [2]⟩] ∧
    Outbound b [(some 0, ⟨.unspecified, [2]⟩), (some 0, ⟨.unspecified, [1]⟩),
      (none, ⟨.unspecified, [3]⟩)] [⟨.unspecified, [1]⟩] := by
  obtain ⟨b₀, h₀⟩ : ∃ b₀ : Bound twoPackets, b₀ = ⟨Ep.quicheEp (.after 0) () none, .bind⟩ :=
    ⟨_, rfl⟩
  have hrun : ((sys twoPackets).run twoSent b₀).any fun b =>
      decide (b.udp.datagrams = [⟨.unspecified, [2]⟩]) := by
    subst h₀; decide +kernel
  obtain ⟨b, hr, hb⟩ := (Option.any_eq_true _ _).mp hrun
  have hoffered : offered twoSent b₀ = [(some 0, ⟨.unspecified, [2]⟩),
      (some 0, ⟨.unspecified, [1]⟩), (none, ⟨.unspecified, [3]⟩)] := by
    subst h₀; decide +kernel
  have hlost : lost twoSent b₀ = [⟨.unspecified, [1]⟩] := by
    subst h₀; decide +kernel
  have hout := outbound ⟨⟨0, (), none, by rw [h₀]⟩, by rw [h₀]⟩ hr
  rw [hoffered, hlost] at hout
  exact ⟨b, of_decide_eq_true hb, hout⟩

end Bound
end Absquic
