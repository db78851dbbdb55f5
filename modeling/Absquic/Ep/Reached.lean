import Absquic.Conn.Messages
import Absquic.Ep.Delivered

/-!
# What reaches a user from a connection

A user who has the handles of a connection and polls the receiver gets all that the connection has for
it, whatever `con_task` does then: the events that `con_task` has put on the event channel at any time are
received later, in their order, and with them the messages that the events of each stream have come
to, as long as the user keeps the receiver (`messages_reach`). That the user has the handles is not
assumed, but proved (`FairCalls.arrives`).
-/

namespace Absquic
namespace Ep

variable {Q : Quiche} {s s' : Ep Q}

/-- The events that the user took from the receiver of connection `i` in a run. -/
def got (i : Nat) (as : List EpAct) (s : Ep Q) : List ConEvt :=
  (sys Q).gather (atCon i Con.receives) as s

/-- They are the first of the events that `con_task` put on the channel. -/
theorem got_kept {as : List EpAct} {s₀ : Ep Q} (h₀ : (sys Q).init s₀)
    (hr : (sys Q).run as s₀ = some s) {i : Nat} {r : EpCon Q} (hi : s.cons[i]? = some r) :
    (Con.evts Q).Kept r.con r.con.events (got i as s₀) := by
  refine run_con (I := fun c l => (Con.evts Q).Kept c c.events l) (fun b c c' hb => ?_) (fun c hc => ?_)
    (fun b c c' l hc hl hs => ?_) h₀ hr hi
  · cases b <;> first | rfl | cases hb
  · obtain ⟨h3Config, con, hq⟩ := hc
    cases hq
    exact ⟨List.nil_prefix, fun _ => rfl⟩
  · rw [Con.events_next hs]
    exact hl.next (Con.evts_lawful Q) hc hs

variable {r : (sys Q).Execution}

/-- Once the user has the receiver of connection `i`, what is queued is taken. -/
theorem FairUsers.takes (h : FairUsers r) {n i : Nat} {c : Con Q}
    (hc : (component Q i).get (r.state n) = some c) (hg : c.evtRecv ≠ .inFlight) :
    ∃ k, ((component Q i).fifo (Con.evts Q)).live (r.state (n + k)) = false ∨
      ((component Q i).fifo (Con.evts Q)).queue (r.state n) <+:
        ((component Q i).fifo (Con.evts Q)).taken (sys Q) (r.acts n k) (r.state n) := by
  have hgiven := (component Q i).keeps (P := fun c => c.evtRecv ≠ .inFlight)
    (fun b c c' _ hs hc => Con.given_step hs hc) hc hg
  refine ((component Q i).fifo_lawful (Con.evts_lawful Q) fun b c c' hb => ?_).polled
    (fair_own (h.cons i)) (fun m hm _ hq => ?_) fun a s s' hr ha hs => ?_
  · cases b <;> first | rfl | cases hb
  · obtain ⟨c', hc', hg'⟩ := hgiven m hm
    refine (enabled_con (fun _ => rfl) i _).mpr
      ⟨c', hc', Con.evtPoll_isSome ((component Q i).reach (r.reach m) c' hc') hg' fun hn => hq ?_⟩
    show ((component Q i).get (r.state m)).elim [] (Con.evts Q).queue = []
    rw [hc']
    exact congrArg (List.map Prod.fst) hn
  · obtain ⟨c, hc, -⟩ := (enabled_con (fun _ => rfl) i s).mp ⟨a, ha, by rw [hs]; rfl⟩
    obtain ⟨c', hc', ⟨b, hb, hst⟩ | ⟨hb, -⟩⟩ := (component Q i).next hr hs hc
    · obtain rfl := Option.some.inj (hb.symm.trans ha)
      show (component Q i).lift Con.receives a s s' ≠ []
      rw [(component Q i).lift_own ha hc hc']
      cases Con.otherStep_cases (a := .evtPoll) (c := c) hst (by rintro ⟨⟩) with
      | evtPoll _ hq =>
        show (c.evt.queue.head?.map Prod.fst).toList ≠ []
        rw [hq]
        nofun
    · exact nomatch hb.symm.trans ha

/-- What the user has of what connection `rc` had for it (module doc). -/
structure Reached (rc : EpCon Q) (got : List ConEvt) : Prop where
  events : rc.con.events <+: got
  messages : ∀ stream, (inbox.out (own stream rc.con.streamEvents)).map (·.toMsg stream) <+:
    (Con.taken got).filter (·.reference = stream)

theorem reached_of_events {rc : EpCon Q} {got : List ConEvt} (h : (Con.sys Q).Reach rc.con)
    (hx : rc.con.evt.rx = true) (hp : rc.con.events <+: got) : Reached rc got := by
  refine ⟨hp, fun stream => ?_⟩
  rw [← Con.messages_of h hx stream]
  exact (hp.filterMap _).filter _

/-- See the module doc. -/
theorem messages_reach (h : FairUsers r) {n i : Nat} {rc : EpCon Q}
    (hi : (r.state n).cons[i]? = some rc) : ∃ m ≥ n, ∃ rc', (r.state m).cons[i]? = some rc' ∧
      (rc'.con.evt.rx = false ∨ Reached rc (got i (r.acts 0 m) (r.state 0))) := by
  cases hx : rc.con.evt.rx with
  | false => exact ⟨n, le_rfl, rc, hi, .inl hx⟩
  | true =>
    obtain ⟨j, hj, ha⟩ := h.arrives (List.getElem?_eq_some_iff.mp hi).1
    -- what was put until the handles arrive, and is not taken, is queued then
    obtain ⟨c, hc, hp⟩ := (component Q i).keeps (P := fun c => rc.con.events <+: c.events)
      (fun b c c' _ hs hp => hp.trans (Con.events_next hs ▸ List.prefix_append _ _))
      (component_get hi) List.prefix_rfl j hj
    obtain ⟨q, hq, hl⟩ := ha.here
    obtain rfl := Option.some.inj (hc.symm.trans (component_get hq))
    cases hxj : q.con.evt.rx with
    | false => exact ⟨j, hj, q, hq, .inl hxj⟩
    | true =>
      obtain ⟨k, hk⟩ := h.takes hc hl.evtRecv
      obtain ⟨c', hc', -⟩ := (component Q i).keeps (P := fun _ => True) (fun _ _ _ _ _ _ => trivial)
        hc trivial (j + k) (Nat.le_add_right j k)
      obtain ⟨q', hq', rfl⟩ := Option.map_eq_some_iff.mp hc'
      refine ⟨j + k, hj.trans (Nat.le_add_right j k), q', hq', ?_⟩
      rcases hk with hk | hk
      · left
        have hk : ((component Q i).get (r.state (j + k))).elim true (Con.evts Q).live = false := hk
        rw [hc'] at hk
        exact hk
      · refine .inr (reached_of_events (cons_reach (r.reach n) hi) hx (hp.trans ?_))
        have hk : ((component Q i).get (r.state j)).elim [] (Con.evts Q).queue <+: _ := hk
        rw [hc] at hk
        have hall := (got_kept r.start (r.run_to j) hq).all hxj
        have htaken : ((component Q i).fifo (Con.evts Q)).taken (sys Q) (r.acts j k) (r.state j) =
            (sys Q).gather (atCon i Con.receives) (r.acts j k) (r.state j) :=
          Lts.gather_congr (fun a s s' _ => lift_component i Con.receives a s s') _ _
        rw [got, r.gather_to, ← htaken, ← hall]
        exact (List.prefix_append_right_inj _).mpr hk

/-- A library in which each connection that is accepted has a request to give. -/
def requesting : Quiche :=
  { Quiche.scripted with
    accept := fun _ _ _ => ((), .ok [.poll (.ok (4, .headers [⟨[1], [2]⟩] false))]) }

/-- A packet makes a connection, which has two events; then the user takes all there is. -/
def oneRequest : List EpAct :=
  EpAct.packet [7] 6 ++ [.udp] ++ List.replicate 20 (.con 0 .task) ++
    [.evtPoll, .con 0 .evtPoll, .con 0 .evtPoll]

theorem messages_reach_one : ∃ (r : (sys requesting).Execution) (rc : EpCon requesting),
    (r.state 20).cons[0]? = some rc ∧ rc.con.messages.map (·.reference) = [4] ∧
      ∃ m ≥ 20, ∃ rc', (r.state m).cons[0]? = some rc' ∧
        (rc'.con.evt.rx = false ∨ Reached rc (got 0 (r.acts 0 m) (r.state 0))) := by
  have hrun : ((sys requesting).run (oneRequest.take 20) (quicheEp (.after 0) () (some ()))).any
      (fun s => s.cons[0]?.any fun rc => decide (rc.con.messages.map (·.reference) = [4])) ∧
      ((sys requesting).run oneRequest (quicheEp (.after 0) () (some ()))).any (fun s =>
        decide (s.connects.length = 0 ∧ s.cons.length = 1) &&
          [EpAct.task, .udp, .evtPoll, .con 0 .evtPoll].all fun a => (step a s).isNone) := by
    decide +kernel
  obtain ⟨d, hd, hat⟩ := (Option.any_eq_true _ _).mp hrun.1
  obtain ⟨s, hs, hend⟩ := (Option.any_eq_true _ _).mp hrun.2
  obtain ⟨rc, hrc, hmsg⟩ := (Option.any_eq_true _ _).mp hat
  obtain ⟨hlen, hend⟩ := Bool.and_eq_true_iff.mp hend
  obtain ⟨hcalls, hcons⟩ := of_decide_eq_true hlen
  have hinit : (sys requesting).init (quicheEp (.after 0) () (some ())) := ⟨0, (), some (), rfl⟩
  obtain ⟨r, hr⟩ : ∃ r, r = Lts.Execution.ofRun hinit (Option.isSome_iff_exists.mpr ⟨s, hs⟩) :=
    ⟨_, rfl⟩
  have hfair : ∀ a, (step a s).isNone → r.Fair fun b => b = a := by
    intro a ha
    subst hr
    exact Lts.Execution.fair_ofRun_act hinit hs ha
  have hall := List.all_eq_true.mp hend
  have hpoll : ∀ i, (step (.con i .evtPoll) s).isNone := by
    intro i
    cases i with
    | zero => exact hall _ (by simp)
    | succ i => exact con_none (by rw [hcons]; omega)
  have hstate : (r.state 20).cons[0]? = some rc := by
    subst hr
    rw [Lts.Execution.state_ofRun hinit _ hd]
    exact hrc
  exact ⟨r, rc, hstate, of_decide_eq_true hmsg, messages_reach
    ⟨⟨⟨hfair _ (hall _ (by simp)), hfair _ (hall _ (by simp)), hfair _ (hall _ (by simp))⟩,
      fun k => hfair _ (connPoll_none (by rw [hcalls]; exact Nat.zero_le k))⟩,
      fun i => hfair _ (hpoll i)⟩ hstate⟩

end Ep
end Absquic
