import Absquic.Conn.Inversion
import Absquic.Lib.Service
import Mathlib.Data.List.InsertIdx

/-!
# Paced packets

Every packet that `send` gives gets a task of its own (line 409), which sleeps until the packet's
pacing time and then hands it to `Udp::send`. So the packets that a connection hands over are those
that `send` gave, each once and not too early, but in the order in which the tasks run.

* `pacing`: the packets that wait and those that were handed over, in a run (`Service`).
* `handed_over`: what was handed over, when, and past whom, in every run.
-/

namespace Absquic

/-- The packet of a call of `send`, with its pacing time. -/
def ConObs.sent? : ConObs → Option Sender
  | .send (.ok (data, info)) =>
    some { atTime := info.atTime, pak := { addr := info.toAddr, data } }
  | _ => none

/-- The packet that was handed to `Udp::send`. -/
def ConObs.handed? : ConObs → Option UdpPak
  | .udpSend pak => some pak
  | _ => none

namespace Con

variable {Q : Quiche}

/-- The packets that `send` gave. -/
def produced (c : Con Q) : List Sender := c.trace.filterMap (·.sent?)

/-- Their pacing times do not decrease. -/
def Chronological (c : Con Q) : Prop := c.produced.Pairwise fun s s' => s.atTime ≤ s'.atTime
deriving Decidable

/-- The packets that were handed to `Udp::send`. -/
def handed (c : Con Q) : List UdpPak := c.trace.filterMap (·.handed?)

/-- What a step does to the packets that wait, and to those that were handed over: each is stamped
with the time. -/
def pace (a : ConAct) (c c' : Con Q) (q : Service Instant) : Service Instant :=
  match a with
  | .udpSend k => q.serve k c.now
  | _ => if c'.produced.length = c.produced.length then q else q.arrive

/-- The packets that wait and those that were handed over, after the run `as`. -/
def pacing (as : List ConAct) (c : Con Q) : Service Instant := (sys Q).history pace as c .new

/-- What a run has handed over (module doc). -/
structure HandedOver (c : Con Q) (q : Service Instant) : Prop where
  /-- They are packets that `send` gave, with their bytes and destinations. -/
  same : c.handed.map some = q.served.map fun x => c.produced[x.number]?.map (·.pak)
  /-- Each packet was handed over once, or waits. -/
  once : (q.numbers ++ q.waiting).Perm (List.range c.produced.length)
  waiting : c.senders.map some = q.waiting.map (c.produced[·]?)
  due : ∀ x ∈ q.served, ∀ s, c.produced[x.number]? = some s → s.atTime ≤ x.stamp
  /-- A packet that was given earlier is overtaken only once its own time has come. -/
  overtaken : ∀ x ∈ q.served, ∀ m ∈ x.overtaken, m < x.number ∧
    ∀ s, c.produced[m]? = some s → s.atTime ≤ x.stamp
  /-- They are handed over in the order in which `send` gave them exactly if none is overtaken. -/
  order : q.numbers = List.range q.served.length ↔ ∀ x ∈ q.served, x.overtaken = []
  inOrder : (∀ x ∈ q.served, x.overtaken = []) → c.handed <+: c.produced.map (·.pak)

/-! ## The steps -/

/-- What a step does about the packets. -/
inductive PaceStep (c c' : Con Q) : ConAct → Prop
  | handOver {k s} (hk : c.senders[k]? = some s) (ht : s.atTime ≤ c.now)
    (hs : c'.senders = c.senders.eraseIdx k) (hp : c'.produced = c.produced)
    (hh : c'.handed = c.handed ++ [s.pak]) : PaceStep c c' (.udpSend k)
  | produce {a s} (ha : ∀ k, a ≠ .udpSend k) (hs : c'.senders = c.senders ++ [s])
    (hp : c'.produced = c.produced ++ [s]) (hh : c'.handed = c.handed) : PaceStep c c' a
  | other {a} (ha : ∀ k, a ≠ .udpSend k) (hs : c'.senders = c.senders)
    (hp : c'.produced = c.produced) (hh : c'.handed = c.handed) : PaceStep c c' a

theorem produced_append {c c' : Con Q} {l : List ConObs} (ht : c'.trace = c.trace ++ l) :
    c'.produced = c.produced ++ l.filterMap (·.sent?) := by
  rw [produced, produced, ht, List.filterMap_append]

theorem handed_append {c c' : Con Q} {l : List ConObs} (ht : c'.trace = c.trace ++ l) :
    c'.handed = c.handed ++ l.filterMap (·.handed?) := by
  rw [handed, handed, ht, List.filterMap_append]

/-- A step that has no part in it. -/
theorem PaceStep.silent {a : ConAct} {c c' : Con Q} (ha : ∀ k, a ≠ .udpSend k)
    (hs : c'.senders = c.senders) {l : List ConObs} (ht : c'.trace = c.trace ++ l)
    (hl : ∀ o ∈ l, o.sent? = none ∧ o.handed? = none) : PaceStep c c' a := by
  refine .other ha hs ?_ ?_
  · rw [produced_append ht, List.filterMap_eq_nil_iff.mpr fun o ho => (hl o ho).1, List.append_nil]
  · rw [handed_append ht, List.filterMap_eq_nil_iff.mpr fun o ho => (hl o ho).2, List.append_nil]

theorem PaceStep.obs {a : ConAct} {c c' : Con Q} (ha : ∀ k, a ≠ .udpSend k)
    (hs : c'.senders = c.senders) {o : ConObs} (ht : c'.trace = c.trace ++ [o])
    (ho : o.sent? = none ∧ o.handed? = none) : PaceStep c c' a :=
  .silent ha hs ht (List.forall_mem_singleton.mpr ho)

/-- One round of the loop at lines 385-417. -/
theorem pace_send (c : Con Q) : PaceStep c c.send .task := by
  unfold send
  rcases hq : Q.send c.now c.sendBuf c.con with ⟨con, r⟩
  simp only
  split
  · exact .obs nofun rfl (o := .send (.error .done)) rfl ⟨rfl, rfl⟩
  · next err _ => exact .obs nofun rfl (o := .send (.error err)) rfl ⟨rfl, rfl⟩
  · next data info =>
    refine .produce (s := ⟨info.atTime, ⟨info.toAddr, data⟩⟩) nofun rfl ?_ ?_
    · exact produced_append (l := [.send (.ok (data, info))]) rfl
    · exact (handed_append (l := [.send (.ok (data, info))]) rfl).trans (List.append_nil _)

theorem pace_task {c c' : Con Q} (h : TaskStep c c') (hn : c.pc ≠ .send) :
    PaceStep c c' .task := by
  cases h with
  | take | reserve | skip | requested | reserveH3 | flush | unsent =>
    exact .silent nofun rfl (l := []) (List.append_nil _).symm nofun
  | @dispatch cmd d =>
    obtain ⟨⟨_, _, _, _, _, _, he⟩, l, hl, ho⟩ := dispatch_spec c cmd
    refine .silent nofun (?_ : (c.dispatch cmd).senders = _) (l := l ++ [.timeout d]) ?_ ?_
    · rw [he]
    · show (c.dispatch cmd).trace ++ _ = _
      rw [hl, List.append_assoc]
    · intro o hm
      rcases List.mem_append.mp hm with hm | hm
      · rcases ho o hm with rfl | rfl <;> exact ⟨rfl, rfl⟩
      · rw [List.mem_singleton.mp hm]; exact ⟨rfl, rfl⟩
  | @connect c₁ _ _ _ _ _ h1 =>
    obtain ⟨l, hl, ho, -⟩ := trace_setupH3 { c with connected := true }
    rw [← h1] at hl
    refine .silent nofun (?_ : c₁.senders = _) (l := l ++ c.put .connected) ?_ ?_
    · rw [h1, setupH3_spec]
    · show c₁.trace ++ _ = _
      rw [hl, List.append_assoc]
    · intro o hm
      rcases List.mem_append.mp hm with hm | hm
      · have := ho o hm
        cases o <;> first | cases this; done | exact ⟨rfl, rfl⟩
      · unfold put at hm
        split at hm
        · rw [List.mem_singleton.mp hm]; exact ⟨rfl, rfl⟩
        · cases hm
  | request | pollDone | pollErr | goAway | event | bodyDone | bodyErr | dgramDone | dgramErr
  | badFlow | dgram =>
    exact .obs nofun rfl rfl ⟨rfl, rfl⟩
  | message =>
    exact .silent nofun rfl (l := [_, _]) rfl (by simp [ConObs.sent?, ConObs.handed?])
  | lost _ _ _ _ _ _ _ h1 =>
    subst h1
    exact .obs nofun rfl rfl ⟨rfl, rfl⟩
  | @chunk _ x stream chunk =>
    obtain ⟨m, hm⟩ := pushBody_spec (c.called x (.recvBody stream (.ok chunk))) stream chunk
    rw [hm]
    exact .obs nofun rfl rfl ⟨rfl, rfl⟩
  | sendDone hpc | sendErr hpc | sent hpc => exact absurd hpc hn

theorem pace_other {a : ConAct} {c c' : Con Q} (hs : step a c = some c') (ha : a ≠ .task) :
    PaceStep c c' a := by
  cases otherStep_cases hs ha with
  | @udpSend k s hk =>
    change c.udpSend k = some _ at hs
    rw [udpSend, hk] at hs
    simp only at hs
    split at hs
    · next ht =>
      refine .handOver hk ht rfl ?_ ?_
      · exact (produced_append (l := [.udpSend s.pak]) rfl).trans (List.append_nil _)
      · exact handed_append (l := [.udpSend s.pak]) rfl
    · cases hs
  | sendInPak => exact .obs nofun rfl rfl ⟨rfl, rfl⟩
  | _ => exact .silent nofun rfl (l := []) (List.append_nil _).symm nofun

theorem pace_cases {a : ConAct} {c c' : Con Q} (h : (sys Q).Reach c) (hs : step a c = some c') :
    PaceStep c c' a := by
  by_cases ha : a = .task
  · subst ha
    have hs : c.taskStep = some c' := hs
    by_cases hpc : c.pc = .send
    · rw [taskStep, hpc] at hs
      cases hs
      exact pace_send c
    · exact pace_task (taskStep_cases hs (sys_control h)) hpc
  · exact pace_other hs ha

/-! ## The runs -/

/-- The packets that wait have their tasks, and those that were handed over were due. -/
structure Paced (c : Con Q) (q : Service Instant) : Prop where
  ok : q.Ok
  arrived : q.arrived = c.produced.length
  senders : c.senders.map some = q.waiting.map (c.produced[·]?)
  handed : c.handed.map some = q.served.map fun x => c.produced[x.number]?.map (·.pak)
  due : ∀ x ∈ q.served, ∀ s, c.produced[x.number]? = some s → s.atTime ≤ x.stamp

theorem pace_of_ne {a : ConAct} {c c' : Con Q} {q : Service Instant} (ha : ∀ k, a ≠ .udpSend k) :
    pace a c c' q = if c'.produced.length = c.produced.length then q else q.arrive := by
  cases a with
  | udpSend k => exact absurd rfl (ha k)
  | _ => rfl

/-- A task hands its packet over. -/
theorem paced_handOver {c c' : Con Q} {q : Service Instant} {k : Nat} {s : Sender} (h : Paced c q)
    (hk : c.senders[k]? = some s) (ht : s.atTime ≤ c.now) (hs : c'.senders = c.senders.eraseIdx k)
    (hp : c'.produced = c.produced) (hh : c'.handed = c.handed ++ [s.pak]) :
    Paced c' (q.serve k c.now) := by
  obtain ⟨n, hn, hps⟩ : ∃ n, q.waiting[k]? = some n ∧ c.produced[n]? = some s := by
    have := congrArg (·[k]?) h.senders
    simp only [List.getElem?_map, hk, Option.map_some] at this
    exact Option.map_eq_some_iff.mp this.symm
  have hok := h.ok.serve hn c.now
  have harr := Service.arrived_serve hn c.now
  rw [Service.serve_eq hn] at hok harr ⊢
  refine ⟨hok, ?_, ?_, ?_, fun x hx y hy => ?_⟩
  · rw [harr, h.arrived, hp]
  · rw [hs, hp, ← List.eraseIdx_map, ← List.eraseIdx_map, h.senders]
  · rw [hh, hp, List.map_append, List.map_append, h.handed]
    simp [hps]
  · rw [hp] at hy
    rcases List.mem_append.mp hx with hx | hx
    · exact h.due x hx y hy
    · obtain rfl := List.mem_singleton.mp hx
      obtain rfl : y = s := Option.some.inj (hy.symm.trans hps)
      exact ht

/-- `send` gives a packet. -/
theorem paced_produce {c c' : Con Q} {q : Service Instant} {s : Sender} (h : Paced c q)
    (hs : c'.senders = c.senders ++ [s]) (hp : c'.produced = c.produced ++ [s])
    (hh : c'.handed = c.handed) : Paced c' q.arrive := by
  have hget : ∀ n < q.arrived, c'.produced[n]? = c.produced[n]? := fun n hn => by
    rw [hp, List.getElem?_append_left (h.arrived ▸ hn)]
  have hlast : c'.produced[q.arrived]? = some s := by
    rw [hp, h.arrived, List.getElem?_concat_length]
  refine ⟨h.ok.arrive, ?_, ?_, ?_, fun x hx y hy => ?_⟩
  · rw [Service.arrived_arrive, h.arrived, hp, List.length_append, List.length_singleton]
  · show _ = (q.waiting ++ [q.arrived]).map _
    rw [hs, List.map_append, List.map_append, h.senders, List.map_singleton, List.map_singleton,
      hlast, List.map_congr_left fun n hn => hget n (h.ok.waiting_lt hn)]
  · rw [hh, h.handed]
    exact List.map_congr_left fun x hx => by rw [hget _ (h.ok.served_lt hx)]
  · rw [hget _ (h.ok.served_lt hx)] at hy
    exact h.due x hx y hy

theorem paced_next {a : ConAct} {c c' : Con Q} {q : Service Instant} (h : (sys Q).Reach c)
    (hp : Paced c q) (hs : step a c = some c') : Paced c' (pace a c c' q) := by
  cases pace_cases h hs with
  | handOver hk ht hsd hpr hh => exact paced_handOver hp hk ht hsd hpr hh
  | produce ha hsd hpr hh =>
    rw [pace_of_ne ha, if_neg (by simp [hpr])]
    exact paced_produce hp hsd hpr hh
  | other ha hsd hpr hh =>
    rw [pace_of_ne ha, if_pos (by rw [hpr])]
    refine ⟨hp.ok, ?_, ?_, ?_, ?_⟩
    · rw [hpr]; exact hp.arrived
    · rw [hpr, hsd]; exact hp.senders
    · rw [hpr, hh]; exact hp.handed
    · rw [hpr]; exact hp.due

theorem run_paced {as : List ConAct} {c₀ c : Con Q} (h₀ : (sys Q).init c₀)
    (hr : (sys Q).run as c₀ = some c) : Paced c (pacing as c₀) := by
  refine Lts.run_history (I := Paced) (fun a c c' q h hp hs => paced_next h hp hs) (.init h₀) hr ?_
  obtain ⟨h3Config, con, hq⟩ := h₀
  cases hq
  exact ⟨.new, rfl, rfl, rfl, nofun⟩

/-- The sequence of the packets that were handed over, if none was overtaken. -/
theorem Paced.inOrder {c : Con Q} {q : Service Instant} (h : Paced c q)
    (ho : ∀ x ∈ q.served, x.overtaken = []) : c.handed <+: c.produced.map (·.pak) := by
  have hlen : q.served.length ≤ (c.produced.map (·.pak)).length := by
    rw [List.length_map, ← h.arrived]
    exact Nat.le_add_right _ _
  have hmap : c.handed.map some = ((c.produced.map (·.pak)).take q.served.length).map some :=
    calc c.handed.map some
      _ = q.numbers.map fun n => c.produced[n]?.map (·.pak) := by
        rw [h.handed, Service.numbers, List.map_map]; rfl
      _ = (List.range q.served.length).map ((c.produced.map (·.pak))[·]?) := by
        rw [h.ok.order_iff.mpr ho]
        exact List.map_congr_left fun n _ => (List.getElem?_map ..).symm
      _ = _ := List.map_range_getElem? hlen
  rw [(List.map_inj_right fun _ _ => Option.some.inj).mp hmap]
  exact List.take_prefix _ _

/-- In every run, under any scheduling of the tasks (module doc). -/
theorem handed_over {as : List ConAct} {c₀ c : Con Q} (h₀ : (sys Q).init c₀)
    (hr : (sys Q).run as c₀ = some c) (ht : c.Chronological) : HandedOver c (pacing as c₀) := by
  have h := run_paced h₀ hr
  refine ⟨h.handed, h.arrived ▸ h.ok.once, h.senders, h.due, fun x hx m hm => ?_, h.ok.order_iff,
    h.inOrder⟩
  obtain ⟨pre, post, hp⟩ := List.append_of_mem hx
  obtain ⟨hlt, -⟩ := h.ok.behind pre x post hp m hm
  refine ⟨hlt, fun s hs => ?_⟩
  obtain ⟨hm, rfl⟩ := List.getElem?_eq_some_iff.mp hs
  have hn : x.number < c.produced.length := h.arrived ▸ h.ok.served_lt hx
  calc c.produced[m].atTime
    _ ≤ c.produced[x.number].atTime := List.pairwise_iff_getElem.mp ht m _ hm hn hlt
    _ ≤ x.stamp := h.due x hx _ (List.getElem?_eq_getElem hn)

/-- A library whose connections hold the packets that `send` gives. -/
def sending : Quiche :=
  { Quiche.inert ([] : List (Bytes × SendInfo)) with
    send := fun _ _ (con : List (Bytes × SendInfo)) => match con with
      | pak :: con => (con, .ok pak)
      | [] => ([], .error .done) }

/-- `con_task` handles the first `Tick`, `send` gives two packets that are due, and the tasks run as
`ks` says. -/
def sendingRun (ks : List Nat) : List ConAct := List.replicate 8 .task ++ ks.map .udpSend

theorem reach_sending (ks : List Nat) (p : Con sending → Bool)
    (h : (quicheCon (Q := sending) none [([1], ⟨.unspecified, 0⟩), ([2], ⟨.unspecified, 0⟩)]).any
      fun c₀ => ((sys sending).run (sendingRun ks) c₀).any p) :
    ∃ c₀ c, (sys sending).init c₀ ∧ (sys sending).run (sendingRun ks) c₀ = some c ∧ p c := by
  obtain ⟨c₀, h₀, h⟩ := (Option.any_eq_true _ _).mp h
  obtain ⟨c, hc, hp⟩ := (Option.any_eq_true _ _).mp h
  exact ⟨c₀, c, ⟨_, _, h₀⟩, hc, hp⟩

/-- The tasks run in turn. -/
theorem handed_over_two : ∃ c₀ c : Con sending, HandedOver c (pacing (sendingRun [0, 0]) c₀) ∧
    c.handed = [⟨.unspecified, [1]⟩, ⟨.unspecified, [2]⟩] := by
  obtain ⟨c₀, c, h₀, hr, hc⟩ := reach_sending [0, 0]
    (fun c : Con sending => decide c.Chronological &&
      decide (c.handed = [⟨.unspecified, [1]⟩, ⟨.unspecified, [2]⟩])) (by decide +kernel)
  obtain ⟨ht, hh⟩ := Bool.and_eq_true_iff.mp hc
  exact ⟨c₀, c, handed_over h₀ hr (of_decide_eq_true ht), of_decide_eq_true hh⟩

/-- The second packet's task runs first. -/
theorem not_in_order : ¬ ∀ (Q : Quiche) (c : Con Q), (sys Q).Reach c → c.Chronological →
    c.handed <+: c.produced.map (·.pak) := by
  intro h
  obtain ⟨c₀, c, h₀, hr, hc⟩ := reach_sending [1]
    (fun c : Con sending => decide c.Chronological &&
      !decide (c.handed <+: c.produced.map (·.pak))) (by decide +kernel)
  obtain ⟨ht, hn⟩ := Bool.and_eq_true_iff.mp hc
  have hpre := h _ c (.run h₀ hr) (of_decide_eq_true ht)
  rw [decide_eq_true hpre] at hn
  cases hn

end Con
end Absquic
