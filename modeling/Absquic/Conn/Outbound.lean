import Absquic.Conn.Slots
import Absquic.Conn.Outside
import Absquic.Conn.Inversion

/-!
# The outgoing messages

A message that `con_task` takes goes with its reply slot into `h3_outbound_wait`, or into
`h3_outbound` under its reference. The unfinished loop sends none of them, so there they stay
(`held`). `CallStep` is what the other parties do to the calls and to the slots that are queued;
with it each slot is in one place (`sys_once`).

* `kept_unused`: while no response comes with a reference that is in use, no message is lost, and no
  call gets `ConShutdown` from a task that runs. A reference in use loses the message that was held
  under it (`replaced_of_used`).
* `unheld_iff`: without an h3 connection nothing answers: the task waits without held messages if
  and only if it has handled no `Http3` command.
-/

namespace Absquic

/-- The command is not yet on its way. -/
def Http3Call.unsent : Http3Call → Bool
  | .acquire _ | .send _ _ => true
  | _ => false

namespace Con

variable {Q : Quiche}

/-! ## The calls -/

/-- The reply slots in the command queue. -/
def queued (c : Con Q) : List Nat := c.cmd.queue.filterMap (·.1.rsp?)

/-- The call has sent its command. -/
def Sent (c : Con Q) (k : Nat) : Prop := ∃ x, c.calls[k]? = some x ∧ x.unsent = false

/-- What another party does to the calls of a connection that runs. -/
inductive CallStep (c c' : Con Q) : Prop
  | none (hc : c'.calls = c.calls) (hq : c'.queued = c.queued)
  | call (item : Http3Msg) (hc : c'.calls = c.calls ++ [.acquire item]) (hq : c'.queued = c.queued)
  | acquired (k : Nat) (item : Http3Msg) (g : ConSem) (hk : c.calls[k]? = some (.acquire item))
    (hc : c'.calls = c.calls.set k (.send item g)) (hq : c'.queued = c.queued)
  | sent (k : Nat) (item : Http3Msg) (g : ConSem) (hk : c.calls[k]? = some (.send item g))
    (hc : c'.calls = c.calls.set k .wait) (hq : c'.queued = c.queued ++ [k])
  | cancelled (k : Nat) (hc : c'.calls = c.calls.set k .cancelled) (hq : c'.queued = c.queued)

theorem queued_push (c : Con Q) (cmd : ConCmd) (g : ConSem) :
    ({ c with cmd := c.cmd.push cmd g } : Con Q).queued = c.queued ++ cmd.rsp?.toList := by
  unfold queued
  rw [show ({ c with cmd := c.cmd.push cmd g } : Con Q).cmd.queue = c.cmd.queue ++ [(cmd, g)] from rfl,
    List.filterMap_append]
  cases cmd <;> rfl

/-- The steps of the other parties. -/
theorem call_other {a : ConAct} {c c' : Con Q} (h : step a c = some c') (ha : a ≠ .task)
    (hr : c.cmd.rx = true) : CallStep c c' := by
  cases otherStep_cases h ha with
  | fire => exact .none rfl ((queued_push c _ _).trans (List.append_nil _))
  | http3 => exact .call _ rfl rfl
  | callAcquire hk => exact .acquired _ _ .cmd hk rfl rfl
  | callSend hk => exact .sent _ _ _ hk rfl (queued_push c _ _)
  | callLost _ hn => exact nomatch hn.symm.trans hr
  | callCancel => exact .cancelled _ rfl rfl
  | sendInPak => exact .none rfl ((queued_push c _ _).trans (List.append_nil _))
  | _ => exact .none rfl rfl

/-- What was sent stays sent. -/
theorem CallStep.keeps {c c' : Con Q} (h : CallStep c c') {k : Nat} (hs : Sent c k) : Sent c' k := by
  obtain ⟨x, hx, hn⟩ := hs
  have hlt : k < c.calls.length := (List.getElem?_eq_some_iff.mp hx).choose
  -- one call changed, which had not sent its command or is cancelled
  have hset : ∀ {j y}, c'.calls = c.calls.set j y → (j = k → y.unsent = false) → Sent c' k := by
    intro j y hc hy
    by_cases hjk : j = k
    · subst hjk
      exact ⟨y, by rw [hc, List.getElem?_set_self hlt], hy rfl⟩
    · exact ⟨x, by rw [hc, List.getElem?_set_ne hjk, hx], hn⟩
  cases h with
  | none hc => exact ⟨x, hc ▸ hx, hn⟩
  | call item hc =>
    refine ⟨x, ?_, hn⟩
    rw [hc, List.getElem?_append_left hlt, hx]
  | acquired j item g hk hc =>
    refine hset hc fun hjk => ?_
    rw [hjk, hx] at hk
    cases hk
    cases hn
  | sent j item g hk hc => exact hset hc fun _ => rfl
  | cancelled j hc => exact hset hc fun _ => rfl

/-- A call that is answered with `ConShutdown` was so before. -/
theorem CallStep.shutdown {c c' : Con Q} (h : CallStep c c') {k : Nat}
    (hk : c'.calls[k]? = some (.done (.error conShutdown))) :
    c.calls[k]? = some (.done (.error conShutdown)) := by
  have hset : ∀ {j y}, c'.calls = c.calls.set j y → y ≠ .done (.error conShutdown) →
      c.calls[k]? = some (.done (.error conShutdown)) := by
    intro j y hc hy
    rw [hc, List.getElem?_set] at hk
    split at hk
    · split at hk
      · exact absurd (Option.some.inj hk) hy
      · cases hk
    · exact hk
  cases h with
  | none hc => rwa [hc] at hk
  | call item hc =>
    rw [hc] at hk
    exact (List.getElem?_concat_cases hk).resolve_right fun h => nomatch h.2
  | acquired j item g _ hc => exact hset hc nofun
  | sent j item g _ hc => exact hset hc nofun
  | cancelled j hc => exact hset hc nofun

/-! ## One place for each slot -/

/-- The messages that `con_task` holds. -/
def held (c : Con Q) : List H3OutboundProgress :=
  c.h3OutboundWait ++ c.h3Outbound.entries.map Sigma.snd

/-- The slot of the command in hand. -/
def inHand (c : Con Q) : List Nat :=
  match c.pc with
  | .cmd cmd => cmd.rsp?.toList
  | _ => []

theorem slots_eq (c : Con Q) : c.slots = c.queued ++ c.held.map (·.rsp) ++ c.inHand := by
  unfold slots ownedRsps held queued inHand
  rw [List.map_append, List.map_map, List.append_assoc (List.filterMap _ _)]
  rfl

/-- No slot is in two places, and none belongs to a call that has not sent its command. -/
structure Once (c : Con Q) : Prop where
  nodup : c.slots.Nodup
  sent : ∀ k ∈ c.slots, Sent c k

theorem Once.of_over {c : Con Q} (hc : Control c) (ho : c.pc.over) : Once c := by
  have hs : c.slots = [] := by
    obtain ⟨h1, h2, h3⟩ := hc.drained ho
    unfold slots ownedRsps
    rw [h1, h2, h3]
    cases hp : c.pc <;> first | rfl | (rw [hp] at ho; cases ho)
  constructor
  · rw [hs]; exact List.nodup_nil
  · rw [hs]; exact nofun

theorem once_other {a : ConAct} {c c' : Con Q} (h : step a c = some c') (ha : a ≠ .task)
    (hc : Control c) (ho : Once c) : Once c' := by
  have hf := frame_step h ha
  by_cases hov : c.pc.over
  · exact .of_over (hc.frame hf) (by rw [hf.pc]; exact hov)
  · have hcall := call_other h ha (by rw [hc.rx, Bool.eq_false_iff.mpr hov]; rfl)
    have hrest : c'.held = c.held ∧ c'.inHand = c.inHand := by
      unfold held inHand
      rw [hf.h3OutboundWait, hf.h3Outbound, hf.pc]
      exact ⟨rfl, rfl⟩
    have hsame : c'.queued = c.queued → Once c' := by
      intro hq
      have hs : c'.slots = c.slots := by
        rw [slots_eq, slots_eq, hq, hrest.1, hrest.2]
      constructor
      · rw [hs]; exact ho.nodup
      · rw [hs]; exact fun k hk => hcall.keeps (ho.sent k hk)
    cases id hcall with
    | none _ hq | call _ _ hq | acquired _ _ _ _ _ hq | cancelled _ _ hq => exact hsame hq
    | sent k item g hk hc' hq =>
      have hperm : c'.slots.Perm (k :: c.slots) := by
        rw [slots_eq, slots_eq, hq, hrest.1, hrest.2, List.append_assoc, List.append_assoc,
          List.append_assoc]
        exact List.perm_middle
      have hnot : k ∉ c.slots := by
        intro hm
        obtain ⟨x, hx, hn⟩ := ho.sent k hm
        rw [hk] at hx
        cases hx
        cases hn
      constructor
      · exact hperm.nodup_iff.mpr (List.nodup_cons.mpr ⟨hnot, ho.nodup⟩)
      · intro j hj
        rcases List.mem_cons.mp (hperm.subset hj) with rfl | hj
        · exact ⟨.wait, by rw [hc', List.getElem?_set_self (List.getElem?_eq_some_iff.mp hk).choose],
            rfl⟩
        · exact hcall.keeps (ho.sent j hj)

/-! ## `con_task` -/

/-- The calls and the held messages are the same. -/
structure Rest (c c' : Con Q) : Prop where
  calls : c'.calls = c.calls
  h3OutboundWait : c'.h3OutboundWait = c.h3OutboundWait
  h3Outbound : c'.h3Outbound = c.h3Outbound

/-- What a step of `con_task` does to the slots: it takes a command, or handles it, or leaves them
alone, or ends the task. -/
inductive Hands (c c' : Con Q) : Prop
  | take (cmd : ConCmd) (hpc : c.inHand = []) (hpc' : c'.pc = .cmd cmd)
    (hq : c.queued = cmd.rsp?.toList ++ c'.queued) (hr : Rest c c')
  | dispatch (cmd : ConCmd) (hpc : c.pc = .cmd cmd) (hpc' : c'.inHand = [])
    (hq : c'.queued = c.queued) (hr : Rest (c.dispatch cmd) c')
  | rest (hpc : c.inHand = []) (hpc' : c'.inHand = []) (hq : c'.queued = c.queued) (hr : Rest c c')
  | ended (ho : c'.pc.over)

theorem inHand_inBody {c : Con Q} (h : c.pc.inBody) : c.inHand = [] := by
  unfold inHand
  cases hp : c.pc <;> first | rfl | (rw [hp] at h; cases h)

theorem inHand_enterH3 (c : Con Q) : c.enterH3.inHand = [] := by
  unfold enterH3
  cases c.h3Con <;> rfl

/-- Only the receive loop puts a command in hand. -/
theorem inHand_task {c c' : Con Q} (h : TaskStep c c') (hb : c.pc.inBody) : c'.inHand = [] := by
  cases h with
  | take hpc => rw [hpc] at hb; cases hb
  | connect | skip => exact inHand_enterH3 _
  | request _ hp => rcases hp with rfl | rfl <;> rfl
  | @event _ _ stream e => cases e <;> rfl
  | @chunk _ x stream chunk hpc =>
    obtain ⟨m, hm⟩ := pushBody_spec (c.called x (.recvBody stream (.ok chunk))) stream chunk
    rw [hm]
    exact inHand_inBody hb
  | dgram | sent => exact inHand_inBody hb
  | _ => rfl

theorem hands_task {c c' : Con Q} (h : c.taskStep = some c') (hc : Control c) : Hands c c' := by
  have ht := taskStep_cases h hc
  by_cases hb : c.pc.inBody
  · cases body_taskStep h hb with
    | go k =>
      refine .rest (inHand_inBody hb) (inHand_task ht hb) ?_
        ⟨k.calls, k.h3OutboundWait, k.h3Outbound⟩
      unfold queued
      rw [k.queue]
    | ret => exact .ended rfl
  · cases ht with
    | @take cmd g rest hpc hq =>
      refine .take cmd (by unfold inHand; rw [hpc]) rfl ?_ ⟨rfl, rfl, rfl⟩
      unfold queued
      rw [hq, List.filterMap_cons]
      cases cmd <;> rfl
    | @dispatch cmd _ _ _ hpc =>
      obtain ⟨⟨con, calls, wait, outbound, shouldSend, trace, hd⟩, -⟩ := dispatch_spec c cmd
      refine .dispatch cmd hpc rfl ?_ ⟨rfl, rfl, rfl⟩
      show (c.dispatch cmd).queued = _
      rw [hd]
      rfl
    | reserve hpc | connect hpc | skip hpc | requested hpc | request hpc | reserveH3 hpc
    | pollDone hpc | pollErr hpc | goAway hpc | event hpc | message hpc | lost hpc | bodyDone hpc
    | bodyErr hpc | chunk hpc | dgramDone hpc | dgramErr hpc | badFlow hpc | dgram hpc | flush hpc
    | unsent hpc | sendDone hpc | sendErr hpc | sent hpc => exact absurd (by rw [hpc]; rfl) hb

/-! ## One place for each slot, in every run -/

/-- What is kept of a message that was taken. -/
def ofMsg (item : Http3Msg) (rsp : Nat) : H3OutboundProgress where
  reference := if item.reference = u64Max then none else some item.reference
  headers := some item.headers
  body := item.body
  rsp

/-- The message that a taken message replaces. -/
def replaced (c : Con Q) (item : Http3Msg) : Option H3OutboundProgress :=
  if item.reference = u64Max then none else c.h3Outbound.lookup item.reference

/-- The entries of a map, with the one at `k` in front. -/
theorem entries_perm {κ α : Type} [DecidableEq κ] (m : HashMap κ α) (k : κ) :
    (m.entries.map Sigma.snd).Perm
      ((m.lookup k).toList ++ (List.kerase k m.entries).map Sigma.snd) := by
  rcases hl : m.lookup k with _ | a
  · rw [List.kerase_of_notMem_keys (AList.lookup_eq_none.mp hl)]
    exact .refl _
  · have hk : k ∈ m.entries.keys := AList.lookup_isSome.mp (by rw [hl]; rfl)
    obtain ⟨b, l₁, l₂, -, he, hke⟩ := List.exists_of_kerase hk
    have hb : m.lookup k = some b := AList.mem_lookup_iff.mpr (by rw [he]; simp)
    rw [hl] at hb
    cases hb
    rw [hke, he]
    simp

/-- What is held after an `Http3` command, with what it replaces. -/
theorem held_dispatch (c : Con Q) (item : Http3Msg) (rsp : Nat) :
    ((c.replaced item).toList ++ (c.dispatch (.http3 item rsp)).held).Perm
      (ofMsg item rsp :: c.held) := by
  unfold replaced
  rw [dispatch]
  by_cases href : item.reference = u64Max
  · simp only [ofMsg, if_pos href]
    show (c.h3OutboundWait ++ [_] ++ c.h3Outbound.entries.map Sigma.snd).Perm _
    rw [List.append_assoc]
    exact List.perm_middle
  · simp only [if_neg href]
    -- the new message, what it replaces, and the others
    have hfront : ((c.h3Outbound.lookup item.reference).toList ++ c.h3OutboundWait ++
        ofMsg item rsp :: (List.kerase item.reference c.h3Outbound.entries).map Sigma.snd).Perm _ :=
      List.perm_middle
    have hrest : ((c.h3Outbound.lookup item.reference).toList ++ c.h3OutboundWait ++
        (List.kerase item.reference c.h3Outbound.entries).map Sigma.snd).Perm c.held := by
      refine (List.perm_append_comm.append_right _).trans ?_
      rw [List.append_assoc]
      exact (entries_perm c.h3Outbound item.reference).symm.append_left _
    rw [List.append_assoc, ofMsg, if_neg href] at hfront
    rw [ofMsg, if_neg href]
    exact hfront.trans (hrest.cons _)

/-- Any other command holds nothing. -/
theorem held_dispatch_other (c : Con Q) {cmd : ConCmd} (h : cmd.rsp? = none) :
    (c.dispatch cmd).held = c.held ∧ (c.dispatch cmd).calls = c.calls := by
  cases cmd with
  | http3 => cases h
  | tick | timeout | inPak => exact ⟨rfl, rfl⟩

theorem Rest.held {c c' : Con Q} (h : Rest c c') : c'.held = c.held := by
  unfold Con.held
  rw [h.h3OutboundWait, h.h3Outbound]

theorem sent_dropRsps {c : Con Q} (rs : List Nat) {k : Nat} (h : Sent c k) :
    Sent (c.dropRsps rs) k := by
  obtain ⟨x, hx, hn⟩ := h
  refine ⟨if x = .wait ∧ k ∈ rs then .done (.error conShutdown) else x, ?_, ?_⟩
  · unfold dropRsps
    rw [List.getElem?_mapIdx, hx]
    rfl
  · split
    · rfl
    · exact hn

theorem sent_dispatch {c : Con Q} (cmd : ConCmd) {k : Nat} (h : Sent c k) :
    Sent (c.dispatch cmd) k := by
  cases cmd with
  | http3 item rsp =>
    rw [dispatch]
    split
    · exact h
    · exact sent_dropRsps _ h
  | tick | timeout | inPak => exact h

/-- No command makes a new slot. -/
theorem slots_dispatch (c : Con Q) (cmd : ConCmd) :
    ((c.dispatch cmd).held.map (·.rsp)).Subperm (c.held.map (·.rsp) ++ cmd.rsp?.toList) := by
  cases hr : cmd.rsp? with
  | none =>
    rw [(held_dispatch_other c hr).1, Option.toList_none, List.append_nil]
  | some k =>
    obtain ⟨item, rfl⟩ : ∃ item, cmd = .http3 item k := by
      cases cmd <;> cases hr
      exact ⟨_, rfl⟩
    have hperm := (held_dispatch c item k).map (·.rsp)
    rw [List.map_append, List.map_cons] at hperm
    refine List.Subperm.trans (List.sublist_append_right _ _).subperm (hperm.trans ?_).subperm
    exact (List.perm_append_singleton k _).symm

theorem once_task {c c' : Con Q} (h : c.taskStep = some c') (hc : Control c) (ho : Once c) :
    Once c' := by
  have hs : c'.pc.over = true ∨ c'.slots.Subperm c.slots ∧ ∀ k, Sent c k → Sent c' k := by
    rw [slots_eq, slots_eq]
    cases hands_task h hc with
    | take cmd hpc hpc' hq hr =>
      refine .inr ⟨?_, fun k hk => by unfold Sent; rw [hr.calls]; exact hk⟩
      have hin : c'.inHand = cmd.rsp?.toList := by
        unfold inHand
        rw [hpc']
      rw [hin, hr.held, hq, hpc, List.append_nil, List.append_assoc cmd.rsp?.toList]
      exact List.perm_append_comm.subperm
    | dispatch cmd hpc hpc' hq hr =>
      refine .inr ⟨?_, fun k hk => by unfold Sent; rw [hr.calls]; exact sent_dispatch cmd hk⟩
      rw [hpc', hr.held, hq, List.append_nil, List.append_assoc]
      unfold inHand
      rw [hpc]
      exact (List.subperm_append_left _).mpr (slots_dispatch c cmd)
    | rest hpc hpc' hq hr =>
      refine .inr ⟨?_, fun k hk => by unfold Sent; rw [hr.calls]; exact hk⟩
      rw [hpc, hpc', hq, hr.held]
    | ended hov => exact .inl hov
  rcases hs with hov | ⟨⟨l, hp, hl⟩, hsent⟩
  · exact .of_over (control_taskStep h hc) hov
  · refine ⟨hp.nodup_iff.mp (ho.nodup.sublist hl), fun k hk => ?_⟩
    exact hsent k (ho.sent k (hl.subset (hp.symm.subset hk)))

theorem sys_once {c : Con Q} (h : (sys Q).Reach c) : Once c := by
  refine h.invariant ?_ ?_
  · rintro c ⟨h3Config, con, hq⟩
    cases hq
    exact ⟨List.nodup_nil, nofun⟩
  · intro a c c' hr ho hst
    by_cases ha : a = .task
    · subst ha; exact once_task hst (sys_control hr) ho
    · exact once_other (Q := Q) (c := c) hst ha (sys_control hr) ho

/-! ## Messages are kept -/

/-- The `Http3` command that `con_task` has taken. -/
def taken? (c : Con Q) : Option (Http3Msg × Nat) :=
  match c.pc with
  | .cmd (.http3 item rsp) => some (item, rsp)
  | _ => none

/-- A response comes with a reference that is not in use. -/
def Unused (c : Con Q) : Prop :=
  ∀ x ∈ c.taken?, x.1.reference ≠ u64Max → c.h3Outbound.lookup x.1.reference = none
deriving Decidable

/-- What is promised of the messages in the runs whose steps meet `C`. -/
structure KeepsMessages (C : Con Q → ConAct → Prop) : Prop where
  /-- A message that was taken is held once, with its slot, while the task runs. -/
  held : ∀ {c c' d : Con Q} {item rsp}, (sys Q).ReachIf C c → c.pc = .cmd (.http3 item rsp) →
    C c .task → c.taskStep = some c' → (sys Q).StepsIf C c' d → d.pc.over = false →
      d.held.filter (·.rsp = rsp) = [ofMsg item rsp]
  /-- Only the end of the task gives `ConShutdown`. -/
  shutdown : ∀ {c : Con Q} {k : Nat}, (sys Q).ReachIf C c →
    c.calls[k]? = some (.done (.error conShutdown)) → c.pc.over

theorem replaced_unused {c : Con Q} {item : Http3Msg} {rsp : Nat} (hu : c.Unused)
    (hpc : c.pc = .cmd (.http3 item rsp)) : c.replaced item = none := by
  unfold replaced
  split
  · rfl
  · next hne => exact hu (item, rsp) (by unfold taken?; rw [hpc]; rfl) hne

/-- The slot of the command in hand is nowhere else. -/
theorem Once.not_held {c : Con Q} (ho : Once c) {item : Http3Msg} {rsp : Nat}
    (hpc : c.pc = .cmd (.http3 item rsp)) : ∀ p ∈ c.held, p.rsp ≠ rsp := by
  intro p hp he
  have hs : c.slots = c.queued ++ c.held.map (·.rsp) ++ [rsp] := by
    rw [slots_eq]
    unfold inHand
    rw [hpc]
    rfl
  have hn := ho.nodup
  rw [hs, List.nodup_append] at hn
  refine hn.2.2 rsp ?_ rsp (List.mem_singleton.mpr rfl) rfl
  exact List.mem_append_right _ (List.mem_map.mpr ⟨p, hp, he⟩)

/-- `con_task` handles an `Http3` command that replaces nothing. -/
theorem handle_held {c c' : Con Q} (hr : (sys Q).Reach c) (h : c.taskStep = some c')
    (hu : c.Unused) {item : Http3Msg} {rsp : Nat} (hpc : c.pc = .cmd (.http3 item rsp)) :
    c'.pc.over ∨ c'.held.Perm (ofMsg item rsp :: c.held) := by
  have hperm := held_dispatch c item rsp
  rw [replaced_unused hu hpc] at hperm
  cases hands_task h (sys_control hr) with
  | take cmd hin => unfold inHand at hin; rw [hpc] at hin; cases hin
  | dispatch cmd hpc' _ _ hrest =>
    rw [hpc] at hpc'
    cases hpc'
    rw [hrest.held]
    exact .inr hperm
  | rest hin => unfold inHand at hin; rw [hpc] at hin; cases hin
  | ended ho => exact .inl ho

/-- A step keeps what is held. -/
theorem held_step {a : ConAct} {c c' : Con Q} (hr : (sys Q).Reach c) (hu : OnTask Unused c a)
    (h : step a c = some c') {p : H3OutboundProgress}
    (hp : c.held.filter (·.rsp = p.rsp) = [p]) :
    c'.pc.over ∨ c'.held.filter (·.rsp = p.rsp) = [p] := by
  by_cases ha : a = .task
  · subst ha
    have hm : p ∈ c.held := List.mem_of_mem_filter (hp ▸ List.mem_singleton.mpr rfl)
    cases hands_task h (sys_control hr) with
    | take _ _ _ _ hrest => rw [hrest.held]; exact .inr hp
    | rest _ _ _ hrest => rw [hrest.held]; exact .inr hp
    | ended ho => exact .inl ho
    | dispatch cmd hpc _ _ hrest =>
      cases cmd with
      | http3 item rsp =>
        refine (handle_held hr h (hu rfl) hpc).imp_right fun hperm => ?_
        have hne : (ofMsg item rsp).rsp ≠ p.rsp := ((sys_once hr).not_held hpc p hm).symm
        have hf := hperm.filter (·.rsp = p.rsp)
        rw [List.filter_cons_of_neg (by simpa using hne), hp] at hf
        exact List.perm_singleton.mp hf
      | tick | timeout | inPak => rw [hrest.held]; exact .inr hp
  · have hf := frame_step h ha
    unfold Con.held
    rw [hf.h3OutboundWait, hf.h3Outbound]
    exact .inr hp

/-- A step gives `ConShutdown` if it ends the task, or replaces a message. -/
theorem shutdown_step {a : ConAct} {c c' : Con Q} (hr : (sys Q).Reach c) (hu : OnTask Unused c a)
    (h : step a c = some c') {k : Nat} (hk : c'.calls[k]? = some (.done (.error conShutdown))) :
    c'.pc.over ∨ c.calls[k]? = some (.done (.error conShutdown)) := by
  by_cases ha : a = .task
  · subst ha
    cases hands_task h (sys_control hr) with
    | take _ _ _ _ hrest => rw [← hrest.calls]; exact .inr hk
    | rest _ _ _ hrest => rw [← hrest.calls]; exact .inr hk
    | ended ho => exact .inl ho
    | dispatch cmd hpc _ _ hrest =>
      rw [hrest.calls] at hk
      cases cmd with
      | http3 item rsp =>
        have hrep := replaced_unused (hu rfl) hpc
        unfold replaced at hrep
        rw [dispatch] at hk
        split at hk
        · exact .inr hk
        · next hne =>
          -- nothing is dropped
          have hc : ∀ p, (c.insertOutbound item.reference p).calls = (c.dropRsps []).calls := by
            intro p
            unfold insertOutbound
            rw [if_neg hne] at hrep
            rw [hrep]
            rfl
          rw [hc, dropRsps, List.getElem?_mapIdx] at hk
          exact .inr (by simpa using hk)
      | tick | timeout | inPak => exact .inr hk
  · by_cases ho : c.pc.over
    · rw [(frame_step h ha).pc]
      exact .inl ho
    · refine .inr ((call_other h ha ?_).shutdown hk)
      rw [(sys_control hr).rx, Bool.eq_false_iff.mpr ho]
      rfl

/-- In every run in which no response comes with a reference that is in use, the messages are
kept. -/
theorem kept_unused : KeepsMessages (Q := Q) (OnTask Unused) := by
  constructor
  · intro c c' d item rsp h hpc hu hst hs hov
    have hr := h.reach
    have hstart : c'.pc.over ∨ c'.held.filter (·.rsp = rsp) = [ofMsg item rsp] := by
      refine (handle_held hr hst (hu rfl) hpc).imp_right fun hperm => ?_
      have hf := hperm.filter (·.rsp = rsp)
      have hnil : c.held.filter (·.rsp = rsp) = [] := by
        refine List.filter_eq_nil_iff.mpr fun p hp => ?_
        simpa using (sys_once hr).not_held hpc p hp
      rw [List.filter_cons_of_pos (by simp [ofMsg]), hnil] at hf
      exact List.perm_singleton.mp hf
    have hi := hs.invariant (I := fun d => (sys Q).Reach d ∧
      (d.pc.over ∨ d.held.filter (·.rsp = rsp) = [ofMsg item rsp])) ?_
      ⟨.step (a := .task) hr hst, hstart⟩
    · exact hi.2.resolve_left (by simp [hov])
    · rintro a s s' hu ⟨hr, hp⟩ hst
      refine ⟨.step a hr hst, ?_⟩
      rcases hp with ho | hp
      · exact .inl (over_step (Q := Q) (c := s) hst ho)
      · exact held_step (p := ofMsg item rsp) hr hu hst hp
  · intro c k h
    refine h.invariant (I := fun c => c.calls[k]? = some (.done (.error conShutdown)) → c.pc.over)
      ?_ ?_
    · rintro c ⟨h3Config, con, hq⟩
      cases hq
      nofun
    · intro a s s' hr ih hu hst hk
      rcases shutdown_step hr hu hst hk with ho | hk
      · exact ho
      · exact over_step (Q := Q) (c := s) hst (ih hk)

/-- A reference in use loses the message that was held under it, and its caller gets `ConShutdown`
from a task that runs. -/
theorem replaced_of_used {c c' : Con Q} (hr : (sys Q).Reach c) (h : c.taskStep = some c')
    (hu : ¬ c.Unused) : c'.pc.over = false ∧ ∃ p ∈ c.held,
      c'.held.filter (·.rsp = p.rsp) = [] ∧
        (c.calls[p.rsp]? = some .wait →
          c'.calls[p.rsp]? = some (.done (.error conShutdown))) := by
  unfold Unused at hu
  simp only [not_forall] at hu
  obtain ⟨⟨item, rsp⟩, ht, hne, hl⟩ := hu
  have hpc : c.pc = .cmd (.http3 item rsp) := by
    unfold taken? at ht
    split at ht
    · next hpc => cases ht; exact hpc
    · cases ht
  obtain ⟨p, hl⟩ := Option.ne_none_iff_exists'.mp hl
  have hheld : p ∈ c.held := List.mem_append_right _
    (List.mem_map.mpr ⟨⟨item.reference, p⟩, AList.mem_lookup_iff.mp hl, rfl⟩)
  have hperm := held_dispatch c item rsp
  rw [replaced, if_neg hne, hl] at hperm
  -- the slot of `p` is nowhere else
  have hnodup : ((ofMsg item rsp :: c.held).map (·.rsp)).Nodup := by
    rw [List.map_cons, List.nodup_cons]
    have hn := (sys_once hr).nodup
    rw [slots_eq, List.append_assoc] at hn
    refine ⟨?_, (List.nodup_append.mp (List.nodup_append.mp hn).2.1).1⟩
    rintro hm
    obtain ⟨q, hq, he⟩ := List.mem_map.mp hm
    exact (sys_once hr).not_held hpc q hq he
  rw [← (hperm.map _).nodup_iff, Option.toList_some, List.singleton_append, List.map_cons,
    List.nodup_cons] at hnodup
  have hnil : (c.dispatch (.http3 item rsp)).held.filter (·.rsp = p.rsp) = [] := by
    refine List.filter_eq_nil_iff.mpr fun q hq he => hnodup.1 ?_
    exact List.mem_map.mpr ⟨q, hq, of_decide_eq_true he⟩
  have hcalls : c.calls[p.rsp]? = some .wait →
      (c.dispatch (.http3 item rsp)).calls[p.rsp]? = some (.done (.error conShutdown)) := by
    intro hw
    rw [dispatch, if_neg hne]
    unfold insertOutbound
    rw [hl]
    show (c.dropRsps [p.rsp]).calls[p.rsp]? = _
    rw [dropRsps, List.getElem?_mapIdx, hw]
    simp
  cases taskStep_cases h (sys_control hr) with
  | dispatch hpc' =>
    rw [hpc] at hpc'
    cases hpc'
    exact ⟨rfl, p, hheld, hnil, hcalls⟩
  | _ hpc' => rw [hpc] at hpc'; cases hpc'

/-- The call was answered with `ConShutdown`. -/
def isShutdown : Http3Call → Bool
  | .done (.error err) => err = conShutdown
  | _ => false

theorem eq_of_isShutdown {c : Con Q} {k : Nat} (h : c.calls[k]?.any isShutdown) :
    c.calls[k]? = some (.done (.error conShutdown)) := by
  obtain ⟨x, hx, hs⟩ := (Option.any_eq_true _ _).mp h
  unfold isShutdown at hs
  split at hs
  · rw [hx, of_decide_eq_true hs]
  · cases hs

/-- Two calls of a user, with the steps that put their commands in the queue. -/
def twoCalls (ref₁ ref₂ : Opaque) : List ConAct :=
  [.deliver, .http3 ⟨[], [], ref₁⟩, .callAcquire 0, .callSend 0, .http3 ⟨[], [], ref₂⟩,
    .callAcquire 1, .callSend 1]

/-- Two messages, held next to each other. -/
theorem kept_unused_two : ∃ d : Con (Quiche.inert ()), d.held.length = 2 ∧
    d.held.filter (·.rsp = 0) = [ofMsg ⟨[], [], 7⟩ 0] := by
  obtain ⟨c₀, h₀⟩ : ∃ c₀, quicheCon (Q := Quiche.inert ()) none () = some c₀ := ⟨_, rfl⟩
  -- the first message was taken in `c` and handled in `c'`, the second was handled in `d`
  obtain ⟨c, hr, hc⟩ := Lts.ReachIf.of_run_any (S := sys (Quiche.inert ())) (C := OnTask Unused)
    (twoCalls 7 9 ++ List.replicate 7 .task)
    (fun (c : Con (Quiche.inert ())) => decide (c.pc = .cmd (.http3 ⟨[], [], 7⟩ 0) ∧ c.Unused) &&
      c.taskStep.any fun c' => ((sys (Quiche.inert ())).runIf (OnTask Unused)
        (List.replicate 7 .task) c').any fun d : Con (Quiche.inert ()) =>
          decide (d.held.length = 2 ∧ d.pc.over = false)) ⟨_, _, h₀⟩ (by cases h₀; decide +kernel)
  obtain ⟨hc, hrun⟩ := Bool.and_eq_true_iff.mp hc
  obtain ⟨hpc, hu⟩ := of_decide_eq_true hc
  obtain ⟨c', hst, hc'⟩ := (Option.any_eq_true _ _).mp hrun
  obtain ⟨d, hs, hd⟩ := (Option.any_eq_true _ _).mp hc'
  obtain ⟨hl, hov⟩ := of_decide_eq_true hd
  exact ⟨d, hl, kept_unused.held hr hpc (fun _ => hu) hst (.run hs) hov⟩

/-- A second response to the same request answers the first with `ConShutdown`. -/
theorem not_kept : ¬ ∀ Q : Quiche, KeepsMessages (Q := Q) fun _ _ => True := by
  intro h
  obtain ⟨c₀, h₀⟩ : ∃ c₀, quicheCon (Q := Quiche.inert ()) none () = some c₀ := ⟨_, rfl⟩
  obtain ⟨c, hr, hc⟩ := Lts.Reach.of_run_any (S := sys (Quiche.inert ()))
    (twoCalls 7 7 ++ List.replicate 13 .task)
    (fun c => c.calls[0]?.any isShutdown && !c.pc.over) ⟨_, _, h₀⟩ (by cases h₀; decide +kernel)
  obtain ⟨hk, hov⟩ := Bool.and_eq_true_iff.mp hc
  have := (h (Quiche.inert ())).shutdown (.of_reach (fun _ _ => trivial) hr) (eq_of_isShutdown hk)
  rw [this] at hov
  cases hov

/-! ## Without an h3 connection -/

/-- `con_task` waits for a command, and the connection was established without an h3 connection. -/
structure Unavailable (c : Con Q) : Prop where
  waits : c.pc = .recv
  connected : c.connected = true
  h3Con : c.h3Con = none

/-- The step handles no `Http3` command. -/
def NoHttp3 (c : Con Q) : Prop := c.taken? = none
deriving Decidable

/-- The h3 connection is never created again. -/
theorem no_h3_stays {a : ConAct} {c c' : Con Q} (hr : (sys Q).Reach c) (h : step a c = some c')
    (hcon : c.connected = true) (hn : c.h3Con = none) : c'.connected = true ∧ c'.h3Con = none := by
  rcases reach_cases hr h with ⟨-, ht⟩ | ⟨-, hf⟩
  · have hout : ∀ {pc : ConPc}, c.pc = pc → pc.inH3 → False := by
      intro pc hpc hin
      exact (sys_control hr).h3 (by rw [hpc]; exact hin) hn
    cases ht with
    | @dispatch cmd =>
      obtain ⟨⟨con, calls, wait, outbound, shouldSend, trace, hd⟩, -⟩ := dispatch_spec c cmd
      rw [hd]
      exact ⟨hcon, hn⟩
    | connect _ hno => rw [hcon] at hno; cases hno
    | requested hpc | request hpc | reserveH3 hpc | pollDone hpc | pollErr hpc | goAway hpc
    | event hpc | message hpc | lost hpc | bodyDone hpc | bodyErr hpc | chunk hpc | dgramDone hpc
    | dgramErr hpc | badFlow hpc | dgram hpc => exact (hout hpc rfl).elim
    | _ => exact ⟨hcon, hn⟩
  · rw [hf.connected, hf.h3Con]
    exact ⟨hcon, hn⟩

theorem held_eq_nil {c : Con Q} : c.held = [] ↔ c.h3OutboundWait = [] ∧ c.h3Outbound = ∅ := by
  unfold held
  rw [List.append_eq_nil_iff, List.map_eq_nil_iff]
  exact and_congr_right fun _ => ⟨fun h => AList.ext h, fun h => by rw [h]; rfl⟩

/-- An `Http3` command leaves something held. -/
theorem held_ne_nil (c : Con Q) (item : Http3Msg) (rsp : Nat) :
    (c.dispatch (.http3 item rsp)).held ≠ [] := by
  rw [dispatch]
  split
  · simp [held]
  · show c.h3OutboundWait ++ (c.h3Outbound.insert item.reference _).entries.map Sigma.snd ≠ []
    simp [AList.insert]

/-- A step of a task that goes on leaves nothing held if and only if nothing was held and it
handles no `Http3` command. -/
theorem unheld_step {a : ConAct} {c c' : Con Q} (hr : (sys Q).Reach c) (h : step a c = some c')
    (hov : c'.pc.over = false) :
    c.pc.over = false ∧ (c'.held = [] ↔ c.held = [] ∧ OnTask NoHttp3 c a) := by
  refine ⟨Bool.eq_false_iff.mpr fun ho => ?_, ?_⟩
  · rw [over_step h ho] at hov
    cases hov
  · by_cases ha : a = .task
    · subst ha
      have hnone : c.inHand = [] → OnTask NoHttp3 c .task := by
        intro hin _
        unfold inHand at hin
        unfold NoHttp3 taken?
        split
        · next hpc => rw [hpc] at hin; cases hin
        · rfl
      cases hands_task h (sys_control hr) with
      | take _ hin _ _ hrest => rw [hrest.held]; exact (and_iff_left (hnone hin)).symm
      | rest hin _ _ hrest => rw [hrest.held]; exact (and_iff_left (hnone hin)).symm
      | ended ho => rw [hov] at ho; cases ho
      | dispatch cmd hpc _ _ hrest =>
        rw [hrest.held]
        cases cmd with
        | http3 item rsp =>
          refine iff_of_false (held_ne_nil c item rsp) fun ⟨_, hn⟩ => ?_
          have hn : c.taken? = none := hn rfl
          unfold taken? at hn
          rw [hpc] at hn
          cases hn
        | tick | timeout | inPak =>
          exact (and_iff_left (hnone (by unfold inHand; rw [hpc]; rfl))).symm
    · have hf := frame_step h ha
      have hheld : c'.held = c.held := by
        unfold held
        rw [hf.h3OutboundWait, hf.h3Outbound]
      rw [hheld]
      exact (and_iff_left fun ht => absurd ht ha).symm

/-- Without an h3 connection the task waits with no message held if and only if it handled no `Http3`
command in the run. -/
theorem unheld_iff {s c : Con Q} {as : List ConAct} (hi : (sys Q).init s)
    (hr : (sys Q).run as s = some c) (hu : c.Unavailable) :
    (c.h3OutboundWait = [] ∧ c.h3Outbound = ∅) ↔
      (sys Q).runIf (OnTask NoHttp3) as s = some c := by
  obtain ⟨-, hiff⟩ := Lts.run_keeps_iff (G := fun c => c.pc.over = false)
    (I := fun c => c.held = []) (fun a c c' hr hs hov => unheld_step hr hs hov) (.init hi) hr
    (by rw [hu.waits]; rfl)
  obtain ⟨h3Config, con, hq⟩ := hi
  cases hq
  rw [← held_eq_nil, hiff]
  exact and_iff_right rfl

/-- A library whose connections are established. -/
def establishes : Quiche := { Quiche.inert () with isEstablished := fun _ => true }

/-- A connection without h3 config, through its first command. -/
theorem unheld_iff_tick : ∃ c : Con establishes, c.h3OutboundWait = [] ∧ c.h3Outbound = ∅ := by
  obtain ⟨c₀, h₀⟩ : ∃ c₀, quicheCon (Q := establishes) none () = some c₀ := ⟨_, rfl⟩
  have hrun : ((sys establishes).runIf (OnTask NoHttp3) (List.replicate 6 .task) c₀).any fun c =>
      decide (c.pc = .recv ∧ c.connected = true ∧ c.h3Con.isNone) := by
    cases h₀; decide +kernel
  obtain ⟨c, hif, hc⟩ := (Option.any_eq_true _ _).mp hrun
  obtain ⟨hpc, hcon, hn⟩ := of_decide_eq_true hc
  exact ⟨c, (unheld_iff ⟨_, _, h₀⟩ (Lts.run_of_runIf hif)
    ⟨hpc, hcon, Option.isNone_iff_eq_none.mp hn⟩).mpr hif⟩

/-- A request without h3 config is held for ever. -/
theorem not_unheld : ¬ ∀ (Q : Quiche) (c : Con Q), (sys Q).Reach c → c.Unavailable →
    c.h3OutboundWait = [] ∧ c.h3Outbound = ∅ := by
  intro h
  obtain ⟨c₀, h₀⟩ : ∃ c₀, quicheCon (Q := establishes) none () = some c₀ := ⟨_, rfl⟩
  obtain ⟨c, hr, hc⟩ := Lts.Reach.of_run_any (S := sys establishes)
    (twoCalls u64Max u64Max ++ List.replicate 11 .task)
    (fun (c : Con establishes) => decide (c.pc = .recv ∧ c.connected = true ∧ c.h3Con.isNone ∧
      c.h3OutboundWait.length = 1)) ⟨_, _, h₀⟩ (by cases h₀; decide +kernel)
  obtain ⟨hpc, hcon, hn, hl⟩ := of_decide_eq_true hc
  rw [(h _ c hr ⟨hpc, hcon, Option.isNone_iff_eq_none.mp hn⟩).1] at hl
  cases hl

end Con
end Absquic
