import Absquic.Conn.Control
import Absquic.Lib.List

/-!
# The reply slots of `http3()` calls

A call waits on the other end of a reply slot, which travels with its command to `con_task` and
there into one of the two collections of outgoing messages. `Slots`: whoever waits, waits for a slot
that `con_task` owns, or for that of the command it just took. So no call waits for a task that has
ended, and the end of the task answers all that wait (`endTask_answers`). A call that waits gets
`ConShutdown`, unless its future is dropped (`Settling`).
-/

namespace Absquic
namespace Con

variable {Q : Quiche}

/-- The reply slots on their way to `con_task`, or with it. -/
def slots (c : Con Q) : List Nat :=
  c.ownedRsps ++ match c.pc with
    | .cmd cmd => cmd.rsp?.toList
    | _ => []

/-- A call that waits has its slot with `con_task`. -/
def Slots (c : Con Q) : Prop := ∀ k, c.calls[k]? = some .wait → k ∈ c.slots

theorem mem_owned {c : Con Q} {k : Nat} : k ∈ c.ownedRsps ↔
    (∃ m ∈ c.cmd.queue, m.1.rsp? = some k) ∨ (∃ p ∈ c.h3OutboundWait, p.rsp = k) ∨
      ∃ s p, c.h3Outbound.lookup s = some p ∧ p.rsp = k := by
  have ho : k ∈ c.h3Outbound.entries.map (·.2.rsp) ↔
      ∃ s p, c.h3Outbound.lookup s = some p ∧ p.rsp = k := by
    rw [List.mem_map]
    exact ⟨fun ⟨x, hx, hr⟩ => ⟨x.1, x.2, AList.mem_lookup_iff.mpr hx, hr⟩,
      fun ⟨s, p, hs, hr⟩ => ⟨⟨s, p⟩, AList.mem_lookup_iff.mp hs, hr⟩⟩
  unfold ownedRsps
  rw [List.mem_append, List.mem_append, ho, List.mem_filterMap, List.mem_map, or_assoc]

theorem mem_slots {c : Con Q} {k : Nat} :
    k ∈ c.slots ↔ k ∈ c.ownedRsps ∨ ∃ cmd, c.pc = .cmd cmd ∧ cmd.rsp? = some k := by
  have hp : k ∈ (match c.pc with | .cmd cmd => cmd.rsp?.toList | _ => []) ↔
      ∃ cmd, c.pc = .cmd cmd ∧ cmd.rsp? = some k := by
    cases c.pc <;> simp
  rw [slots, List.mem_append, hp]

theorem wait_dropRsps {c : Con Q} {rs : List Nat} {k : Nat} :
    (c.dropRsps rs).calls[k]? = some .wait ↔ c.calls[k]? = some .wait ∧ k ∉ rs := by
  unfold dropRsps
  simp only [List.getElem?_mapIdx, Option.map_eq_some_iff]
  constructor
  · rintro ⟨x, hx, h⟩
    split at h
    · cases h
    · next hn => exact ⟨by rw [hx, h], fun hk => hn ⟨h, hk⟩⟩
  · rintro ⟨h, hk⟩
    exact ⟨_, h, by simp [hk]⟩

/-! ## The other parties -/

theorem slots_frame {c c' : Con Q} {k : Nat} (hf : Frame c c') (h : k ∈ c.slots) :
    k ∈ c'.slots := by
  obtain ⟨l, hl, -⟩ := hf.queue
  rw [mem_slots, mem_owned] at h ⊢
  rw [hf.h3OutboundWait, hf.h3Outbound, hf.pc, hl]
  exact h.imp_left (·.imp_left fun ⟨m, hm, hr⟩ => ⟨m, List.mem_append_left l hm, hr⟩)

/-- Another value at `k` does not make another call wait. -/
theorem wait_set {calls : List Http3Call} {k j : Nat} {x : Http3Call}
    (h : (calls.set k x)[j]? = some .wait) : calls[j]? = some .wait ∨ k = j ∧ x = .wait := by
  rw [List.getElem?_set] at h
  split at h
  · next hkj =>
    split at h
    · cases h; exact .inr ⟨hkj, rfl⟩
    · cases h
  · exact .inl h

/-- Who waits after a step of another party waited before, or its command is queued. -/
theorem wait_other {a : ConAct} {c c' : Con Q} {k : Nat} (h : step a c = some c') (ha : a ≠ .task)
    (hw : c'.calls[k]? = some .wait) :
    c.calls[k]? = some .wait ∨ ∃ m ∈ c'.cmd.queue, m.1.rsp? = some k := by
  cases otherStep_cases h ha with
  | http3 => exact .inl ((List.getElem?_concat_cases hw).resolve_right fun h => nomatch h.2)
  | callSend =>
    -- the command of the call that waits now is queued
    refine (wait_set hw).imp_right fun hx => ?_
    exact ⟨_, List.mem_append_right _ (List.mem_singleton.mpr rfl), by rw [hx.1]; rfl⟩
  | callAcquire => exact (wait_set hw).imp_right fun hx => nomatch hx.2
  | callLost => exact (wait_set hw).imp_right fun hx => nomatch hx.2
  | callCancel => exact (wait_set hw).imp_right fun hx => nomatch hx.2
  | _ => exact .inl hw

theorem slots_other {a : ConAct} {c c' : Con Q} (h : step a c = some c') (ha : a ≠ .task)
    (hs : Slots c) : Slots c' := by
  intro k hw
  rcases wait_other h ha hw with hw | hq
  · exact slots_frame (frame_step h ha) (hs k hw)
  · exact mem_slots.mpr (.inl (mem_owned.mpr (.inl hq)))

/-! ## `con_task` -/

/-- Whoever waits, waits for a slot that `con_task` owns. -/
def Owned (c : Con Q) : Prop := ∀ k, c.calls[k]? = some .wait → k ∈ c.ownedRsps

/-- No command with a slot in hand. -/
theorem Slots.owned {c : Con Q} (hs : Slots c) (hp : ∀ cmd, c.pc = .cmd cmd → cmd.rsp? = none) :
    Owned c := fun k hw =>
  (mem_slots.mp (hs k hw)).resolve_right fun ⟨cmd, hc, hr⟩ => by rw [hp cmd hc] at hr; cases hr

theorem Owned.slots {c : Con Q} (h : Owned c) : Slots c := fun k hw => mem_slots.mpr (.inl (h k hw))

theorem Owned.keeps {c c' : Con Q} (h : Owned c) (hk : Keeps c c') : Owned c' := by
  intro k hw
  rw [hk.calls] at hw
  unfold ownedRsps
  rw [hk.queue, hk.h3OutboundWait, hk.h3Outbound]
  exact h k hw

/-- The end of the task drops every slot. -/
theorem not_wait_endTask {c : Con Q} (h : Owned c) (exit : Exit) (k : Nat) :
    (c.endTask exit).calls[k]? ≠ some .wait := by
  intro hw
  obtain ⟨hw, hk⟩ := (wait_dropRsps (c := c)).mp hw
  exact hk (h k hw)

theorem slots_recvCmd {c c' : Con Q} (h : c.recvCmd = some c') (hs : Slots c)
    (hpc : c.pc = .recv) : Slots c' := by
  unfold recvCmd at h
  split at h
  · next cmd g rest hq =>
    cases h
    intro k hw
    have := mem_owned.mp (hs.owned (fun _ h => by rw [hpc] at h; cases h) k hw)
    rw [hq] at this
    rw [mem_slots, mem_owned]
    rcases this with ⟨m, hm, hr⟩ | h | h
    · rcases List.mem_cons.mp hm with rfl | hm
      · exact .inr ⟨cmd, rfl, hr⟩
      · exact .inl (.inl ⟨m, hm, hr⟩)
    · exact .inl (.inr (.inl h))
    · exact .inl (.inr (.inr h))
  · split at h
    · cases h
      exact fun k hw =>
        absurd hw (not_wait_endTask (hs.owned fun _ h => by rw [hpc] at h; cases h) _ k)
    · cases h

/-- The slot of the command goes to one of the collections; a slot that it replaces is dropped. -/
theorem owned_dispatch {c : Con Q} {cmd : ConCmd} (hs : Slots c) (hpc : c.pc = .cmd cmd) :
    Owned (c.dispatch cmd) := by
  intro k hw
  cases cmd with
  | http3 item rsp =>
    rw [dispatch] at hw ⊢
    split at hw
    · next href =>
      rw [if_pos href]
      have hm := mem_slots.mp (hs k hw)
      rw [mem_owned] at hm
      rcases hm with (h | ⟨p, hp, hr⟩ | h) | ⟨cmd', hcmd, hr⟩
      · exact mem_owned.mpr (.inl h)
      · exact mem_owned.mpr (.inr (.inl ⟨p, List.mem_append_left _ hp, hr⟩))
      · exact mem_owned.mpr (.inr (.inr h))
      · rw [hpc] at hcmd
        cases hcmd
        cases hr
        exact mem_owned.mpr (.inr (.inl ⟨_, List.mem_append_right _ (List.mem_singleton.mpr rfl), rfl⟩))
    · next href =>
      rw [if_neg href]
      obtain ⟨hw, hnk⟩ := (wait_dropRsps (c := c)).mp hw
      have hm := mem_slots.mp (hs k hw)
      rw [mem_owned] at hm
      rcases hm with (h | h | ⟨s, p, hl, hr⟩) | ⟨cmd', hcmd, hr⟩
      · exact mem_owned.mpr (.inl h)
      · exact mem_owned.mpr (.inr (.inl h))
      · refine mem_owned.mpr (.inr (.inr ⟨s, p, ?_, hr⟩))
        by_cases hsr : s = item.reference
        · subst hsr
          exact absurd (by rw [hl]; exact List.mem_singleton.mpr hr.symm) hnk
        · exact (AList.lookup_insert_ne hsr).trans hl
      · rw [hpc] at hcmd
        cases hcmd
        cases hr
        exact mem_owned.mpr (.inr (.inr ⟨_, _, AList.lookup_insert _, rfl⟩))
  | tick => exact hs.owned (fun _ h => by rw [hpc] at h; cases h; rfl) k hw
  | timeout => exact hs.owned (fun _ h => by rw [hpc] at h; cases h; rfl) k hw
  | inPak pak => exact hs.owned (fun _ h => by rw [hpc] at h; cases h; rfl) k hw

theorem owned_schedTimeout {c : Con Q} (h : Owned c) (hg : c.cmdGuard ≠ none) :
    Owned c.schedTimeout := by
  unfold schedTimeout
  simp only
  split
  · exact h
  · split
    · next hn => exact absurd hn hg
    · exact h

theorem slots_taskStep {c c' : Con Q} (h : c.taskStep = some c') (hc : Control c) (hs : Slots c) :
    Slots c' := by
  by_cases hb : c.pc.inBody
  · have ho : Owned c := hs.owned fun _ hp => by rw [hp] at hb; cases hb
    cases body_taskStep h hb with
    | go k => exact (ho.keeps k).slots
    | ret k => exact fun j hw => absurd hw (not_wait_endTask (ho.keeps k) _ j)
  · unfold taskStep at h
    split at h
    · next hpc => exact slots_recvCmd h hs hpc
    · next cmd hpc =>
      cases h
      have hg := (control_dispatch hc hpc).busy cmd ((pc_dispatch c cmd).trans hpc)
      exact (owned_schedTimeout (owned_dispatch hs hpc) hg).slots
    all_goals first | cases h; done | (next hpc => exact absurd (by rw [hpc]; rfl) hb)

theorem sys_slots {c : Con Q} (h : (sys Q).Reach c) : Slots c := by
  refine h.invariant (fun c hi => ?_) fun a c c' hr hs hst => ?_
  · obtain ⟨h3Config, con, hq⟩ := hi
    cases hq
    exact fun k hw => nomatch hw
  · by_cases ha : a = .task
    · subst ha; exact slots_taskStep hst (sys_control hr) hs
    · exact slots_other (Q := Q) (c := c) hst ha hs

/-- It still waits, or got `ConShutdown`, or was dropped. -/
def Settling (k : Nat) (c : Con Q) : Prop :=
  c.calls[k]? = some .wait ∨ c.calls[k]? = some (.done (.error conShutdown)) ∨
    c.calls[k]? = some .cancelled

theorem Settling.of_calls {c c' : Con Q} {k : Nat} (h : Settling k c) (hc : c'.calls = c.calls) :
    Settling k c' := by
  unfold Settling
  rwa [hc]

theorem Settling.dropRsps {c : Con Q} {k : Nat} (h : Settling k c) (rs : List Nat) :
    Settling k (c.dropRsps rs) := by
  unfold Settling Con.dropRsps
  simp only [List.getElem?_mapIdx]
  rcases h with h | h | h <;> rw [h, Option.map_some]
  · by_cases hk : k ∈ rs
    · exact .inr (.inl (by rw [if_pos ⟨rfl, hk⟩]))
    · exact .inl (by rw [if_neg fun h => hk h.2])
  · exact .inr (.inl rfl)
  · exact .inr (.inr rfl)

theorem Settling.endTask {c : Con Q} {k : Nat} (h : Settling k c) (exit : Exit) :
    Settling k (c.endTask exit) := h.dropRsps c.ownedRsps

theorem Settling.task {c c' : Con Q} {k : Nat} (h : Settling k c) (hs : c.taskStep = some c') :
    Settling k c' := by
  by_cases hb : c.pc.inBody
  · cases body_taskStep hs hb with
    | go hk => exact h.of_calls hk.calls
    | ret hk => exact (h.of_calls hk.calls).endTask _
  · unfold taskStep at hs
    split at hs
    · unfold recvCmd at hs
      split at hs
      · cases hs; exact h
      · split at hs
        · cases hs; exact h.endTask _
        · cases hs
    · next cmd _ =>
      cases hs
      have hd : Settling k (c.dispatch cmd) := by
        cases cmd with
        | http3 item rsp =>
          unfold dispatch
          dsimp only
          split
          · exact h
          · exact h.dropRsps _
        | tick | timeout | inPak => exact h
      unfold schedTimeout
      dsimp only
      split
      · exact hd
      · split
        · exact hd.endTask .panicked
        · exact hd
    all_goals first | cases hs; done | (next hpc => exact absurd (by rw [hpc]; rfl) hb)

/-- Another value at `j`, where no such call was. -/
theorem Settling.set {c : Con Q} {k j : Nat} {x y : Http3Call} (h : Settling k c)
    (hx : c.calls[j]? = some x) (hw : x.guard?.isSome ∨ ∃ item, x = .acquire item) :
    (c.calls.set j y)[k]? = c.calls[k]? := by
  refine List.getElem?_set_ne fun hjk => ?_
  subst hjk
  unfold Settling at h
  rw [hx] at h
  rcases hw with hw | ⟨item, rfl⟩
  · rcases h with h | h | h <;> cases h <;> cases hw
  · rcases h with h | h | h <;> cases h

theorem Settling.step {a : ConAct} {c c' : Con Q} {k : Nat} (h : Settling k c)
    (hs : step a c = some c') : Settling k c' := by
  by_cases ha : a = .task
  · subst ha; exact h.task hs
  · cases otherStep_cases hs ha with
    | http3 =>
      obtain ⟨x, hx⟩ : ∃ x, c.calls[k]? = some x := by
        rcases h with h | h | h <;> exact ⟨_, h⟩
      obtain ⟨hlt, -⟩ := List.getElem?_eq_some_iff.mp hx
      unfold Settling
      rwa [List.getElem?_append_left hlt]
    | callAcquire hk => unfold Settling; rwa [h.set hk (.inr ⟨_, rfl⟩)]
    | callSend hk => unfold Settling; rwa [h.set hk (.inl rfl)]
    | callLost hk => unfold Settling; rwa [h.set hk (.inl rfl)]
    | @callCancel j x hk hx =>
      unfold Settling
      by_cases hjk : j = k
      · subst hjk
        exact .inr (.inr (List.getElem?_set_self (List.getElem?_eq_some_iff.mp hk).1))
      · rwa [List.getElem?_set_ne hjk]
    | _ => exact h

end Con
end Absquic
