import Absquic.Ep.Control

/-!
# The reply slots of `connect()` calls

A call waits on the other end of a reply slot, which travels with its `NewCon` to `ep_task`.

* `Calls`: what a step does to the calls and to their slots, one constructor for each kind of step.
* `Slots`: whoever's slot is on its way, or with `ep_task`, waits or is gone. So the answer that
  `ep_task` gives arrives (`Answer`), and stays the call's answer (`ConnectCall.Next`).
-/

namespace Absquic

/-- What can become of a call, by one step. -/
inductive ConnectCall.Next : ConnectCall → ConnectCall → Prop
  | rest {x : ConnectCall} : Next x x
  | acquire {addr : SocketAddr} : Next (.acquire addr) (.send addr .limit)
  | send {addr : SocketAddr} {g : EpSem} : Next (.send addr g) .wait
  | answer {r : Result Nat} : Next .wait (.answered r)
  | poll {r : Result Nat} : Next (.answered r) (.done r)
  | cancel {x : ConnectCall} (h : x.live) : Next x .cancelled

/-- The call has failed, or its future is gone. -/
def ConnectCall.failed : ConnectCall → Bool
  | .answered (.error _) | .done (.error _) | .cancelled => true
  | _ => false

theorem ConnectCall.Next.failed {x y : ConnectCall} (h : Next x y) (hx : x.failed) : y.failed := by
  cases h with
  | rest => exact hx
  | @poll r => cases r <;> exact hx
  | cancel => rfl
  | _ => cases hx

namespace Ep

variable {Q : Quiche} {s s' : Ep Q}

/-- The reply slots with `ep_task`, or on their way to it. -/
def rsps (s : Ep Q) : List Nat :=
  (localRsp s.pc).toList ++ s.cmd.queue.filterMap (·.1.rsp?)

/-- `ep_task` gives `result` to the call `rsp`. -/
structure Answer (s s' : Ep Q) (rsp : Nat) (result : Except QuicheError Nat) : Prop where
  rsps : s.rsps = rsp :: s'.rsps
  trace : s'.trace = s.trace ++ [.newCon rsp result]
  wait : s.connects[rsp]? = some .wait →
    s'.connects = s.connects.set rsp (.answered (result.mapError .quiche))
  gone : s.connects[rsp]? ≠ some .wait → s'.connects = s.connects

/-- What a step does to the calls (module doc). -/
inductive Calls (s s' : Ep Q) : Prop
  | rest (hc : s'.connects = s.connects) (hr : s'.rsps = s.rsps)
  | connect {addr : SocketAddr} (hc : s'.connects = s.connects ++ [.acquire addr])
    (hr : s'.rsps = s.rsps)
  | move {k : Nat} {x y : ConnectCall} (hk : s.connects[k]? = some x)
    (hc : s'.connects = s.connects.set k y) (hr : s'.rsps = s.rsps) (hn : x.Next y)
    (hx : x ≠ .wait ∨ y = .cancelled) (hy : ∀ r, y ≠ .answered r)
  | send {k : Nat} {addr : SocketAddr} {g : EpSem} (hk : s.connects[k]? = some (.send addr g))
    (hc : s'.connects = s.connects.set k .wait) (hr : s'.rsps = s.rsps ++ [k])
  | answer {rsp : Nat} {result : Except QuicheError Nat} (h : Answer s s' rsp result)

/-! ## `ep_task` -/

/-- The end of the handling of a `NewCon`. -/
theorem answer_next {t : Ep Q} {rsp : Nat} {r : Except QuicheError Nat}
    (hl : localRsp s.pc = some rsp) (hc : t.connects = s.connects)
    (hq : t.cmd.queue = s.cmd.queue) (ht : t.trace = s.trace) :
    Answer s ((t.answer rsp (r.mapError .quiche)).log (.newCon rsp r)).nextCmd rsp r := by
  have he := answer_eq t rsp (r.mapError .quiche)
  refine ⟨?_, ?_, fun hw => ?_, fun hn => ?_⟩
  · rw [rsps, hl]
    show rsp :: s.cmd.queue.filterMap (·.1.rsp?) =
      rsp :: (t.answer rsp (r.mapError .quiche)).cmd.queue.filterMap (·.1.rsp?)
    rw [he, hq]
  · show (t.answer rsp (r.mapError .quiche)).trace ++ _ = _
    rw [he, ht]
  · show (t.answer rsp (r.mapError .quiche)).connects = _
    rw [answer, hc, hw]
  · show (t.answer rsp (r.mapError .quiche)).connects = _
    unfold answer
    split
    · next hw => exact absurd (hc ▸ hw) hn
    · exact hc

/-- A step of `ep_task` answers a call, or leaves them alone. -/
theorem answers_task (h : TaskStep s s') : (∃ rsp r, Answer s s' rsp r) ∨
    s'.connects = s.connects ∧ s'.rsps = s.rsps ∧
      ∀ rsp r, s'.trace ≠ s.trace ++ [.newCon rsp r] := by
  have hsame : ∀ {rsp r}, s.trace ≠ s.trace ++ [.newCon rsp r] := fun hl =>
    nomatch List.self_eq_append_right.mp hl
  cases h with
  | @refuseNew addr rsp config err hpc =>
    exact .inl ⟨rsp, .error err, answer_next (t := { s with cid := s.cid.cid.2, config })
      (r := .error err) (by rw [hpc]; rfl) rfl rfl rfl⟩
  | @answerNew i scid rsp hpc =>
    have hi := insertCon_eq s scid i
    exact .inl ⟨rsp, .ok i, answer_next (t := s.insertCon scid i) (r := .ok i) (by rw [hpc]; rfl)
      (by rw [hi]) (by rw [hi]) (by rw [hi])⟩
  | @take cmd g rest hpc hq =>
    refine .inr ⟨rfl, ?_, fun _ _ hl => nomatch (List.append_inj' hl rfl).2⟩
    unfold rsps
    rw [hpc, hq, List.filterMap_cons]
    cases cmd <;> rfl
  | @put i scid pak r c ok hpc =>
    have he := insertCon_eq ((s.modCon i fun _ => c).log (.fate pak (.created i ok))) scid i
    refine .inr ⟨by rw [he]; rfl, by rw [rsps, rsps, hpc, he]; rfl, fun _ _ hl => ?_⟩
    rw [he] at hl
    exact nomatch (List.append_inj' hl rfl).2
  | streamEnd hpc | drop hpc | refuse hpc | deliver hpc | conEnded hpc | inCon hpc =>
    exact .inr ⟨rfl, by rw [rsps, rsps, hpc]; rfl,
      fun _ _ hl => nomatch (List.append_inj' hl rfl).2⟩
  | reserved hpc | reserve hpc | streamErr hpc | accept hpc | route hpc | permit hpc | noInCon hpc
  | spawnNew hpc =>
    exact .inr ⟨rfl, by rw [rsps, rsps, hpc]; rfl, fun _ _ => hsame⟩

theorem calls_task (h : TaskStep s s') : Calls s s' := by
  rcases answers_task h with ⟨rsp, r, ha⟩ | ⟨hc, hr, -⟩
  · exact .answer ha
  · exact .rest hc hr

/-- Who logs an answer gives it. -/
theorem answer_task (h : TaskStep s s') {rsp : Nat} {result : Except QuicheError Nat}
    (hl : s'.trace = s.trace ++ [.newCon rsp result]) : Answer s s' rsp result := by
  rcases answers_task h with ⟨rsp', r, ha⟩ | ⟨-, -, hn⟩
  · cases (List.append_inj' (ha.trace.symm.trans hl) rfl).2
    exact ha
  · exact absurd hl (hn rsp result)

/-! ## The other parties -/

theorem rsps_push (s : Ep Q) (cmd : EpCmd) (g : EpSem) :
    ({ s with cmd := s.cmd.push cmd g } : Ep Q).rsps = s.rsps ++ cmd.rsp?.toList := by
  unfold rsps
  show _ ++ (s.cmd.queue ++ [(cmd, g)]).filterMap (·.1.rsp?) = _
  rw [List.filterMap_append, ← List.append_assoc]
  cases cmd <;> rfl

theorem calls_other {a : EpAct} (hs : step a s = some s') (ha : a ≠ .task) (hr : s.cmd.rx = true) :
    Calls s s' := by
  cases otherStep_cases hs ha hr with
  | udpEnd => exact .rest rfl ((rsps_push s _ _).trans (List.append_nil _))
  | udpSend => exact .rest rfl ((rsps_push s _ _).trans (List.append_nil _))
  | connect => exact .connect rfl rfl
  | connAcquire hk => exact .move hk rfl rfl .acquire (.inl nofun) nofun
  | connSend hk => exact .send hk rfl (rsps_push s _ _)
  | connFails hk => exact .move hk rfl rfl .poll (.inl nofun) nofun
  | connGives hk => exact .move hk rfl rfl .poll (.inl nofun) nofun
  | connCancel hk hx => exact .move hk rfl rfl (.cancel hx) (.inr rfl) nofun
  | _ => exact .rest rfl rfl

theorem calls_step {a : EpAct} (h : (sys Q).Reach s) (hs : step a s = some s') : Calls s s' := by
  by_cases ha : a = .task
  · subst ha
    exact calls_task ((taskStep_cases hs).resolve_right (not_ends (sys_control h)))
  · exact calls_other hs ha (sys_control h).rx

/-! ## Along a run -/

/-- What becomes of each call. -/
theorem Calls.next (h : Calls s s') {k : Nat} {x : ConnectCall} (hx : s.connects[k]? = some x) :
    ∃ y, s'.connects[k]? = some y ∧ x.Next y := by
  have hset : ∀ {j : Nat} {x₀ y₀ : ConnectCall}, s.connects[j]? = some x₀ → x₀.Next y₀ →
      s'.connects = s.connects.set j y₀ → ∃ y, s'.connects[k]? = some y ∧ x.Next y := by
    intro j x₀ y₀ hj hn hc
    rw [hc]
    by_cases hjk : j = k
    · subst hjk
      rw [hj] at hx
      cases hx
      exact ⟨y₀, List.getElem?_set_self (List.getElem?_eq_some_iff.mp hj).1, hn⟩
    · exact ⟨x, by rw [List.getElem?_set_ne hjk, hx], .rest⟩
  cases h with
  | rest hc => exact ⟨x, hc ▸ hx, .rest⟩
  | connect hc =>
    exact ⟨x, by rw [hc, List.getElem?_append_left (List.getElem?_eq_some_iff.mp hx).1, hx], .rest⟩
  | move hk hc _ hn => exact hset hk hn hc
  | send hk hc => exact hset hk .send hc
  | @answer rsp result ha =>
    by_cases hw : s.connects[rsp]? = some .wait
    · exact hset hw .answer (ha.wait hw)
    · exact ⟨x, by rw [ha.gone hw, hx], .rest⟩

/-- An answer that is new is `ep_task`'s. -/
theorem Calls.answered (h : Calls s s') {k : Nat} {r : Result Nat}
    (hk : s'.connects[k]? = some (.answered r)) : s.connects[k]? = some (.answered r) ∨
      ∃ result, Answer s s' k result ∧ r = result.mapError .quiche := by
  have hset : ∀ {j : Nat} {y : ConnectCall}, s'.connects = s.connects.set j y →
      s.connects[k]? = some (.answered r) ∨ j = k ∧ y = .answered r := by
    intro j y hc
    rw [hc, List.getElem?_set] at hk
    split at hk
    · next hj =>
      split at hk
      · cases hk; exact .inr ⟨hj, rfl⟩
      · cases hk
    · exact .inl hk
  cases h with
  | rest hc => exact .inl (hc ▸ hk)
  | connect hc =>
    rw [hc] at hk
    exact .inl ((List.getElem?_concat_cases hk).resolve_right fun h => nomatch h.2)
  | move _ hc _ _ _ hy => exact (hset hc).imp_right fun hj => absurd hj.2 (hy r)
  | send _ hc => exact (hset hc).imp_right fun hj => (nomatch hj.2)
  | @answer rsp result ha =>
    by_cases hw : s.connects[rsp]? = some .wait
    · refine (hset (ha.wait hw)).imp_right ?_
      rintro ⟨rfl, hr⟩
      cases hr
      exact ⟨result, ha, rfl⟩
    · exact .inl (ha.gone hw ▸ hk)

/-- Whoever's slot is on its way waits, or is gone (module doc). -/
structure Slots (s : Ep Q) : Prop where
  nodup : s.rsps.Nodup
  waits : ∀ k ∈ s.rsps, s.connects[k]? = some .wait ∨ s.connects[k]? = some .cancelled

theorem Slots.next (h : Slots s) (hc : Calls s s') : Slots s' := by
  cases hc with
  | rest hc hr => exact ⟨hr ▸ h.nodup, hr ▸ hc ▸ h.waits⟩
  | connect hc hr =>
    refine ⟨hr ▸ h.nodup, fun k hk => ?_⟩
    have hw := h.waits k (hr ▸ hk)
    have hlt : k < s.connects.length := by
      rcases hw with hw | hw <;> exact (List.getElem?_eq_some_iff.mp hw).1
    rw [hc, List.getElem?_append_left hlt]
    exact hw
  | @move j x y hj hc hr hn hx =>
    refine ⟨hr ▸ h.nodup, fun k hk => ?_⟩
    have hw := h.waits k (hr ▸ hk)
    rw [hc]
    by_cases hjk : j = k
    · subst hjk
      rw [List.getElem?_set_self (List.getElem?_eq_some_iff.mp hj).1]
      rw [hj] at hw
      rcases hx with hx | rfl
      · rcases hw with hw | hw <;> cases hw
        · exact absurd rfl hx
        · cases hn with
          | rest => exact .inr rfl
          | cancel hl => cases hl
      · exact .inr rfl
    · rw [List.getElem?_set_ne hjk]; exact hw
  | @send j addr g hj hc hr =>
    have hnew : j ∉ s.rsps := fun hm => by
      rcases h.waits j hm with hw | hw <;> rw [hj] at hw <;> cases hw
    refine ⟨?_, fun k hk => ?_⟩
    · rw [hr]
      exact List.Nodup.append h.nodup (List.nodup_singleton j) (List.disjoint_singleton.mpr hnew)
    · rw [hc]
      rw [hr] at hk
      rcases List.mem_append.mp hk with hk | hk
      · rw [List.getElem?_set_ne fun hjk : j = k => hnew (hjk ▸ hk)]
        exact h.waits k hk
      · rw [List.mem_singleton.mp hk]
        exact .inl (List.getElem?_set_self (List.getElem?_eq_some_iff.mp hj).1)
  | @answer rsp result ha =>
    have hnd := h.nodup
    rw [ha.rsps] at hnd
    obtain ⟨hnot, hnd⟩ := List.nodup_cons.mp hnd
    refine ⟨hnd, fun k hk => ?_⟩
    have hw := h.waits k (ha.rsps ▸ List.mem_cons_of_mem rsp hk)
    by_cases hr : s.connects[rsp]? = some .wait
    · rw [ha.wait hr, List.getElem?_set_ne fun hrk : rsp = k => hnot (hrk ▸ hk)]
      exact hw
    · rw [ha.gone hr]; exact hw

theorem sys_slots (h : (sys Q).Reach s) : Slots s := by
  refine h.invariant (fun s hs => ?_) fun a s s' hr hi hs => hi.next (calls_step (a := a) hr hs)
  obtain ⟨n, config, h3Config, rfl⟩ := hs
  exact ⟨List.nodup_nil, nofun⟩

/-- The call after the answer. -/
theorem Answer.connects {rsp : Nat} {result : Except QuicheError Nat} (h : Slots s)
    (ha : Answer s s' rsp result) :
    s'.connects[rsp]? = some (.answered (result.mapError .quiche)) ∨
      s'.connects[rsp]? = some .cancelled := by
  rcases h.waits rsp (ha.rsps ▸ List.mem_cons_self) with hw | hw
  · rw [ha.wait hw]
    exact .inl (List.getElem?_set_self (List.getElem?_eq_some_iff.mp hw).1)
  · rw [ha.gone (by rw [hw]; exact nofun)]
    exact .inr hw

/-- An answer in a slot was logged. -/
theorem sys_answered (h : (sys Q).Reach s) {k i : Nat}
    (hk : s.connects[k]? = some (.answered (.ok i))) : .newCon k (.ok i) ∈ s.trace := by
  refine h.invariant (I := fun s => ∀ (k : Nat) i, s.connects[k]? = some (.answered (.ok i)) →
    .newCon k (.ok i) ∈ s.trace) (fun s hs => ?_) (fun a s s' hr hi hs k i hk => ?_) k i hk
  · obtain ⟨n, config, h3Config, rfl⟩ := hs
    exact nofun
  · rcases (calls_step hr hs).answered hk with hk | ⟨r, ha, hr⟩
    · obtain ⟨l, hl, -⟩ := trace_step hr hs
      rw [hl]
      exact List.mem_append_left l (hi k i hk)
    · rw [ha.trace]
      cases r <;> cases hr
      exact List.mem_append_right _ (List.mem_singleton.mpr rfl)

end Ep
end Absquic
