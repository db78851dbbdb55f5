import Absquic.Bound

/-!
# Calls after a close

`close_immediate` sets a flag, which only the receiver reads. `send` goes by the socket: it is
refused once nobody holds it. So what a `send` after the close does depends on the receiver's owner,
and on the calls before it.

* `Owner`: a system in which somebody owns the receiver. A socket alone is one, whose owner may do
  anything at any time (`anyOwner`); an endpoint on a socket is one, whose owner is `udp_task`
  (`Bound.owner`).
* `refused_iff`: a `send` after the close is refused if and only if the receiver was dropped and no
  call was under way.
* `Bound.closed_iff`: for an endpoint, that is after the end of `udp_task`.
-/

namespace Absquic

namespace TokioUdp

variable {u u' : TokioUdp} {k : Nat}

/-- Call `k` has answered `SocketClosed` and put no datagram on the socket. -/
structure Refused (u : TokioUdp) (k : Nat) : Prop where
  answer : u.calls[k]? = some (.sent (.error socketClosed))
  silent : ∀ pak, .datagram k pak ∉ u.trace

theorem closed_iff : Closed u ↔ u.alive = false := by
  refine ⟨Closed.alive, fun h => ?_⟩
  unfold alive at h
  obtain ⟨hr, hc⟩ := Bool.or_eq_false_iff.mp h
  refine ⟨?_, fun x hx => ?_⟩
  · split at hr
    · next hd => exact hd
    · cases hr
  · exact Bool.eq_false_iff.mpr (List.any_eq_false.mp hc x hx)

/-- Only the owner drops the receiver. -/
theorem dropped_cases {a : UdpAct} (hs : step a u = some u') (hd : u'.recv = .dropped) :
    a = .dropRecv ∨ u.recv = .dropped := by
  cases step_cases hs with
  | dropRecv => exact .inl rfl
  | closeWake => rw [wake_eq] at hd; exact .inr hd
  | poll | load | shut | register | reload | store | wake | pending | err | pak => cases hd
  | _ => exact .inr hd

/-- The call at `k`, in a list to which a call was added. -/
theorem getElem?_calls {l : List UdpCall} {x y : UdpCall} (h : l[k]? = some x) :
    (l ++ [y])[k]? = some x := by
  rw [List.getElem?_append_left (List.getElem?_eq_some_iff.mp h).1]
  exact h

/-! ## Accepted calls -/

/-- A `send` that found the socket alive, or what became of it. -/
def accepts : UdpCall → Bool
  | .send _ | .sent (.ok _) | .sent (.error (.os _)) | .dropped => true
  | _ => false

def Accepted (u : TokioUdp) (k : Nat) : Prop := ∃ x, u.calls[k]? = some x ∧ accepts x

theorem Accepted.set {j : Nat} {x y : UdpCall} {calls : List UdpCall} (h : Accepted u k)
    (hj : u.calls[j]? = some x) (hc : calls = u.calls.set j y) (hy : accepts x → accepts y) :
    Accepted { u with calls } k := by
  obtain ⟨z, hk, hz⟩ := h
  unfold Accepted
  rw [show ({ u with calls } : TokioUdp).calls = u.calls.set j y from hc, List.getElem?_set]
  split
  · next he =>
    subst he
    rw [hj] at hk
    cases hk
    exact ⟨y, by rw [if_pos (List.getElem?_eq_some_iff.mp hj).1], hy hz⟩
  · exact ⟨z, hk, hz⟩

theorem accepted_step {a : UdpAct} (h : Accepted u k) (hs : step a u = some u') :
    Accepted u' k := by
  cases step_cases hs with
  | wake => rw [wake_eq]; exact h
  | closeWake => rw [wake_eq]; exact h
  | send | addr => obtain ⟨x, hk, hx⟩ := h; exact ⟨x, getElem?_calls hk, hx⟩
  | sendTo hj => exact h.set hj rfl fun _ => rfl
  | sendErr hj => exact h.set hj rfl fun _ => rfl
  | dropCall hj => exact h.set hj rfl fun _ => rfl
  | localAddr hj => exact h.set hj rfl nofun
  | _ => exact h

/-- A `send` that is accepted is never refused. -/
theorem not_refused (h : Accepted u k) (hs : sys.Steps (fun _ => True) u u') : ¬ Refused u' k := by
  obtain ⟨x, hk, hx⟩ := hs.invariant (I := (Accepted · k)) (fun a _ _ _ hi => accepted_step hi) h
  intro hr
  rw [hr.answer] at hk
  cases hk
  cases hx

/-! ## Refused calls -/

/-- Datagrams are of calls that were made. -/
def Made (u : TokioUdp) : Prop := ∀ k pak, .datagram k pak ∈ u.trace → k < u.calls.length

theorem Made.next (h : Made u) {l : List UdpObs} (ht : u'.trace = u.trace ++ l)
    (hc : u.calls.length ≤ u'.calls.length)
    (hl : ∀ k pak, .datagram k pak ∈ l → k < u'.calls.length) : Made u' := by
  intro k pak ho
  rw [ht] at ho
  rcases List.mem_append.mp ho with ho | ho
  · exact Nat.lt_of_lt_of_le (h k pak ho) hc
  · exact hl k pak ho

theorem made_step {a : UdpAct} (h : Made u) (hs : step a u = some u') : Made u' := by
  cases step_cases hs with
  | poll => exact h.next (l := [.poll]) rfl (Nat.le_refl _) (by simp)
  | shut => exact h.next (l := [.ready none]) rfl (Nat.le_refl _) (by simp)
  | @wake err =>
    rw [wake_eq]
    refine h.next (List.append_assoc u.trace (u.waker.map UdpObs.woken).toList
      [.ready (some (.error (.os err)))]) (Nat.le_refl _) ?_
    cases u.waker <;> simp
  | pending => exact h.next (l := [.pending]) rfl (Nat.le_refl _) (by simp)
  | @pak pak => exact h.next (l := [.ready (some (.ok pak))]) rfl (Nat.le_refl _) (by simp)
  | @closeWake k =>
    obtain ⟨l, ht, hl⟩ := trace_closed u (u.closers.set k .done)
    rw [wake_eq] at ht ⊢
    refine h.next ht (Nat.le_refl _) fun k pak ho => ?_
    rcases hl _ ho with ho | ⟨w, ho⟩ <;> cases ho
  | send => exact h.next (l := [.send _]) rfl (by simp [send, log]) (by simp)
  | @sendTo k pak hk =>
    refine h.next (l := [.datagram k pak]) rfl (by simp [log]) fun j pak' ho => ?_
    cases List.mem_singleton.mp ho
    simpa [log] using (List.getElem?_eq_some_iff.mp hk).1
  | addr => exact h.next (l := []) (List.append_nil _).symm (by simp [addr]) nofun
  | sendErr | localAddr | dropCall =>
    exact h.next (l := []) (List.append_nil _).symm (by simp) nofun
  | _ => exact h

theorem sys_made (h : sys.Reach u) : Made u := by
  refine h.invariant (I := Made) (fun u hu => ?_) fun a _ _ _ => made_step
  rw [show u = bind from hu]
  nofun

/-- A `send` on a socket that nobody holds is refused for good. -/
theorem refused (h : sys.Reach u) (hc : Closed u) (pak : UdpPak)
    (hs : sys.Steps (fun _ => True) (u.send pak) u') : Refused u' u.calls.length := by
  have hm : Mute u (u.send pak) := mute_step (a := .send pak) (.refl hc) rfl
  have hm' := mute hm.closed hs
  have hcalls : (u.send pak).calls = u.calls ++ [.sent (.error socketClosed)] := by
    show u.calls ++ [if u.alive then _ else _] = _
    rw [hc.alive]
    rfl
  refine ⟨?_, fun pak' ho => ?_⟩
  · obtain ⟨l, hl, -⟩ := hm'.calls
    rw [hl, hcalls, List.append_assoc, List.getElem?_append_right (Nat.le_refl _), Nat.sub_self]
    rfl
  · obtain ⟨l, hl, hno⟩ := hm'.trace
    rw [hl] at ho
    rcases List.mem_append.mp ho with ho | ho
    · rcases List.mem_append.mp ho with ho | ho
      · exact absurd (sys_made h _ _ ho) (Nat.lt_irrefl _)
      · cases List.mem_singleton.mp ho
    · exact hno _ _ ho

/-! ## Owners of the receiver -/

section Owner

variable {σ α : Type*} {S : Lts σ α}

/-- In the system `S` somebody owns the receiver of a socket, and the others have its handle. -/
structure Owner (S : Lts σ α) where
  udp : σ → TokioUdp
  init : ∀ s, S.init s → udp s = bind
  step : ∀ a s s', S.step a s = some s' → sys.Steps (fun _ => True) (udp s) (udp s')

/-- Nothing is known of the owner. -/
def anyOwner : Owner sys where
  udp := id
  init _ h := h
  step a _ _ h := .one (a := a) trivial h

variable (o : Owner S) {s s₁ s' : σ} {pak : UdpPak}

theorem Owner.steps {P : α → Prop} (h : S.Steps P s s') :
    sys.Steps (fun _ => True) (o.udp s) (o.udp s') :=
  h.relates (R := fun s s' => sys.Steps (fun _ => True) (o.udp s) (o.udp s')) (fun _ => .refl _)
    (fun _ _ _ => .trans) fun a s s' _ hs => o.step a s s' hs

theorem Owner.reach (h : S.Reach s) : sys.Reach (o.udp s) := by
  induction h with
  | init hi => exact .init (o.init _ hi)
  | step a _ hs ih => exact ih.steps (o.step a _ _ hs)

/-- In `s`, where a `close_immediate` call has returned, somebody calls `send(pak)`. -/
structure LateSend (s : σ) (pak : UdpPak) (s₁ : σ) : Prop where
  reach : S.Reach s
  closed : .closed ∈ (o.udp s).trace
  step : ∃ a, S.step a s = some s₁
  send : o.udp s₁ = (o.udp s).send pak

/-- Whatever comes after it, such a call is refused if and only if nobody held the socket. -/
theorem refused_iff {o : Owner S} (h : LateSend o s pak s₁) (hs : S.Steps (fun _ => True) s₁ s') :
    (o.udp s').Refused (o.udp s).calls.length ↔ (o.udp s).Closed := by
  have hu := o.steps hs
  rw [h.send] at hu
  refine ⟨fun hr => closed_iff.mpr (Bool.eq_false_iff.mpr fun ha => ?_), fun hc => ?_⟩
  · refine not_refused ⟨.send pak, ?_, rfl⟩ hu hr
    show ((o.udp s).calls ++ [if (o.udp s).alive then _ else _])[_]? = _
    rw [if_pos ha, List.getElem?_concat_length]
  · exact refused (o.reach h.reach) hc pak hu

end Owner
end TokioUdp

namespace Bound

variable {Q : Quiche} {b b' : Bound Q}

/-- `udp_task` owns the receiver. -/
def owner (Q : Quiche) : TokioUdp.Owner (sys Q) where
  udp := Bound.udp
  init _ h := h.2
  step _ _ _ h := (parts_step h).udp

/-- Only `udp_task` drops the receiver, when it ends. -/
theorem ended_step {a : BoundAct} (hr : (sys Q).Reach b)
    (hi : b.udp.recv = .dropped → b.ep.udpPc = .ended) (hs : step a b = some b')
    (hd : b'.udp.recv = .dropped) : b'.ep.udpPc = .ended := by
  -- `udp_task` polls the stream while it has it
  have hpoll : ∀ {u : TokioUdp} {p : UdpAct}, p ≠ .dropRecv → b.ep.udpPc = .recv →
      TokioUdp.step p b.udp = some u → u.recv ≠ .dropped := by
    intro u p hp hpc hu hd
    rcases TokioUdp.dropped_cases hu hd with he | he
    · exact hp he
    · rw [hi he] at hpc
      cases hpc
  cases step_cases hs with
  | ep he =>
    unfold dropRecv at hd ⊢
    split at hd
    · next hend => rw [hend]
    · next hend => exact Ep.udpPc_ended (reach_ep hr) he (hi hd)
  | polls hp hpc hu => exact absurd hd (hpoll hp hpc hu)
  | item hp hpc hu => exact absurd hd (hpoll hp hpc hu)
  | udpSend he => exact Ep.udpPc_ended (reach_ep hr) he (hi hd)
  | udp ha hu => exact hi ((TokioUdp.recv_other ha hu).symm.trans hd)

theorem sys_ended (h : (sys Q).Reach b) : b.udp.recv = .dropped → b.ep.udpPc = .ended := by
  refine h.invariant (I := fun b => b.udp.recv = .dropped → b.ep.udpPc = .ended) (fun b hb hd => ?_)
    fun a _ _ hr => ended_step hr
  rw [hb.2] at hd
  cases hd

/-- Nobody holds the socket once `udp_task` has ended and the calls are over. -/
theorem closed_iff (h : (sys Q).Reach b) :
    b.udp.Closed ↔ b.ep.udpPc = .ended ∧ ∀ x ∈ b.udp.calls, x.holds = false :=
  ⟨fun hc => ⟨sys_ended h hc.recv, hc.calls⟩, fun hc => ⟨sys_dropped h hc.1, hc.2⟩⟩

/-! ## Runs -/

/-- Somebody calls `close_immediate`. -/
def closing : List BoundAct := [.udp .closeImmediate, .udp (.close 0), .udp (.close 0)]

/-- A call has returned, and no `send` was called. -/
def closedFirst (b : Bound Q) : Bool :=
  b.udp.trace.any (fun | .closed => true | _ => false) && b.udp.calls.isEmpty

/-- A `send` after the close. -/
theorem late_send (h : (sys Q).Reach b) (hb : b.closedFirst) (pak : UdpPak) :
    TokioUdp.LateSend (owner Q) b pak { b with udp := b.udp.send pak } ∧ b.udp.calls = [] := by
  obtain ⟨hc, he⟩ := Bool.and_eq_true_iff.mp hb
  obtain ⟨o, ho, hclosed⟩ := List.any_eq_true.mp hc
  refine ⟨⟨h, ?_, ⟨.udp (.send pak), rfl⟩, rfl⟩, List.isEmpty_iff.mp he⟩
  cases o <;> first | exact ho | cases hclosed

/-- The stream has ended, and `udp_task` with it: the `send` is refused. -/
theorem refused_ended : ∃ b b₁ : Bound (Quiche.inert ()),
    TokioUdp.LateSend (owner _) b ⟨.unspecified, [1]⟩ b₁ ∧ b₁.udp.Refused b.udp.calls.length := by
  obtain ⟨b, hr, hb⟩ := Lts.Reach.of_run_any (S := sys (Quiche.inert ()))
    (closing ++ [.ep .udp, .poll, .poll, .ep .udp])
    (fun b => b.closedFirst && !b.udp.alive) (s := ⟨_, _⟩) ⟨⟨0, (), none, rfl⟩, rfl⟩
    (by decide +kernel)
  obtain ⟨hb, ha⟩ := Bool.and_eq_true_iff.mp hb
  obtain ⟨hl, -⟩ := late_send hr hb ⟨.unspecified, [1]⟩
  have hc : b.udp.Closed := TokioUdp.closed_iff.mpr (by simpa using ha)
  exact ⟨b, _, hl, (TokioUdp.refused_iff hl (.refl _)).mpr hc⟩

/-- `udp_task` waits for its own permit: it has the socket, and the datagram is sent. -/
theorem not_refused_waiting : ¬ ∀ (Q : Quiche) (b b₁ b' : Bound Q) (pak : UdpPak),
    TokioUdp.LateSend (owner Q) b pak b₁ → (sys Q).Steps (fun _ => True) b₁ b' →
      b'.udp.Refused b.udp.calls.length := by
  intro h
  obtain ⟨b, hr, hb⟩ := Lts.Reach.of_run_any (S := sys (Quiche.inert ()))
    ((List.replicate 64 ([.ep .udp, .poll, .poll, .poll, .poll,
      .sockPoll (.pak ⟨.unspecified, []⟩), .ep .udp] : List BoundAct)).flatten ++ closing)
    (fun b => b.closedFirst && (b.udp.alive && (b.ep.udpStep).isNone)) (s := ⟨_, _⟩)
    ⟨⟨0, (), none, rfl⟩, rfl⟩ (by decide +kernel)
  obtain ⟨hb, ha⟩ := Bool.and_eq_true_iff.mp hb
  obtain ⟨ha, -⟩ := Bool.and_eq_true_iff.mp ha
  obtain ⟨hl, hc⟩ := late_send hr hb ⟨.unspecified, [1]⟩
  have hcalls : (b.udp.send ⟨.unspecified, [1]⟩).calls = [.send ⟨.unspecified, [1]⟩] := by
    show b.udp.calls ++ [if b.udp.alive then _ else _] = _
    rw [hc, if_pos ha]
    rfl
  obtain ⟨u, hu, hd⟩ : ∃ u, (b.udp.send ⟨.unspecified, [1]⟩).sendTo 0 (.ok ()) = some u ∧
      .datagram 0 ⟨.unspecified, [1]⟩ ∈ u.trace := by
    unfold TokioUdp.sendTo
    rw [hcalls]
    exact ⟨_, rfl, List.mem_append_right _ List.mem_cons_self⟩
  have hs : (sys (Quiche.inert ())).step (.udp (.sendTo 0 (.ok ())))
      { b with udp := b.udp.send ⟨.unspecified, [1]⟩ } = some { b with udp := u } := by
    show Option.map _ ((b.udp.send ⟨.unspecified, [1]⟩).sendTo 0 (.ok ())) = _
    rw [hu]
    rfl
  have := (h _ _ _ _ _ hl (.one trivial hs)).silent ⟨.unspecified, [1]⟩
  rw [hc] at this
  exact this hd

end Bound
end Absquic
