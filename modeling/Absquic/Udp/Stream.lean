import Absquic.Lib.List
import Absquic.Udp

/-!
# The end of the stream

What the polls of `TokioUdpRecv` give, and whom the `close_immediate` calls wake, in every
interleaving of their steps.

* The stream gives packets, then at most one error, then only `None` (`Flow`).
* A poll that starts after a `close_immediate` call has returned, or after the error, gives `None`
  (`Late`).
* A parked reader is woken (`Wakes`): a poll gets to the socket only if no call had set the flag
  when it read it again, after it had registered its waker; so each call that has woken by now woke
  after that. After the error nobody is parked (`sys_failed`).
-/

namespace Absquic

/-- What a poll gave. -/
def UdpObs.outcome : UdpObs → Bool
  | .pending | .ready _ => true
  | _ => false

/-- An item of the stream. -/
def UdpObs.item? : UdpObs → Option (Option (Result UdpPak))
  | .ready item => some item
  | _ => none

/-- A `close_immediate` call has returned, or the stream gave an error. -/
def UdpObs.ends : UdpObs → Bool
  | .closed | .ready (some (.error _)) => true
  | _ => false

/-- A call of the handle. -/
def UdpObs.byCall : UdpObs → Bool
  | .send _ | .datagram _ _ => true
  | _ => false

/-- The places of a poll that found the flag unset. -/
def RecvPc.passed : RecvPc → Bool
  | .register | .reload | .sock | .store _ | .wake _ => true
  | _ => false

/-- A poll that found the flag unset, or its reader, who is parked. -/
def RecvPc.waits : RecvPc → Bool
  | .pending => true
  | pc => pc.passed

/-- The last poll has registered its waker, and has not ended the stream. -/
def RecvPc.listens : RecvPc → Bool
  | .reload | .sock | .pending => true
  | _ => false

namespace TokioUdp

/-- The items that the stream gave. -/
def items (u : TokioUdp) : List (Option (Result UdpPak)) := u.trace.filterMap (·.item?)

def Packets (l : List (Option (Result UdpPak))) : Prop :=
  ∃ paks : List UdpPak, l = paks.map fun pak => some (.ok pak)

/-- Packets, then at most one error, then only `None`. -/
def Ended (l : List (Option (Result UdpPak))) : Prop :=
  ∃ (paks : List UdpPak) (err : Option IoError) (n : Nat), l =
    paks.map (fun pak => some (.ok pak)) ++ err.toList.map (fun err => some (.error err)) ++
      List.replicate n none

/-- The stream gave an error: it has closed itself. -/
def Failed (u : TokioUdp) : Prop := ∃ err, .ready (some (.error err)) ∈ u.trace

/-- The reader is parked, the flag is set and who closed the stream has woken, but the waker that was
registered last was not woken. -/
structure LostWakeup (u : TokioUdp) : Prop where
  parked : u.recv = .pending
  shutdown : u.shutdown = true
  closed : .done ∈ u.closers ∨ u.Failed
  asleep : .woken u.polls ∉ u.trace

/-- The shutdown of the stream (module doc). -/
structure ShutsDown (u : TokioUdp) : Prop where
  items : Ended u.items
  /-- A poll that starts after the end gives `None`: it has, or its next step does. -/
  late : ∀ pre post, u.trace = pre ++ .poll :: post → pre.any (·.ends) →
    (∀ o ∈ post, o.outcome → o = .ready none) ∧
      ((∀ o ∈ post, o.outcome = false) → u.recv ≠ .dropped → u.poll = some (u.yield none))
  wakeup : ¬ LostWakeup u

variable {u u' : TokioUdp}

/-! ## The calls of the handle -/

/-- What a step of a call leaves alone. -/
structure Aside (u u' : TokioUdp) : Prop where
  recv : u'.recv = u.recv
  polls : u'.polls = u.polls
  waker : u'.waker = u.waker
  shutdown : u'.shutdown = u.shutdown
  closers : u'.closers = u.closers
  trace : ∃ l, u'.trace = u.trace ++ l ∧ ∀ o ∈ l, o.byCall

/-- The calls and nothing else change. -/
theorem Aside.silent (calls : List UdpCall) : Aside u { u with calls } :=
  ⟨rfl, rfl, rfl, rfl, rfl, [], (List.append_nil _).symm, nofun⟩

theorem Aside.log (calls : List UdpCall) {o : UdpObs} (ho : o.byCall) :
    Aside u ({ u with calls }.log o) :=
  ⟨rfl, rfl, rfl, rfl, rfl, [o], rfl, fun x hx => by rw [List.mem_singleton.mp hx]; exact ho⟩

/-! ## The wakers -/

/-- Whom the `close_immediate` calls have woken (module doc). -/
structure Wakes (u : TokioUdp) : Prop where
  stored : ∀ x ∈ u.closers, x ≠ .store → u.shutdown = true
  registered : u.recv.listens → u.waker = some u.polls ∨ .woken u.polls ∈ u.trace
  woken : u.recv = .sock ∨ u.recv = .pending → .done ∈ u.closers → .woken u.polls ∈ u.trace

theorem Wakes.aside (h : Wakes u) (ha : Aside u u') : Wakes u' := by
  obtain ⟨l, hl, -⟩ := ha.trace
  refine ⟨?_, ?_, ?_⟩
  · rw [ha.closers, ha.shutdown]
    exact h.stored
  · rw [ha.recv, ha.waker, ha.polls, hl]
    exact fun hr => (h.registered hr).imp_right (List.mem_append_left l)
  · rw [ha.recv, ha.closers, ha.polls, hl]
    exact fun hr hd => List.mem_append_left l (h.woken hr hd)

/-- A poll that the stream goes on without, or that has not registered yet. -/
theorem Wakes.leave (h : Wakes u) (hs : u.shutdown = true → u'.shutdown = true)
    (hc : u'.closers = u.closers) (hr : u'.recv.listens = false) : Wakes u' := by
  refine ⟨?_, ?_, ?_⟩
  · rw [hc]
    exact fun x hx hne => hs (h.stored x hx hne)
  · rw [hr]
    nofun
  · rintro (he | he) <;> (rw [he] at hr; cases hr)

/-- The waker that is registered is woken. -/
theorem mem_wake {w : Nat} (h : u.waker = some w ∨ .woken w ∈ u.trace) :
    .woken w ∈ u.wake.trace := by
  rw [wake_eq]
  rcases h with h | h
  · rw [h]
    exact List.mem_append_right _ List.mem_cons_self
  · exact List.mem_append_left _ h

theorem wakes_step {a : UdpAct} (h : Wakes u) (hs : step a u = some u') : Wakes u' := by
  cases step_cases hs with
  | poll | load | shut | err | pak | dropRecv => exact h.leave id rfl rfl
  | store => exact h.leave (fun _ => rfl) rfl rfl
  | wake => rw [wake_eq]; exact h.leave id rfl rfl
  | register => exact ⟨h.stored, fun _ => .inl rfl, by rintro (hr | hr) <;> cases hr⟩
  | reload hr hn =>
    refine ⟨h.stored, fun _ => h.registered (by rw [hr]; rfl), fun _ hd => ?_⟩
    -- no call has set the flag, so none has woken
    rw [h.stored _ hd nofun] at hn
    cases hn
  | pending hr =>
    refine ⟨h.stored, fun _ => ?_, fun _ hd => ?_⟩
    · exact (h.registered (by rw [hr]; rfl)).imp_right (List.mem_append_left _)
    · exact List.mem_append_left _ (h.woken (.inl hr) hd)
  | closeImmediate =>
    refine ⟨fun x hx hne => ?_, h.registered, fun hr hd => h.woken hr ?_⟩
    · rcases List.mem_append.mp hx with hx | hx
      · exact h.stored x hx hne
      · exact absurd (List.mem_singleton.mp hx) hne
    · rcases List.mem_append.mp hd with hd | hd
      · exact hd
      · cases List.mem_singleton.mp hd
  | closeStore =>
    refine ⟨fun _ _ _ => rfl, h.registered, fun hr hd => h.woken hr ?_⟩
    rcases List.mem_or_eq_of_mem_set hd with hd | hd
    · exact hd
    · cases hd
  | closeWake hk =>
    have hset := h.stored _ (List.mem_of_getElem? hk) nofun
    have hreg : u.recv.listens → .woken u.polls ∈ u.wake.trace :=
      fun hr => mem_wake (h.registered hr)
    rw [wake_eq] at hreg ⊢
    refine ⟨fun _ _ _ => hset, fun hr => .inr ?_, fun hr _ => ?_⟩
    · exact List.mem_append_left _ (hreg hr)
    · refine List.mem_append_left _ (hreg ?_)
      rcases hr with hr | hr
      · rw [show u.recv = .sock from hr]; rfl
      · rw [show u.recv = .pending from hr]; rfl
  | send => exact h.aside (.log _ rfl)
  | sendTo => exact h.aside (.log _ rfl)
  | sendErr | addr | localAddr | dropCall => exact h.aside (.silent _)

theorem sys_wakes (h : sys.Reach u) : Wakes u := by
  refine h.invariant (I := Wakes) (fun u hu => ?_) fun a _ _ _ => wakes_step
  rw [show u = bind from hu]
  exact ⟨nofun, nofun, nofun⟩

/-! ## The items -/

/-- What the stream has given (module doc). -/
structure Flow (u : TokioUdp) : Prop where
  packets : u.shutdown = false ∨ u.recv.passed → Packets u.items
  ended : Ended u.items
  waking : ∀ err, u.recv = .wake err → u.shutdown = true

section Items

variable {l : List (Option (Result UdpPak))}

theorem Packets.ended (h : Packets l) : Ended l := by
  obtain ⟨paks, rfl⟩ := h
  exact ⟨paks, none, 0, by simp⟩

theorem Packets.pak (h : Packets l) (pak : UdpPak) : Packets (l ++ [some (.ok pak)]) := by
  obtain ⟨paks, rfl⟩ := h
  exact ⟨paks ++ [pak], by simp⟩

theorem Packets.err (h : Packets l) (err : IoError) : Ended (l ++ [some (.error err)]) := by
  obtain ⟨paks, rfl⟩ := h
  exact ⟨paks, some err, 0, by simp⟩

theorem Ended.none (h : Ended l) : Ended (l ++ [none]) := by
  obtain ⟨paks, err, n, rfl⟩ := h
  exact ⟨paks, err, n + 1, by rw [List.replicate_succ', List.append_assoc]⟩

end Items

theorem items_append {l : List UdpObs} (ht : u'.trace = u.trace ++ l) :
    u'.items = u.items ++ l.filterMap (·.item?) := by
  rw [items, items, ht, List.filterMap_append]

theorem Flow.same (h : Flow u) (ht : u'.items = u.items)
    (hp : u'.shutdown = false ∨ u'.recv.passed → u.shutdown = false ∨ u.recv.passed)
    (hw : ∀ err, u'.recv = .wake err → u'.shutdown = true) : Flow u' :=
  ⟨fun hs => ht ▸ h.packets (hp hs), ht ▸ h.ended, hw⟩

/-- A step of another party that gives nothing. -/
theorem Flow.other (h : Flow u) {l : List UdpObs} (ht : u'.trace = u.trace ++ l)
    (hl : ∀ o ∈ l, o.item? = none) (hr : u'.recv = u.recv)
    (hs : u.shutdown = true → u'.shutdown = true) : Flow u' := by
  have hi : u'.items = u.items := by
    rw [items_append ht, List.filterMap_eq_nil_iff.mpr hl, List.append_nil]
  refine h.same hi ?_ fun err he => hs (h.waking err (hr ▸ he))
  rw [hr]
  refine Or.imp_left fun hn => Bool.eq_false_iff.mpr fun hu => ?_
  rw [hs hu] at hn
  cases hn

theorem Flow.aside (h : Flow u) (ha : Aside u u') : Flow u' := by
  obtain ⟨l, hl, hb⟩ := ha.trace
  refine h.other hl (fun o ho => ?_) ha.recv fun hs => ha.shutdown.trans hs
  have := hb o ho
  cases o <;> first | rfl | cases this

theorem items_log (u : TokioUdp) {o : UdpObs} (ho : o.item? = none) :
    (u.log o).items = u.items := by
  rw [items_append (l := [o]) rfl, List.filterMap_cons_none ho]
  exact List.append_nil _

/-- The poll gives an item. -/
theorem items_yield (u : TokioUdp) (item : Option (Result UdpPak)) :
    (u.yield item).items = u.items ++ [item] := items_append (l := [.ready item]) rfl

/-- Nobody gets an item from a wake. -/
theorem items_wake (u : TokioUdp) : u.wake.items = u.items := by
  rw [wake_eq, items, items, List.filterMap_append]
  cases u.waker with
  | none => exact List.append_nil _
  | some w => exact List.append_nil _

theorem flow_step {a : UdpAct} (h : Flow u) (hs : step a u = some u') : Flow u' := by
  cases step_cases hs with
  | poll =>
    refine h.same (items_log _ rfl) (fun hp => .inl ?_) nofun
    rcases hp with hp | hp
    · exact hp
    · cases hp
  | load _ hn => exact h.same rfl (fun _ => .inl hn) nofun
  | shut _ hset =>
    refine ⟨fun hp => ?_, items_yield u none ▸ h.ended.none, nofun⟩
    rcases hp with hp | hp
    · rw [show u.shutdown = false from hp] at hset
      cases hset
    · cases hp
  | register hr | reload hr | err hr => exact h.same rfl (fun _ => .inr (by rw [hr]; rfl)) nofun
  | store hr => exact h.same rfl (fun _ => .inr (by rw [hr]; rfl)) fun _ _ => rfl
  | @wake err hr =>
    have hset := h.waking err hr
    have hp := h.packets (.inr (by rw [hr]; rfl))
    rw [← items_wake] at hp
    refine ⟨fun hn => ?_, items_yield u.wake _ ▸ hp.err (.os err), nofun⟩
    rcases hn with hn | hn
    · rw [wake_eq] at hn
      rw [show u.shutdown = false from hn] at hset
      cases hset
    · cases hn
  | pending hr =>
    exact h.same (items_log _ rfl) (fun _ => .inr (by rw [hr]; rfl)) nofun
  | @pak pak hr =>
    have hp := (h.packets (.inr (by rw [hr]; rfl))).pak pak
    rw [← items_yield] at hp
    exact ⟨fun _ => hp, hp.ended, nofun⟩
  | dropRecv =>
    refine h.same rfl (fun hp => .inl ?_) nofun
    rcases hp with hp | hp
    · exact hp
    · cases hp
  | closeImmediate => exact h.other (l := []) (List.append_nil _).symm nofun rfl id
  | closeStore => exact h.other (l := []) (List.append_nil _).symm nofun rfl fun _ => rfl
  | @closeWake k =>
    obtain ⟨l, ht, hl⟩ := trace_closed u (u.closers.set k .done)
    rw [wake_eq] at ht ⊢
    refine h.other ht (fun o ho => ?_) rfl id
    rcases hl o ho with rfl | ⟨w, rfl⟩ <;> rfl
  | send => exact h.aside (.log _ rfl)
  | sendTo => exact h.aside (.log _ rfl)
  | sendErr | addr | localAddr | dropCall => exact h.aside (.silent _)

theorem sys_flow (h : sys.Reach u) : Flow u := by
  refine h.invariant (I := Flow) (fun u hu => ?_) fun a _ _ _ => flow_step
  rw [show u = bind from hu]
  exact ⟨fun _ => ⟨[], rfl⟩, ⟨[], none, 0, rfl⟩, nofun⟩

/-! ## The polls after the end -/

/-- After a late poll (what was seen since it started is `post`): its next step gives `None`, or it
has given it. -/
def Answered (u : TokioUdp) (post : List UdpObs) : Prop :=
  u.recv = .load ∨ u.recv = .dropped ∨ (∃ item, u.recv = .ready item) ∧ post.any (·.outcome)

/-- The polls that start after the end (module doc). -/
structure Late (u : TokioUdp) : Prop where
  shut : u.trace.any (·.ends) → u.shutdown = true
  late : ∀ pre post, u.trace = pre ++ .poll :: post → pre.any (·.ends) →
    (∀ o ∈ post, o.outcome → o = .ready none) ∧ u.Answered post

theorem Answered.other {post : List UdpObs} (h : u.Answered post) (hr : u'.recv = u.recv)
    (l : List UdpObs) : u'.Answered (post ++ l) := by
  unfold Answered
  rw [hr, List.any_append]
  rcases h with h | h | ⟨h, hp⟩
  · exact .inl h
  · exact .inr (.inl h)
  · exact .inr (.inr ⟨h, by rw [hp]; rfl⟩)

/-- No late poll gets past its first read of the flag. -/
theorem Answered.not_passed {post : List UdpObs} (h : u.Answered post) : u.recv.passed = false := by
  rcases h with h | h | ⟨⟨item, h⟩, -⟩ <;> (rw [h]; rfl)

/-- A step that starts no poll. -/
theorem Late.next (h : Late u) {l : List UdpObs} (ht : u'.trace = u.trace ++ l) (hp : .poll ∉ l)
    (hs : u.shutdown = true → u'.shutdown = true) (hl : ∀ o ∈ l, o.ends → u'.shutdown = true)
    (hn : ∀ post, u.shutdown = true → u.Answered post →
      (∀ o ∈ l, o.outcome → o = .ready none) ∧ u'.Answered (post ++ l)) : Late u' := by
  refine ⟨fun he => ?_, fun pre post htr he => ?_⟩
  · rw [ht, List.any_append, Bool.or_eq_true] at he
    rcases he with he | he
    · exact hs (h.shut he)
    · obtain ⟨o, ho, he⟩ := List.any_eq_true.mp he
      exact hl o ho he
  · rw [ht] at htr
    obtain ⟨rest, rfl, hold⟩ := List.append_eq_append_cons htr hp
    obtain ⟨hnone, ha⟩ := h.late pre rest hold he
    have hset := h.shut (by rw [hold, List.any_append, he]; rfl)
    obtain ⟨hl, ha'⟩ := hn rest hset ha
    exact ⟨fun o ho => (List.mem_append.mp ho).elim (hnone o) (hl o), ha'⟩

/-- A step of another party. -/
theorem Late.other (h : Late u) {l : List UdpObs} (ht : u'.trace = u.trace ++ l)
    (hr : u'.recv = u.recv) (hs : u.shutdown = true → u'.shutdown = true)
    (hl : ∀ o ∈ l, (o.ends → u'.shutdown = true) ∧ o.outcome = false ∧ o ≠ .poll) : Late u' := by
  refine h.next ht (fun hp => (hl _ hp).2.2 rfl) hs (fun o ho => (hl o ho).1) fun post _ ha => ?_
  refine ⟨fun o ho hout => ?_, ha.other hr l⟩
  rw [(hl o ho).2.1] at hout
  cases hout

theorem Late.aside (h : Late u) (ha : Aside u u') : Late u' := by
  obtain ⟨l, hl, hb⟩ := ha.trace
  refine h.other hl ha.recv (fun hs => ha.shutdown.trans hs) fun o ho => ?_
  have := hb o ho
  cases o <;> first | cases this; done | exact ⟨nofun, rfl, nofun⟩

/-- A step of a poll that found the flag unset: the poll started before the end. -/
theorem Late.passed (h : Late u) {l : List UdpObs} (ht : u'.trace = u.trace ++ l) (hp : .poll ∉ l)
    (hs : u.shutdown = true → u'.shutdown = true) (hl : ∀ o ∈ l, o.ends → u'.shutdown = true)
    (hr : u.recv.passed = true) : Late u' := by
  refine h.next ht hp hs hl fun post _ ha => ?_
  rw [ha.not_passed] at hr
  cases hr

/-- A poll starts. -/
theorem late_poll (h : Late u) :
    Late (({ u with recv := .load, polls := u.polls + 1 } : TokioUdp).log .poll) := by
  refine ⟨fun he => h.shut ?_, fun pre post htr he => ?_⟩
  · rwa [log, List.any_append, show [UdpObs.poll].any (·.ends) = false from rfl,
      Bool.or_false] at he
  · rcases List.eq_nil_or_concat post with rfl | ⟨rest, o, rfl⟩
    · exact ⟨nofun, .inl rfl⟩
    · rw [List.concat_eq_append, ← List.cons_append, ← List.append_assoc] at htr
      obtain ⟨htr, ho⟩ := List.append_inj' htr rfl
      refine ⟨fun x hx hout => ?_, .inl rfl⟩
      rcases List.mem_append.mp (List.concat_eq_append ▸ hx) with hx | hx
      · exact (h.late pre rest htr he).1 x hx hout
      · rw [List.mem_singleton.mp hx, ← List.singleton_inj.mp ho] at hout
        cases hout

theorem late_step {a : UdpAct} (hw : Wakes u) (hf : Flow u) (h : Late u)
    (hs : step a u = some u') : Late u' := by
  cases step_cases hs with
  | poll => exact late_poll h
  | load _ hn =>
    refine h.next (l := []) (List.append_nil _).symm nofun id nofun fun post hset _ => ?_
    rw [hset] at hn
    cases hn
  | shut _ hset =>
    refine h.next (l := [.ready none]) rfl (by simp) id (fun _ _ _ => hset) fun post _ _ => ?_
    refine ⟨fun o ho _ => List.mem_singleton.mp ho, .inr (.inr ⟨⟨none, rfl⟩, ?_⟩)⟩
    rw [List.any_append, Bool.or_eq_true]
    exact .inr rfl
  | register hr | reload hr | err hr =>
    exact h.passed (l := []) (List.append_nil _).symm nofun id nofun (by rw [hr]; rfl)
  | store hr =>
    exact h.passed (l := []) (List.append_nil _).symm nofun (fun _ => rfl) nofun (by rw [hr]; rfl)
  | @wake err hr =>
    have hset := hf.waking err hr
    rw [wake_eq]
    refine h.passed (List.append_assoc u.trace (u.waker.map UdpObs.woken).toList
      [.ready (some (.error (.os err)))]) ?_ id (fun _ _ _ => hset) (by rw [hr]; rfl)
    cases u.waker <;> simp
  | pending hr =>
    refine h.passed (l := [.pending]) rfl (by simp) id (fun o ho he => ?_) (by rw [hr]; rfl)
    rw [List.mem_singleton.mp ho] at he
    cases he
  | @pak pak hr =>
    refine h.passed (l := [.ready (some (.ok pak))]) rfl (by simp) id (fun o ho he => ?_)
      (by rw [hr]; rfl)
    rw [List.mem_singleton.mp ho] at he
    cases he
  | dropRecv =>
    refine h.next (l := []) (List.append_nil _).symm nofun id nofun fun post _ _ => ?_
    exact ⟨nofun, .inr (.inl rfl)⟩
  | closeImmediate => exact h.other (l := []) (List.append_nil _).symm rfl id nofun
  | closeStore => exact h.other (l := []) (List.append_nil _).symm rfl (fun _ => rfl) nofun
  | @closeWake k hk =>
    have hset := hw.stored _ (List.mem_of_getElem? hk) nofun
    obtain ⟨l, ht, hl⟩ := trace_closed u (u.closers.set k .done)
    rw [wake_eq] at ht ⊢
    refine h.other ht rfl id fun o ho => ⟨fun _ => hset, ?_⟩
    rcases hl o ho with rfl | ⟨w, rfl⟩ <;> exact ⟨rfl, nofun⟩
  | send => exact h.aside (.log _ rfl)
  | sendTo => exact h.aside (.log _ rfl)
  | sendErr | addr | localAddr | dropCall => exact h.aside (.silent _)

theorem sys_late (h : sys.Reach u) : Late u := by
  refine h.invariant (I := Late) (fun u hu => ?_) fun a _ _ hr hl hs =>
    late_step (sys_wakes hr) (sys_flow hr) hl hs
  rw [show u = bind from hu]
  refine ⟨nofun, fun pre post htr _ => ?_⟩
  cases pre <;> cases htr

/-- The error was there before a step that gives no item. -/
theorem Failed.before (h : Failed u') {l : List UdpObs} (ht : u'.trace = u.trace ++ l)
    (hl : ∀ o ∈ l, o.item? = none) : Failed u := by
  obtain ⟨err, he⟩ := h
  rw [ht] at he
  rcases List.mem_append.mp he with he | he
  · exact ⟨err, he⟩
  · exact nomatch hl _ he

/-- After its error the stream waits for nothing. -/
theorem failed_step {a : UdpAct} (hl : Late u) (h : u.Failed → u.recv.waits = false)
    (hs : step a u = some u') (hf : u'.Failed) : u'.recv.waits = false := by
  -- a poll that found the flag unset started before the error
  have hwaits : u.recv.waits = true → u.Failed → u'.recv.waits = false := fun ho hf => by
    rw [h hf] at ho
    cases ho
  cases step_cases hs with
  | poll | shut | wake | pak | dropRecv => rfl
  | load _ hn =>
    obtain ⟨err, he⟩ := hf
    rw [hl.shut (List.any_eq_true.mpr ⟨_, he, rfl⟩)] at hn
    cases hn
  | register hr | reload hr | store hr | err hr => exact hwaits (by rw [hr]; rfl) hf
  | pending hr =>
    refine hwaits (by rw [hr]; rfl) (hf.before (l := [.pending]) rfl fun o ho => ?_)
    rw [List.mem_singleton.mp ho]
    rfl
  | closeImmediate | closeStore | sendErr | addr | localAddr | dropCall => exact h hf
  | @closeWake k =>
    obtain ⟨l, ht, hc⟩ := trace_closed u (u.closers.set k .done)
    have hf' := hf.before ht fun o ho => by rcases hc o ho with rfl | ⟨w, rfl⟩ <;> rfl
    rw [wake_eq]
    exact h hf'
  | send | sendTo =>
    refine h (hf.before (l := [_]) rfl fun o ho => ?_)
    rw [List.mem_singleton.mp ho]
    rfl

theorem sys_failed (h : sys.Reach u) : u.Failed → u.recv.waits = false := by
  refine h.invariant (I := fun u => u.Failed → u.recv.waits = false) (fun u hu => ?_)
    fun a _ _ hr hi hs => failed_step (sys_late hr) hi hs
  rw [show u = bind from hu]
  exact fun _ => rfl

/-- In every interleaving of the polls and the calls, the stream shuts down. -/
theorem shuts_down (h : sys.Reach u) : ShutsDown u := by
  have hl := sys_late h
  refine ⟨(sys_flow h).ended, fun pre post htr he => ?_, fun hw => ?_⟩
  · obtain ⟨hnone, ha⟩ := hl.late pre post htr he
    have hset := hl.shut (by rw [htr, List.any_append, he]; rfl)
    refine ⟨hnone, fun hout hd => ?_⟩
    rcases ha with hr | hr | ⟨-, hp⟩
    · rw [poll, hr, hset]
      rfl
    · exact absurd hr hd
    · obtain ⟨o, ho, hp⟩ := List.any_eq_true.mp hp
      rw [hout o ho] at hp
      cases hp
  · rcases hw.closed with hd | hf
    · exact hw.asleep ((sys_wakes h).woken (.inr hw.parked) hd)
    · have hwaits := sys_failed h hf
      rw [hw.parked] at hwaits
      cases hwaits

/-- The second poll is parked when the socket is closed, and is woken. -/
theorem shuts_down_parked : ∃ u : TokioUdp, ShutsDown u ∧
    (u.items.length = 1 ∧ u.shutdown = true ∧ u.closers = [.done]) := by
  obtain ⟨u, hr, hu⟩ := Lts.Reach.of_run_any (S := sys)
    (List.replicate 4 .poll ++ [.sockPoll (.pak ⟨.unspecified, [1]⟩)] ++ List.replicate 4 .poll ++
      [.sockPoll .pending, .closeImmediate, .close 0, .close 0])
    (fun u => u.items.length = 1 ∧ u.shutdown = true ∧ u.closers = [.done]) (s := bind) rfl
    (by decide +kernel)
  exact ⟨u, shuts_down hr, of_decide_eq_true hu⟩

end TokioUdp
end Absquic
