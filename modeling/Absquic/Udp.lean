import Absquic.Core
import Absquic.Lib.Lts

/-!
# A udp socket (`absquic_tokio/src/tokio_udp.rs`)

`TokioUdp` is what `TokioUdpFactory::bind` makes: the flag and the waker of `Shutdown`, the receiver
`TokioUdpRecv`, and the handle `TokioUdp` with its calls. `TokioUdp.step` is one atomic step:

* of the receiver's owner, in `poll_next` (`poll`; `sockPoll` is the answer of the socket);
* of a `close_immediate` call (`close`): it sets the flag, then wakes;
* `send` and `addr` are called; the socket answers the future of `send` (`sendTo`), and the call of
  `addr` itself (`localAddr`).

`AtomicWaker` holds the waker that was registered last; poll number `n` registers the waker `n`.
The socket is alive (`alive`) while somebody holds it: the receiver, the future of a `send` that found
it alive, and such a call of `addr` until it returns. `trace` records what the parties see; no step
reads it.
-/

namespace Absquic

/-- What `sock.poll_recv_from` gives. -/
inductive SockPoll
  | pending
  | err (code : Int)
  | pak (pak : UdpPak)

/-- Where the receiver's owner is: in a poll, or what the last poll gave. -/
inductive RecvPc
  | new
  /-- line 37 -/
  | load
  /-- line 40 -/
  | register
  /-- line 42 -/
  | reload
  /-- line 177 -/
  | sock
  /-- line 32, after an error of the socket -/
  | store (err : Int)
  /-- line 33 -/
  | wake (err : Int)
  | pending
  | ready (item : Option (Result UdpPak))
  | dropped

/-- Where a `close_immediate` call is: lines 32 and 33. -/
inductive ClosePc
  | store | wake | done
  deriving DecidableEq

/-- The future of a `send`, or a call of `addr`. -/
inductive UdpCall
  /-- It holds the socket. -/
  | send (pak : UdpPak)
  | addr
  | sent (result : Result Unit)
  | gave (result : Result SocketAddr)
  | dropped

def UdpCall.holds : UdpCall → Bool
  | .send _ | .addr => true
  | _ => false

/-- What the trace records. -/
inductive UdpObs
  /-- A poll starts. -/
  | poll
  | pending
  | ready (item : Option (Result UdpPak))
  /-- The waker that this poll registered is woken. -/
  | woken (poll : Nat)
  /-- A `close_immediate` call has returned. -/
  | closed
  /-- `send` is called: call `k`. -/
  | send (k : Nat)
  /-- Call `k` put its datagram on the socket. -/
  | datagram (k : Nat) (pak : UdpPak)

/-- A udp socket (module doc). -/
structure TokioUdp where
  shutdown : Bool
  waker : Option Nat
  /-- The number of polls. -/
  polls : Nat
  recv : RecvPc
  closers : List ClosePc
  calls : List UdpCall
  trace : List UdpObs

namespace TokioUdp

def log (u : TokioUdp) (o : UdpObs) : TokioUdp := { u with trace := u.trace ++ [o] }

/-- The poll gives `item`. -/
def yield (u : TokioUdp) (item : Option (Result UdpPak)) : TokioUdp :=
  { u with recv := .ready item }.log (.ready item)

/-- `AtomicWaker::wake`. -/
def wake (u : TokioUdp) : TokioUdp :=
  match u.waker with
  | none => u
  | some w => { u with waker := none }.log (.woken w)

/-! ## The receiver -/

/-- `poll_next`, up to the poll of the socket and after an error of it. -/
def poll (u : TokioUdp) : Option TokioUdp :=
  match u.recv with
  | .new | .pending | .ready _ => some ({ u with recv := .load, polls := u.polls + 1 }.log .poll)
  | .load => some (if u.shutdown then u.yield none else { u with recv := .register })
  | .register => some { u with waker := some u.polls, recv := .reload }
  | .reload => some (if u.shutdown then u.yield none else { u with recv := .sock })
  | .store err => some { u with shutdown := true, recv := .wake err }
  | .wake err => some (u.wake.yield (some (.error (.os err))))
  | .sock | .dropped => none

/-- The poll of the socket (lines 177-194). -/
def sockPoll (u : TokioUdp) (r : SockPoll) : Option TokioUdp :=
  match u.recv, r with
  | .sock, .pending => some ({ u with recv := .pending }.log .pending)
  | .sock, .err code => some { u with recv := .store code }
  | .sock, .pak pak => some (u.yield (some (.ok pak)))
  | _, _ => none

/-- `TokioUdpRecv` is dropped. -/
def dropRecv (u : TokioUdp) : TokioUdp := { u with recv := .dropped }

/-! ## The handle -/

/-- `close_immediate` is called. -/
def closeImmediate (u : TokioUdp) : TokioUdp := { u with closers := u.closers ++ [.store] }

/-- A step of `close_immediate`. -/
def close (u : TokioUdp) (k : Nat) : Option TokioUdp :=
  match u.closers[k]? with
  | some .store => some { u with shutdown := true, closers := u.closers.set k .wake }
  | some .wake => some ({ u.wake with closers := u.closers.set k .done }.log .closed)
  | _ => none

/-- `Weak::upgrade(&self.sock)` gives the socket. -/
def alive (u : TokioUdp) : Bool :=
  (match u.recv with | .dropped => false | _ => true) || u.calls.any (·.holds)

/-- `send(pak)` is called. -/
def send (u : TokioUdp) (pak : UdpPak) : TokioUdp :=
  let call : UdpCall := if u.alive then .send pak else .sent (.error socketClosed)
  { u with calls := u.calls ++ [call] }.log (.send u.calls.length)

/-- `sock.send_to` has finished (line 84). -/
def sendTo (u : TokioUdp) (k : Nat) (r : Except Int Unit) : Option TokioUdp :=
  match u.calls[k]?, r with
  | some (.send pak), .ok _ =>
    some ({ u with calls := u.calls.set k (.sent (.ok ())) }.log (.datagram k pak))
  | some (.send _), .error code =>
    some { u with calls := u.calls.set k (.sent (.error (.os code))) }
  | _, _ => none

/-- `addr()` is called. -/
def addr (u : TokioUdp) : TokioUdp :=
  { u with calls := u.calls ++ [if u.alive then .addr else .gave (.error socketClosed)] }

/-- `sock.local_addr` has finished (line 130). -/
def localAddr (u : TokioUdp) (k : Nat) (r : Result SocketAddr) : Option TokioUdp :=
  match u.calls[k]? with
  | some .addr => some { u with calls := u.calls.set k (.gave r) }
  | _ => none

/-- The future of a `send` is dropped. -/
def dropCall (u : TokioUdp) (k : Nat) : Option TokioUdp :=
  match u.calls[k]? with
  | some (.send _) => some { u with calls := u.calls.set k .dropped }
  | _ => none

end TokioUdp

/-- The steps of a socket's parties (module doc). -/
inductive UdpAct
  | poll
  | sockPoll (r : SockPoll)
  | dropRecv
  | closeImmediate
  | close (k : Nat)
  | send (pak : UdpPak)
  | sendTo (k : Nat) (r : Except Int Unit)
  | addr
  | localAddr (k : Nat) (r : Result SocketAddr)
  | dropCall (k : Nat)

/-- The steps that the receiver's owner does not make. -/
def UdpAct.other : UdpAct → Bool
  | .poll | .sockPoll _ | .dropRecv => false
  | _ => true

namespace TokioUdp

def step : UdpAct → TokioUdp → Option TokioUdp
  | .poll, u => u.poll
  | .sockPoll r, u => u.sockPoll r
  | .dropRecv, u => some u.dropRecv
  | .closeImmediate, u => some u.closeImmediate
  | .close k, u => u.close k
  | .send pak, u => some (u.send pak)
  | .sendTo k r, u => u.sendTo k r
  | .addr, u => some u.addr
  | .localAddr k r, u => u.localAddr k r
  | .dropCall k, u => u.dropCall k

/-- `TokioUdpFactory::bind`. -/
def bind : TokioUdp where
  shutdown := false
  waker := none
  polls := 0
  recv := .new
  closers := []
  calls := []
  trace := []

/-- A socket as a system: its parties may step at any time. -/
def sys : Lts TokioUdp UdpAct where
  init u := u = bind
  step := step

/-! ## What the steps do -/

/-- The steps of a socket's parties, with what they check. -/
inductive Step (u : TokioUdp) : UdpAct → TokioUdp → Prop
  | poll (hr : u.recv = .new ∨ u.recv = .pending ∨ ∃ item, u.recv = .ready item) :
    Step u .poll ({ u with recv := .load, polls := u.polls + 1 }.log .poll)
  | load (hr : u.recv = .load) (hs : u.shutdown = false) : Step u .poll { u with recv := .register }
  /-- The first or the second read of the flag finds it set. -/
  | shut (hr : u.recv = .load ∨ u.recv = .reload) (hs : u.shutdown = true) :
    Step u .poll (u.yield none)
  | register (hr : u.recv = .register) :
    Step u .poll { u with waker := some u.polls, recv := .reload }
  | reload (hr : u.recv = .reload) (hs : u.shutdown = false) : Step u .poll { u with recv := .sock }
  | store {err} (hr : u.recv = .store err) :
    Step u .poll { u with shutdown := true, recv := .wake err }
  | wake {err} (hr : u.recv = .wake err) :
    Step u .poll (u.wake.yield (some (.error (.os err))))
  | pending (hr : u.recv = .sock) :
    Step u (.sockPoll .pending) ({ u with recv := .pending }.log .pending)
  | err {code} (hr : u.recv = .sock) : Step u (.sockPoll (.err code)) { u with recv := .store code }
  | pak {pak} (hr : u.recv = .sock) : Step u (.sockPoll (.pak pak)) (u.yield (some (.ok pak)))
  | dropRecv : Step u .dropRecv u.dropRecv
  | closeImmediate : Step u .closeImmediate u.closeImmediate
  | closeStore {k} (hk : u.closers[k]? = some .store) :
    Step u (.close k) { u with shutdown := true, closers := u.closers.set k .wake }
  | closeWake {k} (hk : u.closers[k]? = some .wake) :
    Step u (.close k) ({ u.wake with closers := u.closers.set k .done }.log .closed)
  | send {pak} : Step u (.send pak) (u.send pak)
  | sendTo {k pak} (hk : u.calls[k]? = some (.send pak)) : Step u (.sendTo k (.ok ()))
      ({ u with calls := u.calls.set k (.sent (.ok ())) }.log (.datagram k pak))
  | sendErr {k pak code} (hk : u.calls[k]? = some (.send pak)) :
    Step u (.sendTo k (.error code)) { u with calls := u.calls.set k (.sent (.error (.os code))) }
  | addr : Step u .addr u.addr
  | localAddr {k r} (hk : u.calls[k]? = some .addr) :
    Step u (.localAddr k r) { u with calls := u.calls.set k (.gave r) }
  | dropCall {k pak} (hk : u.calls[k]? = some (.send pak)) :
    Step u (.dropCall k) { u with calls := u.calls.set k .dropped }

theorem wake_eq (u : TokioUdp) : u.wake = { u with
    waker := none, trace := u.trace ++ (u.waker.map UdpObs.woken).toList } := by
  unfold wake
  cases hw : u.waker with
  | none => cases u; simp_all
  | some w => rfl

/-- What the last step of `close_immediate` logs. -/
theorem trace_closed (u : TokioUdp) (closers : List ClosePc) : ∃ l,
    ({ u.wake with closers }.log .closed).trace = u.trace ++ l ∧
      ∀ o ∈ l, o = .closed ∨ ∃ w, o = .woken w := by
  rw [wake_eq]
  refine ⟨_, List.append_assoc u.trace (u.waker.map UdpObs.woken).toList [.closed], fun o ho => ?_⟩
  rcases List.mem_append.mp ho with ho | ho
  · obtain ⟨w, -, rfl⟩ := Option.map_eq_some_iff.mp (Option.mem_toList.mp ho)
    exact .inr ⟨w, rfl⟩
  · exact .inl (List.mem_singleton.mp ho)

theorem poll_cases {u u' : TokioUdp} (h : u.poll = some u') : Step u .poll u' := by
  unfold poll at h
  split at h
  · next hr => cases h; exact .poll (.inl hr)
  · next hr => cases h; exact .poll (.inr (.inl hr))
  · next item hr => cases h; exact .poll (.inr (.inr ⟨item, hr⟩))
  · next hr =>
    cases h
    split
    · next hs => exact .shut (.inl hr) hs
    · next hs => exact .load hr (Bool.eq_false_iff.mpr hs)
  · next hr => cases h; exact .register hr
  · next hr =>
    cases h
    split
    · next hs => exact .shut (.inr hr) hs
    · next hs => exact .reload hr (Bool.eq_false_iff.mpr hs)
  · next hr => cases h; exact .store hr
  · next hr => cases h; exact .wake hr
  · cases h
  · cases h

theorem step_cases {a : UdpAct} {u u' : TokioUdp} (h : step a u = some u') : Step u a u' := by
  cases a with
  | poll => exact poll_cases h
  | sockPoll r =>
    change u.sockPoll r = some u' at h
    unfold sockPoll at h
    split at h
    · next hr => cases h; exact .pending hr
    · next hr => cases h; exact .err hr
    · next hr => cases h; exact .pak hr
    · cases h
  | dropRecv => cases h; exact .dropRecv
  | closeImmediate => cases h; exact .closeImmediate
  | close k =>
    change u.close k = some u' at h
    unfold close at h
    split at h
    · next hk => cases h; exact .closeStore hk
    · next hk => cases h; exact .closeWake hk
    · cases h
  | send pak => cases h; exact .send
  | sendTo k r =>
    change u.sendTo k r = some u' at h
    unfold sendTo at h
    split at h
    · next hk => cases h; exact .sendTo hk
    · next hk => cases h; exact .sendErr hk
    · cases h
  | addr => cases h; exact .addr
  | localAddr k r =>
    change u.localAddr k r = some u' at h
    unfold localAddr at h
    split at h
    · next hk => cases h; exact .localAddr hk
    · cases h
  | dropCall k =>
    change u.dropCall k = some u' at h
    unfold dropCall at h
    split at h
    · next hk => cases h; exact .dropCall hk
    · cases h

theorem recv_other {a : UdpAct} {u u' : TokioUdp} (ha : a.other) (hs : step a u = some u') :
    u'.recv = u.recv := by
  cases step_cases hs with
  | poll | load | shut | register | reload | store | wake | pending | err | pak | dropRecv =>
    cases ha
  | closeWake => rw [wake_eq]; rfl
  | _ => rfl

/-! ## After the last holder of the socket -/

/-- Nobody holds the socket. -/
structure Closed (u : TokioUdp) : Prop where
  recv : u.recv = .dropped
  calls : ∀ x ∈ u.calls, x.holds = false

variable {u u' : TokioUdp}

theorem Closed.alive (h : Closed u) : u.alive = false := by
  unfold TokioUdp.alive
  rw [h.recv, Bool.false_or, List.any_eq_false]
  exact fun x hx => by rw [h.calls x hx]; exact Bool.false_ne_true

/-- Since `u`, every call was refused, and no datagram was put on the socket. -/
structure Mute (u u' : TokioUdp) : Prop where
  closed : Closed u'
  calls : ∃ l, u'.calls = u.calls ++ l ∧
    ∀ x ∈ l, x = .sent (.error socketClosed) ∨ x = .gave (.error socketClosed)
  trace : ∃ l, u'.trace = u.trace ++ l ∧ ∀ k pak, .datagram k pak ∉ l

theorem Mute.refl (h : Closed u) : Mute u u :=
  ⟨h, ⟨[], (List.append_nil _).symm, nofun⟩, ⟨[], (List.append_nil _).symm, nofun⟩⟩

/-- A step that leaves the calls alone and sends nothing. -/
theorem Mute.keep {u₀ : TokioUdp} (h : Mute u₀ u) (hr : u'.recv = u.recv)
    (hc : u'.calls = u.calls) {l : List UdpObs} (ht : u'.trace = u.trace ++ l)
    (hl : ∀ k pak, .datagram k pak ∉ l) : Mute u₀ u' := by
  obtain ⟨l₀, ht₀, hl₀⟩ := h.trace
  refine ⟨⟨hr.trans h.closed.recv, hc ▸ h.closed.calls⟩, hc ▸ h.calls, l₀ ++ l, ?_,
    fun k pak ho => ?_⟩
  · rw [ht, ht₀, List.append_assoc]
  · rcases List.mem_append.mp ho with ho | ho
    · exact hl₀ k pak ho
    · exact hl k pak ho

/-- A call that is refused. -/
theorem Mute.refuse {u₀ : TokioUdp} (h : Mute u₀ u) (hr : u'.recv = u.recv) {x : UdpCall}
    (hx : x = .sent (.error socketClosed) ∨ x = .gave (.error socketClosed))
    (hc : u'.calls = u.calls ++ [x]) {l : List UdpObs} (ht : u'.trace = u.trace ++ l)
    (hl : ∀ k pak, .datagram k pak ∉ l) : Mute u₀ u' := by
  have hn : x.holds = false := by rcases hx with rfl | rfl <;> rfl
  have hm : Mute u₀ { u' with calls := u.calls } := h.keep hr rfl ht hl
  obtain ⟨l₀, hc₀, hl₀⟩ := h.calls
  refine ⟨⟨hm.closed.recv, fun y hy => ?_⟩, ⟨l₀ ++ [x], ?_, fun y hy => ?_⟩, hm.trace⟩
  · rw [hc] at hy
    rcases List.mem_append.mp hy with hy | hy
    · exact h.closed.calls y hy
    · rw [List.mem_singleton.mp hy]; exact hn
  · rw [hc, hc₀, List.append_assoc]
  · rcases List.mem_append.mp hy with hy | hy
    · exact hl₀ y hy
    · rw [List.mem_singleton.mp hy]; exact hx

theorem mute_step {u₀ : TokioUdp} {a : UdpAct} (h : Mute u₀ u) (hs : step a u = some u') :
    Mute u₀ u' := by
  have hd := h.closed.recv
  have hcall : ∀ {k : Nat} {x : UdpCall}, u.calls[k]? = some x → x.holds = false :=
    fun hk => h.closed.calls _ (List.mem_of_getElem? hk)
  cases step_cases hs with
  | poll hr => rw [hd] at hr; rcases hr with hr | hr | ⟨_, hr⟩ <;> cases hr
  | shut hr => rw [hd] at hr; rcases hr with hr | hr <;> cases hr
  | load hr | register hr | reload hr | store hr | wake hr | pending hr | err hr | pak hr =>
    rw [hd] at hr; cases hr
  | dropRecv => exact h.keep hd.symm rfl (List.append_nil _).symm nofun
  | closeImmediate | closeStore => exact h.keep rfl rfl (List.append_nil _).symm nofun
  | @closeWake k =>
    obtain ⟨l, ht, hl⟩ := trace_closed u (u.closers.set k .done)
    rw [wake_eq] at ht ⊢
    refine h.keep rfl rfl ht fun k pak ho => ?_
    rcases hl _ ho with ho | ⟨w, ho⟩ <;> cases ho
  | send =>
    refine h.refuse rfl (.inl rfl) ?_ rfl (by simp)
    show u.calls ++ [if u.alive then _ else _] = _
    rw [h.closed.alive]
    rfl
  | addr =>
    refine h.refuse rfl (.inr rfl) ?_ (List.append_nil _).symm nofun
    show u.calls ++ [if u.alive then _ else _] = _
    rw [h.closed.alive]
    rfl
  | sendTo hk | sendErr hk | localAddr hk | dropCall hk => cases hcall hk

/-- Once nobody holds the socket, every call is refused. -/
theorem mute (h : Closed u) (hs : sys.Steps (fun _ => True) u u') : Mute u u' :=
  hs.invariant (I := Mute u) (fun a _ _ _ hm hst => mute_step (a := a) hm hst) (.refl h)

end TokioUdp
end Absquic
