import Mathlib.Data.List.Basic

/-!
# Bounded channels

A bounded channel is an unbounded queue next to a semaphore: a sender takes a permit, and the
message travels with the guard of that permit. The queue does not look at the guard, so a message
can be sent with the guard of any semaphore; `κ` names the semaphores, and a guard is the name of
the semaphore its permit goes back to.

* `acquire`, `release`: the semaphore's free permits.
* `send`: appends while the receiver exists, else gives the message and its guard back.
* `recv`: the oldest message; `close`: the receiver is dropped, with what is queued.
-/

/-- A bounded channel (module doc). -/
structure Chan (κ T : Type) where
  /-- The free permits. -/
  free : Nat
  /-- The queued messages with their guards, the oldest first. -/
  queue : List (T × κ)
  /-- The receiver has not been dropped. -/
  rx : Bool

namespace Chan

variable {κ T : Type}

/-- A channel with `limit` permits. -/
def new (limit : Nat) : Chan κ T := ⟨limit, [], true⟩

/-- One permit less, if one is free. -/
def acquire (ch : Chan κ T) : Option (Chan κ T) :=
  if ch.free = 0 then none else some { ch with free := ch.free - 1 }

/-- `n` permits come back. -/
def release (ch : Chan κ T) (n : Nat) : Chan κ T := { ch with free := ch.free + n }

/-- The message `t` with the guard `g`, at the end of the queue. -/
def push (ch : Chan κ T) (t : T) (g : κ) : Chan κ T := { ch with queue := ch.queue ++ [(t, g)] }

/-- Without the messages and the receiver. -/
def close (ch : Chan κ T) : Chan κ T := { ch with queue := [], rx := false }

/-- The guards of the queued messages. -/
def guards (ch : Chan κ T) : List κ := ch.queue.map Prod.snd

@[simp] theorem release_zero (ch : Chan κ T) : ch.release 0 = ch := rfl

@[simp] theorem free_release (ch : Chan κ T) (n : Nat) : (ch.release n).free = ch.free + n := rfl
@[simp] theorem queue_release (ch : Chan κ T) (n : Nat) : (ch.release n).queue = ch.queue := rfl
@[simp] theorem rx_release (ch : Chan κ T) (n : Nat) : (ch.release n).rx = ch.rx := rfl

@[simp] theorem free_push (ch : Chan κ T) (t : T) (g : κ) : (ch.push t g).free = ch.free := rfl
@[simp] theorem queue_push (ch : Chan κ T) (t : T) (g : κ) :
    (ch.push t g).queue = ch.queue ++ [(t, g)] := rfl
@[simp] theorem rx_push (ch : Chan κ T) (t : T) (g : κ) : (ch.push t g).rx = ch.rx := rfl

@[simp] theorem free_close (ch : Chan κ T) : ch.close.free = ch.free := rfl
@[simp] theorem queue_close (ch : Chan κ T) : ch.close.queue = [] := rfl
@[simp] theorem rx_close (ch : Chan κ T) : ch.close.rx = false := rfl

/-- What a successful `acquire` does. -/
theorem acquire_eq {ch ch' : Chan κ T} (h : ch.acquire = some ch') :
    0 < ch.free ∧ ch' = { ch with free := ch.free - 1 } := by
  unfold acquire at h
  split at h
  · cases h
  · cases h; exact ⟨by omega, rfl⟩

theorem acquire_isSome {ch : Chan κ T} : ch.acquire.isSome ↔ 0 < ch.free := by
  unfold acquire
  split
  · simp; omega
  · simp; omega

end Chan
