import Absquic.Lib.Gather

/-!
# Queues of a system

A queue of a system (`Fifo`) is what its state has queued, whether its receiver is still there, and
what a step puts into it and takes out of it. It is `Lawful` if each step appends what it puts and
takes from the front, and what is queued goes only with the receiver.

`Lawful.run`: then whatever was taken in a run was put, in the order of the puts and each once
(`taken` is the beginning of what was put); and while there is a receiver, all that was put is taken
or still queued.
-/

/-- A queue of a system (module doc). -/
structure Fifo (σ α ι : Type*) where
  queue : σ → List ι
  /-- The receiver has not been dropped. -/
  live : σ → Bool
  puts : α → σ → σ → List ι
  takes : α → σ → σ → List ι

namespace Fifo

variable {σ α ι : Type*} {F : Fifo σ α ι} {S : Lts σ α}

/-- What a run puts into the queue. -/
def put (F : Fifo σ α ι) (S : Lts σ α) (as : List α) (s : σ) : List ι := S.gather F.puts as s

/-- What a run takes out of the queue. -/
def taken (F : Fifo σ α ι) (S : Lts σ α) (as : List α) (s : σ) : List ι := S.gather F.takes as s

/-- See the module doc. -/
structure Lawful (F : Fifo σ α ι) (S : Lts σ α) : Prop where
  /-- A step that leaves the receiver. -/
  flow : ∀ a s s', S.Reach s → S.step a s = some s' → F.live s' →
    F.live s ∧ F.takes a s s' ++ F.queue s' = F.queue s ++ F.puts a s s'
  /-- A step that drops it, or one after that. -/
  closes : ∀ a s s', S.Reach s → S.step a s = some s' → F.live s' = false → F.takes a s s' = []

/-- What was put and what was taken so far, with what was queued at the start. -/
structure Kept (F : Fifo σ α ι) (s : σ) (put taken : List ι) : Prop where
  inOrder : taken <+: put
  all : F.live s → taken ++ F.queue s = put

theorem Kept.next {a : α} {s s' : σ} {p t : List ι} (h : F.Lawful S) (hr : S.Reach s)
    (hs : S.step a s = some s') (hk : F.Kept s p t) :
    F.Kept s' (p ++ F.puts a s s') (t ++ F.takes a s s') := by
  cases hl : F.live s' with
  | true =>
    obtain ⟨hl₀, hf⟩ := h.flow a s s' hr hs hl
    have hall : t ++ F.takes a s s' ++ F.queue s' = p ++ F.puts a s s' := by
      rw [List.append_assoc, hf, ← List.append_assoc, hk.all hl₀]
    exact ⟨⟨_, hall⟩, fun _ => hall⟩
  | false =>
    rw [h.closes a s s' hr hs hl, List.append_nil]
    exact ⟨hk.inOrder.trans (List.prefix_append _ _), fun hl' => nomatch hl.symm.trans hl'⟩

/-- What a run took was put, in order (module doc). -/
theorem Lawful.run (h : F.Lawful S) {as : List α} {s s' : σ} (hr : S.Reach s)
    (hs : S.run as s = some s') : F.Kept s' (F.queue s ++ F.put S as s) (F.taken S as s) :=
  Lts.run_gather₂ (I := F.Kept) (m := []) (fun _ _ _ _ _ hr hk hs => hk.next h hr hs) hr hs
    ⟨List.nil_prefix, fun _ => rfl⟩

end Fifo
