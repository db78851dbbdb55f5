import Absquic.Conn.Inversion
import Absquic.Conn.Outside
import Absquic.Lib.Fifo

/-!
# What `con_task` is given

`cmds` is the command channel, with the command that `con_task` has in its hand. It is a queue of the
connection's system (`cmds_lawful`), so in every run `con_task` handles the commands in the order in
which they were put on the channel, each once.

`Fed`: so `recv` of quiche is given the packets that `ep_task` put there, in order and each once; while
the task runs, a packet that was not given yet is queued or in its hand.
-/

namespace Absquic

/-- The command that `con_task` has in its hand. -/
def ConPc.cmd? : ConPc → Option ConCmd
  | .cmd m => some m
  | _ => none

/-- The packet in a command. -/
def ConCmd.pak? : ConCmd → Option UdpPak
  | .inPak pak => some pak
  | _ => none

namespace Con

variable {Q : Quiche} {c c' : Con Q}

/-! ## The command channel -/

/-- The command that the step puts on the channel. -/
def putCmd (a : ConAct) (c _ : Con Q) : List ConCmd :=
  if c.cmd.rx then
    match a with
    | .fire _ => [.timeout]
    | .callSend k =>
      match c.calls[k]? with
      | some (.send item _) => [.http3 item k]
      | _ => []
    | .sendInPak pak => [.inPak pak]
    | _ => []
  else []

/-- The command that `con_task` handles in the step. -/
def handles (a : ConAct) (c _ : Con Q) : List ConCmd :=
  match a with
  | .task => c.pc.cmd?.toList
  | _ => []

/-- The command channel. -/
def cmds (Q : Quiche) : Fifo (Con Q) ConAct ConCmd where
  queue c := c.pc.cmd?.toList ++ c.cmd.queue.map Prod.fst
  live c := !c.pc.over
  puts := putCmd
  takes := handles

/-- A step of the loop body leads to a place where no command is in hand. -/
theorem cmd?_body (h : TaskStep c c') (hb : c.pc.inBody) : c'.pc.cmd? = none := by
  cases h with
  | take hpc | dispatch hpc => rw [hpc] at hb; cases hb
  | connect | skip =>
    unfold enterH3
    dsimp only
    split <;> rfl
  | request _ hp => rcases hp with rfl | rfl <;> rfl
  | @event _ _ _ e => cases e <;> rfl
  | @chunk _ x stream chunk hpc =>
    obtain ⟨m, hm⟩ := pushBody_spec (c.called x (.recvBody stream (.ok chunk))) stream chunk
    rw [hm]
    show c.pc.cmd? = none
    rw [hpc]
    rfl
  | dgram hpc | sent hpc =>
    show c.pc.cmd? = none
    rw [hpc]
    rfl
  | _ => rfl

theorem cmds_task (hr : (sys Q).Reach c) (hs : c.taskStep = some c') (hl : c'.pc.over = false) :
    handles .task c c' ++ (cmds Q).queue c' = (cmds Q).queue c := by
  have ht := taskStep_cases hs (sys_control hr)
  show c.pc.cmd?.toList ++ (c'.pc.cmd?.toList ++ c'.cmd.queue.map Prod.fst) =
    c.pc.cmd?.toList ++ c.cmd.queue.map Prod.fst
  by_cases hb : c.pc.inBody
  · rw [cmd?_body ht hb]
    cases body_taskStep hs hb with
    | go k => rw [k.queue]; rfl
    | ret k => cases hl
  · cases ht with
    | take hpc hq => rw [hpc, hq]; rfl
    | @dispatch cmd d sleepers cmdGuard hpc =>
      obtain ⟨⟨_, _, _, _, _, _, he⟩, -⟩ := dispatch_spec c cmd
      rw [he]
      rfl
    | _ hpc => exact absurd (by rw [hpc]; rfl) hb

/-- The steps of the other parties, while the task runs. -/
theorem cmds_other {a : ConAct} (hs : step a c = some c') (ha : a ≠ .task)
    (hr : c.cmd.rx = true) : (cmds Q).queue c' = (cmds Q).queue c ++ putCmd a c c' := by
  have hput : ∀ {m : ConCmd} {g : ConSem} {d : Con Q}, d.pc = c.pc → d.cmd = c.cmd.push m g →
      (cmds Q).queue d = (cmds Q).queue c ++ [m] := by
    intro m g d hp hq
    show d.pc.cmd?.toList ++ d.cmd.queue.map Prod.fst = _
    rw [hp, hq, Chan.queue_push, List.map_append, ← List.append_assoc]
    rfl
  have hstill : ∀ {d : Con Q}, d.pc = c.pc → d.cmd.queue = c.cmd.queue →
      (cmds Q).queue d = (cmds Q).queue c ++ [] := by
    intro d hp hq
    show d.pc.cmd?.toList ++ d.cmd.queue.map Prod.fst = _
    rw [hp, hq, List.append_nil]
    rfl
  unfold putCmd
  rw [if_pos hr]
  cases otherStep_cases hs ha with
  | fire => exact hput rfl rfl
  | callSend hk => dsimp only; rw [hk]; exact hput rfl rfl
  | sendInPak => exact hput rfl rfl
  | fireLost _ hr' | callLost _ hr' | pakLost _ hr' => exact nomatch hr.symm.trans hr'
  | _ => exact hstill rfl rfl

theorem cmds_lawful (Q : Quiche) : (cmds Q).Lawful (sys Q) := by
  constructor
  case flow =>
    intro a c c' hr hs hl
    have hl : c'.pc.over = false := by simpa [cmds] using hl
    by_cases ha : a = .task
    · subst ha
      have hput : (cmds Q).puts .task c c' = [] := by
        show putCmd .task c c' = []
        unfold putCmd
        split <;> rfl
      have hov := (taskStep_cases hs (sys_control hr)).not_over
      refine ⟨by simp [cmds, hov], ?_⟩
      rw [hput, List.append_nil]
      exact cmds_task hr hs hl
    · rw [(frame_step hs ha).pc] at hl
      have hrx : c.cmd.rx = true := by rw [(sys_control hr).rx, hl]; rfl
      refine ⟨by simp [cmds, hl], ?_⟩
      rw [cmds_other hs ha hrx]
      cases a <;> first | rfl | exact absurd rfl ha
  case closes =>
    intro a c c' hr hs hl
    have hl : c'.pc.over = true := by simpa [cmds] using hl
    cases a with
    | task =>
      -- the command in hand is handled without the end of the task
      show c.pc.cmd?.toList = []
      cases taskStep_cases hs (sys_control hr) with
      | dispatch => cases hl
      | _ hpc => rw [hpc]; rfl
    | _ => rfl

/-! ## Packets -/

/-- The packet that `recv` of quiche is given in the step. -/
def feeds (a : ConAct) (c _ : Con Q) : List UdpPak :=
  match a with
  | .task => (c.pc.cmd?.bind (·.pak?)).toList
  | _ => []

/-- The packets on the command channel, with the one in the hand of `con_task`. -/
def backlog (c : Con Q) : List UdpPak := ((cmds Q).queue c).filterMap (·.pak?)

/-- `fed` are the packets that quiche was given: those that `ep_task` put on the channel, in order. -/
structure Fed (c : Con Q) (fed : List UdpPak) : Prop where
  inOrder : fed <+: c.inPaks
  all : c.pc.over = false → fed ++ c.backlog = c.inPaks

theorem filterMap_handles (a : ConAct) (c c' : Con Q) :
    (handles a c c').filterMap (·.pak?) = feeds a c c' := by
  unfold handles feeds
  cases a with
  | task =>
    cases hp : c.pc.cmd? with
    | none => rfl
    | some m => cases m <;> rfl
  | _ => rfl

/-- `inPaks` are the packets among what is put on the channel. -/
theorem inPaks_step {a : ConAct} (hs : step a c = some c') :
    c'.inPaks = c.inPaks ++ (putCmd a c c').filterMap (·.pak?) := by
  have hquiet : a.quiet → (putCmd a c c').filterMap (·.pak?) = [] →
      c'.inPaks = c.inPaks ++ (putCmd a c c').filterMap (·.pak?) := by
    intro hq hn
    rw [hn, List.append_nil]
    exact (quiet_step hs hq).2
  cases a with
  | tryAcquire =>
    have hn : putCmd .tryAcquire c c' = [] := by unfold putCmd; split <;> rfl
    rw [hn, (tryAcquire_spec hs).2.2]
    exact (List.append_nil _).symm
  | sendInPak pak =>
    obtain ⟨⟨c₁, ok⟩, hc, rfl⟩ := Option.map_eq_some_iff.mp hs
    obtain ⟨rfl, -, hp, -⟩ := sendInPak_spec hc
    rw [hp, putCmd]
    split <;> rfl
  | callSend k =>
    refine hquiet rfl ?_
    unfold putCmd
    split
    · dsimp only
      split <;> rfl
    · rfl
  | _ => exact hquiet rfl (by unfold putCmd; split <;> rfl)

theorem Fed.next {a : ConAct} {l : List UdpPak} (h : Fed c l) (hr : (sys Q).Reach c)
    (hs : step a c = some c') : Fed c' (l ++ feeds a c c') := by
  have hput := inPaks_step hs
  cases ho : c'.pc.over with
  | true =>
    have hl : (cmds Q).live c' = false := by simp [cmds, ho]
    have ht : handles a c c' = [] := (cmds_lawful Q).closes a c c' hr hs hl
    rw [← filterMap_handles, ht, List.filterMap_nil, List.append_nil]
    refine ⟨?_, fun hn => nomatch ho.symm.trans hn⟩
    rw [hput]
    exact h.inOrder.trans (List.prefix_append _ _)
  | false =>
    have hl : (cmds Q).live c' = true := by simp [cmds, ho]
    obtain ⟨hl₀, hf⟩ := (cmds_lawful Q).flow a c c' hr hs hl
    have ho₀ : c.pc.over = false := by simpa [cmds] using hl₀
    have hall : l ++ feeds a c c' ++ c'.backlog = c'.inPaks := by
      rw [hput, ← h.all ho₀, List.append_assoc, List.append_assoc, ← filterMap_handles, backlog,
        backlog, ← List.filterMap_append, ← List.filterMap_append]
      exact congrArg (l ++ List.filterMap _ ·) hf
    exact ⟨⟨_, hall⟩, fun _ => hall⟩

theorem fed_init (h : (sys Q).init c) : Fed c [] := by
  obtain ⟨h3Config, con, hq⟩ := h
  cases hq
  exact ⟨List.nil_prefix, fun _ => rfl⟩

end Con
end Absquic
