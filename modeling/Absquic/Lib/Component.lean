import Absquic.Lib.Live
import Mathlib.Order.WithBot

/-!
# Components of a system

A component of a system (`Lts.Component`) is a system of its own. A step of the whole is its own step,
or it is moved by steps that others make on it, or it is created.

* `Component.reach`: it is in a reachable state of its own system.
* `Component.fifo_lawful`: a queue of the component is one of the whole, if only its own steps take.
* `Component.served`: the rule `Fifo.Lawful.served` for a queue of the component, along the fair runs of
  the whole; what it asks of the steps, it asks of the component's own system.
-/

variable {σ α τ β ι : Type*}

namespace Lts

/-- A component of the system `S` (module doc). -/
structure Component (S : Lts σ α) (T : Lts τ β) where
  /-- The component, once it exists. -/
  get : σ → Option τ
  /-- The step of the whole as the component's own. -/
  own : α → Option β
  /-- The steps that others make on it. -/
  others : β → Prop
  absent : ∀ s, S.init s → get s = none
  stays : ∀ {a s s' c}, S.Reach s → S.step a s = some s' → get s = some c → get s' ≠ none
  moves : ∀ {a s s' c'}, S.Reach s → S.step a s = some s' → get s' = some c' →
    get s = none ∧ T.init c' ∨
      ∃ c, get s = some c ∧ ((∃ b, own a = some b ∧ T.step b c = some c') ∨
        own a = none ∧ T.Steps others c c')

namespace Component

variable {S : Lts σ α} {T : Lts τ β} (C : Component S T)

theorem reach {s : σ} (h : S.Reach s) : ∀ c, C.get s = some c → T.Reach c := by
  refine h.invariant (I := fun s => ∀ c, C.get s = some c → T.Reach c) (fun s hi c hc => ?_)
    fun a s s' hr hi hs c' hc' => ?_
  · rw [C.absent s hi] at hc
    cases hc
  · rcases C.moves hr hs hc' with ⟨-, hinit⟩ | ⟨c, hc, ⟨b, -, hb⟩ | ⟨-, ho⟩⟩
    · exact .init hinit
    · exact .step b (hi c hc) hb
    · exact (hi c hc).steps ho

/-- A component that exists after one more step. -/
theorem next {a : α} {s s' : σ} {c : τ} (h : S.Reach s) (hs : S.step a s = some s')
    (hc : C.get s = some c) : ∃ c', C.get s' = some c' ∧
      ((∃ b, C.own a = some b ∧ T.step b c = some c') ∨ C.own a = none ∧ T.Steps C.others c c') := by
  obtain ⟨c', hc'⟩ := Option.ne_none_iff_exists'.mp (C.stays h hs hc)
  refine ⟨c', hc', ?_⟩
  rcases C.moves h hs hc' with ⟨hn, -⟩ | ⟨d, hd, hmove⟩
  · rw [hc] at hn; cases hn
  · rw [hc] at hd
    cases hd
    exact hmove

/-- What every step of the component keeps holds from some time on. -/
theorem keeps {P : τ → Prop}
    (hP : ∀ b c c', T.Reach c → T.step b c = some c' → P c → P c') {r : S.Execution} {n : Nat}
    {c : τ} (hn : C.get (r.state n) = some c) (hp : P c) :
    ∀ m ≥ n, ∃ c', C.get (r.state m) = some c' ∧ P c' := by
  refine r.keeps (P := fun s => ∃ c', C.get s = some c' ∧ P c') ⟨c, hn, hp⟩ fun m _ a _ hs ih => ?_
  obtain ⟨e, he, hpe⟩ := ih
  have hre : T.Reach e := C.reach (r.reach m) e he
  obtain ⟨e', he', ⟨b, -, hb⟩ | ⟨-, ho⟩⟩ := C.next (r.reach m) hs he
  · exact ⟨e', he', hP b e e' hre hb hpe⟩
  · have hkeep := ho.invariant (I := fun x => T.Reach x ∧ P x)
      (fun b x x' _ hx hs => ⟨.step b hx.1 hs, hP b x x' hx.1 hs hx.2⟩) ⟨hre, hpe⟩
    exact ⟨e', he', hkeep.2⟩

/-- What the component's own step gives in a step of the whole. -/
def lift (f : β → τ → τ → List ι) (a : α) (s s' : σ) : List ι :=
  match C.own a, C.get s, C.get s' with
  | some b, some c, some c' => f b c c'
  | _, _, _ => []

theorem lift_own {f : β → τ → τ → List ι} {a : α} {s s' : σ} {b : β} {c c' : τ}
    (ha : C.own a = some b) (hc : C.get s = some c) (hc' : C.get s' = some c') :
    C.lift f a s s' = f b c c' := by
  unfold lift
  rw [ha, hc, hc']

theorem lift_passive {f : β → τ → τ → List ι} {a : α} (ha : C.own a = none) (s s' : σ) :
    C.lift f a s s' = [] := by
  unfold lift
  rw [ha]

theorem lift_absent {f : β → τ → τ → List ι} {s : σ} (hs : C.get s = none) (a : α) (s' : σ) :
    C.lift f a s s' = [] := by
  unfold lift
  rw [hs]
  cases C.own a <;> rfl

theorem lift_gone {f : β → τ → τ → List ι} {s' : σ} (hs : C.get s' = none) (a : α) (s : σ) :
    C.lift f a s s' = [] := by
  unfold lift
  rw [hs]
  cases C.own a <;> cases C.get s <;> rfl

/-- A queue of the component, as one of the whole. -/
def fifo (F : Fifo τ β ι) : Fifo σ α ι where
  queue s := (C.get s).elim [] F.queue
  live s := (C.get s).elim true F.live
  takes := C.lift F.takes
  puts a s s' := (C.lift F.takes a s s' ++ (C.get s').elim [] F.queue).drop
    ((C.get s).elim [] F.queue).length

theorem fifo_lawful {F : Fifo τ β ι} (h : F.Lawful T)
    (ho : ∀ b c c', C.others b → F.takes b c c' = []) : (C.fifo F).Lawful S := by
  constructor
  case flow =>
    intro a s s' hr hs hl
    suffices hp : (C.get s).elim true F.live ∧
        (C.get s).elim [] F.queue <+: C.lift F.takes a s s' ++ (C.get s').elim [] F.queue by
      obtain ⟨hl, l, hq⟩ := hp
      refine ⟨hl, ?_⟩
      show C.lift F.takes a s s' ++ (C.get s').elim [] F.queue = (C.get s).elim [] F.queue ++
        List.drop _ (C.lift F.takes a s s' ++ (C.get s').elim [] F.queue)
      rw [← hq, List.drop_left]
    cases hc : C.get s with
    | none => exact ⟨rfl, List.nil_prefix⟩
    | some c =>
      obtain ⟨c', hc', hmove⟩ := C.next hr hs hc
      have hl : F.live c' = true := by
        have hl : (C.get s').elim true F.live = true := hl
        rwa [hc'] at hl
      rw [hc']
      show F.live c = true ∧ F.queue c <+: _ ++ F.queue c'
      have hre : T.Reach c := C.reach hr c hc
      rcases hmove with ⟨b, hb, hst⟩ | ⟨hb, hst⟩
      · obtain ⟨hl₀, hf⟩ := h.flow b c c' hre hst hl
        rw [C.lift_own hb hc hc', hf]
        exact ⟨hl₀, List.prefix_append _ _⟩
      · rw [C.lift_passive hb]
        -- others only put
        have hkeep := hst.invariant (I := fun e => T.Reach e ∧
          (F.live e → F.live c = true ∧ F.queue c <+: F.queue e)) (fun b e e' hb hi hs => by
            refine ⟨.step b hi.1 hs, fun hle => ?_⟩
            obtain ⟨hl₀, hf⟩ := h.flow b e e' hi.1 hs hle
            rw [ho b e e' hb, List.nil_append] at hf
            obtain ⟨hlc, hq⟩ := hi.2 hl₀
            exact ⟨hlc, hf ▸ hq.trans (List.prefix_append _ _)⟩)
          ⟨hre, fun hl => ⟨hl, List.prefix_rfl⟩⟩
        exact hkeep.2 hl
  case closes =>
    intro a s s' hr hs hl
    show C.lift F.takes a s s' = []
    have hl : (C.get s').elim true F.live = false := hl
    cases hc' : C.get s' with
    | none => rw [hc'] at hl; cases hl
    | some c' =>
      rw [hc'] at hl
      rcases C.moves hr hs hc' with ⟨hn, -⟩ | ⟨c, hc, ⟨b, hb, hst⟩ | ⟨hb, -⟩⟩
      · exact C.lift_absent hn a s'
      · rw [C.lift_own hb hc hc']
        exact h.closes b c c' (C.reach hr c hc) hst hl
      · exact C.lift_passive hb s s'

/-- See the module doc; `x` is the step of the receiver. -/
theorem served {F : Fifo τ β ι} (h : F.Lawful T) (ho : ∀ b c c', C.others b → F.takes b c c' = [])
    {r : S.Execution} {x : β} (hf : r.Fair fun a => C.own a = some x) (hx : ¬ C.others x)
    (hb : ∀ s, S.Reach s → (S.Enabled (fun a => C.own a = some x) s ↔
      ∃ c, C.get s = some c ∧ (T.step x c).isSome))
    {κ : Type*} [Preorder κ] [WellFoundedLT κ] {f : Nat → τ → κ}
    (hen : ∀ n c, C.get (r.state n) = some c → F.queue c ≠ [] → ∃ m ≥ n, ∃ c',
      C.get (r.state m) = some c' ∧ (F.live c' = false ∨ F.queue c' = [] ∨ (T.step x c').isSome))
    (hk : ∀ b c c', T.Reach c → b ≠ x → T.step b c = some c' → (T.step x c).isSome →
      (T.step x c').isSome)
    (hle : ∀ n c c', C.get (r.state n) = some c → C.get (r.state (n + 1)) = some c' →
      T.Steps (fun b => b ≠ x) c c' → f (n + 1) c' ≤ f n c)
    (hlt : ∀ n c c', C.get (r.state n) = some c → C.get (r.state (n + 1)) = some c' →
      T.step x c = some c' → F.takes x c c' = [] → f (n + 1) c' < f n c)
    (n : Nat) : ∃ k, (C.fifo F).live (r.state (n + k)) = false ∨
      (C.fifo F).queue (r.state n) <+: (C.fifo F).taken S (r.acts n k) (r.state n) := by
  have hne : ∀ {b}, C.others b → b ≠ x := fun {b} hob he => hx (he ▸ hob)
  refine (C.fifo_lawful h ho).served hf
    (f := fun m => (C.get (r.state m)).elim (⊤ : WithTop κ) fun c => (f m c : WithTop κ))
    (fun n hq => ?_) (fun a s s' hr ha hs he => ?_) (fun n hn => ?_) (fun n a ha hs ht => ?_) n
  · cases hc : C.get (r.state n) with
    | none =>
      have hq : (C.get (r.state n)).elim [] F.queue ≠ [] := hq
      rw [hc] at hq
      exact absurd rfl hq
    | some c =>
      have hq : (C.get (r.state n)).elim [] F.queue ≠ [] := hq
      rw [hc] at hq
      obtain ⟨m, hm, c', hc', hd⟩ := hen n c hc hq
      refine ⟨m, hm, ?_⟩
      rcases hd with hd | hd | hd
      · exact .inl (by show (C.get _).elim true F.live = false; rw [hc']; exact hd)
      · exact .inr (.inl (by show (C.get _).elim [] F.queue = []; rw [hc']; exact hd))
      · exact .inr (.inr ((hb _ (r.reach m)).mpr ⟨c', hc', hd⟩))
  · obtain ⟨c, hc, hst⟩ := (hb s hr).mp he
    obtain ⟨c', hc', hmove⟩ := C.next hr hs hc
    refine (hb s' (.step a hr hs)).mpr ⟨c', hc', ?_⟩
    have hre : T.Reach c := C.reach hr c hc
    rcases hmove with ⟨b, hob, hb⟩ | ⟨-, hb⟩
    · exact hk b c c' hre (fun he => ha (he ▸ hob)) hb hst
    · have hkeep := hb.invariant (I := fun e => T.Reach e ∧ (T.step x e).isSome)
        (fun b e e' hob hi hs => ⟨.step b hi.1 hs, hk b e e' hi.1 (hne hob) hs hi.2⟩) ⟨hre, hst⟩
      exact hkeep.2
  · cases hc : C.get (r.state n) with
    | none => exact le_top
    | some c =>
      suffices hc' : ∃ c', C.get (r.state (n + 1)) = some c' ∧ T.Steps (fun b => b ≠ x) c c' by
        obtain ⟨c', hc', hst⟩ := hc'
        rw [hc']
        exact WithTop.coe_le_coe.mpr (hle n c c' hc hc' hst)
      rcases r.step n with ⟨-, hs⟩ | ⟨a, ha, hs⟩
      · exact ⟨c, by rw [hs, hc], .refl c⟩
      · obtain ⟨c', hc', ⟨b, hob, hb⟩ | ⟨-, hb⟩⟩ := C.next (r.reach n) hs hc
        · exact ⟨c', hc', .one (fun he => hn ⟨a, ha, he ▸ hob⟩) hb⟩
        · exact ⟨c', hc', hb.mono fun b hob => hne hob⟩
  · obtain ⟨c, hc, -⟩ := (hb _ (r.reach n)).mp ⟨a, ha, by rw [hs]; rfl⟩
    obtain ⟨c', hc', hmove⟩ := C.next (r.reach n) hs hc
    have ht : C.lift F.takes a (r.state n) (r.state (n + 1)) = [] := ht
    rw [C.lift_own ha hc hc'] at ht
    rw [hc, hc']
    refine WithTop.coe_lt_coe.mpr ?_
    rcases hmove with ⟨b, hob, hb⟩ | ⟨hn, -⟩
    · rw [ha] at hob
      cases hob
      exact hlt n c c' hc hc' hb ht
    · rw [ha] at hn; cases hn

end Component
end Lts
