import Trellis.Session
import Mathlib.Order.Basic
import Mathlib.Order.Defs.Unbundled

/-!
# Reasoning about acts

* `Except.exists_bind_ok` and those after it: when outcomes are values.
* `Act.Keeps`: whatever comes of an act, the session it leaves is related to the one it began in.
* `Act.Agree`: two acts begun in related sessions have related outcomes and leave related sessions.
* `Act.AgreeFrom`: the same where more may be known of the sessions at the end than at the beginning.

All go through sequences: `Act.Keeps.bind` for a relation that is transitive, `Act.Agree.bind` for
any, `Act.AgreeFrom.bind` for a family that grows.
-/

namespace Trellis

/-- The store of a session. -/
abbrev Session.store (s : Session) : Store := s.handle.store

theorem Except.bind_eq_ok {ε α β : Type} {x : Except ε α} {f : α → Except ε β} {b : β} :
    x >>= f = .ok b ↔ ∃ a, x = .ok a ∧ f a = .ok b := by
  cases x with
  | error e => exact ⟨nofun, fun h => nomatch h.choose_spec.1⟩
  | ok a => exact ⟨fun h => ⟨a, rfl, h⟩, fun ⟨_, ha, h⟩ => Except.ok.inj ha ▸ h⟩

theorem Except.map_eq_ok {ε α β : Type} {x : Except ε α} {f : α → β} {b : β} :
    x.map f = .ok b ↔ ∃ a, x = .ok a ∧ f a = b := by
  cases x with
  | error e => exact ⟨nofun, fun h => nomatch h.choose_spec.1⟩
  | ok a => exact ⟨fun h => ⟨a, rfl, Except.ok.inj h⟩, fun ⟨_, ha, h⟩ => Except.ok.inj ha ▸ h ▸ rfl⟩

/-! ### Outcomes that are values -/

section

variable {ε α β : Type} {x : Except ε α}

theorem Except.exists_bind_ok {f : α → Except ε β} :
    (∃ b, x >>= f = .ok b) ↔ ∃ a, x = .ok a ∧ ∃ b, f a = .ok b := by
  constructor
  · rintro ⟨b, h⟩
    obtain ⟨a, ha, hb⟩ := Except.bind_eq_ok.1 h
    exact ⟨a, ha, b, hb⟩
  · rintro ⟨a, ha, b, hb⟩
    exact ⟨b, Except.bind_eq_ok.2 ⟨a, ha, hb⟩⟩

/-- Whether more succeeds may not depend on the value it goes on from. -/
theorem Except.exists_bind_ok_and {f : α → Except ε β} {P : Prop}
    (h : ∀ a, (∃ b, f a = .ok b) ↔ P) :
    (∃ b, x >>= f = .ok b) ↔ (∃ a, x = .ok a) ∧ P := by
  rw [Except.exists_bind_ok]
  constructor
  · rintro ⟨a, ha, hb⟩
    exact ⟨⟨a, ha⟩, (h a).1 hb⟩
  · rintro ⟨⟨a, ha⟩, hP⟩
    exact ⟨a, ha, (h a).2 hP⟩

theorem Except.exists_bind_pure_ok {f : α → β} :
    (∃ b, (do let a ← x; return f a) = .ok b) ↔ ∃ a, x = .ok a := by
  rw [Except.exists_bind_ok]
  exact ⟨fun ⟨a, ha, _⟩ => ⟨a, ha⟩, fun ⟨a, ha⟩ => ⟨a, ha, _, rfl⟩⟩

/-- Two outcomes that do not depend on each other, one after the other. -/
theorem Except.exists_both_ok {γ : Type} {y : Except ε β} {f : α → β → γ} :
    (∃ c, (do let a ← x; let b ← y; return f a b) = .ok c) ↔
      (∃ a, x = .ok a) ∧ ∃ b, y = .ok b :=
  Except.exists_bind_ok_and fun _ => Except.exists_bind_pure_ok

/-- Three outcomes that do not depend on each other, one after the other. -/
theorem Except.exists_three_ok {γ δ : Type} {y : Except ε β} {z : Except ε γ}
    {f : α → β → γ → δ} :
    (∃ d, (do let a ← x; let b ← y; let c ← z; return f a b c) = .ok d) ↔
      (∃ a, x = .ok a) ∧ (∃ b, y = .ok b) ∧ ∃ c, z = .ok c :=
  Except.exists_bind_ok_and fun _ => Except.exists_both_ok

theorem Except.exists_map_ok {f : α → β} : (∃ b, x.map f = .ok b) ↔ ∃ a, x = .ok a := by
  constructor
  · rintro ⟨b, h⟩
    obtain ⟨a, ha, -⟩ := Except.map_eq_ok.1 h
    exact ⟨a, ha⟩
  · rintro ⟨a, ha⟩
    exact ⟨f a, Except.map_eq_ok.2 ⟨a, ha, rfl⟩⟩

theorem Except.exists_mapM_ok {f : α → Except ε β} : ∀ {l : List α},
    (∃ bs, l.mapM f = .ok bs) ↔ ∀ a ∈ l, ∃ b, f a = .ok b
  | [] => ⟨fun _ => List.forall_mem_nil _, fun _ => ⟨[], List.mapM_nil⟩⟩
  | a :: l => by
    rw [List.mapM_cons, List.forall_mem_cons, ← Except.exists_mapM_ok (l := l),
      Except.exists_bind_ok]
    constructor
    · rintro ⟨b, hb, h⟩
      obtain ⟨bs, hbs, -⟩ := Except.exists_bind_ok.1 h
      exact ⟨⟨b, hb⟩, bs, hbs⟩
    · rintro ⟨⟨b, hb⟩, bs, hbs⟩
      exact ⟨b, hb, Except.exists_bind_ok.2 ⟨bs, hbs, b :: bs, rfl⟩⟩

end

/-! ### Outcomes side by side -/

/-- Outcomes that are the same fault, or values that are related. -/
def SameOutcome {ε α β : Type} (A : α → β → Prop) : Except ε α → Except ε β → Prop
  | .ok a, .ok b => A a b
  | .error e, .error e' => e = e'
  | _, _ => False

namespace SameOutcome

variable {ε α β γ δ : Type} {A : α → β → Prop} {B : γ → δ → Prop} {x : Except ε α} {y : Except ε β}

theorem refl {A : α → α → Prop} (hA : ∀ a, A a a) (x : Except ε α) : SameOutcome A x x := by
  cases x with
  | error e => rfl
  | ok a => exact hA a

theorem eq {x y : Except ε α} (h : SameOutcome Eq x y) : x = y := by
  cases x <;> cases y
  · exact congrArg Except.error h
  · exact h.elim
  · exact h.elim
  · exact congrArg Except.ok h

theorem mono {A' : α → β → Prop} (h : SameOutcome A x y) (hA : ∀ a b, A a b → A' a b) :
    SameOutcome A' x y := by
  cases x <;> cases y
  · exact h
  · exact h.elim
  · exact h.elim
  · exact hA _ _ h

theorem flip (h : SameOutcome A x y) : SameOutcome (fun b a => A a b) y x := by
  cases x <;> cases y
  · exact Eq.symm h
  · exact h.elim
  · exact h.elim
  · exact h

/-- Outcomes that are both related to a third one. -/
theorem trans {C : β → γ → Prop} {z : Except ε γ} (h : SameOutcome A x y) (h' : SameOutcome C y z) :
    SameOutcome (fun a c => ∃ b, A a b ∧ C b c) x z := by
  cases x <;> cases y <;> cases z
  case error.error.error => exact Eq.trans h h'
  case ok.ok.ok a b c => exact ⟨b, h, h'⟩
  all_goals first | exact h.elim | exact h'.elim

/-- Related outcomes stay related when more is done with related values. -/
theorem bind (h : SameOutcome A x y) {f : α → Except ε γ} {g : β → Except ε δ}
    (hfg : ∀ a b, A a b → SameOutcome B (f a) (g b)) : SameOutcome B (x >>= f) (y >>= g) := by
  cases x <;> cases y
  · exact h
  · exact h.elim
  · exact h.elim
  · exact hfg _ _ h

end SameOutcome

namespace Act

variable {α β γ δ : Type}

theorem runOn_map (f : α → β) (act : Act α) (s : Session) :
    (f <$> act).runOn s = ((act.runOn s).1.map f, (act.runOn s).2) := by
  rw [map_eq_pure_bind, runOn_bind]
  rcases act.runOn s with ⟨_ | _, _⟩ <;> rfl

/-- A sequence that comes to something did so step by step. -/
theorem runOn_bind_eq_ok {x : Act α} {f : α → Act β} {b : β} {s t : Session} :
    (x >>= f).runOn s = (.ok b, t) ↔
      ∃ a u, x.runOn s = (.ok a, u) ∧ (f a).runOn u = (.ok b, t) := by
  rw [runOn_bind]
  rcases x.runOn s with ⟨_ | a, u⟩
  · exact ⟨nofun, fun ⟨_, _, hx, _⟩ => nomatch hx⟩
  · exact ⟨fun h => ⟨a, u, rfl, h⟩, fun ⟨_, _, hx, h⟩ => by cases hx; exact h⟩

/-- The session an act leaves is related to the one it began in, also when the act fails. -/
def Keeps (R : Session → Session → Prop) (act : Act α) : Prop :=
  ∀ s, R s (act.runOn s).2

section Keeps

variable {R : Session → Session → Prop}

section Refl

variable [Std.Refl R]

theorem Keeps.pure (a : α) : Keeps R (pure a : Act α) :=
  fun s => Std.Refl.refl s

theorem Keeps.throw (e : Fault) : Keeps R (throw e : Act α) :=
  fun s => Std.Refl.refl s

theorem Keeps.ofExcept (x : Except Fault α) : Keeps R (ofExcept x) := by
  intro s
  rw [runOn_ofExcept]
  exact Std.Refl.refl s

theorem Keeps.scopes (ask : Store → Except Fault α) : Keeps R (Act.scopes ask) := by
  intro s
  rw [runOn_scopes]
  exact Std.Refl.refl s

/-- A write that fails is none. -/
theorem Keeps.writing {change : Handle → Except Fault Handle}
    (h : ∀ s handle, change s.handle = .ok handle → R s { s with handle := handle }) :
    Keeps R (writing change) := by
  intro s
  rw [runOn_writing]
  cases hc : change s.handle with
  | error e => exact Std.Refl.refl s
  | ok handle => exact h s handle hc

end Refl

theorem Keeps.bind [IsTrans Session R] {act : Act α} {next : α → Act β} (h : Keeps R act)
    (hn : ∀ a, Keeps R (next a)) : Keeps R (act >>= next) := by
  intro s
  rw [runOn_bind]
  have hs := h s
  cases hrun : act.runOn s with
  | mk outcome t =>
    rw [hrun] at hs
    cases outcome with
    | error e => exact hs
    | ok a => exact IsTrans.trans _ _ _ hs (hn a t)

end Keeps

/-- Begun in sessions that `I` relates, two acts end alike and leave sessions that `I` relates. -/
def Agree (I : Session → Session → Prop) (A : α → β → Prop) (x : Act α) (y : Act β) : Prop :=
  ∀ s t, I s t → SameOutcome A (x.runOn s).1 (y.runOn t).1 ∧ I (x.runOn s).2 (y.runOn t).2

section Agree

variable {I : Session → Session → Prop} {A : α → β → Prop} {B : γ → δ → Prop}

theorem Agree.pure {a : α} {b : β} (h : A a b) : Agree I A (pure a) (pure b) :=
  fun _ _ hI => ⟨h, hI⟩

theorem Agree.throw (e : Fault) : Agree I A (throw e) (throw e) :=
  fun _ _ hI => ⟨rfl, hI⟩

theorem Agree.ofExcept {x : Except Fault α} {y : Except Fault β} (h : SameOutcome A x y) :
    Agree I A (ofExcept x) (ofExcept y) := by
  intro s t hI
  rw [runOn_ofExcept, runOn_ofExcept]
  exact ⟨h, hI⟩

/-- Two acts in sequence, when the first ones end alike: both fail, or both go on. -/
theorem runOn_bind_alike {x : Act α} {y : Act β} {s t : Session}
    (h : SameOutcome A (x.runOn s).1 (y.runOn t).1) (f : α → Act γ) (g : β → Act δ) :
    (∃ e, (x >>= f).runOn s = (.error e, (x.runOn s).2) ∧
        (y >>= g).runOn t = (.error e, (y.runOn t).2)) ∨
      ∃ a b, A a b ∧ (x >>= f).runOn s = (f a).runOn (x.runOn s).2 ∧
        (y >>= g).runOn t = (g b).runOn (y.runOn t).2 := by
  rw [runOn_bind, runOn_bind]
  revert h
  rcases x.runOn s with ⟨_ | a, s'⟩ <;> rcases y.runOn t with ⟨_ | b, t'⟩ <;> intro h
  · cases h
    exact .inl ⟨_, rfl, rfl⟩
  · exact h.elim
  · exact h.elim
  · exact .inr ⟨a, b, h, rfl, rfl⟩

theorem Agree.bind {x : Act α} {y : Act β} (h : Agree I A x y) {f : α → Act γ} {g : β → Act δ}
    (hfg : ∀ a b, A a b → Agree I B (f a) (g b)) : Agree I B (x >>= f) (y >>= g) := by
  intro s t hI
  obtain ⟨ho, hs⟩ := h s t hI
  rcases runOn_bind_alike ho f g with ⟨e, hx, hy⟩ | ⟨a, b, hab, hx, hy⟩
  · rw [hx, hy]
    exact ⟨rfl, hs⟩
  · rw [hx, hy]
    exact hfg a b hab _ _ hs

end Agree

/-- Begun in sessions that are related by what is known at `w`, two acts end alike and leave related
sessions, by what is known then. -/
def AgreeFrom {W : Type} [Preorder W] (I : W → Session → Session → Prop) (A : W → α → β → Prop)
    (w : W) (x : Act α) (y : Act β) : Prop :=
  ∀ s t, I w s t → ∃ w' ≥ w, SameOutcome (A w') (x.runOn s).1 (y.runOn t).1 ∧
    I w' (x.runOn s).2 (y.runOn t).2

section AgreeFrom

variable {W : Type} [Preorder W] {I : W → Session → Session → Prop} {A : W → α → β → Prop}
  {B : W → γ → δ → Prop} {w : W}

/-- Acts from which nothing new is known. -/
theorem Agree.lift {x : Act α} {y : Act β} (h : Agree (I w) (A w) x y) : AgreeFrom I A w x y :=
  fun s t hI => ⟨w, le_refl w, h s t hI⟩

/-- Acts from which nothing new is known, and then others. -/
theorem Agree.andFrom {C : α → β → Prop} {x : Act α} {y : Act β} (h : Agree (I w) C x y)
    {f : α → Act γ} {g : β → Act δ} (hfg : ∀ a b, C a b → AgreeFrom I B w (f a) (g b)) :
    AgreeFrom I B w (x >>= f) (y >>= g) := by
  intro s t hI
  obtain ⟨ho, hs⟩ := h s t hI
  rcases runOn_bind_alike ho f g with ⟨e, hx, hy⟩ | ⟨a, b, hab, hx, hy⟩
  · rw [hx, hy]
    exact ⟨w, le_refl w, rfl, hs⟩
  · rw [hx, hy]
    exact hfg a b hab _ _ hs

theorem AgreeFrom.pure {a : α} {b : β} (h : A w a b) : AgreeFrom I A w (pure a) (pure b) :=
  Agree.lift (.pure h)

theorem AgreeFrom.throw (e : Fault) : AgreeFrom I A w (throw e) (throw e) :=
  Agree.lift (.throw e)

theorem AgreeFrom.ofExcept {x : Except Fault α} {y : Except Fault β} (h : SameOutcome (A w) x y) :
    AgreeFrom I A w (ofExcept x) (ofExcept y) :=
  Agree.lift (.ofExcept h)

theorem AgreeFrom.bind {x : Act α} {y : Act β} (h : AgreeFrom I A w x y) {f : α → Act γ}
    {g : β → Act δ} (hfg : ∀ w' ≥ w, ∀ a b, A w' a b → AgreeFrom I B w' (f a) (g b)) :
    AgreeFrom I B w (x >>= f) (y >>= g) := by
  intro s t hI
  obtain ⟨w', hw, ho, hs⟩ := h s t hI
  rcases runOn_bind_alike ho f g with ⟨e, hx, hy⟩ | ⟨a, b, hab, hx, hy⟩
  · rw [hx, hy]
    exact ⟨w', hw, rfl, hs⟩
  · rw [hx, hy]
    obtain ⟨w'', hw', hout⟩ := hfg w' hw a b hab _ _ hs
    exact ⟨w'', le_trans hw hw', hout⟩

end AgreeFrom

end Act

end Trellis
