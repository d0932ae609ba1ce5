import Trellis.Proofs.Build.Abreast
import Trellis.Proofs.Build.Growth
import Trellis.Proofs.Rendered.Alike
import Trellis.Proofs.Rendered.Listeners

/-!
# Building twice

Two runs over one schema that are abreast build the same, node by node: what stands on a way decides
what is built there, whatever else the scopes hold.

* `Tandem.Together`: two acts that come to related outcomes and leave the runs abreast, as long as
  the first goes watched ways only.
* `Tandem.Steady`: a renderer that makes the same of the same.
* `Tandem.build_together`: nodes. The induction follows the schema.
-/

namespace Trellis

open Schema Session Act Value

namespace Tandem

variable {c : Tandem} {P P' : Pairs} {w : Way} {i j : ScopeId} {α β γ δ : Type}
  {A : Pairs → α → β → Prop} {B : Pairs → γ → δ → Prop}

/-- Two ends: the same fault, or values that are related in sessions abreast. -/
def Meets (c : Tandem) (P : Pairs) (A : Pairs → α → β → Prop) :
    Except Fault α × Session → Except Fault β × Session → Prop
  | (.ok a, s), (.ok b, t) => ∃ P', P ≤ P' ∧ A P' a b ∧ c.Abreast P' s t
  | (.error e, _), (.error e', _) => e = e'
  | _, _ => False

/-- Begun abreast, the acts end alike and stay abreast, if the first goes watched ways only. -/
def Together (c : Tandem) (P : Pairs) (A : Pairs → α → β → Prop) (x : Act α) (y : Act β) : Prop :=
  ∀ s t, c.Abreast P s t → (∀ v ∈ (x.runOn s).2.visits, c.watched v.way) →
    c.Meets P A (x.runOn s) (y.runOn t)

/-- Building at the end of a way keeps what was built, and the frames that were entered. -/
abbrev Onward (c : Tandem) (w : Way) (i : ScopeId) : Session → Session → Prop :=
  Stays c.schema (fun _ _ => True) w i

namespace Together

theorem pure {a : α} {b : β} (h : A P a b) : c.Together P A (pure a) (pure b) :=
  fun _ _ habreast _ => ⟨P, le_refl P, h, habreast⟩

theorem throw (e : Fault) : c.Together P A (throw e : Act α) (throw e : Act β) :=
  fun _ _ _ _ => rfl

/-- Evaluating first goes no way. -/
theorem bind_agree {R : α → β → Prop} {x : Act α} {y : Act β} (hx : Agree (c.Abreast P) R x y)
    {f : α → Act γ} {g : β → Act δ} (hfg : ∀ a b, R a b → c.Together P B (f a) (g b)) :
    c.Together P B (x >>= f) (y >>= g) := by
  intro s t habreast hwatched
  obtain ⟨hout, habreast'⟩ := hx s t habreast
  rw [runOn_bind] at hwatched ⊢
  rw [runOn_bind]
  revert hout habreast' hwatched
  rcases x.runOn s with ⟨_ | a, s'⟩ <;> rcases y.runOn t with ⟨_ | b, t'⟩ <;>
    intro hwatched hout habreast'
  · exact hout
  · exact hout.elim
  · exact hout.elim
  · exact hfg a b hout s' t' habreast' hwatched

/-- What comes later goes on from the ways gone before. -/
theorem trans {x : Except Fault α × Session} {y : Except Fault β × Session} (h : P ≤ P')
    (hx : c.Meets P' A x y) : c.Meets P A x y := by
  obtain ⟨_ | a, s⟩ := x <;> obtain ⟨_ | b, t⟩ := y
  · exact hx
  · exact hx
  · exact hx
  · obtain ⟨P'', hP, hA, habreast⟩ := hx
    exact ⟨P'', le_trans h hP, hA, habreast⟩

/-- **In sequence**, where neither part leaves the ways gone before. -/
theorem bind {x : Act α} {y : Act β} (hP : P w i j) (hx : c.Together P A x y)
    (hxs : Keeps (c.Onward w i) x) {f : α → Act γ} {g : β → Act δ}
    (hfs : ∀ a, Keeps (c.Onward w i) (f a))
    (hfg : ∀ P', P ≤ P' → ∀ a b, A P' a b → c.Together P' B (f a) (g b)) :
    c.Together P B (x >>= f) (y >>= g) := by
  intro s t habreast hwatched
  have hhas := ((habreast.pairs w i j).1 hP).1
  have hmeets := hx s t habreast
  have hstays := hxs s habreast.left hhas
  rw [runOn_bind] at hwatched ⊢
  rw [runOn_bind]
  revert hmeets hstays hwatched
  rcases x.runOn s with ⟨_ | a, s'⟩ <;> rcases y.runOn t with ⟨_ | b, t'⟩ <;>
    intro hwatched hmeets hstays
  · exact hmeets hwatched
  · exact (hmeets hwatched).elim
  · refine (hmeets fun v hv => hwatched v ?_ : False).elim
    exact (hfs a s' hstays.1 (hhas.mono hstays.2.1)).2.1 hv
  · obtain ⟨P', hPP, hA, habreast'⟩ := hmeets fun v hv =>
      hwatched v ((hfs a s' hstays.1 (hhas.mono hstays.2.1)).2.1 hv)
    exact trans hPP (hfg P' hPP a b hA s' t' habreast' hwatched)

end Together

/-! ### Entering -/

/-- The acts enter the frames at the end of one way. If the way is watched the data is alike then,
or they come to the same fault. -/
def EntersBoth (c : Tandem) (P : Pairs) (w : Way) (x y : Act Site) : Prop :=
  ∀ s t, c.Abreast P s t →
    ∃ k data s', s.Arrives c.schema w k data s' ∧
      (x.runOn s = (.ok ⟨w, k, []⟩, s') ∨ ∃ e, x.runOn s = (.error e, s')) ∧
      (c.watched w →
        (∃ e t', x.runOn s = (.error e, s') ∧ y.runOn t = (.error e, t')) ∨
          ∃ l data' t', x.runOn s = (.ok ⟨w, k, []⟩, s') ∧ y.runOn t = (.ok ⟨w, l, []⟩, t') ∧
            t.Arrives c.schema w l data' t' ∧ Alike (c.fellows P) data data')

/-- **Entering** frames and going on inside. -/
theorem EntersBoth.bind {x y : Act Site} (h : c.EntersBoth P w x y) (hc : c.Fair)
    {f g : Site → Act γ} {B : Pairs → γ → γ → Prop}
    (hfs : ∀ k, Keeps (c.Onward w k) (f ⟨w, k, []⟩))
    (hfg : ∀ P', P ≤ P' → ∀ k l, P' w k l → c.Together P' B (f ⟨w, k, []⟩) (g ⟨w, l, []⟩)) :
    c.Together P B (x >>= f) (y >>= g) := by
  intro s t habreast hwatched
  obtain ⟨k, data, s', hs, hleft, hboth⟩ := h s t habreast
  rw [runOn_bind] at hwatched ⊢
  rw [runOn_bind]
  have hgone : ⟨w, k⟩ ∈ s'.visits := hs.visits ▸ List.mem_cons_self
  -- the way is gone, and stays so
  have hw : c.watched w := by
    rcases hleft with hrun | ⟨e, hrun⟩
    · rw [hrun] at hwatched
      exact hwatched ⟨w, k⟩ ((hfs k s' hs.after hs.has).2.1 hgone)
    · rw [hrun] at hwatched
      exact hwatched ⟨w, k⟩ hgone
  rcases hboth hw with ⟨e, t', hrun, hrun'⟩ | ⟨l, data', t', hrun, hrun', ht, hdata⟩
  · rw [hrun, hrun']
    exact rfl
  · rw [hrun] at hwatched ⊢
    rw [hrun']
    obtain ⟨P', hPP, hkl, habreast'⟩ := habreast.arrives hc hs ht hdata
    exact Together.trans hPP (hfg P' hPP k l hkl s' t' habreast' hwatched)

variable {site : Site} {ns : String}

/-- The frame of a namespace holds what stood. -/
theorem enterSpace_both (hc : c.Fair) (hP : P site.way site.scope j) {ps : List Nat}
    (hstep : ((Locus.content c.schema).after (site.way ++ [.space ps ns])).isSome)
    {seed : Option (Members Value)} (hseed : c.schema.seedAt (site.way ++ [.space ps ns]) = seed) :
    c.EntersBoth P (site.way ++ [.space ps ns]) (site.enterSpace (.space ps ns) ns seed)
      (Site.enterSpace { site with scope := j } (.space ps ns) ns seed) := by
  intro s t h
  obtain ⟨hi, hj⟩ := (h.pairs _ _ _).1 hP
  obtain ⟨k, data, s', hrun, hs, -⟩ := Site.enterSpace_runOn site h.left hi hstep rfl hseed
  obtain ⟨l, data', t', hrun', ht, -⟩ :=
    Site.enterSpace_runOn { site with scope := j } h.right hj hstep rfl hseed
  refine ⟨k, data, s', hs, .inl hrun, fun hw => .inr ⟨l, data', t', hrun, hrun', ht, ?_⟩⟩
  have hstands := h.standing hw hstep
  rw [← hs.lasting hc.free, ← ht.lasting hc.free, Way.lasting_concat, Way.lasting_concat] at hstands
  exact hstands

/-- The frame of a slot holds what the slot is given. -/
theorem enterSlot_both {name : String} (hP : P site.way site.scope j)
    (hstep : ((Locus.content c.schema).after (site.way ++ [.slot ns name])).isSome)
    {given given' : Value} (hgiven : Alike (c.fellows P) given given') :
    c.EntersBoth P (site.way ++ [.slot ns name]) (site.enterSlot ns name given)
      (Site.enterSlot { site with scope := j } ns name given') := by
  intro s t h
  obtain ⟨hi, hj⟩ := (h.pairs _ _ _).1 hP
  obtain ⟨k, s', hrun, hs⟩ := Site.enterSlot_runOn site h.left hi hstep given
  obtain ⟨l, t', hrun', ht⟩ :=
    Site.enterSlot_runOn { site with scope := j } h.right hj hstep given'
  exact ⟨k, given, s', hs, .inl hrun, fun _ => .inr ⟨l, given', t', hrun, hrun', ht, hgiven⟩⟩

/-- Turns of one number over values that are alike. -/
structure SameTurn (F : Callable → Callable → Prop) (x y : Iteration) : Prop where
  index : x.index = y.index
  value : Alike F x.value y.value
  key : Alike F x.key y.key

theorem SameTurn.toValue {F : Callable → Callable → Prop} {x y : Iteration} (h : SameTurn F x y) :
    Alike F x.toValue y.toValue := by
  unfold Iteration.toValue
  rw [h.index]
  exact .object (.cons _ (.number _) (.cons _ h.value (.cons _ h.key .nil)))

theorem numbered_alike {F : Callable → Callable → Prop} : ∀ {items items' : List (Value × Value)}
    (index : Nat), List.Forall₂ (fun e e' => Alike F e.1 e'.1 ∧ Alike F e.2 e'.2) items items' →
      List.Forall₂ (SameTurn F) (Iteration.numbered index items) (Iteration.numbered index items')
  | _, _, _, .nil => .nil
  | _, _, index, .cons h hs => .cons ⟨rfl, h.2, h.1⟩ (numbered_alike (index + 1) hs)

/-- **The turns** over sources that are alike. -/
theorem ofSource_alike {F : Callable → Callable → Prop} {v v' : Value} (h : Alike F v v') :
    SameOutcome (List.Forall₂ (SameTurn F)) (Iteration.ofSource v) (Iteration.ofSource v') := by
  cases h
  case array hs =>
    refine numbered_alike 0 ?_
    rename_i vs ws
    induction vs generalizing ws with
    | nil => cases hs; exact .nil
    | cons v vs ih =>
      cases hs with
      | cons h hs => exact .cons ⟨.null, h⟩ (ih hs)
  case object hs =>
    refine numbered_alike 0 ?_
    rename_i m m'
    induction m generalizing m' with
    | nil => cases hs; exact .nil
    | cons e m ih =>
      cases hs with
      | cons name h hs => exact .cons ⟨.string name, h⟩ (ih hs)
  all_goals rfl

/-- The frame of a turn holds what stood, and what the loop sets. -/
theorem enterTurn_both (hc : c.Fair) (hP : P site.way site.scope j) {next next' : Iteration}
    (hstep : ((Locus.content c.schema).after (site.way ++ [.turn next.index ns])).isSome)
    {seed : Option (Members Value)}
    (hseed : c.schema.seedAt (site.way ++ [.turn next.index ns]) = seed)
    (hnext : SameTurn (c.fellows P) next next') :
    c.EntersBoth P (site.way ++ [.turn next.index ns]) (site.enterTurn ns seed next)
      (Site.enterTurn { site with scope := j } ns seed next') := by
  intro s t h
  obtain ⟨hi, hj⟩ := (h.pairs _ _ _).1 hP
  have hindex := hnext.index
  obtain ⟨k, data, s', hs, hsome, hnone⟩ := Site.enterTurn_runOn site h.left hi hstep hseed
  rw [hindex] at hstep hseed
  obtain ⟨l, data', t', ht, hsome', hnone'⟩ :=
    Site.enterTurn_runOn { site with scope := j } h.right hj hstep hseed
  rw [← hindex] at hsome' ht hstep
  -- the data is alike but for what the loop sets
  have hlasting : c.watched (site.way ++ [.turn next.index ns]) →
      Alike (c.fellows P) ((Step.turn next.index ns).lasting data)
        ((Step.turn next.index ns).lasting data') := fun hw => by
    have hstands := h.standing hw hstep
    rwa [← hs.lasting hc.free, ← ht.lasting hc.free, Way.lasting_concat,
      Way.lasting_concat] at hstands
  by_cases hm : ∃ members, data = .object members
  · obtain ⟨members, rfl⟩ := hm
    obtain ⟨u, hrun, hu⟩ := hsome members rfl
    refine ⟨k, _, u, hu, .inl hrun, fun hw => .inr ?_⟩
    obtain ⟨members', rfl⟩ : ∃ members', data' = .object members' := by
      have hd := hlasting hw
      cases data' <;> cases hd
      exact ⟨_, rfl⟩
    obtain ⟨u', hrun', hu'⟩ := hsome' members' rfl
    refine ⟨l, _, u', hrun, hrun', hu', ?_⟩
    cases hlasting hw with
    | object hms =>
      have hset := hms.assign loopKey hnext.toValue
      rw [Members.assign_assign, Members.assign_assign] at hset
      exact .object hset
  · have hm₀ : ∀ members, data ≠ .object members := fun members h => hm ⟨members, h⟩
    refine ⟨k, data, s', hs, .inr ⟨_, hnone hm₀⟩, fun hw => .inl ⟨_, t', hnone hm₀, hnone' ?_⟩⟩
    rintro members' rfl
    have hd := hlasting hw
    cases data <;> cases hd
    exact hm ⟨_, rfl⟩

/-! ### Nodes -/

section Nodes

variable {N C : Type} {b : Builder N C} {L : Pairs → N → N → Prop}

/-- The contents of a slot, asked for in the frames at the end of one way. -/
structure SlotTogether (c : Tandem) (P : Pairs) (w : Way) (i : ScopeId) (L : Pairs → N → N → Prop)
    (build build' : Value → Act (Option N)) : Prop where
  keeps : ∀ given, Keeps (c.Onward w i) (build given)
  together : ∀ P', P ≤ P' → ∀ given given', Alike (c.fellows P') given given' →
    c.Together P' (fun P => Option.Rel (L P)) (build given) (build' given')

/-- The contents of slots of the same names. -/
def SlotsTogether (c : Tandem) (P : Pairs) (w : Way) (i : ScopeId) (L : Pairs → N → N → Prop) :
    Slots N → Slots N → Prop :=
  List.Forall₂ fun e e' => e.1 = e'.1 ∧ c.SlotTogether P w i L e.2 e'.2

/-- Of what is alike the renderer makes nodes that are related, and nodes that are related stay
so. -/
structure Steady (c : Tandem) (b : Builder N C) (L : Pairs → N → N → Prop) : Prop where
  lets : ∀ w i, b.Lets (c.Onward w i)
  mono : ∀ {P P'}, P ≤ P' → ∀ x y, L P x y → L P' x y
  create : ∀ {P : Pairs} {w i j}, P w i j → ∀ comp : Component,
    (∀ definition, comp = .inline definition → c.Shared definition) →
    ∀ traits traits', traits.Like (c.fellows P) P.Scopes traits' →
    ∀ slots slots', c.SlotsTogether P w i L slots slots' →
    ∀ content content', content.Like (L P) content' →
    c.Together P L (b.renderer.create (b.registry.resolve comp) ⟨traits, slots⟩ content)
      (b.renderer.create (b.registry.resolve comp) ⟨traits', slots'⟩ content')

theorem Steady.respects (hb : c.Steady b L) (w : Way) (i : ScopeId) : b.Respects (c.Onward w i) :=
  (hb.lets w i).respects

variable {m : Node} {kids : List Node} {build : Site → Act (Option N)} {k : Nat}

/-- A node is built the same in the frames at the ends of one way, from here on. -/
def BuildsTogether (c : Tandem) (P : Pairs) (m : Node) (L : Pairs → N → N → Prop)
    (build : Site → Act (Option N)) : Prop :=
  ∀ P', P ≤ P' → ∀ (site : Site) j, site.Holds c.schema m → P' site.way site.scope j →
    c.Together P' (fun P => Option.Rel (L P)) (build site) (build { site with scope := j })

theorem BuildsTogether.mono (h : c.BuildsTogether P m L build) (hP : P ≤ P') :
    c.BuildsTogether P' m L build :=
  fun P'' hP' => h P'' (le_trans hP hP')

/-- **A node that is no loop**, in its frame or in the frame it is in. -/
theorem place_together (hc : c.Fair) (h : site.Lists c.schema k (m :: kids))
    (hloop : m.self.loop = none) (hP : P site.way site.scope j)
    (hkeeps : ∀ site', site'.Holds c.schema m →
      Keeps (c.Onward site'.way site'.scope) (build site'))
    (hb : c.BuildsTogether P m L build) :
    c.Together P (fun P => Option.Rel (L P)) (site.place k m.self build)
      (Site.place { site with scope := j } k m.self build) := by
  unfold Site.place
  split
  · exact .pure .none
  unfold Site.enter
  cases hns : m.self.ns with
  | none => exact hb P (le_refl P) (site.child k) j (h.child hns) hP
  | some ns =>
    -- the step leads into the node itself, since it is no loop
    have hstep := h.step hns
    rw [hloop] at hstep
    refine (enterSpace_both hc hP (by rw [← Site.step, hstep]; rfl) (h.seed ns)).bind hc
      (fun k => hkeeps _ (.inside hstep)) fun P' hPP k l hkl => ?_
    exact hb P' hPP ⟨_, k, []⟩ l (.inside hstep) hkl

variable (site) in
/-- **The turns** of a loop, each in a frame of its own. -/
theorem turns_together (hc : c.Fair) {ns : String} (hns : m.self.ns = some ns)
    (h : (Locus.content c.schema).after site.way = some (Locus.anchor m))
    (hkeeps : ∀ site', site'.Holds c.schema m →
      Keeps (c.Onward site'.way site'.scope) (build site'))
    (hmono : ∀ {P P'}, P ≤ P' → ∀ x y, L P x y → L P' x y) :
    ∀ {turns turns' : List Iteration} {P : Pairs}, P site.way site.scope j →
      c.BuildsTogether P m L build → List.Forall₂ (SameTurn (c.fellows P)) turns turns' →
      c.Together P (fun P => List.Forall₂ (L P)) (site.turns ns m.self.data build turns)
        (Site.turns { site with scope := j } ns m.self.data build turns')
  | _, _, _, _, _, .nil => .pure .nil
  | next :: rest, next' :: rest', P, hP, hb, .cons hnext hrest => by
    have hstep : (Locus.content c.schema).after (site.way ++ [.turn next.index ns]) =
        some (Locus.inside m) := Site.after_turn hns h next.index
    have hstays : ∀ turns, Keeps (c.Onward site.way site.scope)
        (site.turns ns m.self.data build turns) := Site.turns_stays site hns h hkeeps
    have hfirst : Keeps (c.Onward site.way site.scope)
        (site.enterTurn ns m.self.data next >>= build) :=
      (Site.enterTurn_enters next (by rw [hstep]; rfl) (Site.seed_turn h _ ns)).bind fun id =>
        hkeeps _ (.inside hstep)
    rw [Site.turns, Site.turns, ← bind_assoc, ← bind_assoc]
    refine Together.bind hP (A := fun P => Option.Rel (L P)) ?_ hfirst
      (fun _ => Keeps.bind (hstays rest) fun _ => Keeps.pure _) fun P' hPP x y hxy => ?_
    · refine (enterTurn_both hc hP (by rw [hstep]; rfl) (Site.seed_turn h _ ns) hnext).bind hc
        (fun k => hkeeps _ (.inside hstep)) fun P' hPP k l hkl => ?_
      exact hb P' hPP ⟨_, k, []⟩ l (.inside hstep) hkl
    · have hrest' := hrest.imp fun _ _ h => (⟨h.index, h.value.mono (hc.mono (Pairs.scopes_mono hPP)),
        h.key.mono (hc.mono (Pairs.scopes_mono hPP))⟩ : SameTurn (c.fellows P') _ _)
      refine Together.bind (hPP _ _ _ hP)
        (turns_together hc hns h hkeeps hmono (hPP _ _ _ hP) (hb.mono hPP) hrest') (hstays rest)
        (fun _ => Keeps.pure _) fun P'' hPP' ns ns' hns => .pure ?_
      cases hxy with
      | none => exact hns
      | some hxy => exact .cons (hmono hPP' _ _ hxy) hns

/-- **The content of a slot**, in a frame that holds what the slot was given. -/
theorem slotContent_together (hc : c.Fair) {ns slot : String}
    (h : (Locus.content c.schema).after (site.way ++ [.slot ns slot]) = some (Locus.content m))
    (hloop : m.self.loop = none) (hP : P site.way site.scope j)
    (hkeeps : ∀ site', site'.Holds c.schema m →
      Keeps (c.Onward site'.way site'.scope) (build site'))
    (hb : c.BuildsTogether P m L build) {given given' : Value}
    (hgiven : Alike (c.fellows P) given given') :
    c.Together P (fun P => Option.Rel (L P)) (site.slotContent ns slot m.self build given)
      (Site.slotContent { site with scope := j } ns slot m.self build given') := by
  unfold Site.slotContent
  refine (enterSlot_both hP (by rw [h]; rfl) hgiven).bind hc
    (fun k => Site.place_stays (Site.Lists.content h) hloop hkeeps) fun P' hPP k l hkl => ?_
  have hcontent : Site.Lists c.schema ⟨site.way ++ [.slot ns slot], k, []⟩ 0 [m] :=
    Site.Lists.content h
  exact place_together hc hcontent hloop hkl hkeeps (hb.mono hPP)

/-- **A child**, once or as often as its loop says. -/
theorem child_together (hc : c.Fair) (hagrees : c.Agrees b.config)
    (hmono : ∀ {P P'}, P ≤ P' → ∀ x y, L P x y → L P' x y)
    (h : site.Lists c.schema k (m :: kids)) (hm : m.Over c.Shared) (hP : P site.way site.scope j)
    (hkeeps : ∀ site', site'.Holds c.schema m →
      Keeps (c.Onward site'.way site'.scope) (build site'))
    (hb : c.BuildsTogether P m L build) :
    c.Together P (fun P => List.Forall₂ (L P)) (b.child site k m.self build)
      (b.child { site with scope := j } k m.self build) := by
  unfold Builder.child
  cases hloop : m.self.loop with
  | none =>
    refine Together.bind hP (place_together hc h hloop hP hkeeps hb)
      (Site.place_stays h hloop hkeeps) (fun _ => Keeps.pure _) fun P' hPP x y hxy => .pure ?_
    cases hxy with
    | none => exact .nil
    | some hxy => exact .cons hxy .nil
  | some source =>
    simp only
    unfold Builder.loop
    split
    · exact .pure .nil
    cases hns : m.self.ns with
    | none => exact .throw _
    | some ns =>
      -- the step leads to the loop's own frame, and the turns are inside
      have hstep := h.step hns
      rw [hloop] at hstep
      simp only [Site.enter, hns]
      refine (enterSpace_both hc hP (by rw [← Site.step, hstep]; rfl) (h.seed ns)).bind hc
        (fun k => ?_) fun P' hPP k l hkl => ?_
      · refine Keeps.bind (Binding.resolve_keeps b.config k source) fun v => ?_
        refine Keeps.bind (Keeps.ofExcept _) fun turns => ?_
        exact Site.turns_stays ⟨_, k, []⟩ hns hstep hkeeps turns
      · refine Together.bind_agree (hagrees P' k l ⟨_, hkl⟩ source (hm.loop source hloop))
          fun v v' hv => ?_
        refine Together.bind_agree (Agree.ofExcept (ofSource_alike hv)) fun turns turns' hturns => ?_
        exact turns_together ⟨_, k, []⟩ hc hns hstep hkeeps hmono hkl (hb.mono hPP) hturns

/-- The content of a node: what it says itself, or what its children come to. -/
theorem content_together (hc : c.Fair) (hagrees : c.Agrees b.config) {d : Directives}
    (hd : d.Over c.Shared) (hP : P.Scopes i j) {x y : Act (Content N)}
    (hxy : c.Together P (fun P => Content.Like (L P)) x y) :
    c.Together P (fun P => Content.Like (L P)) (d.content (fun b' => b'.resolve b.config i) x)
      (d.content (fun b' => b'.resolve b.config j) y) := by
  unfold Directives.content
  refine Together.bind_agree (d.ownContent_agree (R := L P) (hagrees P i j hP) hd (hc.faithful _))
    fun own own' hown => ?_
  cases hown with
  | none => exact hxy
  | some hcontent => exact .pure hcontent

mutual

/-- **Building a node** in the frames at the ends of one way. -/
theorem build_together (hc : c.Fair) (hb : c.Steady b L) (hagrees : c.Agrees b.config) :
    ∀ m : Node, m.All Node.Orderly → m.All (Node.Over c.Shared) →
      ∀ P, c.BuildsTogether P m L (m.build b)
  | .mk d kids contents, horderly, hshared, _ => by
    intro P _ site j hsite hP
    have hscopes : P.Scopes site.scope j := ⟨_, hP⟩
    have hvalue := hagrees P site.scope j hscopes
    have hd : d.Over c.Shared := hshared.self
    have hkeeps := Corresponds.bothKeep (R := c.Onward site.way site.scope)
    have hreads : ∀ binding, BothKeep (c.Onward site.way site.scope) (b.value site binding)
        (b.value site binding) :=
      fun binding => and_self_iff.2 (Binding.resolve_keeps b.config site.scope binding)
    rw [Node.build, Node.build]
    refine Together.bind_agree (d.present_agree hvalue hd) ?_
    rintro present _ rfl
    split
    · exact .pure .none
    refine Together.bind_agree (d.traits_agree hvalue hd hscopes) fun traits traits' htraits => ?_
    split
    · have hkids := buildKids_together hc hb hagrees kids horderly.kids hshared.kids P site j
        hsite.kids hP
      have hstays := (d.content_corresponds hkeeps hreads
        (and_self_iff.2 (Node.buildKids_stays hb.respects kids site horderly.kids hsite.kids))).1
      refine Together.bind hP (content_together hc hagrees hd hscopes hkids) hstays
        (fun content => Keeps.bind (hb.lets _ _ _ _ _ _ nofun) fun _ => Keeps.pure _)
        fun P' hPP content content' hcontent => ?_
      refine Together.bind (hPP _ _ _ hP) (hb.create (hPP _ _ _ hP) d.component hd.inline _ _
        (htraits.mono (hc.mono (Pairs.scopes_mono hPP)) (Pairs.scopes_mono hPP)) _ _ .nil _ _
        hcontent) (hb.lets _ _ _ _ _ _ nofun) (fun _ => Keeps.pure _) fun P'' _ x y hxy => ?_
      exact .pure (.some hxy)
    · unfold Builder.slotSpace
      cases hns : d.ns with
      | none => exact .throw _
      | some ns =>
        have hafter : ∀ slot k, Members.get? contents slot = some k →
            (Locus.content c.schema).after (site.way ++ [.slot ns slot]) =
              some (Locus.content k) := fun slot k hk => by
          obtain ⟨l, hl, hls⟩ := hsite.slots ns hns
          rw [Locus.after_concat, hl, Option.bind_some, Locus.next, hls, Option.bind_some, if_pos rfl]
          exact congrArg (Option.map Locus.content) hk
        have hslots := buildSlots_together hc hb hagrees contents ns horderly.contents
          hshared.contents horderly.self.distinct horderly.self.once P site j hafter hP
        have hstays := Node.buildSlots_stays hb.respects contents ns site horderly.contents
          horderly.self.distinct horderly.self.once hafter
        simp only [pure_bind]
        refine Together.bind hP (hb.create hP d.component hd.inline _ _ htraits _ _ hslots _ _ .none)
          (hb.lets _ _ _ _ _ _ hstays) (fun _ => Keeps.pure _) fun P'' _ x y hxy => ?_
        exact .pure (.some hxy)

/-- Building children. -/
theorem buildKids_together (hc : c.Fair) (hb : c.Steady b L) (hagrees : c.Agrees b.config) :
    ∀ kids : Option (List Node), Node.AllKids Node.Orderly (kids.getD []) →
      Node.AllKids (Node.Over c.Shared) (kids.getD []) → ∀ (P : Pairs) (site : Site) j,
      site.Lists c.schema 0 (kids.getD []) → P site.way site.scope j →
      c.Together P (fun P => Content.Like (L P)) (Node.buildKids b kids site)
        (Node.buildKids b kids { site with scope := j })
  | none, _, _, P, site, j, _, _ => by rw [Node.buildKids, Node.buildKids]; exact .pure .none
  | some kids, horderly, hshared, P, site, j, hsite, hP => by
    rw [Node.buildKids, Node.buildKids]
    exact Together.bind hP (buildAll_together hc hb hagrees kids horderly hshared P site j 0 hsite hP)
      (Node.buildAll_stays hb.respects kids site 0 horderly hsite) (fun _ => Keeps.pure _)
      fun P' _ ns ns' hns => .pure (.nodes hns)

/-- Building nodes in order. -/
theorem buildAll_together (hc : c.Fair) (hb : c.Steady b L) (hagrees : c.Agrees b.config) :
    ∀ kids : List Node, Node.AllKids Node.Orderly kids → Node.AllKids (Node.Over c.Shared) kids →
      ∀ (P : Pairs) (site : Site) j (k : Nat), site.Lists c.schema k kids →
      P site.way site.scope j →
      c.Together P (fun P => List.Forall₂ (L P)) (Node.buildAll b kids site k)
        (Node.buildAll b kids { site with scope := j } k)
  | [], _, _, P, site, j, k, _, _ => by rw [Node.buildAll, Node.buildAll]; exact .pure .nil
  | m :: rest, horderly, hshared, P, site, j, k, hsite, hP => by
    have hkeeps : ∀ site' : Site, site'.Holds c.schema m →
        Keeps (c.Onward site'.way site'.scope) (m.build b site') := fun site' hsite' =>
      Node.build_stays hb.respects m site' horderly.1 hsite'
    have hrest := Node.buildAll_stays hb.respects rest site (k + 1) horderly.2 hsite.tail
    rw [Node.buildAll, Node.buildAll]
    refine Together.bind hP (child_together hc hagrees hb.mono hsite hshared.1.self hP hkeeps
      (build_together hc hb hagrees m horderly.1 hshared.1 P))
      (Builder.child_stays hb.respects hsite hkeeps)
      (fun _ => Keeps.bind hrest fun _ => Keeps.pure _) fun P' hPP ns ns' hns => ?_
    refine Together.bind (hPP _ _ _ hP) (buildAll_together hc hb hagrees rest horderly.2 hshared.2 P'
      site j (k + 1) hsite.tail (hPP _ _ _ hP)) hrest (fun _ => Keeps.pure _)
      fun P'' hPP' ms ms' hms => .pure ?_
    exact List.rel_append (hns.imp (hb.mono hPP')) hms

/-- Building the contents of slots, each when it is asked for. -/
theorem buildSlots_together (hc : c.Fair) (hb : c.Steady b L) (hagrees : c.Agrees b.config) :
    ∀ (contents : Members Node) (ns : String), Node.AllContents Node.Orderly contents →
      Node.AllContents (Node.Over c.Shared) contents → contents.Distinct →
      (∀ e ∈ contents, e.2.self.loop = none) → ∀ (P : Pairs) (site : Site) j,
      (∀ slot m, contents.get? slot = some m →
        (Locus.content c.schema).after (site.way ++ [.slot ns slot]) = some (Locus.content m)) →
      P site.way site.scope j →
      c.SlotsTogether P site.way site.scope L (Node.buildSlots b ns site contents)
        (Node.buildSlots b ns { site with scope := j } contents)
  | [], ns, _, _, _, _, P, site, j, _, _ => by rw [Node.buildSlots, Node.buildSlots]; exact .nil
  | (name, m) :: rest, ns, horderly, hshared, hdistinct, honce, P, site, j, hafter, hP => by
    have hkeeps : ∀ site' : Site, site'.Holds c.schema m →
        Keeps (c.Onward site'.way site'.scope) (m.build b site') := fun site' hsite' =>
      Node.build_stays hb.respects m site' horderly.1 hsite'
    have hname : (Locus.content c.schema).after (site.way ++ [.slot ns name]) =
        some (Locus.content m) := hafter name m (by rw [Members.get?_cons, if_pos rfl])
    have hloop := honce _ List.mem_cons_self
    unfold Members.Distinct Members.names at hdistinct
    rw [List.map_cons, List.nodup_cons] at hdistinct
    rw [Node.buildSlots, Node.buildSlots]
    refine .cons ⟨rfl, fun given => Site.slotContent_stays hname hloop hkeeps given,
      fun P' hPP given given' hgiven => ?_⟩ ?_
    · exact slotContent_together hc hname hloop (hPP _ _ _ hP) hkeeps
        (build_together hc hb hagrees m horderly.1 hshared.1 P') hgiven
    · refine buildSlots_together hc hb hagrees rest ns horderly.2 hshared.2 hdistinct.2
        (fun e he => honce e (List.mem_cons_of_mem _ he)) P site j (fun other k hk => ?_) hP
      refine hafter other k ?_
      rw [Members.get?_cons, if_neg]
      · exact hk
      · rintro rfl
        exact hdistinct.1 (Members.mem_names_of_get? hk)

end

end Nodes

end Tandem

end Trellis
