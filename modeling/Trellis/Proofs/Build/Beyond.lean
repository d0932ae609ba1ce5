import Trellis.Proofs.Build.Places

/-!
# What building enters

Building at the end of a way enters frames that are further along it, and no others: neither the
frame itself again nor one beside it. This holds of any node at any site, whether or not the site
leads to it.

* `Session.Beyond`: no frame was entered in between but further along a way.
* `Schema.Node.build_beyond`: building a node.
-/

namespace Trellis

open Schema Session Act

/-- What was entered in between is further along a way. -/
def Session.Beyond (w : Way) (s t : Session) : Prop :=
  ∃ new, t.visits = new ++ s.visits ∧ ∀ x ∈ new, ∃ step v, x.way = w ++ step :: v

variable {w : Way} {s t : Session}

theorem Session.Beyond.of_visits (h : t.visits = s.visits) : Beyond w s t :=
  ⟨[], h, nofun⟩

/-- Frames further along a longer way are further along the shorter one. -/
theorem Session.Beyond.shorten {step : Step} (h : Beyond (w ++ [step]) s t) : Beyond w s t := by
  obtain ⟨new, hnew, hbeyond⟩ := h
  refine ⟨new, hnew, fun x hx => ?_⟩
  obtain ⟨next, v, hway⟩ := hbeyond x hx
  exact ⟨step, next :: v, by rw [hway, List.append_assoc]; rfl⟩

instance : AllowsEvaluation (Beyond w) where
  trans := by
    rintro s t u ⟨new, hnew, hbeyond⟩ ⟨new', hnew', hbeyond'⟩
    refine ⟨new' ++ new, by rw [hnew', hnew, List.append_assoc], fun x hx => ?_⟩
    rcases List.mem_append.1 hx with hx | hx
    · exact hbeyond' x hx
    · exact hbeyond x hx
  inner _ _ _ hv := .of_visits hv.symm
  write _ _ _ _ _ _ _ := .of_visits rfl

/-- A confined renderer enters what its slots enter. -/
theorem Builder.Confined.lets_beyond {N C : Type} {b : Builder N C} (hb : b.Confined) :
    b.Lets (Beyond w) :=
  hb _ (fun _ _ h => .of_visits h.visits) fun _ _ _ => IsTrans.trans _ _ _

/-- A change of the store enters nothing. -/
theorem Act.Keeps.opening_beyond {α : Type} (change : Store → Except Fault (α × Store)) :
    Keeps (Beyond w) (Act.opening change) := by
  intro s
  rw [runOn_opening]
  split
  · exact .of_visits rfl
  · exact .of_visits rfl

namespace Site

variable {N : Type} {site : Site} {step : Step} {build : Site → Act (Option N)}

/-- Whatever is built in the frame one step further is built further along the way. -/
theorem arrive_beyond {α : Type} {scope : ScopeId} {next : Site → Act α}
    (hn : Keeps (Beyond (site.way ++ [step])) (next ⟨site.way ++ [step], scope, []⟩)) :
    Keeps (Beyond site.way) (site.arrive step scope >>= next) := by
  have hvisit : Keeps (Beyond site.way) (Act.visit ⟨site.way ++ [step], scope⟩) :=
    fun s => ⟨[_], rfl, fun x hx => ⟨step, [], by rw [List.mem_singleton.1 hx]⟩⟩
  unfold arrive
  simp only [bind_assoc, pure_bind]
  exact Keeps.bind hvisit fun _ s => (hn s).shorten

theorem fill_beyond (scope : ScopeId) (ns : String) (created : Bool)
    (seed : Option (Members Value)) : Keeps (Beyond w) (fill scope ns created seed) := by
  unfold fill
  split
  · exact Keeps.opening_beyond _
  · exact Keeps.pure _

theorem enterSpace_beyond {α : Type} {ns : String} {seed : Option (Members Value)}
    {next : Site → Act α}
    (hn : ∀ scope, Keeps (Beyond (site.way ++ [step])) (next ⟨site.way ++ [step], scope, []⟩)) :
    Keeps (Beyond site.way) (site.enterSpace step ns seed >>= next) := by
  unfold enterSpace
  simp only [bind_assoc]
  refine Keeps.bind (Keeps.opening_beyond _) fun opened => ?_
  exact Keeps.bind (fill_beyond _ _ _ _) fun _ => arrive_beyond (hn opened.1)

/-- **A node** is built further along the way, in its frame or in the one it is in. -/
theorem place_beyond {position : Nat} {d : Directives}
    (hb : ∀ site', Keeps (Beyond site'.way) (build site')) :
    Keeps (Beyond site.way) (site.place position d build) := by
  unfold place
  split
  · exact Keeps.pure _
  unfold enter
  cases d.ns with
  | none => exact hb (site.child position)
  | some ns => exact enterSpace_beyond fun scope => hb ⟨_, scope, []⟩

variable (site) in
/-- **The turns** of a loop are built further along the way. -/
theorem turns_beyond {ns : String} {seed : Option (Members Value)}
    (hb : ∀ site', Keeps (Beyond site'.way) (build site')) :
    ∀ turns, Keeps (Beyond site.way) (site.turns ns seed build turns)
  | [] => Keeps.pure _
  | next :: rest => by
    rw [turns, ← bind_assoc]
    refine Keeps.bind ?_ fun _ => Keeps.bind (turns_beyond hb rest) fun _ => Keeps.pure _
    unfold enterTurn
    simp only [bind_assoc, pure_bind]
    exact enterSpace_beyond fun scope => Keeps.bind (Keeps.opening_beyond _) fun _ => hb ⟨_, scope, []⟩

/-- **The content of a slot** is built further along the way. -/
theorem slotContent_beyond {ns slot : String} {d : Directives} {given : Value}
    (hb : ∀ site', Keeps (Beyond site'.way) (build site')) :
    Keeps (Beyond site.way) (site.slotContent ns slot d build given) := by
  unfold slotContent enterSlot
  simp only [bind_assoc]
  refine Keeps.bind (Keeps.opening_beyond _) fun scope => ?_
  exact arrive_beyond (place_beyond hb)

end Site

section Building

variable {N C : Type} {b : Builder N C}

/-- **A child** is built further along the way, once or as often as its loop says. -/
theorem Builder.child_beyond {site : Site} {position : Nat} {d : Directives}
    {build : Site → Act (Option N)} (hbuild : ∀ site', Keeps (Beyond site'.way) (build site')) :
    Keeps (Beyond site.way) (b.child site position d build) := by
  unfold child
  split
  · unfold loop
    split
    · exact Keeps.pure _
    split
    · exact Keeps.throw _
    · next ns hns =>
      simp only [Site.enter, hns]
      refine Site.enterSpace_beyond fun scope => ?_
      refine Keeps.bind (Binding.resolve_keeps b.config scope _) fun v => ?_
      refine Keeps.bind (Keeps.ofExcept _) fun turns => ?_
      exact Site.turns_beyond ⟨_, scope, []⟩ hbuild turns
  · exact Keeps.bind (Site.place_beyond hbuild) fun _ => Keeps.pure _

mutual

/-- **Building a node** enters frames further along the way. The induction follows the schema. -/
theorem Schema.Node.build_beyond (hb : b.Confined) : ∀ (n : Node) (site : Site),
    Keeps (Beyond site.way) (n.build b site)
  | .mk d kids contents, site => by
    have hvalue : ∀ binding, BothKeep (Beyond site.way) (b.value site binding)
        (b.value site binding) :=
      fun binding => and_self_iff.2 (Binding.resolve_keeps b.config site.scope binding)
    have hkeeps := Corresponds.bothKeep (R := Beyond site.way)
    rw [Node.build]
    refine Keeps.bind (d.present_corresponds hkeeps hvalue).1 fun present => ?_
    split
    · exact Keeps.pure _
    refine Keeps.bind (d.traits_corresponds hkeeps hvalue site.scope).1 fun traits => ?_
    split
    · have hkids := Node.buildKids_beyond hb kids site
      refine Keeps.bind (d.content_corresponds hkeeps hvalue (and_self_iff.2 hkids)).1
        fun content => ?_
      exact Keeps.bind (hb.lets_beyond _ _ _ _ nofun) fun _ => Keeps.pure _
    · have hspace : Keeps (Beyond site.way) (Builder.slotSpace d) := by
        unfold Builder.slotSpace
        split
        · exact Keeps.pure _
        · exact Keeps.throw _
      refine Keeps.bind hspace fun ns => ?_
      exact Keeps.bind (hb.lets_beyond _ _ _ _ (Node.buildSlots_beyond hb contents ns site))
        fun _ => Keeps.pure _

/-- Building children. -/
theorem Schema.Node.buildKids_beyond (hb : b.Confined) :
    ∀ (kids : Option (List Node)) (site : Site),
    Keeps (Beyond site.way) (Node.buildKids b kids site)
  | none, site => by
    rw [Node.buildKids]
    exact Keeps.pure _
  | some kids, site => by
    rw [Node.buildKids]
    exact Keeps.bind (Node.buildAll_beyond hb kids site 0) fun _ => Keeps.pure _

/-- Building nodes in order. -/
theorem Schema.Node.buildAll_beyond (hb : b.Confined) :
    ∀ (kids : List Node) (site : Site) (i : Nat),
    Keeps (Beyond site.way) (Node.buildAll b kids site i)
  | [], site, i => by
    rw [Node.buildAll]
    exact Keeps.pure _
  | n :: rest, site, i => by
    rw [Node.buildAll]
    refine Keeps.bind (Builder.child_beyond fun site' => Node.build_beyond hb n site') fun _ => ?_
    exact Keeps.bind (Node.buildAll_beyond hb rest site (i + 1)) fun _ => Keeps.pure _

/-- Building the contents of slots, each when it is asked for. -/
theorem Schema.Node.buildSlots_beyond (hb : b.Confined) :
    ∀ (contents : List (String × Node)) (ns : String) (owner : Site),
      ∀ slot ∈ Node.buildSlots b ns owner contents, ∀ given,
      Keeps (Beyond owner.way) (slot.2 given)
  | [], ns, owner => by
    rw [Node.buildSlots]
    exact nofun
  | (name, n) :: rest, ns, owner => by
    rw [Node.buildSlots]
    intro slot hslot given
    rcases List.mem_cons.1 hslot with rfl | hslot
    · exact Site.slotContent_beyond fun site' => Node.build_beyond hb n site'
    · exact Node.buildSlots_beyond hb rest ns owner slot hslot given

end

end Building

end Trellis
