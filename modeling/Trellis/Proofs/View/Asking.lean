import Trellis.Proofs.Build.Ageless
import Trellis.Proofs.Lexical.Refinement
import Trellis.Proofs.View.Grounded
import Trellis.Proofs.View.Idempotent
import Trellis.Proofs.View.Slots

/-!
# Asking a slot again

With expressions switched off and no components, asking a slot changes nothing that asking it again
depends on. What stands at any way stands, and along the way to the slot's owner the data is what it
was; the frame of the slot itself is given anew. So the slot builds for a value what it would have
built had it not been asked before.

* `Site.ask`, `Act.each`: asking a slot for a value, and for one value after the other.
* `Site.Holds.asks`: what a node hands to the renderer asks its slots.
* `Session.Even`: what asking leaves as it was.
* `Site.ask_even`: sessions that are even build the same.
* `Session.Grounded.ask_each`: asking for a value comes to the same after asking for others.
-/

namespace Trellis

open Schema Session Act Value

/-- **Trees that are alike** up to the scopes of listeners are the same in the root's scope. -/
theorem Rendered.Like.unscoped_eq {S : ScopeId → ScopeId → Prop} {n n' : Rendered}
    (h : n.Like Eq S n') : n.unscoped = n'.unscoped := by
  have hunscoped : ∀ l l' : Listener, l.Like S l' → l.unscoped.Like Eq l'.unscoped :=
    fun _ _ hl => ⟨hl.event, hl.handler, rfl⟩
  exact (Like.mapListeners hunscoped h).eq

/-! ### Asking -/

/-- Asks a slot of a node that is built at a site for what it builds of a value. -/
def Site.ask (config : Config) (owner : Site) (ns name : String) (m : Node) (given : Value) :
    Act (Option Rendered) :=
  owner.slotContent ns name m.self (m.build (Builder.bare config)) given

/-- What an act makes: a tree, with its listeners in the root's scope, or nothing, or a fault. -/
def Act.makes (act : Act (Option Rendered)) (s : Session) : Except Fault (Option Rendered) :=
  (act.runOn s).1.map (Option.map Rendered.unscoped)

/-- The session after an act for one value after the other, whether it fails or not. -/
def Act.each {α β : Type} (act : β → Act α) (values : List β) (s : Session) : Session :=
  values.foldl (fun s v => ((act v).runOn s).2) s

/-- What an act keeps for each value it keeps for all of them. -/
theorem Act.each_induction {α β : Type} {act : β → Act α} {I : Session → Prop}
    (h : ∀ v s, I s → I ((act v).runOn s).2) (values : List β) {s : Session} (hs : I s) :
    I (Act.each act values s) := by
  induction values generalizing s with
  | nil => exact hs
  | cons v values ih => exact ih (h v s hs)

namespace Session

variable {n : Node} {s t u : Session} {o w : Way} {id : ScopeId} {data : Value}

/-- Frames were entered in between, and the data of no others was changed; and what stood stands. -/
structure Spares (n : Node) (s t : Session) : Prop where
  entered : ∃ new, t.visits = new ++ s.visits ∧ (n.ClashFree → ∀ u,
    ((Locus.content n).after u).isSome → (∀ x ∈ new, x.way ≠ u) → t.dataAt u = s.dataAt u)
  standing : n.ClashFree → ∀ u, ((Locus.content n).after u).isSome →
    t.standing n u = s.standing n u

theorem Arrives.spares (h : s.Arrives n w id data t) : s.Spares n t where
  entered := by
    refine ⟨[⟨w, id⟩], h.visits, fun hfree u hu hne => ?_⟩
    exact h.dataAt_of_ne hfree hu (Ne.symm (hne ⟨w, id⟩ List.mem_cons_self))
  standing hfree u hu := h.standing hfree hu

instance : AllowsEntering n (Spares n) where
  refl _ := ⟨⟨[], rfl, fun _ _ _ _ => rfl⟩, fun _ _ _ => rfl⟩
  trans := by
    rintro s t u ⟨⟨new, hnew, hdata⟩, hstands⟩ ⟨⟨new', hnew', hdata'⟩, hstands'⟩
    refine ⟨⟨new' ++ new, by rw [hnew', hnew, List.append_assoc], fun hfree w hw hne => ?_⟩,
      fun hfree w hw => (hstands' hfree w hw).trans (hstands hfree w hw)⟩
    have hbefore := hdata hfree w hw fun x hx => hne x (List.mem_append_right _ hx)
    have hafter := hdata' hfree w hw fun x hx => hne x (List.mem_append_left _ hx)
    exact hafter.trans hbefore
  enter h _ := h.spares

/-- What stood stands, and along a way the data is what it was. -/
structure Even (n : Node) (o : Way) (s t : Session) : Prop where
  standing : ∀ u, ((Locus.content n).after u).isSome → t.standing n u = s.standing n u
  data : ∀ u, u <+: o → t.dataAt u = s.dataAt u

theorem Even.refl (s : Session) : s.Even n o s := ⟨fun _ _ => rfl, fun _ _ => rfl⟩

theorem Even.trans (h : s.Even n o t) (h' : t.Even n o u) : s.Even n o u :=
  ⟨fun w hw => (h'.standing w hw).trans (h.standing w hw),
    fun w hw => (h'.data w hw).trans (h.data w hw)⟩

/-- Which pass touched what is no matter. -/
theorem Even.of_ageless (h : t.store.ageless = s.store.ageless) : s.Even n o t :=
  ⟨fun w _ => standing_of_ageless h w, fun w _ => dataAt_of_ageless h w⟩

/-- What was entered further along the way leaves everything along it. -/
theorem Spares.even (h : s.Spares n t) (hbeyond : s.Beyond o t) (hfree : n.ClashFree)
    (ho : ((Locus.content n).after o).isSome) : s.Even n o t where
  standing := h.standing hfree
  data u hu := by
    obtain ⟨new, hnew, hdata⟩ := h.entered
    obtain ⟨new', hnew', hways⟩ := hbeyond
    obtain rfl : new' = new := List.append_cancel_right (hnew'.symm.trans hnew)
    have hleads : ((Locus.content n).after u).isSome := by
      obtain ⟨v, rfl⟩ := hu
      exact Locus.leads_of_append ho
    refine hdata hfree u hleads fun x hx heq => ?_
    obtain ⟨step, v, hway⟩ := hways x hx
    have hlength := hu.length_le
    rw [← heq, hway, List.length_append, List.length_cons] at hlength
    omega

end Session

/-- What a node hands to the renderer asks its slots. -/
theorem Schema.Node.mem_buildSlots {config : Config} :
    ∀ (contents : Members Node) (ns : String) (owner : Site), contents.Distinct →
      ∀ slot ∈ Node.buildSlots (Builder.bare config) ns owner contents,
        ∃ m, contents.get? slot.1 = some m ∧ slot.2 = owner.ask config ns slot.1 m
  | [], ns, owner, _ => by
    rw [Node.buildSlots]
    exact nofun
  | (name, m) :: rest, ns, owner, hdistinct => by
    unfold Members.Distinct Members.names at hdistinct
    rw [List.map_cons, List.nodup_cons] at hdistinct
    rw [Node.buildSlots]
    intro slot hslot
    rcases List.mem_cons.1 hslot with rfl | hslot
    · exact ⟨m, by rw [Members.get?_cons, if_pos rfl], rfl⟩
    · obtain ⟨k, hk, hask⟩ := Node.mem_buildSlots rest ns owner hdistinct.2 slot hslot
      have hne : slot.1 ≠ name := fun heq => hdistinct.1 (heq ▸ Members.mem_names_of_get? hk)
      exact ⟨k, by rw [Members.get?_cons, if_neg hne, hk], hask⟩

/-- **A factory** that a node hands to the renderer at a site asks one of its slots there. -/
theorem Site.Holds.asks {n k : Node} (hn : n.All Node.Orderly) {owner : Site}
    (hk : owner.Holds n k) {ns : String} (hns : k.self.ns = some ns) {config : Config}
    {slot : String × (Value → Act (Option Rendered))}
    (hslot : slot ∈ Node.buildSlots (Builder.bare config) ns owner k.slots) :
    ∃ m, (Locus.content n).after (owner.way ++ [.slot ns slot.1]) = some (Locus.content m) ∧
      slot.2 = owner.ask config ns slot.1 m := by
  obtain ⟨l, hl, hslots⟩ := hk.slots ns hns
  obtain ⟨k', hk', horderly⟩ := ((Locus.Within.content hn).after hl).slots ns k.slots hslots
  have hdistinct : Members.Distinct k.slots := hk' ▸ horderly.self.distinct
  obtain ⟨m, hm, hask⟩ := Node.mem_buildSlots k.slots ns owner hdistinct slot hslot
  refine ⟨m, ?_, hask⟩
  rw [Locus.after_concat, hl, Option.bind_some, Locus.next, hslots, Option.bind_some, if_pos rfl]
  exact congrArg (Option.map Locus.content) hm

section Off

variable {n m : Node} {config : Config} {owner : Site} {ns name : String} {s t : Session}

variable (hn : n.All Node.Orderly) (hfree : n.ClashFree) (hoff : config.expressions = false)
  (hk : (Locus.content n).after (owner.way ++ [.slot ns name]) = some (Locus.content m))

include hn hoff hk in
/-- **Asking a slot** keeps what building keeps, and spares what it does not enter. -/
theorem Site.ask_stays (p : Value) :
    Keeps (Stays n (Spares n) owner.way owner.scope) (owner.ask config ns name m p) := by
  obtain ⟨horderly, hloop⟩ := Locus.orderly_content hn hk
  refine Site.slotContent_stays hk hloop (fun site hsite => ?_) p
  exact Node.build_stays (fun _ _ => (Builder.bare_lets _).respects_off hoff) m site horderly hsite

include hn hfree hoff hk in
/-- **Asking a slot**, any number of times, leaves everything it depends on. -/
theorem Site.ask_each (ps : List Value) (hs : s.Built n) (hw : s.Has owner.way owner.scope) :
    let t := Act.each (owner.ask config ns name m) ps s
    t.Built n ∧ t.Has owner.way owner.scope ∧ s.Even n owner.way t := by
  refine Act.each_induction (I := fun t => t.Built n ∧ t.Has owner.way owner.scope ∧
    s.Even n owner.way t) (fun p t ⟨ht, htw, heven⟩ => ?_) ps ⟨hs, hw, .refl s⟩
  obtain ⟨hu, hvisits, hspares⟩ := Site.ask_stays hn hoff hk p t ht htw
  have hbeyond : Keeps (Beyond owner.way) (owner.ask config ns name m p) :=
    Site.slotContent_beyond fun site => Node.build_beyond (Builder.bare_confined config) m site
  exact ⟨hu, htw.mono hvisits, heven.trans (hspares.even (hbeyond t) hfree (htw.leads ht))⟩

include hn hfree hoff hk in
/-- **Sessions that are even** along the way to a slot's owner build the same there, if nothing but
the frames along it was entered. -/
theorem Site.ask_even (hs : s.Built n) (ht : t.Built n) (hsw : s.Has owner.way owner.scope)
    (htw : t.Has owner.way owner.scope) (hsgone : ∀ u, (∃ i, s.Has u i) ↔ u <+: owner.way)
    (htgone : ∀ u, (∃ i, t.Has u i) ↔ u <+: owner.way) (heven : s.Even n owner.way t) (p : Value) :
    (owner.ask config ns name m p).makes s = (owner.ask config ns name m p).makes t := by
  let c : Tandem := ⟨n, s, t, fun _ => True, fun _ => Eq⟩
  let P : Tandem.Pairs := fun u i j => s.Has u i ∧ t.Has u j
  have hc : c.Fair := ⟨hfree, fun _ _ _ => id, fun _ => Faithful.eq⟩
  have habreast : c.Abreast P s t := by
    refine ⟨hs, ht, fun u => (hsgone u).trans (htgone u).symm, fun _ _ _ => Iff.rfl,
      fun u i j hi hj => ?_, fun u _ hleads _ => ?_, .start⟩
    · have hdata := heven.data u ((hsgone u).1 ⟨i, hi⟩)
      rw [hdata]
      cases s.dataAt u with
      | none => exact .none
      | some v => exact .some (Alike.self v)
    · rw [heven.standing u hleads]
      exact Alike.self _
  obtain ⟨horderly, hloop⟩ := Locus.orderly_content hn hk
  have hover : m.All (Node.Over c.Shared) :=
    horderly.imp fun k _ => Directives.Over.of_forall (fun v _ => Alike.self v) k.self
  have hsteady := Rendered.trees_steady hc Registry.forall_empty Registry.forall_empty config
  have hbuilds : c.BuildsTogether P m c.LikeTrees (m.build (Builder.bare config)) :=
    Tandem.build_together hc hsteady (hc.agrees_off hoff) m horderly hover P
  have hkeeps : ∀ site : Site, site.Holds c.schema m →
      Keeps (c.Onward site.way site.scope) (m.build (Builder.bare config) site) :=
    fun site hsite => Node.build_stays hsteady.respects m site horderly hsite
  have htogether : c.Together P (fun P => Option.Rel (c.LikeTrees P))
      (owner.ask config ns name m p) (owner.ask config ns name m p) :=
    Tandem.slotContent_together hc hk hloop ⟨hsw, htw⟩ hkeeps hbuilds (Alike.self p)
  have hmeets := htogether s t habreast fun _ _ => trivial
  unfold Act.makes
  revert hmeets
  rcases (owner.ask config ns name m p).runOn s with ⟨_ | x, s'⟩ <;>
    rcases (owner.ask config ns name m p).runOn t with ⟨_ | y, t'⟩ <;> intro hmeets
  · exact congrArg Except.error hmeets
  · exact hmeets.elim
  · exact hmeets.elim
  · obtain ⟨P', -, hxy, -⟩ := hmeets
    cases hxy with
    | none => rfl
    | some hlike => exact congrArg (fun x => Except.ok (some x)) hlike.unscoped_eq

include hoff in
/-- **Which pass touched what** is no matter to what asking a slot comes to. -/
theorem Site.ask_parallel {base base' : Session} (owner : Site) (ns name : String) (m : Node)
    (p : Value) :
    Agree (Parallel base base') Eq (owner.ask config ns name m p) (owner.ask config ns name m p) :=
  (Builder.parallel_parts hoff).slotContent
    (fun site => Node.build_parts (Builder.parallel_parts hoff) m site) owner ns name m.self p

include hoff in
theorem Session.Parallel.makes {base base' : Session} (h : Parallel base base' s t) (p : Value) :
    (owner.ask config ns name m p).makes s = (owner.ask config ns name m p).makes t := by
  have hout := (Site.ask_parallel hoff owner ns name m p s t h).1.eq
  unfold Act.makes
  rw [hout]

include hoff in
theorem Session.Parallel.each {base base' : Session} (ps : List Value)
    (h : Parallel base base' s t) :
    Parallel base base' (Act.each (owner.ask config ns name m) ps s)
      (Act.each (owner.ask config ns name m) ps t) := by
  induction ps generalizing s t with
  | nil => exact h
  | cons p ps ih => exact ih (Site.ask_parallel hoff owner ns name m p s t h).2

/-- Asking a slot whose owner's frame is gone fails, and changes nothing. -/
theorem Site.ask_released (hgone : s.store.frame? owner.scope = none) (p : Value) :
    (owner.ask config ns name m p).runOn s = (.error .released, s) := by
  have hopen : s.handle.store.openSlot owner.scope ns name p = .error .released := by
    unfold Store.openSlot Store.openFrame
    rw [show s.handle.store.frame? owner.scope = none from hgone]
    rfl
  unfold Site.ask Site.slotContent Site.enterSlot
  simp only [bind_assoc]
  rw [runOn_bind, runOn_opening, hopen]

include hn hfree hoff hk in
/-- **Asking a slot** for a value comes to the same after it was asked for others, wherever the
frame of its owner is what it was, or is gone. -/
theorem Session.Grounded.ask_each (hs : s.Grounded n)
    (hplace : ∀ f, s.store.frame? owner.scope = some f → f.path = owner.way.address)
    (ps : List Value) (p : Value) :
    (owner.ask config ns name m p).makes (Act.each (owner.ask config ns name m) ps s) =
      (owner.ask config ns name m p).makes s := by
  have hleads : ((Locus.content n).after owner.way).isSome :=
    Locus.leads_of_append (by rw [hk]; rfl)
  cases hf : s.store.frame? owner.scope with
  | none =>
    have hsame : Act.each (owner.ask config ns name m) ps s = s := by
      refine Act.each_induction (I := fun t => t = s) (fun q t ht => ?_) ps rfl
      rw [ht, Site.ask_released hf]
    rw [hsame]
  | some f =>
    -- the slot is asked in a session in which the frames along the way were entered
    obtain ⟨t, ht, hbuilt, htw, htgone⟩ := hs.settle hfree hleads hf (hplace f hf)
    have hparallel : Parallel s t s t := .start (by rw [ht, Store.ageless_ageless])
    let u := Act.each (owner.ask config ns name m) ps t
    obtain ⟨hu, huw, heven⟩ := Site.ask_each hn hfree hoff hk ps hbuilt htw
    -- and then asked again in one in which no others were
    obtain ⟨g, hg, hgpath⟩ := huw.frame hu
    obtain ⟨v, hv, hvbuilt, hvw, hvgone⟩ := hu.grounded.settle hfree hleads hg hgpath
    have hagain : v.store.ageless = u.store.ageless := by rw [hv, Store.ageless_ageless]
    have hmeet := Site.ask_even hn hfree hoff hk hbuilt hvbuilt htw hvw htgone hvgone
      (heven.trans (.of_ageless hagain)) p
    calc (owner.ask config ns name m p).makes (Act.each (owner.ask config ns name m) ps s)
        = (owner.ask config ns name m p).makes u := (hparallel.each hoff ps).makes hoff p
      _ = (owner.ask config ns name m p).makes v := (Parallel.start hagain.symm).makes hoff p
      _ = (owner.ask config ns name m p).makes t := hmeet.symm
      _ = (owner.ask config ns name m p).makes s := (hparallel.makes hoff p).symm

end Off

end Trellis
