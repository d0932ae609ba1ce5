import Trellis.Proofs.Lexical.Refinement
import Trellis.Proofs.View.Run

/-!
# The first render is lexical

What the first render of a schema comes to is what the schema is drawn as without a store: no
outcome depends on how frames are numbered, addressed or kept.

* `View.first_render_lexical`: all of a render, the scopes of listeners apart.
-/

namespace Trellis

open Schema Session

variable {n : Node}

/-- The session a first pass begins in. -/
theorem Session.First.start {s : Session} (hstore : s.store = Store.new) (hv : s.visits = []) :
    s.begun.First n where
  built := (Built.start hstore hv).beginPass
  entered := by
    intro id f hf hid
    change s.store.beginPass.frame? id = some f at hf
    rw [Store.frame?_beginPass, hstore] at hf
    obtain ⟨f₀, hf₀, -⟩ := Option.map_eq_some_iff.1 hf
    exact absurd (Store.frame?_new hf₀).1 hid

/-- **The first render is lexical.** If no slot of a loaded schema has a slash in its name and its
root is no loop, then the first render without components and expressions comes to what the schema
is drawn as without a store: the same tree up to the scopes of listeners, no tree at all, or the
same fault. -/
theorem View.first_render_lexical {j : Json} {n : Node} (hn : Node.ofJson j = .ok n)
    (hloop : n.self.loop = none) (hnames : n.All Node.Unslashed) {config : Config}
    (hoff : config.expressions = false) (k : Nat) :
    (View.mount n (Builder.trees Registry.empty config) k).render.1.map
        (Option.map Rendered.unscoped) = Lexical.render n := by
  have hfree := Node.ClashFree.of_unslashed hnames
  have hproper := Node.proper_of_ofJson hn
  have hdraws : Draws n [] Store.rootId [] (Site.root.At 0) (Option.map Rendered.unscoped)
      ((Builder.trees Registry.empty config).root n) (Lexical.render n) := by
    unfold Builder.root
    rw [hloop]
    exact Site.place_draws hfree (Node.build_draws hfree hoff n hproper) Site.Lists.root hloop
  have hready : Ready n [] Store.rootId [] (Site.root.At 0)
      (View.mount n (Builder.trees Registry.empty config) k).session.begun :=
    ⟨Session.First.start rfl rfl, .inl ⟨rfl, rfl⟩, .root rfl rfl rfl, nofun⟩
  rw [View.render_outcome]
  exact (hdraws _ hready).1

/-- A definition given in place whose slot shows what it is given. -/
def shownSchema : Json :=
  .object
    [("component", .object
        [("tag", .string "p"), ("slotProps", .object [("s", .object [("v", .string "shown")])])]),
      ("namespace", .string "n"),
      ("scopedSlots", .object
        [("s", .object [("component", .string "b"), (":text", .string "n#s.v")])])]

/-- The schema it loads to. -/
def shownNode : Node :=
  .mk { Directives.plain (.inline (.object
        [("tag", .string "p"), ("slotProps", .object [("s", .object [("v", .string "shown")])])])) with
      ns := some "n" } none
    [("s", .mk { Directives.plain (.named "b") with
      boundText := some (.path ⟨"n", some "s", ["v"]⟩) } none [])]

/-- The tree it is drawn as. -/
def shownTree : Rendered :=
  .mk (.plain "p") [.mk { Element.plain "b" with text := some "shown" } []]

/-- The slot of a definition given in place is drawn with what it is given. -/
theorem View.first_render_lexical_shown :
    Node.ofJson shownSchema = .ok shownNode ∧ shownNode.All Node.Unslashed ∧
      Lexical.render shownNode = .ok (some shownTree) ∧
      (View.mount shownNode (Builder.trees Registry.empty Config.default) 0).render.1.map
        (Option.map Rendered.unscoped) = .ok (some shownTree) := by
  have hload : Node.ofJson shownSchema = .ok shownNode := rfl
  have hdrawn : Lexical.render shownNode = .ok (some shownTree) := rfl
  have hnames : shownNode.All Node.Unslashed := by
    refine ⟨?_, ⟨nofun, trivial⟩, trivial⟩
    intro name hname
    rw [List.mem_singleton.1 hname]
    decide
  exact ⟨hload, hnames, hdrawn,
    (View.first_render_lexical hload rfl hnames rfl 0).trans hdrawn⟩

end Trellis
