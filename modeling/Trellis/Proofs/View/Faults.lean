import Trellis.Proofs.Build.Faults
import Trellis.Proofs.Build.Loops
import Trellis.Proofs.View.Idempotent

/-!
# What can go wrong in rendering a loaded schema

With expressions switched off and no components, a view of a loaded schema fails to render for what
the schema's paths, loops and spreads come to, or because its root is a loop. What loading sees to
is enough for the builder's other checks, and no loop is ignored.

* `Builder.bare_fares`: the renderer of plain trees raises no fault of its own.
* `Builder.Fares.root`: building the root.
* `View.loaded_faults`: after any run of a view.
-/

namespace Trellis

open Schema Session Act

section Rendering

variable {n : Node} {w : Way} {id : ScopeId}

/-- Asking every slot raises what the slots do. -/
theorem Rendered.fillSlots_fares (given : String → Value) : ∀ slots : Slots Rendered,
    (∀ slot ∈ slots, ∀ given, Act.Fares n w id (slot.2 given)) →
      Act.Fares n w id (fillSlots given slots)
  | [], _ => .pure _
  | (slot, build) :: rest, h => by
    rw [fillSlots]
    refine (h _ List.mem_cons_self (given slot)).bind fun _ => ?_
    exact (fillSlots_fares given rest fun slot hs => h slot (List.mem_cons_of_mem _ hs)).bind
      fun _ => .pure _

/-- **The renderer of plain trees** raises no fault of its own. -/
theorem Builder.bare_fares {config : Config} (hoff : config.expressions = false)
    (hfree : n.ClashFree) : (Builder.bare config).Fares n where
  off := hoff
  free := hfree
  create w id c traits slots content hslots := by
    change Act.Fares n w id (Rendered.create (Registry.empty.resolve c) ⟨traits, slots⟩ content)
    cases c with
    | inline definition => exact (Rendered.fillSlots_fares _ slots hslots).bind fun _ => .pure _
    | named name => exact .pure _

/-- **Building the root** of a loaded schema that is no loop. -/
theorem Builder.Fares.root {N C : Type} {b : Builder N C} (hb : b.Fares n)
    (hn : n.All Node.Proper) (hloop : n.self.loop = none) :
    Act.Fares n [] Store.rootId (b.root n) := by
  unfold Builder.root
  rw [hloop]
  simp only [Option.isSome_none, Bool.false_eq_true, if_false]
  exact Site.place_fares hb.free Site.Lists.root hloop fun site hsite =>
    Node.build_fares hb n site hn hsite

end Rendering

/-- **Faults of a loaded schema.** With expressions switched off and no components, after any run a
view of a loaded schema without a slash in the names of its slots renders, or it fails for a name
that is missing, a loop over what is neither a sequence nor an object or a spread of what is neither
an object nor null; with a fault of the schema it fails exactly if the root is a loop. Every other
loop it reaches is built turn by turn: whatever were done with one instead, it is built the same. -/
theorem View.loaded_faults {j : Json} {n : Node} (hn : Node.ofJson j = .ok n)
    (hnames : n.All Node.Unslashed) {config : Config} (hoff : config.expressions = false) (k : Nat)
    (moves : List Move) :
    let v := (View.mount n (Builder.bare config) k).run moves
    (∀ e, v.render.1 = .error e →
        e.OfNames ∨ e = .invalidSchema "the root node cannot carry `for`") ∧
      ((∃ text, v.render.1 = .error (.invalidSchema text)) ↔ n.self.loop.isSome) ∧
      ∀ instead, (Builder.bare config).rootInstead instead n = (Builder.bare config).root n := by
  intro v
  have hproper := Node.proper_of_ofJson hn
  have hfree := Node.ClashFree.of_unslashed hnames
  have hmounted := View.mount_built n (Builder.bare config) k
  have hv : v.Built (Builder.bare config) n :=
    hmounted.run (Builder.bare_confined config) hproper.orderly moves
  refine ⟨?_, ?_, fun instead => Builder.root_instead _ instead hproper.orderly⟩
  all_goals
    rw [hv.render_outcome]
    cases hloop : n.self.loop with
    | some source =>
      have hroot : ((Builder.bare config).root n).runOn v.session.begun =
          (.error (.invalidSchema "the root node cannot carry `for`"), v.session.begun) := by
        unfold Builder.root
        rw [hloop]
        rfl
      rw [hroot]
      first
        | exact fun e he => .inr (Except.error.inj he).symm
        | exact iff_of_true ⟨_, rfl⟩ rfl
    | none =>
      have hready : v.session.Ready n := hmounted.run_ready (fun R _ => Builder.bare_lets R)
        hproper.orderly hfree (Session.Ready.start hfree rfl) moves
      have hfaults := ((Builder.bare_fares hoff hfree).root hproper hloop v.session.begun
        hv.session.beginPass hready.begun (.inl ⟨rfl, rfl⟩)).2
      first
        | exact fun e he => .inl (hfaults e he)
        | exact iff_of_false (fun ⟨_, he⟩ => nomatch hfaults _ he) nofun

/-- A list over what its namespace holds. -/
def loopSchema : Json :=
  .object
    [("component", .string "ul"), ("namespace", .string "n"),
      ("data", .object [("a", .array [.string "a"])]),
      ("children", .array
        [.object
          [("component", .string "li"), ("namespace", .string "m"), (":for", .string "n.a")]])]

/-- The schema it loads to. -/
def loopNode : Node :=
  .mk
    { Directives.plain (.named "ul") with
      ns := some "n"
      data := some [("a", .array [.string "a"])] }
    (some
      [.mk
        { Directives.plain (.named "li") with
          ns := some "m"
          loop := some (.path ⟨"n", none, ["a"]⟩) } none []])
    []

/-- A list that was rendered is overwritten with a text, which is no source of a loop. -/
theorem View.loaded_faults_list :
    let v := (View.mount loopNode (Builder.bare Config.default) 0).run
      [.render, .write 1 ⟨"n", none, ["a"]⟩ (.string "x")]
    Node.ofJson loopSchema = .ok loopNode ∧ v.render.1 = .error (.notIterable "string") ∧
      (∀ e, v.render.1 = .error e →
        e.OfNames ∨ e = .invalidSchema "the root node cannot carry `for`") ∧
      ((∃ text, v.render.1 = .error (.invalidSchema text)) ↔ loopNode.self.loop.isSome) ∧
      ∀ instead, (Builder.bare Config.default).rootInstead instead loopNode =
        (Builder.bare Config.default).root loopNode := by
  have hload : Node.ofJson loopSchema = .ok loopNode := rfl
  have hnames : loopNode.All Node.Unslashed := ⟨nofun, ⟨⟨nofun, trivial⟩, trivial⟩, trivial⟩
  have hoff : Config.default.expressions = false := rfl
  have hall := View.loaded_faults hload hnames hoff 0
    [.render, .write 1 ⟨"n", none, ["a"]⟩ (.string "x")]
  generalize hv : (View.mount loopNode (Builder.bare Config.default) 0).run
    [.render, .write 1 ⟨"n", none, ["a"]⟩ (.string "x")] = v at hall ⊢
  have hfault : (match v.render.1 with
      | .error e => some e
      | .ok _ => none) = some (.notIterable "string") := by
    rw [← hv]
    decide +kernel
  refine ⟨hload, ?_, hall⟩
  revert hfault
  rcases v.render.1 with e | node <;> intro hfault
  · exact congrArg _ (Option.some.inj hfault)
  · cases hfault

end Trellis
