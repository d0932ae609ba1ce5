import Trellis.Proofs.Scope.Buckets
import Trellis.Proofs.View.Notices
import Trellis.Rendered.Samples

/-!
# What the slots of a view hold

All that reaches the scopes of a view goes through its handle, and what is evaluated does no more than
assign to namespaces. So the frame of a slot holds what the slot was given last; no expression and no
function, from whatever scope it is evaluated, changes that.

* `Session.store_sameBuckets`: what evaluating spares.
* `View.buckets_kept`: runs of a view.
-/

namespace Trellis

open Schema Session Act

/-- **Evaluating** spares the frames of slots. -/
instance : AllowsEvaluation fun s t : Session => s.store.SameBuckets t.store where
  trans _ _ _ h h' := h.trans h'
  inner s t hh _ := by
    have hstore : s.store = t.store := congrArg Handle.store hh
    rw [hstore]
    exact .refl _
  write s scope ns keys v handle hw := by
    have hperform : s.handle.perform (.ask (.write scope ns keys v)) = handle :=
      Handle.perform_of_ok hw
    have hassigns : ∀ o, (Handle.Operation.ask (.write scope ns keys v)).inner? = some o →
        o.assigns := by
      intro o ho
      obtain rfl : Store.Operation.write scope ns keys v = o := Option.some.inj ho
      rfl
    have hsame := s.handle.sameBuckets_perform hassigns
    rw [hperform] at hsame
    exact hsame

namespace View

variable {N C : Type}

/-- **A slot's bucket is its component's.** A view is mounted on a handle of which anything was asked
before, and a host does whatever it likes to it. Then operations were asked of the handle, for each
deed those that may stand for it; and as long as a frame is the frame of a slot, it is at the slot's
address in its owner's frame and its data is what the last of these operations that opened the slot
from there gave it. No assignment to a namespace that is asked of a handle changes the frame of a slot,
nor makes one, and no script that is evaluated, function that is called or listener that is fired. A
write at a path into a slot is refused as invalid, and the handle stays as it was. -/
theorem buckets_kept (v : View N C) (hb : v.builder.Handling) (before : List Handle.Operation)
    (hv : v.session.handle = Handle.new.run before) (deeds : List Deed) :
    (∃ asked, List.Forall₂ Deed.Asks deeds asked ∧
      (v.afterAll deeds).session.handle = Handle.new.run (before ++ asked.flatten) ∧
      ∀ id f ns slot, (v.afterAll deeds).session.store.frame? id = some f →
        f.kind = .slot ns slot →
          ∃ path, f.path = path ++ "/" ++ (Step.slot ns slot).segment ∧
            Store.new.lastGiven? path ns slot
              ((before ++ asked.flatten).filterMap Handle.Operation.inner?) = some f.data) ∧
    (∀ (h : Handle) (op : Handle.Operation), (∀ o, op.inner? = some o → o.assigns) →
      h.store.SameBuckets (h.perform op).store) ∧
    (∀ (script : Script) (scope : ScopeId) (s : Session),
      s.store.SameBuckets ((script.run scope).runOn s).2.store) ∧
    (∀ (f : Callable) (args : List Value) (s : Session),
      s.store.SameBuckets ((f.call args).runOn s).2.store) ∧
    (∀ (config : Config) (l : Listener) (args : List Value) (s : Session),
      s.store.SameBuckets ((l.fire config args).runOn s).2.store) ∧
    (∀ (h : Handle) (scope : ScopeId) (path : Path) (x : Value), path.slot.isSome →
      h.writePath scope path x = .error (.invalidPath path.text) ∧
        h.perform (.writePath scope path x) = h) := by
  obtain ⟨asked, hasked, hrun⟩ := afterAll_asks deeds v hb
  rw [hv, ← Handle.run_append] at hrun
  refine ⟨⟨asked, hasked, hrun, ?_⟩, fun h op hop => h.sameBuckets_perform hop, ?_, ?_, ?_, ?_⟩
  · intro id f ns slot hf hk
    have hgiven := Handle.run_given (before ++ asked.flatten)
    rw [← hrun] at hgiven
    exact hgiven id f ns slot hf hk
  · intro script scope s
    exact script.run_keeps (R := fun s t : Session => s.store.SameBuckets t.store) scope s
  · intro f args s
    exact f.call_keeps (R := fun s t : Session => s.store.SameBuckets t.store) args s
  · intro config l args s
    exact l.fire_keeps (R := fun s t : Session => s.store.SameBuckets t.store) config args s
  · intro h scope path x hslot
    have hrefused : h.writePath scope path x = .error (.invalidPath path.text) := if_pos hslot
    exact ⟨hrefused, Handle.perform_of_error hrefused⟩

/-- A pair of texts, each of which is shown by the slot. -/
def pairNode : Node :=
  .mk { Directives.plain (.named "pair") with ns := some "n", data := some [("a", .null)] } none
    [("default",
      .mk { Directives.plain (.named "b") with
        boundText := some (.path ⟨"n", some "default", ["scopedData"]⟩) } none [])]

/-- It is shown; then an expression is evaluated in the slot's frame, and a write into the slot is
tried. -/
def pairDeeds : List Deed :=
  [.render, .evaluate ⟨"n.a = 1", .assign .assign (.member (.name "n") (.static "a"))
      (.literal (.bool true)), ["n"]⟩ 2,
    .ask (.writePath 2 ⟨"n", some "default", ["scopedData"]⟩ .null)]

/-- What the slot holds in the end is the text it was given last, the second. -/
theorem buckets_kept_pair :
    let mounted := View.mount pairNode (Builder.trees Rendered.samples ⟨true⟩) 0
    mounted.builder.Handling ∧ mounted.session.handle = Handle.new.run [.subscribe] ∧
      ∃ f, (mounted.afterAll pairDeeds).session.store.frame? 2 = some f ∧
        f.kind = .slot "n" "default" ∧
        (f.data.member? "scopedData").map Value.text = some "B" ∧
        ∃ asked path, List.Forall₂ Deed.Asks pairDeeds asked ∧
          Store.new.lastGiven? path "n" "default"
            (([Handle.Operation.subscribe] ++ asked.flatten).filterMap
              Handle.Operation.inner?) = some f.data := by
  intro mounted
  have hb : mounted.builder.Handling := (Rendered.honest Rendered.samples_honest ⟨true⟩).handling
  have hshown : ((mounted.afterAll pairDeeds).session.store.frame? 2).map
      (fun f => (f.kind, (f.data.member? "scopedData").map Value.text)) =
        some (.slot "n" "default", some "B") := by
    decide +kernel
  obtain ⟨f, hf, hpair⟩ := Option.map_eq_some_iff.1 hshown
  have hkind : f.kind = .slot "n" "default" := congrArg Prod.fst hpair
  have htext : (f.data.member? "scopedData").map Value.text = some "B" := congrArg Prod.snd hpair
  obtain ⟨⟨asked, hasked, -, hheld⟩, -⟩ := buckets_kept mounted hb [.subscribe] rfl pairDeeds
  obtain ⟨path, -, hlast⟩ := hheld 2 f "n" "default" hf hkind
  exact ⟨hb, rfl, f, hf, hkind, htext, asked, path, hasked, hlast⟩

end View

end Trellis
