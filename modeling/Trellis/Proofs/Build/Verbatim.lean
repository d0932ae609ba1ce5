import Trellis.Proofs.Rendered.Modest
import Trellis.Proofs.Script.Effects

/-!
# Expressions as they are written

With expressions switched off a literal that holds the text of an expression stands for the same as
the expression. A listener bound to an expression gives that text when it is fired, and nothing
changes.

* `Node.verbatim`: a schema with such literals in place of its expressions.
* `Binding.resolve_verbatim`: both stand for the same.
* `Listener.fire_plain`: firing a listener where there are no functions.
* `Builder.root_listeners`: no function is in the listeners of what is built.
-/

namespace Trellis

open Schema Value Act

/-- The binding, with a literal that holds its text in place of an expression. -/
def Binding.verbatim : Binding → Binding
  | expression raw => literal (.string raw)
  | b => b

/-- The handler, with a literal in place of an expression. -/
def Schema.Handler.verbatim : Handler → Handler
  | binding b => binding b.verbatim
  | callback f => callback f

/-- The schema, with literals in place of its expressions. -/
abbrev Schema.Node.verbatim : Node → Node :=
  rebind Binding.verbatim Handler.verbatim

/-- The listener, with a literal in place of an expression. -/
abbrev Listener.verbatim : Listener → Listener :=
  rehandle Handler.verbatim

/-- **An expression** stands for its text if expressions are switched off. -/
theorem Binding.resolve_verbatim {config : Config} (hoff : config.expressions = false)
    (scope : ScopeId) (b : Binding) : b.verbatim.resolve config scope = b.resolve config scope := by
  cases b with
  | expression raw =>
    simp only [verbatim, resolve, hoff, Bool.false_eq_true, if_false]
  | literal v => rfl
  | path p => rfl

/-! ### Firing -/

/-- The listener is bound, and not to a function. -/
def Listener.Plain (l : Listener) : Prop :=
  l.handler.Plain

theorem Listener.plain_verbatim {l : Listener} (h : l.Plain) : l.verbatim.Plain := by
  obtain ⟨event, handler, scope⟩ := l
  cases handler with
  | callback f => exact h.elim
  | binding b =>
    cases b with
    | expression raw => exact trivial
    | literal v => exact h
    | path p => exact trivial

/-- What is no function is delivered without a call. -/
theorem Listener.deliver_plain (event : String) (b : Binding) (args : List Value) {v : Value}
    (hv : v.Plain) (s : Session) : Tame Value.Plain ((deliver event b args v).runOn s).1 ∧
      ((deliver event b args v).runOn s).2 = s := by
  unfold deliver
  split
  · exact False.elim hv
  · exact ⟨hv, rfl⟩
  · exact ⟨id, rfl⟩
  · exact ⟨id, rfl⟩

section Firing

variable {config : Config} (hoff : config.expressions = false) {s : Session} (hs : s.store.Plain)

include hoff

/-- **A listener bound to an expression** gives its text, and nothing changes. -/
theorem Listener.fire_expression {l : Listener} {raw : String}
    (hl : l.handler = .binding (.expression raw)) (args : List Value) :
    (l.fire config args).runOn s = (.ok (.string raw), s) := by
  unfold fire
  rw [hl]
  simp only [Binding.resolve, hoff, Bool.false_eq_true, if_false]
  rfl

include hs

/-- **Firing a listener** that is not bound to a function changes nothing where there are none. -/
theorem Listener.fire_plain {l : Listener} (hl : l.Plain) (args : List Value) :
    Tame Value.Plain ((l.fire config args).runOn s).1 ∧ ((l.fire config args).runOn s).2 = s := by
  obtain ⟨event, handler, scope⟩ := l
  cases handler with
  | callback f => exact hl.elim
  | binding b =>
    have htame := (Binding.resolve_quiet hoff scope hl s hs).2
    have hsame := b.resolve_runOn hoff (s := s) scope
    unfold fire
    rw [runOn_bind]
    -- the value is no function, since none is in the scopes
    rcases hrun : (b.resolve config scope).runOn s with ⟨_ | v, t⟩
    · rw [hrun] at htame hsame
      exact ⟨htame, hsame⟩
    · rw [hrun] at htame hsame
      cases hsame
      exact deliver_plain event b args htame _

/-- Firing listeners in order. -/
theorem Rendered.fireAll_plain (args : List Value) {ls : List Listener} (h : ∀ l ∈ ls, l.Plain) :
    ∀ {v : Value}, v.Plain → Tame Value.Plain ((fireAll config args v ls).runOn s).1 ∧
      ((fireAll config args v ls).runOn s).2 = s := by
  induction ls with
  | nil => exact fun hv => ⟨hv, rfl⟩
  | cons l ls ih =>
    intro v _
    obtain ⟨hl, hrest⟩ := List.forall_mem_cons.1 h
    obtain ⟨htame, hsame⟩ := l.fire_plain hoff hs hl args
    rw [fireAll, runOn_bind]
    rcases hrun : (l.fire config args).runOn s with ⟨_ | w, t⟩
    · rw [hrun] at htame hsame
      exact ⟨htame, hsame⟩
    · rw [hrun] at htame hsame
      cases hsame
      exact ih hrest htame

end Firing

/-! ### Listeners of what is built -/

theorem Members.mapValues_eq_self {α : Type} {f : α → α} {m : Members α}
    (h : ∀ e ∈ m, f e.2 = e.2) : m.mapValues f = m := by
  induction m with
  | nil => rfl
  | cons e m ih =>
    rw [List.forall_mem_cons] at h
    rw [mapValues, List.map_cons, h.1]
    exact congrArg (e :: ·) (ih h.2)

open Classical in
/-- The handler if it is a binding without functions, and null otherwise. -/
noncomputable def Schema.Handler.purged (h : Handler) : Handler :=
  if h.Plain then h else .binding (.literal .null)

theorem Schema.Handler.purged_plain (h : Handler) : h.purged.Plain := by
  unfold purged
  split
  · assumption
  · trivial

theorem Schema.Handler.Plain.purged_eq {h : Handler} (hh : h.Plain) : h.purged = h :=
  if_pos hh

theorem Schema.Entries.rebind_id (e : Entries) : e.rebind id = e := by
  obtain ⟨named, spread⟩ := e
  rw [rebind, Members.mapValues_eq_self fun _ _ => rfl, Option.map_id]
  rfl

theorem Schema.Toggle.rebind_id (t : Toggle) : t.rebind id = t := by
  rw [rebind, Option.map_id]
  rfl

theorem Schema.Directives.Plain.rebind_purged {d : Directives} (h : d.Plain) :
    d.rebind id Handler.purged = d := by
  unfold Directives.rebind
  simp only [Entries.rebind_id, Toggle.rebind_id, Option.map_id, id_eq,
    Members.mapValues_eq_self fun e he => (h.on e he).purged_eq,
    Members.mapValues_eq_self fun e he => (h.nativeOn e he).purged_eq]

namespace Schema.Node

mutual

/-- Handlers that hold no function stay when others are taken out. -/
theorem rebind_purged : ∀ {n : Node}, n.All Node.Plain → n.rebind id Handler.purged = n
  | mk d kids contents, h => by
    obtain ⟨hd, hkids, hcontents⟩ := all_iff.1 h
    have hkids' : kids.map (rebindAll id Handler.purged) = kids := by
      cases kids with
      | none => rfl
      | some kids => exact congrArg some (rebindAll_purged hkids)
    have hd' : d.rebind id Handler.purged = d := Directives.Plain.rebind_purged hd
    rw [rebind_mk, hd', hkids']
    exact congrArg (mk d kids) (rebindContents_purged hcontents)

theorem rebindAll_purged : ∀ {kids : List Node}, AllKids Node.Plain kids →
    rebindAll id Handler.purged kids = kids
  | [], _ => rfl
  | _ :: _, h => congrArg₂ List.cons (rebind_purged h.1) (rebindAll_purged h.2)

theorem rebindContents_purged : ∀ {contents : List (String × Node)},
    AllContents Node.Plain contents → rebindContents id Handler.purged contents = contents
  | [], _ => rfl
  | (name, _) :: _, h =>
    congrArg₂ (fun n rest => (name, n) :: rest) (rebind_purged h.1) (rebindContents_purged h.2)

end

end Schema.Node

/-- **What is built** of a schema without functions has no listener bound to a function. -/
theorem Builder.root_listeners {known : Registry Rendered.Component} {config : Config}
    (hknown : ∀ name make, known name = some make → make.Blind) {n : Node}
    (hn : n.All Node.Plain) {s : Session} {tree : Rendered}
    (h : (((trees known config).root n).runOn s).1 = .ok (some tree)) :
    ∀ l ∈ tree.listeners, l.Plain := by
  -- the schema is its own image when other handlers are taken out, and so is what is built of it
  have hid : ∀ scope (b : Binding), (id b).resolve config scope = b.resolve config scope :=
    fun _ _ => rfl
  have hsame := Builder.root_rebind hid (ψ := Handler.purged) hknown n
  rw [Node.rebind_purged hn] at hsame
  rw [hsame, runOn_map] at h
  obtain ⟨built, -, hbuilt⟩ := Except.map_eq_ok.1 h
  obtain ⟨tree', -, rfl⟩ := Option.map_eq_some_iff.1 hbuilt
  intro l hl
  rw [Rendered.listeners_mapListeners] at hl
  obtain ⟨l', -, rfl⟩ := List.mem_map.1 hl
  exact l'.handler.purged_plain

end Trellis
