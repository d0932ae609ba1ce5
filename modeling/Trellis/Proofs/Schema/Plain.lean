import Trellis.Proofs.Schema.Loading
import Trellis.Proofs.Value.Plain

/-!
# Schemas without functions

A document holds no function, so neither does a schema that was loaded from one: its literals are
plain, and its handlers are bindings.

* `Directives.Plain`, `Node.Plain`: no function is anywhere in a node.
* `Directives.Over`, `Node.Over`: the literals a node is built from are of some kind.
* `Node.plain_of_ofJson`: every node of a loaded schema is plain.
-/

namespace Trellis

/-- No function is in the binding. -/
def Binding.Plain : Binding → Prop
  | literal v => v.Plain
  | _ => True

/-- A literal in the binding is such that `Q` holds. -/
def Binding.Over (Q : Value → Prop) : Binding → Prop
  | literal v => Q v
  | _ => True

theorem Binding.Plain.over {Q : Value → Prop} (hQ : ∀ v : Value, v.Plain → Q v) {b : Binding}
    (h : b.Plain) : b.Over Q := by
  cases b with
  | literal v => exact hQ v h
  | path p => trivial
  | expression raw => trivial

theorem Binding.Over.of_forall {Q : Value → Prop} (hQ : ∀ v, Q v) (b : Binding) : b.Over Q := by
  cases b with
  | literal v => exact hQ v
  | path p => trivial
  | expression raw => trivial

theorem Binding.ofJson_plain {j : Json} {b : Binding} (h : ofJson j = .ok b) : b.Plain := by
  unfold ofJson at h
  split at h
  · split at h
    · cases h
      trivial
    · obtain ⟨p, -, rfl⟩ := Except.map_eq_ok.1 h
      trivial
  · cases h
    exact Value.ofJson_plain _

namespace Schema

/-- The handler is a binding without functions. -/
def Handler.Plain : Handler → Prop
  | callback _ => False
  | binding b => b.Plain

/-- No function is in the bindings. -/
structure Entries.Plain (e : Entries) : Prop where
  named : ∀ m ∈ e.named, m.2.Plain
  spread : ∀ b ∈ e.spread, b.Plain

/-- No function is in what a node says about itself. -/
structure Directives.Plain (d : Directives) : Prop where
  inline : ∀ definition, d.component = .inline definition → definition.Plain
  data : ∀ members ∈ d.data, Value.PlainMembers members
  condition : ∀ b ∈ d.condition.bound, b.Plain
  visible : ∀ b ∈ d.visible.bound, b.Plain
  boundClasses : ∀ b ∈ d.boundClasses, b.Plain
  style : d.style.Plain
  attrs : d.attrs.Plain
  props : d.props.Plain
  domProps : d.domProps.Plain
  boundText : ∀ b ∈ d.boundText, b.Plain
  html : ∀ b ∈ d.html, b.Plain
  loop : ∀ b ∈ d.loop, b.Plain
  key : ∀ b ∈ d.key, b.Plain
  on : ∀ m ∈ d.on, m.2.Plain
  nativeOn : ∀ m ∈ d.nativeOn, m.2.Plain

/-- No function is in what the node says about itself. -/
def Node.Plain (n : Node) : Prop := n.self.Plain

/-! ### What literals are -/

/-- The literals in the bindings are such that `Q` holds. -/
structure Entries.Over (Q : Value → Prop) (e : Entries) : Prop where
  named : ∀ m ∈ e.named, m.2.Over Q
  spread : ∀ b ∈ e.spread, b.Over Q

/-- The literals a node is built from, its listeners apart, are such that `Q` holds. -/
structure Directives.Over (Q : Value → Prop) (d : Directives) : Prop where
  inline : ∀ definition, d.component = .inline definition → Q definition
  condition : ∀ b ∈ d.condition.bound, b.Over Q
  visible : ∀ b ∈ d.visible.bound, b.Over Q
  boundClasses : ∀ b ∈ d.boundClasses, b.Over Q
  style : d.style.Over Q
  attrs : d.attrs.Over Q
  props : d.props.Over Q
  domProps : d.domProps.Over Q
  boundText : ∀ b ∈ d.boundText, b.Over Q
  html : ∀ b ∈ d.html, b.Over Q
  loop : ∀ b ∈ d.loop, b.Over Q
  key : ∀ b ∈ d.key, b.Over Q

/-- The literals of the node itself are such that `Q` holds. -/
def Node.Over (Q : Value → Prop) (n : Node) : Prop := n.self.Over Q

section Over

variable {Q : Value → Prop}

theorem Directives.Over.of_plain (hQ : ∀ v : Value, v.Plain → Q v) {d : Directives} (h : d.Plain) :
    d.Over Q where
  inline definition hc := hQ _ (h.inline definition hc)
  condition b hb := (h.condition b hb).over hQ
  visible b hb := (h.visible b hb).over hQ
  boundClasses b hb := (h.boundClasses b hb).over hQ
  style := ⟨fun m hm => (h.style.named m hm).over hQ, fun b hb => (h.style.spread b hb).over hQ⟩
  attrs := ⟨fun m hm => (h.attrs.named m hm).over hQ, fun b hb => (h.attrs.spread b hb).over hQ⟩
  props := ⟨fun m hm => (h.props.named m hm).over hQ, fun b hb => (h.props.spread b hb).over hQ⟩
  domProps := ⟨fun m hm => (h.domProps.named m hm).over hQ,
    fun b hb => (h.domProps.spread b hb).over hQ⟩
  boundText b hb := (h.boundText b hb).over hQ
  html b hb := (h.html b hb).over hQ
  loop b hb := (h.loop b hb).over hQ
  key b hb := (h.key b hb).over hQ

/-- What holds of every value holds of every literal. -/
theorem Directives.Over.of_forall (hQ : ∀ v, Q v) (d : Directives) : d.Over Q where
  inline definition _ := hQ definition
  condition b _ := .of_forall hQ b
  visible b _ := .of_forall hQ b
  boundClasses b _ := .of_forall hQ b
  style := ⟨fun m _ => .of_forall hQ m.2, fun b _ => .of_forall hQ b⟩
  attrs := ⟨fun m _ => .of_forall hQ m.2, fun b _ => .of_forall hQ b⟩
  props := ⟨fun m _ => .of_forall hQ m.2, fun b _ => .of_forall hQ b⟩
  domProps := ⟨fun m _ => .of_forall hQ m.2, fun b _ => .of_forall hQ b⟩
  boundText b _ := .of_forall hQ b
  html b _ := .of_forall hQ b
  loop b _ := .of_forall hQ b
  key b _ := .of_forall hQ b

end Over

/-! ### Loading -/

theorem loadEntry_plain {key : String} {value : Json} {e : String × Binding}
    (h : loadEntry key value = .ok e) : e.2.Plain := by
  unfold loadEntry at h
  split at h
  · obtain ⟨b, hb, rfl⟩ := Except.map_eq_ok.1 h
    exact Binding.ofJson_plain hb
  · cases h
    exact Value.ofJson_plain value

theorem loadEntries_plain {key : String} {value : Json} {entries : Members Binding}
    (h : loadEntries key value = .ok entries) : ∀ e ∈ entries, e.2.Plain := by
  obtain ⟨members, -, h⟩ := Except.bind_eq_ok.1 h
  obtain ⟨loaded, hloaded, h⟩ := Except.bind_eq_ok.1 h
  cases h
  have hall : ∀ (ms : List (String × Json)) (es : List (String × Binding)),
      ms.mapM (fun m => loadEntry m.1 m.2) = .ok es → ∀ e ∈ es, e.2.Plain := by
    intro ms
    induction ms with
    | nil =>
      intro es hes
      cases hes
      exact nofun
    | cons m ms ih =>
      intro es hes
      rw [List.mapM_cons] at hes
      obtain ⟨e, he, hes⟩ := Except.bind_eq_ok.1 hes
      obtain ⟨rest, hrest, hes⟩ := Except.bind_eq_ok.1 hes
      cases hes
      exact List.forall_mem_cons.2 ⟨loadEntry_plain he, ih rest hrest⟩
  exact Members.forall_mem_ofList (hall members loaded hloaded)

theorem loadHandlers_plain {key : String} {value : Json} {handlers : Members Handler}
    (h : loadHandlers key value = .ok handlers) : ∀ e ∈ handlers, e.2.Plain := by
  obtain ⟨entries, hentries, h⟩ := Except.bind_eq_ok.1 h
  cases h
  intro e he
  obtain ⟨m, hm, rfl⟩ := List.mem_map.1 he
  exact loadEntries_plain hentries m hm

theorem loadComponent_plain {members : List (String × Json)} {c : Component}
    (h : loadComponent members = .ok c) {definition : Value} (hc : c = .inline definition) :
    definition.Plain := by
  subst hc
  unfold loadComponent at h
  split at h
  all_goals cases h
  exact Value.ofJson_plain _

/-- A component and nothing else. -/
theorem Directives.plain_plain {c : Component}
    (hc : ∀ definition, c = .inline definition → definition.Plain) :
    (Directives.plain c).Plain where
  inline := hc
  data := nofun
  condition := nofun
  visible := nofun
  boundClasses := nofun
  style := ⟨nofun, nofun⟩
  attrs := ⟨nofun, nofun⟩
  props := ⟨nofun, nofun⟩
  domProps := ⟨nofun, nofun⟩
  boundText := nofun
  html := nofun
  loop := nofun
  key := nofun
  on := nofun
  nativeOn := nofun

theorem Directives.Plain.loadStatic {d d' : Directives} (hd : d.Plain) {key : String} {value : Json}
    (h : d.loadStatic key value = .ok d') : d'.Plain := by
  unfold Directives.loadStatic at h
  -- one case for each key; those that load no binding are left to the end
  split at h
  case h_1 =>
    obtain ⟨_, -, h⟩ := Except.bind_eq_ok.1 h
    cases h
    exact { hd with }
  case h_2 =>
    obtain ⟨members, -, h⟩ := Except.bind_eq_ok.1 h
    cases h
    exact { hd with data := fun _ hm => Option.some.inj hm ▸ Value.ofJsonMembers_plain members }
  case h_6 =>
    obtain ⟨named, hnamed, h⟩ := Except.bind_eq_ok.1 h
    cases h
    exact { hd with style := { hd.style with named := loadEntries_plain hnamed } }
  case h_7 =>
    obtain ⟨named, hnamed, h⟩ := Except.bind_eq_ok.1 h
    cases h
    exact { hd with attrs := { hd.attrs with named := loadEntries_plain hnamed } }
  case h_8 =>
    obtain ⟨named, hnamed, h⟩ := Except.bind_eq_ok.1 h
    cases h
    exact { hd with props := { hd.props with named := loadEntries_plain hnamed } }
  case h_9 =>
    obtain ⟨named, hnamed, h⟩ := Except.bind_eq_ok.1 h
    cases h
    exact { hd with domProps := { hd.domProps with named := loadEntries_plain hnamed } }
  case h_11 =>
    split at h
    · cases h
      exact hd
    · cases h
      exact { hd with html := fun _ hb => Option.some.inj hb ▸ trivial }
  case h_12 =>
    cases h
    exact { hd with loop := fun _ hb => Option.some.inj hb ▸ Value.ofJson_plain value }
  case h_13 =>
    cases h
    exact { hd with key := fun _ hb => Option.some.inj hb ▸ Value.ofJson_plain value }
  case h_14 =>
    obtain ⟨on, hon, h⟩ := Except.bind_eq_ok.1 h
    cases h
    exact { hd with on := loadHandlers_plain hon }
  case h_15 =>
    obtain ⟨on, hon, h⟩ := Except.bind_eq_ok.1 h
    cases h
    exact { hd with nativeOn := loadHandlers_plain hon }
  case h_16 =>
    obtain ⟨_, -, h⟩ := Except.bind_eq_ok.1 h
    cases h
    exact { hd with }
  case h_17 =>
    obtain ⟨_, -, h⟩ := Except.bind_eq_ok.1 h
    cases h
    exact { hd with }
  -- what is left holds no binding
  all_goals
    cases h
    exact { hd with }

theorem Directives.Plain.loadBound {d d' : Directives} (hd : d.Plain) {key : String} {value : Json}
    (h : d.loadBound key value = .ok d') : d'.Plain := by
  unfold Directives.loadBound at h
  simp only at h
  split at h
  case h_12 =>
    split at h
    · cases h
    · cases h
      exact hd
  all_goals
    obtain ⟨b, hb, h⟩ := Except.bind_eq_ok.1 h
    cases h
    have hnew : ∀ b' ∈ some b, b'.Plain := fun _ h => Option.some.inj h ▸ Binding.ofJson_plain hb
  case h_1 => exact { hd with condition := hnew }
  case h_2 => exact { hd with visible := hnew }
  case h_3 => exact { hd with boundClasses := hnew }
  case h_4 => exact { hd with style := { hd.style with spread := hnew } }
  case h_5 => exact { hd with attrs := { hd.attrs with spread := hnew } }
  case h_6 => exact { hd with props := { hd.props with spread := hnew } }
  case h_7 => exact { hd with domProps := { hd.domProps with spread := hnew } }
  case h_8 => exact { hd with boundText := hnew }
  case h_9 => exact { hd with html := hnew }
  case h_10 => exact { hd with loop := hnew }
  case h_11 => exact { hd with key := hnew }

namespace Node

/-- Every step of loading keeps a node plain. -/
theorem loadingKeeps_plain : LoadingKeeps Plain where
  component _ _ h := Directives.plain_plain fun _ hc => loadComponent_plain h hc
  directive n key value n' hn h := by
    obtain ⟨d, kids, contents⟩ := n
    unfold loadDirective at h
    simp only at h
    split at h
    all_goals
      obtain ⟨d', hd', h⟩ := Except.bind_eq_ok.1 h
      cases h
    · exact Directives.Plain.loadBound hn hd'
    · exact Directives.Plain.loadStatic hn hd'
  children n kids hn := by obtain ⟨d, _, contents⟩ := n; exact hn
  slots n contents hn := by obtain ⟨d, _, _⟩ := n; exact hn

/-- **Every node of a loaded schema** is plain. -/
theorem plain_of_ofJson {j : Json} {n : Node} (h : ofJson j = .ok n) : n.All Plain := by
  obtain ⟨hload, -⟩ := ofJson_eq_ok.1 h
  exact load_all loadingKeeps_plain hload

end Node

end Schema

end Trellis
