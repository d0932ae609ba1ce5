import Trellis.Build
import Trellis.Rendered

/-!
# Exchanging listeners

Making a tree looks into no listener: with other listeners in what a node carries the tree comes out
the same, with those listeners in their places.

* `Traits.mapListeners`, `Rendered.mapListeners`, `Content.map`: other listeners, other nodes.
* `Rendered.mapListeners_element`: elements.
-/

namespace Trellis

/-- The builder of plain trees that may use some components. -/
def Builder.trees (known : Registry Rendered.Component) (config : Config) :
    Builder Rendered Rendered.Component :=
  ⟨Rendered.renderer, known, config⟩

/-- Content with other nodes. -/
def Content.map {N M : Type} (f : N → M) : Content N → Content M
  | .none => .none
  | .text s => .text s
  | .markup s => .markup s
  | .nodes ns => .nodes (ns.map f)

/-- Contents of slots that build other nodes. -/
def Slots.map {N M : Type} (f : N → M) (slots : Slots N) : Slots M :=
  Members.mapValues (fun build given => Option.map f <$> build given) slots

/-- Content of a node's own holds no nodes. -/
theorem Schema.Directives.map_ownContent {m : Type → Type} [Monad m] [LawfulMonad m]
    {N M : Type} (f : N → M) (value : Binding → m Value) (d : Schema.Directives) :
    Option.map (Content.map f) <$> d.ownContent value = d.ownContent value := by
  unfold ownContent
  split
  all_goals simp [Content.map]

namespace Members

variable {α β : Type}

theorem get?_mapValues (f : α → β) (m : Members α) (name : String) :
    (m.mapValues f).get? name = (m.get? name).map f := by
  induction m with
  | nil => rfl
  | cons e m ih =>
    obtain ⟨n, a⟩ := e
    rw [get?_cons, mapValues, List.map_cons, get?_cons]
    split
    · rfl
    · exact ih

theorem mapValues_assign (f : α → β) (m : Members α) (name : String) (a : α) :
    (m.assign name a).mapValues f = (m.mapValues f).assign name (f a) := by
  induction m with
  | nil => rfl
  | cons e m ih =>
    obtain ⟨n, b⟩ := e
    rw [assign_cons, mapValues, mapValues, List.map_cons, assign_cons]
    split
    · rfl
    · exact congrArg _ ih

end Members

/-- What a node carries, with other listeners. -/
def Traits.mapListeners (φ : Listener → Listener) (t : Traits) : Traits :=
  { t with on := t.on.mapValues φ, nativeOn := t.nativeOn.mapValues φ }

/-- The element with other listeners. -/
def Element.mapListeners (φ : Listener → Listener) (e : Element) : Element :=
  { e with listeners := e.listeners.mapValues (List.map φ) }

namespace Element

variable {φ : Listener → Listener}

theorem mapListeners_listen (e : Element) (event : String) (l : Listener) :
    (e.listen event l).mapListeners φ = (e.mapListeners φ).listen event (φ l) := by
  have hknown : ((Members.get? e.listeners event).getD []).map φ =
      (Members.get? (e.mapListeners φ).listeners event).getD [] := by
    rw [mapListeners, Members.get?_mapValues]
    cases Members.get? e.listeners event <;> rfl
  unfold listen
  rw [← hknown]
  simp only [mapListeners, Members.mapValues_assign, List.map_append, List.map_cons, List.map_nil]

theorem mapListeners_listenAll (ls : Members Listener) (e : Element) :
    (e.listenAll ls).mapListeners φ = (e.mapListeners φ).listenAll (ls.mapValues φ) := by
  induction ls generalizing e with
  | nil => rfl
  | cons l ls ih => exact (ih _).trans (by rw [mapListeners_listen]; rfl)

theorem mapListeners_ofTraits (tag : String) (t : Traits) :
    (ofTraits tag t).mapListeners φ = ofTraits tag (t.mapListeners φ) := by
  unfold ofTraits
  rw [mapListeners_listenAll, mapListeners_listenAll]
  rfl

theorem mapListeners_reflect (e : Element) :
    e.reflect.mapListeners φ = (e.mapListeners φ).reflect := by
  have hprops : (e.mapListeners φ).domProps = e.domProps := rfl
  unfold reflect
  rw [hprops]
  split <;> rfl

end Element

namespace Rendered

mutual

/-- The tree with other listeners. -/
def mapListeners (φ : Listener → Listener) : Rendered → Rendered
  | mk e kids => mk (e.mapListeners φ) (mapAll φ kids)

/-- Trees with other listeners. -/
def mapAll (φ : Listener → Listener) : List Rendered → List Rendered
  | [] => []
  | n :: rest => mapListeners φ n :: mapAll φ rest

end

variable {φ : Listener → Listener}

theorem mapAll_eq (ns : List Rendered) : mapAll φ ns = ns.map (mapListeners φ) := by
  induction ns with
  | nil => rfl
  | cons n ns ih => rw [mapAll, List.map_cons, ih]

/-- **Making an element** looks into no listener. -/
theorem mapListeners_element (tag : String) (t : Traits) (content : Content Rendered) :
    (element tag t content).mapListeners φ =
      element tag (t.mapListeners φ) (content.map (mapListeners φ)) := by
  unfold element
  rw [← Element.mapListeners_ofTraits]
  cases content with
  | none => exact congrArg (mk · []) (Element.mapListeners_reflect _)
  | text s => rfl
  | markup s => rfl
  | nodes ns => exact congrArg (mk _) (mapAll_eq ns)

theorem mapListeners_listenAll (ls : Members Listener) (n : Rendered) :
    (n.listenAll ls).mapListeners φ = (n.mapListeners φ).listenAll (ls.mapValues φ) := by
  obtain ⟨e, kids⟩ := n
  exact congrArg (mk · _) (Element.mapListeners_listenAll ls e)

mutual

/-- The listeners of a tree, those of its root first. -/
def listeners : Rendered → List Listener
  | mk e kids => e.listeners.flatMap Prod.snd ++ allListeners kids

/-- The listeners of trees. -/
def allListeners : List Rendered → List Listener
  | [] => []
  | n :: rest => listeners n ++ allListeners rest

end

mutual

theorem listeners_mapListeners : ∀ n : Rendered, (n.mapListeners φ).listeners = n.listeners.map φ
  | mk e kids => by
    have hown : (e.mapListeners φ).listeners.flatMap Prod.snd =
        (e.listeners.flatMap Prod.snd).map φ := by
      rw [Element.mapListeners, Members.mapValues, List.flatMap_map, List.map_flatMap]
    rw [mapListeners, listeners, listeners, List.map_append, hown, allListeners_mapAll kids]

theorem allListeners_mapAll : ∀ ns : List Rendered,
    allListeners (mapAll φ ns) = (allListeners ns).map φ
  | [] => rfl
  | n :: rest => by
    rw [mapAll, allListeners, allListeners, List.map_append, listeners_mapListeners n,
      allListeners_mapAll rest]

end

mutual

/-- **A tree as a document** does not show its listeners. -/
theorem toJson_mapListeners : ∀ n : Rendered, (n.mapListeners φ).toJson = n.toJson
  | mk e kids => by
    have hevents : (e.mapListeners φ).events = e.events := by
      unfold Element.events Members.names Element.mapListeners Members.mapValues
      rw [List.map_map]
      rfl
    rw [mapListeners, toJson, toJson, jsonTrees_mapAll kids]
    unfold elementMembers
    rw [hevents]
    rfl

theorem jsonTrees_mapAll : ∀ ns : List Rendered, jsonTrees (mapAll φ ns) = jsonTrees ns
  | [] => rfl
  | n :: rest => by rw [mapAll, jsonTrees, jsonTrees, toJson_mapListeners n, jsonTrees_mapAll rest]

end

theorem map_appended (slotted : List Rendered) (content : Content Rendered) :
    (appended slotted content).map (mapListeners φ) =
      appended (slotted.map (mapListeners φ)) (content.map (mapListeners φ)) := by
  cases content with
  | nodes kids => exact congrArg Content.nodes List.map_append
  | none | text _ | markup _ =>
    cases slotted <;> rfl

end Rendered

end Trellis
