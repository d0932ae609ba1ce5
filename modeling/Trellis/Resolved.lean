import Trellis.Renderer

/-!
# Resolved directives

What the directives of a node come to, given what its bindings stand for. Bindings are asked in the
order in which they are written here, and the first fault ends it.

* `Schema.Directives.present`: whether the node is there, as far as that is bound.
* `Schema.Directives.traits`: what it carries; later mentions win over earlier ones.
* `Schema.Directives.content`: its content, which it says itself or its children come to.
-/

namespace Trellis.Schema

variable {m : Type → Type} [Monad m] [MonadExcept Fault m] (value : Binding → m Value)

/-- The values of named bindings, assigned in order. -/
def assignAll (target : Members Value) : Members Binding → m (Members Value)
  | [] => return target
  | (name, binding) :: rest => do
    let v ← value binding
    assignAll (Members.assign target name v) rest

/-- The values of entries: the named ones, then the members of what is spread over them. -/
def Entries.resolve (field : String) (e : Entries) : m (Members Value) := do
  let members ← assignAll value [] e.named
  match e.spread with
  | .none => return members
  | .some binding =>
    match ← value binding with
    | .object more => return Members.extend members more
    | .null => return members
    | v => throw (.wrongType ("`:" ++ field ++ "` must resolve to an object, found " ++ v.kind))

/-- Whether a node is shown. One hidden for good does not ask further. -/
def Toggle.shown (t : Toggle) : m Bool :=
  match t.literal.getD true, t.bound with
  | false, _ => return false
  | true, none => return true
  | true, some binding => do
    return (← value binding).truthy

/-- The style of a node that is not shown. -/
def hidden (style : Members Value) : Members Value :=
  Members.assign (Members.erase style "display") "display" (.string "none")

namespace Directives

/-- The classes of a node: the static ones, then the bound ones. -/
def classList (d : Directives) : m ClassList := do
  let static := (d.classes.map (ClassList.merge [])).getD []
  match d.boundClasses with
  | none => return static
  | some binding => return ClassList.merge static (← value binding)

/-- The key of a node. -/
def keyValue (d : Directives) : m (Option Value) :=
  match d.key with
  | none => return none
  | some binding => do
    return some (← value binding)

/-- What a node carries, its slots apart, with its listeners in a scope. -/
def traits (scope : ScopeId) (d : Directives) : m Traits := do
  let classes ← d.classList value
  let style ← d.style.resolve value "style"
  let attrs ← d.attrs.resolve value "attrs"
  let props ← d.props.resolve value "props"
  let domProps ← d.domProps.resolve value "domProps"
  let shown ← d.visible.shown value
  let key ← d.keyValue value
  return {
    classes := classes
    style := if shown then style else hidden style
    attrs := attrs
    props := props
    domProps := domProps
    on := Listener.ofHandlers scope d.on
    nativeOn := Listener.ofHandlers scope d.nativeOn
    key := key
    reference := d.reference
    refInFor := d.refInFor
    slot := d.slot }

/-- The content a node says it has, before its children are asked. -/
def ownContent {N : Type} (d : Directives) : m (Option (Content N)) :=
  match d.boundText, d.html, d.text with
  | some binding, _, _ => do
    return some (.text (← value binding).text)
  | none, some binding, _ => do
    return some (.markup (← value binding).text)
  | none, none, some s => return some (.text s)
  | none, none, none => return none

/-- The content of a node: what it says it has, or else what its children come to. -/
def content {N : Type} (d : Directives) (children : m (Content N)) : m (Content N) := do
  match ← d.ownContent value with
  | some content => return content
  | none => children

/-- Whether a node is there, as far as that is bound. -/
def present (d : Directives) : m Bool :=
  match d.condition.bound with
  | none => return true
  | some binding => do
    return (← value binding).truthy

end Directives

end Trellis.Schema
