import Trellis.Rendered

/-!
# The markup of a tree

Tags and names are written as they are; the values of attributes and text are escaped, raw markup
is not. Void elements have neither content nor a closing tag.

* `Rendered.html`: the markup.
* `escapeAttribute`, `escapeText`: what stands for the characters that would end an attribute or
  begin a tag.
-/

namespace Trellis

/-- The value of an attribute: quotes and ampersands are written by name. -/
def escapeAttribute (s : String) : String :=
  String.ofList (s.toList.flatMap fun c =>
    if c = '&' then "&amp;".toList else if c = '"' then "&quot;".toList else [c])

/-- Text: ampersands and both angle brackets are written by name. -/
def escapeText (s : String) : String :=
  String.ofList (s.toList.flatMap fun c =>
    if c = '&' then "&amp;".toList
    else if c = '<' then "&lt;".toList
    else if c = '>' then "&gt;".toList
    else [c])

/-- An attribute with a blank in front. -/
def attributeText (a : String × String) : String :=
  " " ++ a.1 ++ "=\"" ++ escapeAttribute a.2 ++ "\""

/-- Elements without content and closing tag. -/
def voidTags : List String :=
  ["area", "base", "br", "col", "embed", "hr", "img", "input", "link", "meta", "source", "track",
    "wbr"]

/-- Properties that are not attributes. -/
def unreflected : List String :=
  ["value", "checked", "selected", "innerHTML", "textContent"]

namespace Element

/-- The attribute a value stands for: null and false stand for none, true for the name itself. -/
def attribute? (a : String × Value) : Option (String × String) :=
  match a.2 with
  | .null => none
  | .bool false => none
  | .bool true => some (a.1, a.1)
  | v => some (a.1, v.text)

/-- The classes as one attribute. -/
def classText (e : Element) : List (String × String) :=
  if e.classes.isEmpty then [] else [("class", " ".intercalate e.classes)]

/-- The style as one attribute. -/
def styleText (e : Element) : List (String × String) :=
  if e.style.isEmpty then []
  else [("style", " ".intercalate (e.style.map fun m => m.1 ++ ": " ++ m.2.text ++ ";"))]

/-- The properties that are attributes. -/
def reflectedProps (e : Element) : Members Value :=
  e.domProps.filter fun m => !unreflected.contains m.1

/-- All attributes in the order in which they are written. -/
def attributes (e : Element) : List (String × String) :=
  e.classText ++ e.styleText ++ (e.attrs ++ e.reflectedProps).filterMap attribute?

/-- The opening tag. -/
def opening (e : Element) : String :=
  "<" ++ e.tag ++ String.join (e.attributes.map attributeText) ++ ">"

/-- The closing tag. -/
def closing (e : Element) : String :=
  "</" ++ e.tag ++ ">"

/-- The content as written, given the markup of the children: raw markup wins over text, and text
over children. -/
def inner (e : Element) (kids : String) : String :=
  match e.markup, e.text with
  | some raw, _ => raw
  | none, some s => escapeText s
  | none, none => kids

/-- The markup of an element, given that of its children. -/
def wrap (e : Element) (kids : String) : String :=
  if voidTags.contains e.tag then e.opening else e.opening ++ e.inner kids ++ e.closing

end Element

namespace Rendered

mutual

/-- The markup of a tree. -/
def html : Rendered → String
  | mk e kids => e.wrap (htmlAll kids)

/-- The markup of trees one after another. -/
def htmlAll : List Rendered → String
  | [] => ""
  | n :: rest => html n ++ htmlAll rest

end

end Rendered

end Trellis
