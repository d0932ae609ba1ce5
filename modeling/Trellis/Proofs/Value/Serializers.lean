import Trellis.Value
import Trellis.Proofs.Members

/-!
# A value and its document serialize alike

A value can be made a document, and it can serialize itself. A document is serialized by calls too,
and they are the same ones but for numbers JSON cannot say: the value hands them on, and its document
says null. So whatever serializer takes such a number for null makes the same of both. The one that
builds documents builds the document of the value, and the one that writes compact text writes the
text of that document.

* `Value.Distinct`: no object names a member twice.
* `Serializer.Strict`: numbers JSON cannot say are null.
* `Value.serialize_toJson`: the calls of a value and of its document.
* `Value.serialize_builder`, `Json.serialize_writer`: what is built and what is written.
* `Value.serializers_agree`: all of it.
-/

namespace Trellis

/-- Takes a number JSON cannot say for null. -/
def Serializer.Strict {σ : Type} (S : Serializer σ) : Prop :=
  ∀ x s, Binary.ofFloat? x = none → S (.real x) s = S .unit s

/-! ### Writing -/

namespace Json

theorem strict_writer : Serializer.Strict writer := by
  intro x w hx
  have hreal : Number.real? x = none := by rw [Number.real?, hx, Option.map_none]
  change some (w.write ((Number.real? x).getD "null")) = _
  rw [hreal]
  rfl

/-- Texts, each behind a comma. -/
def furtherTexts (texts : List String) : String :=
  String.join (texts.map ("," ++ ·))

theorem furtherTexts_cons (s : String) (texts : List String) :
    furtherTexts (s :: texts) = "," ++ s ++ furtherTexts texts := by
  rw [furtherTexts, List.map_cons, String.join_cons]
  rfl

theorem commas_cons (s : String) : ∀ texts : List String,
    commas (s :: texts) = s ++ furtherTexts texts
  | [] => String.append_empty.symm
  | next :: texts => by
    have ih := commas_cons next texts
    unfold commas at *
    rw [String.intercalate_cons_cons, ih, furtherTexts_cons]
    simp only [String.append_assoc]

mutual

/-- **The writer** puts the text of a document behind what is written. -/
theorem serialize_writer : ∀ (j : Json) (w : Writer),
    j.serialize writer w = some (w.write j.text)
  | null, _ | bool _, _ | integer _, _ | string _, _ => rfl
  | number x, w => by
    rw [serialize, text, Number.json?]
    cases Number.whole? x <;> rfl
  | array [], ⟨written, opened⟩ => by
    change some (Writer.mk (written ++ "[" ++ "]") opened) = _
    rw [String.append_assoc]
    rfl
  | array (j :: rest), ⟨written, opened⟩ => by
    change ((j.serialize writer ⟨written ++ "[", .rest :: opened⟩).bind
      (serializeItems writer rest)).bind (writer .endSequence) = _
    rw [serialize_writer j, Option.bind_some, Writer.write, serializeItems_writer rest,
      Option.bind_some, text, itemTexts, commas_cons]
    change some (Writer.mk (_ ++ "]") opened) = _
    simp only [Writer.write, String.append_assoc]
  | object [], ⟨written, opened⟩ => by
    change some (Writer.mk (written ++ "\x7b" ++ "\x7d") opened) = _
    rw [String.append_assoc]
    rfl
  | object ((name, j) :: rest), ⟨written, opened⟩ => by
    change ((j.serialize writer ⟨written ++ "\x7b" ++ (Text.quoted name ++ ":"),
      .rest :: opened⟩).bind (serializeMembers writer rest)).bind (writer .endMap) = _
    rw [serialize_writer j, Option.bind_some, Writer.write, serializeMembers_writer rest,
      Option.bind_some, text, memberTexts, commas_cons]
    change some (Writer.mk (_ ++ "\x7d") opened) = _
    simp only [Writer.write, String.append_assoc]

/-- Items behind another one are written behind a comma each. -/
theorem serializeItems_writer : ∀ (items : List Json) (written : String) (opened : List Position),
    serializeItems writer items ⟨written, .rest :: opened⟩ =
      some ⟨written ++ furtherTexts (itemTexts items), .rest :: opened⟩
  | [], _, _ => congrArg (fun t => some (Writer.mk t _)) String.append_empty.symm
  | j :: rest, written, opened => by
    change (j.serialize writer ⟨written ++ ",", .rest :: opened⟩).bind
      (serializeItems writer rest) = _
    rw [serialize_writer j, Option.bind_some, Writer.write, serializeItems_writer rest, itemTexts,
      furtherTexts_cons]
    simp only [String.append_assoc]

/-- Members behind another one are written behind a comma each. -/
theorem serializeMembers_writer : ∀ (members : List (String × Json)) (written : String)
    (opened : List Position),
    serializeMembers writer members ⟨written, .rest :: opened⟩ =
      some ⟨written ++ furtherTexts (memberTexts members), .rest :: opened⟩
  | [], _, _ => congrArg (fun t => some (Writer.mk t _)) String.append_empty.symm
  | (name, j) :: rest, written, opened => by
    change (j.serialize writer ⟨written ++ "," ++ (Text.quoted name ++ ":"), .rest :: opened⟩).bind
      (serializeMembers writer rest) = _
    rw [serialize_writer j, Option.bind_some, Writer.write, serializeMembers_writer rest,
      memberTexts, furtherTexts_cons]
    simp only [String.append_assoc]

end

end Json

namespace Value

/-! ### Building -/

mutual

/-- **The builder** puts the document of a value where a part belongs. -/
theorem serialize_builder : ∀ (v : Value) (b : Json.Builder),
    v.serialize Json.builder b = b.put v.toJson
  | null, _ | bool _, _ | string _, _ | function _, _ => rfl
  | number x, b => by
    rw [serialize, toJson]
    cases Number.whole? x <;> rfl
  | array items, ⟨opened, done⟩ => by
    change (serializeItems Json.builder items ⟨.sequence [] :: opened, done⟩).bind
      (Json.builder .endSequence) = _
    rw [serializeItems_builder items, Option.bind_some]
    rfl
  | object members, ⟨opened, done⟩ => by
    change (serializeMembers Json.builder members ⟨.map [] :: opened, done⟩).bind
      (Json.builder .endMap) = _
    rw [serializeMembers_builder members, Option.bind_some]
    rfl

/-- Items are put behind those before them. -/
theorem serializeItems_builder : ∀ (items : List Value) (before : List Json)
    (opened : List Json.Open) (done : Option Json),
    serializeItems Json.builder items ⟨.sequence before :: opened, done⟩ =
      some ⟨.sequence (before ++ jsonItems items) :: opened, done⟩
  | [], before, _, _ => by rw [jsonItems, List.append_nil]; rfl
  | v :: rest, before, opened, done => by
    change (v.serialize Json.builder ⟨.element before :: opened, done⟩).bind
      (serializeItems Json.builder rest) = _
    rw [serialize_builder v]
    change serializeItems Json.builder rest ⟨.sequence (before ++ [v.toJson]) :: opened, done⟩ = _
    rw [serializeItems_builder rest, jsonItems, List.append_assoc]
    rfl

/-- Members are assigned to those before them. -/
theorem serializeMembers_builder : ∀ (members : List (String × Value)) (before : Members Json)
    (opened : List Json.Open) (done : Option Json),
    serializeMembers Json.builder members ⟨.map before :: opened, done⟩ =
      some ⟨.map (before.extend (jsonMembers members)) :: opened, done⟩
  | [], _, _, _ => rfl
  | (name, v) :: rest, before, opened, done => by
    change (v.serialize Json.builder ⟨.entry before name :: opened, done⟩).bind
      (serializeMembers Json.builder rest) = _
    rw [serialize_builder v]
    change serializeMembers Json.builder rest ⟨.map (before.assign name v.toJson) :: opened, done⟩ = _
    rw [serializeMembers_builder rest, jsonMembers, Members.extend_cons]

end

/-! ### Calls -/

mutual

/-- No object in the value names a member twice: objects are ordered members, with a place for each
name. -/
def Distinct : Value → Prop
  | array items => DistinctItems items
  | object members => Members.Distinct members ∧ DistinctMembers members
  | _ => True

/-- No object in the items names a member twice. -/
def DistinctItems : List Value → Prop
  | [] => True
  | v :: rest => Distinct v ∧ DistinctItems rest

/-- No object in the values of the members names a member twice. -/
def DistinctMembers : List (String × Value) → Prop
  | [] => True
  | (_, v) :: rest => Distinct v ∧ DistinctMembers rest

end

theorem length_jsonItems : ∀ items : List Value, (jsonItems items).length = items.length
  | [] => rfl
  | _ :: rest => congrArg (· + 1) (length_jsonItems rest)

theorem length_jsonMembers : ∀ members : List (String × Value),
    (jsonMembers members).length = members.length
  | [] => rfl
  | _ :: rest => congrArg (· + 1) (length_jsonMembers rest)

theorem names_jsonMembers : ∀ members : List (String × Value),
    Members.names (jsonMembers members) = Members.names members
  | [] => rfl
  | (name, _) :: rest => congrArg (name :: ·) (names_jsonMembers rest)

/-- As a document an object keeps its members as they are. -/
theorem toJson_object {members : List (String × Value)} (h : Members.Distinct members) :
    (object members).toJson = .object (jsonMembers members) := by
  have hdistinct : Members.Distinct (jsonMembers members) := by
    rw [Members.Distinct, names_jsonMembers]
    exact h
  rw [toJson, Members.ofList_of_distinct hdistinct]

section

variable {σ : Type} {S : Serializer σ}

mutual

/-- **The calls of a value** and of its document come to the same. -/
theorem serialize_toJson (hS : S.Strict) : ∀ {v : Value}, v.Distinct → ∀ s : σ,
    v.toJson.serialize S s = v.serialize S s
  | null, _, _ | bool _, _, _ | string _, _, _ | function _, _, _ => rfl
  | number x, _, s => by
    rw [serialize, toJson]
    cases hwhole : Number.whole? x with
    | some i => rfl
    | none =>
      cases hfinite : Binary.ofFloat? x with
      | none => exact (hS x s hfinite).symm
      | some b =>
        change (Json.number x).serialize S s = S (.real x) s
        rw [Json.serialize, hwhole]
  | array items, h, s => by
    rw [serialize, toJson, Json.serialize, length_jsonItems]
    refine bind_congr fun s => ?_
    rw [serialize_jsonItems hS h]
  | object members, h, s => by
    rw [serialize, toJson_object h.1, Json.serialize, length_jsonMembers]
    refine bind_congr fun s => ?_
    rw [serialize_jsonMembers hS h.2]

/-- The calls of items and of their documents. -/
theorem serialize_jsonItems (hS : S.Strict) : ∀ {items : List Value}, DistinctItems items →
    ∀ s : σ, Json.serializeItems S (jsonItems items) s = serializeItems S items s
  | [], _, _ => rfl
  | v :: rest, h, s => by
    rw [serializeItems, jsonItems, Json.serializeItems]
    refine bind_congr fun s => ?_
    rw [serialize_toJson hS h.1]
    exact bind_congr fun s => serialize_jsonItems hS h.2 s

/-- The calls of members and of their documents. -/
theorem serialize_jsonMembers (hS : S.Strict) : ∀ {members : List (String × Value)},
    DistinctMembers members → ∀ s : σ,
    Json.serializeMembers S (jsonMembers members) s = serializeMembers S members s
  | [], _, _ => rfl
  | (name, v) :: rest, h, s => by
    rw [serializeMembers, jsonMembers, Json.serializeMembers]
    refine bind_congr fun s => ?_
    rw [serialize_toJson hS h.1]
    exact bind_congr fun s => serialize_jsonMembers hS h.2 s

end

end

/-- **A value serializes like its document.** For a value in which no object names a member twice,
every serializer that takes the numbers JSON cannot say for null makes the same of the calls of the
value and of those of its document. The calls of the value build its document, and they write the text
of that document. -/
theorem serializers_agree {v : Value} (h : v.Distinct) :
    (∀ {σ : Type} {S : Serializer σ}, S.Strict → ∀ s, v.serialize S s = v.toJson.serialize S s) ∧
    v.built? = some v.toJson ∧ v.written? = some v.toJson.text ∧ v.serialized = v.toJson.text := by
  have hbuilt : v.built? = some v.toJson := by
    rw [built?, serialize_builder]
    rfl
  have hwritten : v.written? = some v.toJson.text := by
    rw [written?, ← serialize_toJson Json.strict_writer h, Json.serialize_writer, Option.map_some]
    exact congrArg some String.empty_append
  refine ⟨fun hS s => (serialize_toJson hS h s).symm, hbuilt, hwritten, ?_⟩
  rw [serialized, hwritten, Option.getD_some]

/-- Numbers of all kinds, a function, and an object in another one. -/
def medley : Value :=
  .object [("numbers", .array [.number Number.nan, .number Number.infinity, .number (-0.0),
    .number 1.5, .number 1e300]), ("call", .function (.host 0 "call")),
    ("inner", .object [("b", .null), ("a", .bool true)])]

theorem serializers_agree_medley :
    medley.Distinct ∧ Json.writer.Strict ∧
    medley.serialize Json.writer .start = medley.toJson.serialize Json.writer .start ∧
    medley.built? = some medley.toJson ∧ medley.written? = some medley.toJson.text := by
  have h : medley.Distinct := by
    simp [medley, Distinct, DistinctMembers, DistinctItems, Members.Distinct, Members.names]
  obtain ⟨hcalls, hbuilt, hwritten, -⟩ := serializers_agree h
  exact ⟨h, Json.strict_writer, hcalls Json.strict_writer _, hbuilt, hwritten⟩

end Value

end Trellis
