import Trellis.Proofs.Value.Alike

/-!
# Values without functions

A value without functions is alike to itself even if no function is like any other, and only such a
value is. So what keeps alike values alike keeps values free of functions.

* `Value.Alike.plain`: the one direction; the other is `Value.Alike.refl`.
* `Value.Plain.at?`, `Value.Plain.replace`, `Value.PlainMembers.assign`: reading, replacing and
  assigning members.
* `Value.ofJson_plain`: documents.
-/

namespace Trellis

namespace Value

/-- No function is like any. -/
def Unlike (_ _ : Callable) : Prop := False

mutual

theorem Alike.plain : ∀ {v w : Value}, Alike Unlike v w → v.Plain
  | _, _, .null | _, _, .bool _ | _, _, .number _ | _, _, .string _ => trivial
  | _, _, .array hs => hs.plain
  | _, _, .object hs => hs.plain
  | _, _, .function h => h.elim

theorem AlikeItems.plain : ∀ {vs ws : List Value}, AlikeItems Unlike vs ws → PlainItems vs
  | _, _, .nil => trivial
  | _, _, .cons h hs => ⟨h.plain, hs.plain⟩

theorem AlikeMembers.plain : ∀ {m n : List (String × Value)}, AlikeMembers Unlike m n →
    PlainMembers m
  | _, _, .nil => trivial
  | _, _, .cons _ h hs => ⟨h.plain, hs.plain⟩

end

variable {v w : Value} {m n : Members Value}

theorem plainMembers_iff : PlainMembers m ↔ ∀ e ∈ m, e.2.Plain := by
  induction m with
  | nil => exact ⟨nofun, fun _ => trivial⟩
  | cons e m ih =>
    rw [List.forall_mem_cons, ← ih]
    exact Iff.rfl

theorem plainItems_iff {vs : List Value} : PlainItems vs ↔ ∀ v ∈ vs, v.Plain := by
  induction vs with
  | nil => exact ⟨nofun, fun _ => trivial⟩
  | cons v vs ih =>
    rw [List.forall_mem_cons, ← ih]
    exact Iff.rfl

theorem PlainMembers.append (hm : PlainMembers m) (hn : PlainMembers n) : PlainMembers (m ++ n) :=
  plainMembers_iff.2 fun e he =>
    (List.mem_append.1 he).elim (plainMembers_iff.1 hm e) (plainMembers_iff.1 hn e)

theorem PlainMembers.get? (hm : PlainMembers m) {name : String} (h : Members.get? m name = some v) :
    v.Plain :=
  plainMembers_iff.1 hm _ (Members.mem_of_get? h)

theorem PlainMembers.assign (hm : PlainMembers m) (name : String) (hv : v.Plain) :
    PlainMembers (Members.assign m name v) :=
  ((AlikeMembers.refl hm).assign name (Alike.refl hv)).plain

theorem PlainMembers.extend (hm : PlainMembers m) (hn : PlainMembers n) :
    PlainMembers (Members.extend m n) :=
  ((AlikeMembers.refl hn).extend (AlikeMembers.refl hm)).plain

theorem PlainMembers.erase (hm : PlainMembers m) (name : String) :
    PlainMembers (Members.erase m name) :=
  plainMembers_iff.2 fun e he => plainMembers_iff.1 hm e (List.mem_filter.1 he).1

theorem Plain.member? (hv : v.Plain) {key : String} (h : v.member? key = some w) : w.Plain := by
  have hrel := (Alike.refl (F := Unlike) hv).member? key
  rw [h] at hrel
  cases hrel with
  | some hw => exact hw.plain

theorem Plain.at? (keys : List String) : ∀ {v : Value}, v.Plain → v.at? keys = .ok w → w.Plain := by
  induction keys with
  | nil => intro v hv h; exact Except.ok.inj h ▸ hv
  | cons key keys ih =>
    intro v hv h
    rw [Value.at?] at h
    cases hm : v.member? key with
    | none => rw [hm] at h; cases h
    | some inner => rw [hm] at h; exact ih (hv.member? hm) h

theorem Plain.replace (hv : v.Plain) (hw : w.Plain) {keys : List String} {x : Value}
    (h : v.replace keys w = .ok x) : x.Plain := by
  have hsame := Alike.replace (F := Unlike) (Alike.refl hw) keys (Alike.refl hv)
  rw [h] at hsame
  exact Alike.plain hsame

mutual

/-- No document holds a function. -/
theorem ofJson_plain : ∀ j : Json, (ofJson j).Plain
  | .null | .bool _ | .number _ | .integer _ | .string _ => trivial
  | .array items => ofJsonItems_plain items
  | .object members => ofJsonMembers_plain members

theorem ofJsonItems_plain : ∀ items : List Json, PlainItems (ofJsonItems items)
  | [] => trivial
  | j :: rest => ⟨ofJson_plain j, ofJsonItems_plain rest⟩

theorem ofJsonMembers_plain : ∀ members : List (String × Json), PlainMembers (ofJsonMembers members)
  | [] => trivial
  | (_, j) :: rest => ⟨ofJson_plain j, ofJsonMembers_plain rest⟩

end

end Value

end Trellis
