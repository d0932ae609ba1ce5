import Trellis.Proofs.Scope.Operations
import Trellis.Proofs.Script.Assignments

/-!
# Paths and members

A path and the expression of the same members are read by different rules. A path has to lead to
something at every key. An expression goes on with null where a member is absent, fails at a member
of null, and finds the lengths of arrays and texts, which are no members. Both begin at the nearest
frame of the namespace, so they come to the same as far as there are members.

* `Expr.chain`, `Expr.eval_chain`: a name with members below it.
* `Value.readAll_of_at?`, `Value.readAll_absent`: reading by both rules, below one value.
* `Store.get_eq_spaceData?`, `Place.member_runOn`: both reads, from the namespace's data on.
* `Expr.Concurs`, `Expr.chain_concurs`: how they compare from any scope.
-/

namespace Trellis

open Act

/-! ### Chains of members -/

/-- A name with static members below it. -/
def Expr.chain (root : String) (keys : List String) : Expr :=
  keys.foldl (fun e key => .member e (.static key)) (.name root)

section Chains

variable {call : Callable → List Value → Act Value} {p : Place}

theorem Act.ofExcept_bind {α β : Type} (x : Except Fault α) (f : α → Except Fault β) :
    Act.ofExcept (x >>= f) = Act.ofExcept x >>= fun a => Act.ofExcept (f a) := by
  cases x <;> rfl

/-- Static members below an expression are read off its value. -/
theorem Expr.eval_members (e : Expr) (keys : List String) :
    (keys.foldl (fun e key => Expr.member e (.static key)) e).eval call p =
      e.eval call p >>= fun v => Act.ofExcept (v.readAll keys) := by
  induction keys generalizing e with
  | nil => exact (bind_pure _).symm
  | cons key keys ih =>
    rw [List.foldl_cons, ih, Expr.eval, bind_assoc]
    simp only [Property.eval, pure_bind, Value.readAll, Act.ofExcept_bind]

/-- **A chain of members** is what lies below its name. -/
theorem Expr.eval_chain (root : String) (keys : List String) :
    (Expr.chain root keys).eval call p = p.member root keys := by
  rw [Expr.chain, Expr.eval_members, Expr.eval]
  rfl

end Chains

/-! ### Two ways to read below a value -/

namespace Value

variable {v w : Value} {key : String} {keys above below : List String} {e : Fault}

/-- Texts and arrays have a length, which is no member of theirs. -/
def HasLength : Value → Prop
  | string _ => True
  | array _ => True
  | _ => False

/-- A member that is there is read. -/
theorem read_of_member? (h : v.member? key = some w) : v.read key = .ok w := by
  cases v with
  | object members =>
    unfold read
    simp only [h]
    rfl
  | array items =>
    -- no place in an array is called its length
    have hkey : key ≠ "length" := by
      rintro rfl
      cases h
    unfold read
    simp only [if_neg hkey, h]
    rfl
  | _ => cases h

/-- What is read below members that are there is what is read below the last of them. -/
theorem readAll_append (h : v.at? above = .ok w) (below : List String) :
    v.readAll (above ++ below) = w.readAll below := by
  induction above generalizing v with
  | nil =>
    cases h
    rfl
  | cons key above ih =>
    rw [at?] at h
    cases hm : v.member? key with
    | none =>
      rw [hm] at h
      cases h
    | some inner =>
      rw [hm] at h
      rw [List.cons_append, readAll, read_of_member? hm]
      exact ih h

/-- **Where a path leads** an expression leads as well. -/
theorem readAll_of_at? (h : v.at? keys = .ok w) : v.readAll keys = .ok w := by
  have hread := readAll_append h []
  rwa [List.append_nil] at hread

/-- A path that leads nowhere goes wrong at a member that is absent. -/
theorem absent_of_at? (h : v.at? keys = .error key) :
    ∃ above below w, keys = above ++ key :: below ∧ v.at? above = .ok w ∧
      w.member? key = none := by
  induction keys generalizing v with
  | nil => cases h
  | cons first rest ih =>
    rw [at?] at h
    cases hm : v.member? first with
    | none =>
      rw [hm] at h
      cases h
      exact ⟨[], rest, v, rfl, rfl, hm⟩
    | some inner =>
      rw [hm] at h
      obtain ⟨above, below, w, rfl, hw, hnone⟩ := ih h
      refine ⟨first :: above, below, w, rfl, ?_, hnone⟩
      rw [at?, hm]
      exact hw

/-- Reading goes wrong at members of null only. -/
theorem wrongType_of_read (h : v.read key = .error e) : ∃ text, e = .wrongType text := by
  cases v <;> cases h
  exact ⟨_, rfl⟩

theorem wrongType_of_readAll (h : v.readAll keys = .error e) : ∃ text, e = .wrongType text := by
  induction keys generalizing v with
  | nil => cases h
  | cons key keys ih =>
    rw [readAll] at h
    cases hr : v.read key with
    | error e' =>
      rw [hr] at h
      cases h
      exact wrongType_of_read hr
    | ok w =>
      rw [hr] at h
      exact ih h

/-- An absent member of anything but null is null, unless it is a length. -/
theorem read_absent (hnone : v.member? key = none) (hnull : v ≠ null)
    (hlength : ¬ (key = "length" ∧ v.HasLength)) : v.read key = .ok null := by
  cases v with
  | null => exact absurd rfl hnull
  | string s => exact congrArg Except.ok (if_neg fun hkey => hlength ⟨hkey, trivial⟩)
  | array items =>
    unfold read
    simp only [if_neg fun hkey => hlength ⟨hkey, trivial⟩, hnone]
    rfl
  | _ =>
    unfold read
    simp only [hnone]
    rfl

/-- **Where a member is absent** and is no length, an expression comes to null, or goes wrong there or
at the next member. -/
theorem readAll_absent (hnone : v.member? key = none) (hlength : ¬ (key = "length" ∧ v.HasLength))
    (below : List String) :
    v.readAll (key :: below) = .ok null ∨
      ∃ text, v.readAll (key :: below) = .error (.wrongType text) := by
  by_cases hnull : v = null
  · subst hnull
    exact .inr ⟨_, rfl⟩
  · rw [readAll, read_absent hnone hnull hlength]
    cases below with
    | nil => exact .inl rfl
    | cons next rest => exact .inr ⟨_, rfl⟩

end Value

/-! ### From a scope -/

namespace Store

variable {s : Store} {scope : ScopeId} {ns : String} {e : Fault}

/-- **Reading at a path** is reading below the namespace's data. -/
theorem get_eq_spaceData? (s : Store) (scope : ScopeId) (ns : String) (keys : List String) :
    s.get scope ⟨ns, none, keys⟩ =
      match s.spaceData? scope ns with
      | .error e => .error e
      | .ok none => .error (.namespaceMissing ns)
      | .ok (some data) => (data.at? keys).mapError (.keyMissing ns) := by
  unfold Store.get spaceData? space
  rcases s.nearest? scope (.space ns) with e | _ | ⟨id, f⟩
  · rfl
  · rfl
  · simp only [bind, Except.bind, pure, Except.pure, Option.map_some]
    cases f.data.at? keys <;> rfl

theorem released_of_spaceData? (h : s.spaceData? scope ns = .error e) : e = .released := by
  unfold spaceData? nearest? at h
  cases hfound : (s.chain scope).1.find? fun x => x.2.kind = .space ns with
  | some x =>
    simp only [hfound] at h
    cases h
  | none =>
    simp only [hfound] at h
    split at h <;> cases h
    rfl

end Store

/-- **What lies below a name** that is neither that of a parameter nor one that every expression knows
is read below the namespace's data. -/
theorem Place.member_runOn {p : Place} {s : Session} {root : String}
    (hheld : s.held? root p.calls = none) (hglobal : globalValue? root = none)
    (keys : List String) :
    (p.member root keys).runOn s =
      (match s.store.spaceData? p.scope root with
        | .error e => .error e
        | .ok none => .error (.undefinedName root)
        | .ok (some data) => data.readAll keys, s) := by
  unfold Place.member Place.lookup
  simp only [runOn_bind, holder?_runOn, hheld, hglobal, runOn_scopes]
  rcases s.store.spaceData? p.scope root with e | _ | data
  · rfl
  · rfl
  · simp only [runOn_pure, runOn_ofExcept]

namespace Expr

/-- How what a chain of members comes to compares with reading at the path of the same members. -/
structure Concurs (store : Store) (scope : ScopeId) (ns : String) (keys : List String)
    (came : Except Fault Value) : Prop where
  found : ∀ v, store.get scope ⟨ns, none, keys⟩ = .ok v → came = .ok v
  missing : store.get scope ⟨ns, none, keys⟩ = .error (.namespaceMissing ns) ↔
    came = .error (.undefinedName ns)
  released : store.get scope ⟨ns, none, keys⟩ = .error .released ↔ came = .error .released
  absent : ∀ key, store.get scope ⟨ns, none, keys⟩ = .error (.keyMissing ns key) →
    ∃ above below w, keys = above ++ key :: below ∧ store.get scope ⟨ns, none, above⟩ = .ok w ∧
      w.member? key = none ∧
      (¬ (key = "length" ∧ w.HasLength) →
        came = .ok .null ∨ ∃ text, came = .error (.wrongType text))
  every : ∀ e, store.get scope ⟨ns, none, keys⟩ = .error e →
    e = .namespaceMissing ns ∨ e = .released ∨ ∃ key, e = .keyMissing ns key

/-- **Paths and expressions** concur. Outside of functions a chain of members below a namespace comes
to what is at the path if there is something. It fails for want of the namespace or of the scope if
the path does. Where the path fails for want of a member, it comes to null or goes wrong as a member
of null does, unless that member is the length of an array or a text. It changes nothing. -/
theorem chain_concurs (call : Callable → List Value → Act Value) (s : Session) (scope : ScopeId)
    {ns : String} (hns : globalValue? ns = none) (keys : List String) :
    Concurs s.store scope ns keys (((chain ns keys).eval call ⟨scope, []⟩).runOn s).1 ∧
      (((chain ns keys).eval call ⟨scope, []⟩).runOn s).2 = s := by
  rw [eval_chain, Place.member_runOn (p := ⟨scope, []⟩) rfl hns]
  refine ⟨?_, rfl⟩
  have hget := s.store.get_eq_spaceData? scope ns
  rcases hdata : s.store.spaceData? scope ns with e | _ | data
  · -- the chain of the scope breaks off
    cases Store.released_of_spaceData? hdata
    simp only [hdata] at hget
    constructor <;> simp [hget]
  · simp only [hdata] at hget
    constructor <;> simp [hget]
  simp only [hdata] at hget ⊢
  -- below the data neither of the faults that the two reads share comes up
  have hread : ∀ e, data.readAll keys = .error e → e ≠ .undefinedName ns ∧ e ≠ .released := by
    intro e he
    obtain ⟨text, rfl⟩ := Value.wrongType_of_readAll he
    exact ⟨nofun, nofun⟩
  have hmissing : data.readAll keys ≠ .error (.undefinedName ns) := fun h => (hread _ h).1 rfl
  have hreleased : data.readAll keys ≠ .error .released := fun h => (hread _ h).2 rfl
  cases hat : data.at? keys with
  | ok v =>
    have hok : s.store.get scope ⟨ns, none, keys⟩ = .ok v := by rw [hget, hat]; rfl
    rw [Value.readAll_of_at? hat]
    constructor <;> simp [hok]
  | error key =>
    have herror : s.store.get scope ⟨ns, none, keys⟩ = .error (.keyMissing ns key) := by
      rw [hget, hat]
      rfl
    obtain ⟨above, below, w, rfl, hw, hnone⟩ := Value.absent_of_at? hat
    have habove : s.store.get scope ⟨ns, none, above⟩ = .ok w := by rw [hget, hw]; rfl
    refine ⟨fun v h => ?_, ?_, ?_, fun key' h => ?_, fun e h => ?_⟩
    · cases herror.symm.trans h
    · exact iff_of_false (fun h => nomatch herror.symm.trans h) hmissing
    · exact iff_of_false (fun h => nomatch herror.symm.trans h) hreleased
    · cases herror.symm.trans h
      refine ⟨above, below, w, rfl, habove, hnone, fun hlength => ?_⟩
      rw [Value.readAll_append hw]
      exact Value.readAll_absent hnone hlength below
    · cases herror.symm.trans h
      exact .inr (.inr ⟨key, rfl⟩)

/-- A session with a lamp that has a name. -/
def lampSession : Session :=
  { Session.new with
    handle :=
      { Handle.new with
        store := Store.new.run [.openSpace Store.rootId "0:lamp" "lamp",
          .addData 1 "lamp" [("name", .string "desk")]] } }

/-- The name of the lamp is read in both ways. Its size is not there, which the path reports and the
expression does not fail for as a name that is not defined. -/
theorem chain_concurs_lamp : globalValue? "lamp" = none ∧
    lampSession.store.get 1 ⟨"lamp", none, ["name"]⟩ = .ok (.string "desk") ∧
    (((chain "lamp" ["name"]).eval Callable.call ⟨1, []⟩).runOn lampSession).1 =
      .ok (.string "desk") ∧
    lampSession.store.get 1 ⟨"lamp", none, ["name", "size"]⟩ = .error (.keyMissing "lamp" "size") ∧
    (((chain "lamp" ["name", "size"]).eval Callable.call ⟨1, []⟩).runOn lampSession).1 ≠
      .error (.undefinedName "lamp") := by
  have hlamp : globalValue? "lamp" = none := rfl
  have hname := (chain_concurs Callable.call lampSession 1 hlamp ["name"]).1
  have hsize := (chain_concurs Callable.call lampSession 1 hlamp ["name", "size"]).1
  exact ⟨hlamp, rfl, hname.found _ rfl, rfl, fun h => nomatch hsize.missing.2 h⟩

end Expr

end Trellis
