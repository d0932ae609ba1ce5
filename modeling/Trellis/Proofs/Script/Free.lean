import Trellis.Proofs.Acts
import Trellis.Proofs.Script.Occurrences
import Trellis.Script.Lowering

/-!
# Free names of trees and expressions

The names of a tree are met before it becomes an expression, and with other eyes: a name that is
bound anywhere in the defaults of the parameters of an arrow counts as bound in all of it, although
the defaults are dropped. Where they bind nothing, the free names of the expression are met in the
same order, with those of the defaults between them; where there are none, just those are met.

* `Syntax.defaults`: the defaults of parameters in a tree.
* `Syntax.BindsNothing`: trees that bind no name in the arrow around them.
* `Syntax.names_free`: names met stay met.
* `Syntax.lower_meets`: the free names of the expression that a tree stands for are met.
* `Syntax.freeNames_eq`: without defaults the tree and its expression have the same free names.
* `uses_dependencies`: the uses of a lowered expression are among its dependencies.
-/

namespace Trellis.Script

open scoped List

/-- The default of a parameter. -/
def Param.default? : Param → Option Syntax
  | .name _ default => default
  | .pattern _ _ => none

mutual

/-- The defaults of parameters in a tree that stands for an expression. What is in the defaults
themselves does not count. -/
def Syntax.defaults : Syntax → List Syntax
  | .literal _ => []
  | .name _ => []
  | .template _ parts => defaultsOfPieces parts
  | .member object _ => object.defaults
  | .index object key => object.defaults ++ key.defaults
  | .array items => defaultsOfAll items
  | .object entries => defaultsOfEntries entries
  | .unary _ _ argument => argument.defaults
  | .binary _ _ left right => left.defaults ++ right.defaults
  | .logical _ left right => left.defaults ++ right.defaults
  | .conditional test yes no => test.defaults ++ (yes.defaults ++ no.defaults)
  | .assign _ _ target value => target.defaults ++ value.defaults
  | .call callee arguments => callee.defaults ++ defaultsOfAll arguments
  | .arrow _ _ params _ body => params.filterMap Param.default? ++ body.defaults
  | .paren inner => inner.defaults
  | .sequence items => defaultsOfAll items
  | .spread _ argument _ => argument.defaults
  | .hole _ => []
  | .foreign _ _ => []

/-- The defaults in the expressions of a template. -/
def defaultsOfPieces : List (Syntax × String) → List Syntax
  | [] => []
  | (e, _) :: rest => e.defaults ++ defaultsOfPieces rest

/-- The defaults in expressions in order. -/
def defaultsOfAll : List Syntax → List Syntax
  | [] => []
  | e :: rest => e.defaults ++ defaultsOfAll rest

/-- The defaults in the members of an object. -/
def defaultsOfEntries : List Entry → List Syntax
  | [] => []
  | .keyed _ value :: rest => value.defaults ++ defaultsOfEntries rest
  | .defaulted _ _ _ :: rest => defaultsOfEntries rest
  | .foreign _ _ :: rest => defaultsOfEntries rest

/-- The defaults in what is assigned to. -/
def Place.defaults : Place → List Syntax
  | .name _ => []
  | .member object _ => object.defaults
  | .index object key => object.defaults ++ key.defaults
  | .foreign _ _ => []

/-- The defaults in a body. -/
def Block.defaults : Block → List Syntax
  | .expression e => e.defaults
  | .statements body => defaultsOfStatements body

/-- The defaults in statements in order. -/
def defaultsOfStatements : List Statement → List Syntax
  | [] => []
  | s :: rest => s.defaults ++ defaultsOfStatements rest

/-- The defaults in a statement. -/
def Statement.defaults : Statement → List Syntax
  | .empty => []
  | .expression e => e.defaults
  | .result none => []
  | .result (some e) => e.defaults
  | .branch test yes none => test.defaults ++ yes.defaults
  | .branch test yes (some no) => test.defaults ++ (yes.defaults ++ no.defaults)
  | .block body => defaultsOfStatements body
  | .foreign _ _ => []

end

/-- What is in the tree binds no name in the arrow around it. -/
def Syntax.BindsNothing (e : Syntax) : Prop :=
  ∀ n : Naming, (e.names n).bound = n.bound

/-! ### Names met stay met -/

namespace Naming

theorem refer_free (n : Naming) (id : String) : n.free <+ (n.refer id).free := by
  unfold refer
  split
  · exact .refl _
  · exact List.sublist_cons_self _ _

theorem bind_free (n : Naming) (id : String) : (n.bind id).free = n.free := by
  unfold bind
  split <;> rfl

end Naming

mutual

theorem Syntax.names_free : ∀ (e : Syntax) (n : Naming), n.free <+ (e.names n).free
  | .literal _, _ | .hole _, _ => .refl _
  | .name id, n => n.refer_free id
  | .template _ parts, n => namesOfPieces_free parts n
  | .member object _, n => object.names_free n
  | .index object key, n => (object.names_free n).trans (key.names_free _)
  | .array items, n => namesOfAll_free items n
  | .object entries, n => namesOfEntries_free entries n
  | .unary _ _ argument, n => argument.names_free n
  | .binary _ _ left right, n => (left.names_free n).trans (right.names_free _)
  | .logical _ left right, n => (left.names_free n).trans (right.names_free _)
  | .conditional test yes no, n =>
    ((test.names_free n).trans (yes.names_free _)).trans (no.names_free _)
  | .assign _ _ target value, n => (target.names_free n).trans (value.names_free _)
  | .call callee arguments, n => (callee.names_free n).trans (namesOfAll_free arguments _)
  | .arrow _ _ params none body, n =>
    (namesOfParams_free params n.enter).trans (body.names_free _)
  | .arrow _ _ params (some rest) body, n =>
    ((namesOfParams_free params n.enter).trans (namesOfParts_free rest _)).trans (body.names_free _)
  | .paren inner, n => inner.names_free n
  | .sequence items, n => namesOfAll_free items n
  | .spread _ argument _, n => argument.names_free n
  | .foreign _ parts, n => namesOfParts_free parts n

theorem namesOfPieces_free : ∀ (parts : List (Syntax × String)) (n : Naming),
    n.free <+ (namesOfPieces parts n).free
  | [], _ => .refl _
  | (e, _) :: rest, n => (e.names_free n).trans (namesOfPieces_free rest _)

theorem namesOfAll_free : ∀ (items : List Syntax) (n : Naming), n.free <+ (namesOfAll items n).free
  | [], _ => .refl _
  | e :: rest, n => (e.names_free n).trans (namesOfAll_free rest _)

theorem namesOfEntries_free : ∀ (entries : List Entry) (n : Naming),
    n.free <+ (namesOfEntries entries n).free
  | [], _ => .refl _
  | .keyed _ value :: rest, n => (value.names_free n).trans (namesOfEntries_free rest _)
  | .defaulted _ id default :: rest, n =>
    ((n.refer_free id).trans (default.names_free _)).trans (namesOfEntries_free rest _)
  | .foreign _ parts :: rest, n => (namesOfParts_free parts n).trans (namesOfEntries_free rest _)

theorem Place.names_free : ∀ (p : Place) (n : Naming), n.free <+ (p.names n).free
  | .name id, n => n.refer_free id
  | .member object _, n => object.names_free n
  | .index object key, n => (object.names_free n).trans (key.names_free _)
  | .foreign _ parts, n => namesOfParts_free parts n

theorem namesOfParams_free : ∀ (params : List Param) (n : Naming),
    n.free <+ (namesOfParams params n).free
  | [], _ => .refl _
  | .name id none :: rest, n => n.bind_free id ▸ namesOfParams_free rest (n.bind id)
  | .name id (some e) :: rest, n =>
    n.bind_free id ▸ (e.names_free (n.bind id)).trans (namesOfParams_free rest _)
  | .pattern _ parts :: rest, n => (namesOfParts_free parts n).trans (namesOfParams_free rest _)

theorem Block.names_free : ∀ (b : Block) (n : Naming), n.free <+ (b.names n).free
  | .expression e, n => e.names_free n
  | .statements body, n => namesOfStatements_free body n

theorem namesOfStatements_free : ∀ (body : List Statement) (n : Naming),
    n.free <+ (namesOfStatements body n).free
  | [], _ => .refl _
  | s :: rest, n => (s.names_free n).trans (namesOfStatements_free rest _)

theorem Statement.names_free : ∀ (s : Statement) (n : Naming), n.free <+ (s.names n).free
  | .empty, _ | .result none, _ => .refl _
  | .expression e, n => e.names_free n
  | .result (some e), n => e.names_free n
  | .branch test yes none, n => (test.names_free n).trans (yes.names_free _)
  | .branch test yes (some no), n =>
    ((test.names_free n).trans (yes.names_free _)).trans (no.names_free _)
  | .block body, n => namesOfStatements_free body n
  | .foreign _ parts, n => namesOfParts_free parts n

theorem namesOfParts_free : ∀ (parts : List Part) (n : Naming),
    n.free <+ (namesOfParts parts n).free
  | [], _ => .refl _
  | .expression e :: rest, n => (e.names_free n).trans (namesOfParts_free rest _)
  | .statement s :: rest, n => (s.names_free n).trans (namesOfParts_free rest _)
  | .binder id :: rest, n => n.bind_free id ▸ namesOfParts_free rest (n.bind id)

end

/-! ### The expression a tree stands for -/

namespace Naming

/-- Those of the names that no arrow around binds, in order. -/
def unbound (n : Naming) (names : List String) : List String :=
  names.filter (· ∉ n.bound.flatten)

theorem unbound_append (n : Naming) (xs ys : List String) :
    n.unbound (xs ++ ys) = n.unbound xs ++ n.unbound ys :=
  List.filter_append _ _

/-- In an arrow the names are bound that are bound around it or are its parameters. -/
theorem unbound_inside {n inner : Naming} {params : List String}
    (h : inner.bound = params.reverse :: n.bound) (names : List String) :
    inner.unbound names = n.unbound (names.filter (· ∉ params)) := by
  rw [unbound, unbound, h, List.filter_filter]
  refine List.filter_congr fun id _ => ?_
  rw [← Bool.decide_and, decide_eq_decide, List.flatten_cons, List.mem_append, List.mem_reverse,
    not_or, and_comm]

/-- From `n` to `n'` the unbound ones of the names were met in order, others between them only if
there is anything that was skipped, and nothing was bound. -/
structure Meets (n n' : Naming) (names : List String) (skipped : List Syntax) : Prop where
  bound : n'.bound = n.bound
  free : (n.unbound names).reverse ++ n.free <+ n'.free
  exactly : skipped = [] → n'.free = (n.unbound names).reverse ++ n.free

variable {n n' n'' : Naming} {xs ys : List String} {ds es : List Syntax}

theorem Meets.refl (n : Naming) : n.Meets n [] [] :=
  ⟨rfl, .refl _, fun _ => rfl⟩

theorem Meets.append (h : n.Meets n' xs ds) (h' : n'.Meets n'' ys es) :
    n.Meets n'' (xs ++ ys) (ds ++ es) := by
  have hsame : n'.unbound ys = n.unbound ys := by
    rw [unbound, h.bound]
    rfl
  have hnames : (n.unbound (xs ++ ys)).reverse ++ n.free =
      (n'.unbound ys).reverse ++ ((n.unbound xs).reverse ++ n.free) := by
    rw [hsame, unbound_append, List.reverse_append, List.append_assoc]
  refine ⟨h'.bound.trans h.bound, ?_, fun hskipped => ?_⟩
  · rw [hnames]
    exact (h.free.append_left _).trans h'.free
  · obtain ⟨hds, hes⟩ := List.append_eq_nil_iff.1 hskipped
    rw [hnames, h'.exactly hes, h.exactly hds]

theorem Meets.append_nil (h : n.Meets n' xs ds) : n.Meets n' (xs ++ []) ds := by
  rwa [List.append_nil]

/-- A name is met unless it is that of a parameter around it. -/
theorem refer_meets (n : Naming) (id : String) : n.Meets (n.refer id) [id] [] := by
  have hany : (n.bound.any fun names => names.contains id) = true ↔ id ∈ n.bound.flatten := by
    rw [List.mem_flatten, List.any_eq_true]
    simp only [List.contains_iff_mem]
  have hfree : (n.refer id).free = (n.unbound [id]).reverse ++ n.free := by
    by_cases hbound : id ∈ n.bound.flatten
    · rw [refer, if_pos (hany.2 hbound)]
      simp [unbound, hbound, -List.mem_flatten]
    · rw [refer, if_neg (mt hany.1 hbound)]
      simp [unbound, hbound, -List.mem_flatten]
  refine ⟨?_, hfree ▸ .refl _, fun _ => hfree⟩
  unfold refer
  split <;> rfl

end Naming

/-- In the arrow its parameters are bound, in the order in which they are read. -/
theorem namesOfParams_lower : ∀ (params : List Param) {names : List String},
    lowerParams params = .ok names → (∀ d ∈ params.filterMap Param.default?, d.BindsNothing) →
    ∀ {n : Naming} {b : List String} {outer : List (List String)}, n.bound = b :: outer →
      (namesOfParams params n).bound = (names.reverse ++ b) :: outer
  | [], names, h, _, n, b, outer, hn => by
    cases h
    exact hn
  | .pattern _ _ :: _, _, h, _, _, _, _, _ => nomatch h
  | .name id none :: rest, names, h, hd, n, b, outer, hn => by
    obtain ⟨others, hrest, h⟩ := Except.bind_eq_ok.1 h
    cases h
    have hbind : (n.bind id).bound = (id :: b) :: outer := by
      rw [Naming.bind, hn]
    rw [namesOfParams, namesOfParams_lower rest hrest hd hbind, List.reverse_cons,
      List.append_assoc]
    rfl
  | .name id (some e) :: rest, names, h, hd, n, b, outer, hn => by
    obtain ⟨others, hrest, h⟩ := Except.bind_eq_ok.1 h
    cases h
    have hbind : (e.names (n.bind id)).bound = (id :: b) :: outer := by
      rw [hd e List.mem_cons_self, Naming.bind, hn]
    rw [namesOfParams,
      namesOfParams_lower rest hrest (fun d hd' => hd d (List.mem_cons_of_mem _ hd')) hbind,
      List.reverse_cons, List.append_assoc]
    rfl

/-- Parameters without defaults meet no names. -/
theorem namesOfParams_exact : ∀ (params : List Param) {names : List String},
    lowerParams params = .ok names → params.filterMap Param.default? = [] → ∀ n : Naming,
      (namesOfParams params n).free = n.free
  | [], _, _, _, _ => rfl
  | .pattern _ _ :: _, _, h, _, _ => nomatch h
  | .name id none :: rest, _, h, hd, n => by
    obtain ⟨others, hrest, -⟩ := Except.bind_eq_ok.1 h
    rw [namesOfParams, namesOfParams_exact rest hrest hd, n.bind_free]
  | .name _ (some _) :: _, _, _, hd, _ => nomatch hd

mutual

/-- The free names of **expressions** are met in the trees that they come from. -/
theorem Syntax.lower_meets : ∀ (e : Syntax) {x : Expr}, e.lower = .ok x →
    (∀ d ∈ e.defaults, d.BindsNothing) →
    ∀ n : Naming, n.Meets (e.names n) x.freeNames e.defaults
  | .literal _, _, h, _, n => by
    cases h
    exact .refl n
  | .name id, _, h, _, n => by
    cases h
    exact n.refer_meets id
  | .template _ parts, _, h, hd, n => by
    obtain ⟨parts', hparts, h⟩ := Except.bind_eq_ok.1 h
    cases h
    exact lowerParts_meets parts hparts hd n
  | .member object _, _, h, hd, n => by
    obtain ⟨object', hobject, h⟩ := Except.bind_eq_ok.1 h
    cases h
    exact (object.lower_meets hobject hd n).append_nil
  | .index object key, _, h, hd, n => by
    obtain ⟨object', hobject, h⟩ := Except.bind_eq_ok.1 h
    obtain ⟨key', hkey, h⟩ := Except.bind_eq_ok.1 h
    cases h
    rw [Syntax.defaults, List.forall_mem_append] at hd
    exact (object.lower_meets hobject hd.1 n).append (key.lower_meets hkey hd.2 _)
  | .array items, _, h, hd, n => by
    obtain ⟨items', hitems, h⟩ := Except.bind_eq_ok.1 h
    cases h
    exact lowerAll_meets items hitems hd n
  | .object entries, _, h, hd, n => by
    obtain ⟨entries', hentries, h⟩ := Except.bind_eq_ok.1 h
    cases h
    exact lowerEntries_meets entries hentries hd n
  | .unary _ op argument, _, h, hd, n => by
    rw [Syntax.lower] at h
    split at h
    · obtain ⟨argument', hargument, h⟩ := Except.bind_eq_ok.1 h
      cases h
      exact argument.lower_meets hargument hd n
    · cases h
  | .binary _ op left right, _, h, hd, n => by
    rw [Syntax.lower] at h
    split at h
    · obtain ⟨left', hleft, h⟩ := Except.bind_eq_ok.1 h
      obtain ⟨right', hright, h⟩ := Except.bind_eq_ok.1 h
      cases h
      rw [Syntax.defaults, List.forall_mem_append] at hd
      exact (left.lower_meets hleft hd.1 n).append (right.lower_meets hright hd.2 _)
    · cases h
  | .logical _ left right, _, h, hd, n => by
    obtain ⟨left', hleft, h⟩ := Except.bind_eq_ok.1 h
    obtain ⟨right', hright, h⟩ := Except.bind_eq_ok.1 h
    cases h
    rw [Syntax.defaults, List.forall_mem_append] at hd
    exact (left.lower_meets hleft hd.1 n).append (right.lower_meets hright hd.2 _)
  | .conditional test yes no, _, h, hd, n => by
    obtain ⟨test', htest, h⟩ := Except.bind_eq_ok.1 h
    obtain ⟨yes', hyes, h⟩ := Except.bind_eq_ok.1 h
    obtain ⟨no', hno, h⟩ := Except.bind_eq_ok.1 h
    cases h
    rw [Syntax.defaults, List.forall_mem_append, List.forall_mem_append] at hd
    exact (test.lower_meets htest hd.1 n).append
      ((yes.lower_meets hyes hd.2.1 _).append (no.lower_meets hno hd.2.2 _))
  | .assign _ op target value, _, h, hd, n => by
    rw [Syntax.lower] at h
    split at h
    · obtain ⟨target', htarget, h⟩ := Except.bind_eq_ok.1 h
      obtain ⟨value', hvalue, h⟩ := Except.bind_eq_ok.1 h
      cases h
      rw [Syntax.defaults, List.forall_mem_append] at hd
      exact (target.lower_meets htarget hd.1 n).append (value.lower_meets hvalue hd.2 _)
    · cases h
  | .call callee arguments, _, h, hd, n => by
    obtain ⟨arguments', harguments, h⟩ := Except.bind_eq_ok.1 h
    obtain ⟨callee', hcallee, h⟩ := Except.bind_eq_ok.1 h
    cases h
    rw [Syntax.defaults, List.forall_mem_append] at hd
    exact (callee.lower_meets hcallee hd.1 n).append (lowerAll_meets arguments harguments hd.2 _)
  | .arrow _ isAsync params (some rest) body, _, h, _, _ => by
    rw [Syntax.lower, Option.isSome_some, Bool.or_true, if_pos rfl] at h
    cases h
  | .arrow _ isAsync params none body, _, h, hd, n => by
    rw [Syntax.lower] at h
    split at h
    · cases h
    obtain ⟨names, hnames, h⟩ := Except.bind_eq_ok.1 h
    obtain ⟨body', hbody, h⟩ := Except.bind_eq_ok.1 h
    cases h
    rw [Syntax.defaults, List.forall_mem_append] at hd
    have hbound := namesOfParams_lower params hnames hd.1 (n := n.enter) rfl
    rw [List.append_nil] at hbound
    have hmet := body.lower_meets hbody hd.2 (namesOfParams params n.enter)
    have hunbound := Naming.unbound_inside hbound body'.freeNames
    refine ⟨?_, ?_, fun hskipped => ?_⟩
    · change (body.names (namesOfParams params n.enter)).bound.tail = n.bound
      rw [hmet.bound, hbound, List.tail_cons]
    · have hfree := hmet.free
      rw [hunbound] at hfree
      exact ((namesOfParams_free params n.enter).append_left _).trans hfree
    · obtain ⟨hparams, hrest⟩ := List.append_eq_nil_iff.1 hskipped
      have hfree := hmet.exactly hrest
      rw [hunbound, namesOfParams_exact params hnames hparams] at hfree
      exact hfree
  | .paren inner, _, h, hd, n => inner.lower_meets h hd n
  | .sequence items, _, h, hd, n => by
    obtain ⟨items', hitems, h⟩ := Except.bind_eq_ok.1 h
    cases h
    exact lowerAll_meets items hitems hd n
  | .spread _ _ _, _, h, _, _ | .hole _, _, h, _, _ | .foreign _ _, _, h, _, _ => nomatch h

theorem lowerParts_meets : ∀ (parts : List (Syntax × String)) {xs : List (Expr × String)},
    lowerParts parts = .ok xs → (∀ d ∈ defaultsOfPieces parts, d.BindsNothing) →
    ∀ n : Naming, n.Meets (namesOfPieces parts n) (freeNamesOfParts xs) (defaultsOfPieces parts)
  | [], _, h, _, n => by
    cases h
    exact .refl n
  | (e, _) :: rest, _, h, hd, n => by
    obtain ⟨e', he, h⟩ := Except.bind_eq_ok.1 h
    obtain ⟨rest', hrest, h⟩ := Except.bind_eq_ok.1 h
    cases h
    rw [defaultsOfPieces, List.forall_mem_append] at hd
    exact (e.lower_meets he hd.1 n).append (lowerParts_meets rest hrest hd.2 _)

theorem lowerAll_meets : ∀ (items : List Syntax) {xs : List Expr}, lowerAll items = .ok xs →
    (∀ d ∈ defaultsOfAll items, d.BindsNothing) →
    ∀ n : Naming, n.Meets (namesOfAll items n) (freeNamesOfAll xs) (defaultsOfAll items)
  | [], _, h, _, n => by
    cases h
    exact .refl n
  | e :: rest, _, h, hd, n => by
    obtain ⟨e', he, h⟩ := Except.bind_eq_ok.1 h
    obtain ⟨rest', hrest, h⟩ := Except.bind_eq_ok.1 h
    cases h
    rw [defaultsOfAll, List.forall_mem_append] at hd
    exact (e.lower_meets he hd.1 n).append (lowerAll_meets rest hrest hd.2 _)

theorem lowerEntries_meets : ∀ (entries : List Entry) {xs : List (String × Expr)},
    lowerEntries entries = .ok xs → (∀ d ∈ defaultsOfEntries entries, d.BindsNothing) →
    ∀ n : Naming,
      n.Meets (namesOfEntries entries n) (freeNamesOfEntries xs) (defaultsOfEntries entries)
  | [], _, h, _, n => by
    cases h
    exact .refl n
  | .keyed _ value :: rest, _, h, hd, n => by
    obtain ⟨value', hvalue, h⟩ := Except.bind_eq_ok.1 h
    obtain ⟨rest', hrest, h⟩ := Except.bind_eq_ok.1 h
    cases h
    rw [defaultsOfEntries, List.forall_mem_append] at hd
    exact (value.lower_meets hvalue hd.1 n).append (lowerEntries_meets rest hrest hd.2 _)
  | .defaulted _ _ _ :: _, _, h, _, _ | .foreign _ _ :: _, _, h, _, _ => nomatch h

theorem Place.lower_meets : ∀ (p : Place) {target : Target}, p.lower = .ok target →
    (∀ d ∈ p.defaults, d.BindsNothing) →
    ∀ n : Naming, n.Meets (p.names n) target.freeNames p.defaults
  | .name id, _, h, _, n => by
    cases h
    exact n.refer_meets id
  | .member object _, _, h, hd, n => by
    obtain ⟨object', hobject, h⟩ := Except.bind_eq_ok.1 h
    cases h
    exact (object.lower_meets hobject hd n).append_nil
  | .index object key, _, h, hd, n => by
    obtain ⟨object', hobject, h⟩ := Except.bind_eq_ok.1 h
    obtain ⟨key', hkey, h⟩ := Except.bind_eq_ok.1 h
    cases h
    rw [Place.defaults, List.forall_mem_append] at hd
    exact (object.lower_meets hobject hd.1 n).append (key.lower_meets hkey hd.2 _)
  | .foreign _ _, _, h, _, _ => nomatch h

theorem Block.lower_meets : ∀ (b : Block) {body : Body}, b.lower = .ok body →
    (∀ d ∈ b.defaults, d.BindsNothing) →
    ∀ n : Naming, n.Meets (b.names n) body.freeNames b.defaults
  | .expression e, _, h, hd, n => by
    obtain ⟨e', he, h⟩ := Except.bind_eq_ok.1 h
    cases h
    exact e.lower_meets he hd n
  | .statements body, _, h, hd, n => by
    obtain ⟨body', hbody, h⟩ := Except.bind_eq_ok.1 h
    cases h
    exact lowerStatements_meets body hbody hd n

theorem lowerStatements_meets : ∀ (body : List Statement) {stmts : List Stmt},
    lowerStatements body = .ok stmts → (∀ d ∈ defaultsOfStatements body, d.BindsNothing) →
    ∀ n : Naming,
      n.Meets (namesOfStatements body n) (freeNamesOfStatements stmts) (defaultsOfStatements body)
  | [], _, h, _, n => by
    cases h
    exact .refl n
  | s :: rest, _, h, hd, n => by
    obtain ⟨s', hs, h⟩ := Except.bind_eq_ok.1 h
    obtain ⟨rest', hrest, h⟩ := Except.bind_eq_ok.1 h
    cases h
    rw [defaultsOfStatements, List.forall_mem_append] at hd
    rw [freeNamesOfStatements_append]
    exact (s.lower_meets hs hd.1 n).append (lowerStatements_meets rest hrest hd.2 _)

theorem Statement.lower_meets : ∀ (s : Statement) {stmts : List Stmt}, s.lower = .ok stmts →
    (∀ d ∈ s.defaults, d.BindsNothing) →
    ∀ n : Naming, n.Meets (s.names n) (freeNamesOfStatements stmts) s.defaults
  | .empty, _, h, _, n | .result none, _, h, _, n => by
    cases h
    exact .refl n
  | .expression e, _, h, hd, n => by
    obtain ⟨e', he, h⟩ := Except.bind_eq_ok.1 h
    cases h
    exact (e.lower_meets he hd n).append_nil
  | .result (some e), _, h, hd, n => by
    obtain ⟨e', he, h⟩ := Except.bind_eq_ok.1 h
    cases h
    exact (e.lower_meets he hd n).append_nil
  | .branch test yes none, _, h, hd, n => by
    obtain ⟨yes', hyes, h⟩ := Except.bind_eq_ok.1 h
    obtain ⟨test', htest, h⟩ := Except.bind_eq_ok.1 h
    cases h
    rw [Statement.defaults, List.forall_mem_append] at hd
    have hyes := (yes.lower_meets hyes hd.2 (test.names n)).append_nil
    exact ((test.lower_meets htest hd.1 n).append hyes).append_nil
  | .branch test yes (some no), _, h, hd, n => by
    obtain ⟨yes', hyes, h⟩ := Except.bind_eq_ok.1 h
    obtain ⟨no', hno, h⟩ := Except.bind_eq_ok.1 h
    obtain ⟨test', htest, h⟩ := Except.bind_eq_ok.1 h
    cases h
    rw [Statement.defaults, List.forall_mem_append, List.forall_mem_append] at hd
    have hboth := (yes.lower_meets hyes hd.2.1 (test.names n)).append (no.lower_meets hno hd.2.2 _)
    exact ((test.lower_meets htest hd.1 n).append hboth).append_nil
  | .block body, _, h, hd, n => by
    obtain ⟨body', hbody, h⟩ := Except.bind_eq_ok.1 h
    cases h
    exact (lowerStatements_meets body hbody hd n).append_nil
  | .foreign _ _, _, h, _, _ => nomatch h

end

theorem Naming.unbound_nil (names : List String) (free : List String) :
    (Naming.mk [] free).unbound names = names :=
  List.filter_eq_self.2 fun _ _ => rfl

/-- **Free names.** A tree without defaults of parameters and the expression it stands for have the
same free names. -/
theorem Syntax.freeNames_eq {e : Syntax} {x : Expr} (h : e.lower = .ok x) (hd : e.defaults = []) :
    e.freeNames = x.freeNames := by
  have hbinds : ∀ d ∈ e.defaults, d.BindsNothing := hd ▸ List.forall_mem_nil _
  have hexact := (e.lower_meets h hbinds ⟨[], []⟩).exactly hd
  rw [Syntax.freeNames, hexact, Naming.unbound_nil, List.append_nil, List.reverse_reverse]

/-- **Dependencies.** Where no default of a parameter binds a name, what an expression reads besides
the names that every expression knows is among its dependencies, and so is what it assigns to
unless it goes by one of those names. -/
theorem uses_dependencies {e : Syntax} {x : Expr} (h : e.lower = .ok x)
    (hd : ∀ d ∈ e.defaults, d.BindsNothing)
    (hw : ∀ ns, .write ns ∈ x.uses [] → globalValue? ns = none) :
    Confine (·.name ∈ e.dependencies) (x.uses []) := by
  intro u hu
  have hmet := (e.lower_meets h hd ⟨[], []⟩).free
  rw [Naming.unbound_nil, List.append_nil] at hmet
  have hfree := hmet.subset (List.mem_reverse.2 (x.uses_free [] u hu).1)
  have hmem : (globalValue? u.name).isNone → u.name ∈ e.dependencies := fun hg => by
    unfold Syntax.dependencies Syntax.freeNames
    rw [List.mem_eraseDups, List.mem_filter, List.mem_reverse]
    exact ⟨hfree, hg⟩
  cases u with
  | read id =>
    cases hg : globalValue? id with
    | some v => exact .inl (hg ▸ rfl)
    | none => exact .inr (hmem (by rw [Use.name, hg]; rfl))
  | write id => exact hmem (by rw [Use.name, hw id hu]; rfl)

end Trellis.Script
