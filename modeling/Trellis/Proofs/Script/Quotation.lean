import Trellis.Proofs.Script.Subset
import Trellis.Script

/-!
# Nothing is dropped

The tree of a source can be read off the expression it stands for, parentheses, empty statements and
the defaults of parameters apart. So a source compiles if it is of the documented subset, and no
part of it is lost; only that defaults are dropped goes unsaid.

* `Expr.quote`: an expression as a tree.
* `Syntax.bare`: a tree without what an expression does not tell.
* `Syntax.quote_lower`: the two agree for the expression a tree stands for.
* `Script.compile_documented`: which sources compile, and what they compile to.
-/

namespace Trellis

/-! ### Operators -/

/-- The text of an operator. -/
def UnaryOp.text : UnaryOp → String
  | not => "!"
  | negate => "-"
  | plus => "+"
  | typeof => "typeof"

/-- The text of an operator. -/
def Arithmetic.text : Arithmetic → String
  | add => "+"
  | sub => "-"
  | mul => "*"
  | div => "/"
  | rem => "%"

/-- The text of an operator. -/
def BinaryOp.text : BinaryOp → String
  | arithmetic op => op.text
  | comparison .eq => "=="
  | comparison .notEq => "!="
  | comparison .strictEq => "==="
  | comparison .strictNotEq => "!=="
  | comparison .lt => "<"
  | comparison .le => "<="
  | comparison .gt => ">"
  | comparison .ge => ">="

/-- The text of an assignment. -/
def AssignOp.text : AssignOp → String
  | assign => "="
  | arithmetic op => op.text ++ "="
  | logical .and => "&&="
  | logical .or => "||="
  | logical .coalesce => "??="

namespace Script

theorem text_of_unaryOp? {text : String} {op : UnaryOp} (h : unaryOp? text = some op) :
    op.text = text := by
  unfold unaryOp? at h
  split at h <;> cases h <;> rfl

theorem text_of_binaryOp? {text : String} {op : BinaryOp} (h : binaryOp? text = some op) :
    op.text = text := by
  unfold binaryOp? at h
  split at h <;> cases h <;> rfl

theorem text_of_assignOp? {text : String} {op : AssignOp} (h : assignOp? text = some op) :
    op.text = text := by
  unfold assignOp? at h
  split at h <;> cases h <;> rfl

/-! ### Reading the tree off the expression -/

/-- What a parameter is without its default. -/
def Param.bare : Param → Param
  | name id _ => name id none
  | pattern span parts => pattern span parts

/-- A statement in a list, from which empty ones are left out. -/
def Statement.listed : Statement → List Statement
  | empty => []
  | s => [s]

/-- Statements where there is room for one. -/
def Statement.single : List Statement → Statement
  | [] => empty
  | [s] => s
  | body => block body

/-- What is done otherwise, if anything. -/
def Statement.otherwise : List Statement → Option Statement
  | [] => none
  | [s] => some s
  | body => some (block body)

mutual

/-- The tree without what an expression does not tell: places in the source, parentheses, empty
statements, and defaults of parameters. Forms that are not of the subset stay as they are. -/
def Syntax.bare : Syntax → Syntax
  | .literal value => .literal value
  | .name id => .name id
  | .template head parts => .template head (barePieces parts)
  | .member object key => .member object.bare key
  | .index object key => .index object.bare key.bare
  | .array items => .array (bareAll items)
  | .object entries => .object (bareEntries entries)
  | .unary _ op argument => .unary default op argument.bare
  | .binary _ op left right => .binary default op left.bare right.bare
  | .logical op left right => .logical op left.bare right.bare
  | .conditional test yes no => .conditional test.bare yes.bare no.bare
  | .assign _ op target value => .assign default op target.bare value.bare
  | .call callee arguments => .call callee.bare (bareAll arguments)
  | .arrow _ isAsync params rest body =>
    .arrow default isAsync (params.map Param.bare) rest body.bare
  | .paren inner => inner.bare
  | .sequence items => .sequence (bareAll items)
  | .spread span argument comma => .spread span argument comma
  | .hole span => .hole span
  | .foreign span parts => .foreign span parts

/-- Each expression of a template made bare. -/
def barePieces : List (Syntax × String) → List (Syntax × String)
  | [] => []
  | (e, text) :: rest => (e.bare, text) :: barePieces rest

/-- Each expression made bare. -/
def bareAll : List Syntax → List Syntax
  | [] => []
  | e :: rest => e.bare :: bareAll rest

/-- Each member of an object made bare. -/
def bareEntries : List Entry → List Entry
  | [] => []
  | .keyed key value :: rest => .keyed key value.bare :: bareEntries rest
  | .defaulted span id default :: rest => .defaulted span id default :: bareEntries rest
  | .foreign span parts :: rest => .foreign span parts :: bareEntries rest

/-- What is assigned to, made bare. -/
def Place.bare : Place → Place
  | .name id => .name id
  | .member object key => .member object.bare key
  | .index object key => .index object.bare key.bare
  | .foreign span parts => .foreign span parts

/-- A body made bare. -/
def Block.bare : Block → Block
  | .expression e => .expression e.bare
  | .statements body => .statements (bareStatements body)

/-- Each statement made bare, empty ones left out. -/
def bareStatements : List Statement → List Statement
  | [] => []
  | s :: rest => s.bare.listed ++ bareStatements rest

/-- A statement made bare. -/
def Statement.bare : Statement → Statement
  | .empty => .empty
  | .expression e => .expression e.bare
  | .result none => .result none
  | .result (some e) => .result (some e.bare)
  | .branch test yes none => .branch test.bare yes.bare none
  -- an empty statement in place of the alternative is as good as none
  | .branch test yes (some no) => .branch test.bare yes.bare (Statement.otherwise no.bare.listed)
  | .block body => .block (bareStatements body)
  | .foreign span parts => .foreign span parts

end

end Script

open Script (Syntax Entry Place Param Block Statement)

mutual

/-- The tree of an expression. It is nowhere in a source. -/
def Expr.quote : Expr → Syntax
  | .literal value => .literal value
  | .name id => .name id
  | .template head parts => .template head (quotePieces parts)
  | .member object (.static key) => .member object.quote key
  | .member object (.computed key) => .index object.quote key.quote
  | .array items => .array (quoteAll items)
  | .object entries => .object (quoteEntries entries)
  | .unary op argument => .unary default op.text argument.quote
  | .binary op left right => .binary default op.text left.quote right.quote
  | .logical op left right => .logical op left.quote right.quote
  | .conditional test yes no => .conditional test.quote yes.quote no.quote
  | .assign op target value => .assign default op.text target.quote value.quote
  | .call callee arguments => .call callee.quote (quoteAll arguments)
  | .lambda params body =>
    .arrow default false (params.map fun id => .name id none) none body.quote
  | .sequence items => .sequence (quoteAll items)

/-- The trees of the expressions of a template. -/
def quotePieces : List (Expr × String) → List (Syntax × String)
  | [] => []
  | (e, text) :: rest => (e.quote, text) :: quotePieces rest

/-- The trees of expressions. -/
def quoteAll : List Expr → List Syntax
  | [] => []
  | e :: rest => e.quote :: quoteAll rest

/-- The members of an object as trees. -/
def quoteEntries : List (String × Expr) → List Entry
  | [] => []
  | (key, e) :: rest => .keyed key e.quote :: quoteEntries rest

/-- What is assigned to as a tree. -/
def Target.quote : Target → Place
  | .name id => .name id
  | .member object (.static key) => .member object.quote key
  | .member object (.computed key) => .index object.quote key.quote

/-- A body as a tree. -/
def Body.quote : Body → Block
  | .expression e => .expression e.quote
  | .block statements => .statements (quoteStatements statements)

/-- Statements as trees. -/
def quoteStatements : List Stmt → List Statement
  | [] => []
  | s :: rest => s.quote :: quoteStatements rest

/-- A statement as a tree. -/
def Stmt.quote : Stmt → Statement
  | .expression e => .expression e.quote
  | .result none => .result none
  | .result (some e) => .result (some e.quote)
  | .branch test yes no =>
    .branch test.quote (Statement.single (quoteStatements yes))
      (Statement.otherwise (quoteStatements no))
  | .block statements => .block (quoteStatements statements)

end

theorem quoteStatements_append : ∀ ss ts : List Stmt,
    quoteStatements (ss ++ ts) = quoteStatements ss ++ quoteStatements ts
  | [], _ => rfl
  | s :: ss, ts => congrArg (s.quote :: ·) (quoteStatements_append ss ts)

namespace Script

theorem Statement.single_listed (s : Statement) : single s.listed = s := by
  cases s <;> rfl

theorem quote_lowerParams : ∀ {params : List Param} {names : List String},
    lowerParams params = .ok names →
    names.map (fun id => Param.name id none) = params.map Param.bare
  | [], _, h => by
    cases h
    rfl
  | .name id _ :: rest, _, h => by
    obtain ⟨names, hnames, h⟩ := Except.bind_eq_ok.1 h
    cases h
    exact congrArg (Param.name id none :: ·) (quote_lowerParams hnames)

mutual

/-- **The tree** of a source can be read off the expression it stands for. -/
theorem Syntax.quote_lower : ∀ (e : Syntax) {x : Expr}, e.lower = .ok x → x.quote = e.bare
  | .literal _, _, h | .name _, _, h => by
    cases h
    rfl
  | .template head parts, _, h => by
    obtain ⟨xs, hparts, h⟩ := Except.bind_eq_ok.1 h
    cases h
    exact congrArg (Syntax.template head) (quote_lowerParts parts hparts)
  | .member object key, _, h => by
    obtain ⟨o, ho, h⟩ := Except.bind_eq_ok.1 h
    cases h
    exact congrArg (Syntax.member · key) (object.quote_lower ho)
  | .index object key, _, h => by
    obtain ⟨o, ho, h⟩ := Except.bind_eq_ok.1 h
    obtain ⟨k, hk, h⟩ := Except.bind_eq_ok.1 h
    cases h
    exact congrArg₂ Syntax.index (object.quote_lower ho) (key.quote_lower hk)
  | .array items, _, h => by
    obtain ⟨xs, hitems, h⟩ := Except.bind_eq_ok.1 h
    cases h
    exact congrArg Syntax.array (quote_lowerAll items hitems)
  | .object entries, _, h => by
    obtain ⟨xs, hentries, h⟩ := Except.bind_eq_ok.1 h
    cases h
    exact congrArg Syntax.object (quote_lowerEntries entries hentries)
  | .unary _ text argument, _, h => by
    rw [Syntax.lower] at h
    split at h
    · next op hop =>
      obtain ⟨a, ha, h⟩ := Except.bind_eq_ok.1 h
      cases h
      exact congrArg₂ (Syntax.unary default) (text_of_unaryOp? hop) (argument.quote_lower ha)
    · cases h
  | .binary _ text left right, _, h => by
    rw [Syntax.lower] at h
    split at h
    · next op hop =>
      obtain ⟨l, hl, h⟩ := Except.bind_eq_ok.1 h
      obtain ⟨r, hr, h⟩ := Except.bind_eq_ok.1 h
      cases h
      rw [Expr.quote, Syntax.bare, text_of_binaryOp? hop, left.quote_lower hl, right.quote_lower hr]
    · cases h
  | .logical op left right, _, h => by
    obtain ⟨l, hl, h⟩ := Except.bind_eq_ok.1 h
    obtain ⟨r, hr, h⟩ := Except.bind_eq_ok.1 h
    cases h
    exact congrArg₂ (Syntax.logical op) (left.quote_lower hl) (right.quote_lower hr)
  | .conditional test yes no, _, h => by
    obtain ⟨t, ht, h⟩ := Except.bind_eq_ok.1 h
    obtain ⟨y, hy, h⟩ := Except.bind_eq_ok.1 h
    obtain ⟨n, hn, h⟩ := Except.bind_eq_ok.1 h
    cases h
    rw [Expr.quote, Syntax.bare, test.quote_lower ht, yes.quote_lower hy, no.quote_lower hn]
  | .assign _ text target value, _, h => by
    rw [Syntax.lower] at h
    split at h
    · next op hop =>
      obtain ⟨t, ht, h⟩ := Except.bind_eq_ok.1 h
      obtain ⟨v, hv, h⟩ := Except.bind_eq_ok.1 h
      cases h
      rw [Expr.quote, Syntax.bare, text_of_assignOp? hop, target.quote_lower ht,
        value.quote_lower hv]
    · cases h
  | .call callee arguments, _, h => by
    obtain ⟨xs, hargs, h⟩ := Except.bind_eq_ok.1 h
    obtain ⟨c, hc, h⟩ := Except.bind_eq_ok.1 h
    cases h
    exact congrArg₂ Syntax.call (callee.quote_lower hc) (quote_lowerAll arguments hargs)
  | .arrow _ isAsync params rest body, _, h => by
    rw [Syntax.lower] at h
    split at h
    · cases h
    · next hplain =>
      obtain ⟨names, hnames, h⟩ := Except.bind_eq_ok.1 h
      obtain ⟨b, hb, h⟩ := Except.bind_eq_ok.1 h
      cases h
      obtain ⟨hasync, hrest⟩ := not_special_iff.1 hplain
      rw [Expr.quote, Syntax.bare, quote_lowerParams hnames, body.quote_lower hb, hasync, hrest]
  | .paren inner, _, h => inner.quote_lower h
  | .sequence items, _, h => by
    obtain ⟨xs, hitems, h⟩ := Except.bind_eq_ok.1 h
    cases h
    exact congrArg Syntax.sequence (quote_lowerAll items hitems)
  | .spread _ _ _, _, h | .hole _, _, h | .foreign _ _, _, h => nomatch h

theorem quote_lowerParts : ∀ (parts : List (Syntax × String)) {xs : List (Expr × String)},
    lowerParts parts = .ok xs → quotePieces xs = barePieces parts
  | [], _, h => by
    cases h
    rfl
  | (e, text) :: rest, _, h => by
    obtain ⟨x, hx, h⟩ := Except.bind_eq_ok.1 h
    obtain ⟨xs, hxs, h⟩ := Except.bind_eq_ok.1 h
    cases h
    rw [quotePieces, barePieces, e.quote_lower hx, quote_lowerParts rest hxs]

theorem quote_lowerAll : ∀ (items : List Syntax) {xs : List Expr},
    lowerAll items = .ok xs → quoteAll xs = bareAll items
  | [], _, h => by
    cases h
    rfl
  | e :: rest, _, h => by
    obtain ⟨x, hx, h⟩ := Except.bind_eq_ok.1 h
    obtain ⟨xs, hxs, h⟩ := Except.bind_eq_ok.1 h
    cases h
    exact congrArg₂ List.cons (e.quote_lower hx) (quote_lowerAll rest hxs)

theorem quote_lowerEntries : ∀ (entries : List Entry) {xs : List (String × Expr)},
    lowerEntries entries = .ok xs → quoteEntries xs = bareEntries entries
  | [], _, h => by
    cases h
    rfl
  | .keyed key value :: rest, _, h => by
    obtain ⟨x, hx, h⟩ := Except.bind_eq_ok.1 h
    obtain ⟨xs, hxs, h⟩ := Except.bind_eq_ok.1 h
    cases h
    rw [quoteEntries, bareEntries, value.quote_lower hx, quote_lowerEntries rest hxs]
  | .defaulted _ _ _ :: _, _, h | .foreign _ _ :: _, _, h => nomatch h

theorem Place.quote_lower : ∀ (p : Place) {x : Target}, p.lower = .ok x → x.quote = p.bare
  | .name _, _, h => by
    cases h
    rfl
  | .member object key, _, h => by
    obtain ⟨o, ho, h⟩ := Except.bind_eq_ok.1 h
    cases h
    exact congrArg (Place.member · key) (object.quote_lower ho)
  | .index object key, _, h => by
    obtain ⟨o, ho, h⟩ := Except.bind_eq_ok.1 h
    obtain ⟨k, hk, h⟩ := Except.bind_eq_ok.1 h
    cases h
    exact congrArg₂ Place.index (object.quote_lower ho) (key.quote_lower hk)
  | .foreign _ _, _, h => nomatch h

theorem Block.quote_lower : ∀ (b : Block) {x : Body}, b.lower = .ok x → x.quote = b.bare
  | .expression e, _, h => by
    obtain ⟨x, hx, h⟩ := Except.bind_eq_ok.1 h
    cases h
    exact congrArg Block.expression (e.quote_lower hx)
  | .statements body, _, h => by
    obtain ⟨xs, hxs, h⟩ := Except.bind_eq_ok.1 h
    cases h
    exact congrArg Block.statements (quote_lowerStatements body hxs)

theorem quote_lowerStatements : ∀ (body : List Statement) {xs : List Stmt},
    lowerStatements body = .ok xs → quoteStatements xs = bareStatements body
  | [], _, h => by
    cases h
    rfl
  | s :: rest, _, h => by
    obtain ⟨ss, hs, h⟩ := Except.bind_eq_ok.1 h
    obtain ⟨ts, hts, h⟩ := Except.bind_eq_ok.1 h
    cases h
    rw [quoteStatements_append, bareStatements, s.quote_lower hs, quote_lowerStatements rest hts]

theorem Statement.quote_lower : ∀ (s : Statement) {xs : List Stmt}, s.lower = .ok xs →
    quoteStatements xs = s.bare.listed
  | .empty, _, h | .result none, _, h => by
    cases h
    rfl
  | .expression e, _, h | .result (some e), _, h => by
    obtain ⟨x, hx, h⟩ := Except.bind_eq_ok.1 h
    cases h
    rw [quoteStatements, Stmt.quote, e.quote_lower hx]
    rfl
  | .branch test yes none, _, h => by
    obtain ⟨ys, hys, h⟩ := Except.bind_eq_ok.1 h
    obtain ⟨t, ht, h⟩ := Except.bind_eq_ok.1 h
    cases h
    rw [quoteStatements, Stmt.quote, test.quote_lower ht, yes.quote_lower hys,
      Statement.single_listed]
    rfl
  | .branch test yes (some no), _, h => by
    obtain ⟨ys, hys, h⟩ := Except.bind_eq_ok.1 h
    obtain ⟨ns, hns, h⟩ := Except.bind_eq_ok.1 h
    obtain ⟨t, ht, h⟩ := Except.bind_eq_ok.1 h
    cases h
    rw [quoteStatements, Stmt.quote, test.quote_lower ht, yes.quote_lower hys, no.quote_lower hns,
      Statement.single_listed]
    rfl
  | .block body, _, h => by
    obtain ⟨xs, hxs, h⟩ := Except.bind_eq_ok.1 h
    cases h
    rw [quoteStatements, Stmt.quote, quote_lowerStatements body hxs]
    rfl
  | .foreign _ _, _, h => nomatch h

end

end Script

/-! ### Sources -/

/-- **A source compiles** if it is of the subset, its parameters with or without defaults. So where
none has a default, a source compiles if it is of the documented subset. Any other source that parses
is turned away with a piece of its text. What a source compiles to tells its tree: nothing is left
out but parentheses, empty statements and defaults. -/
theorem Script.compile_documented {source : String} {tree : Syntax}
    (hparse : Syntax.parse? source = some tree) :
    ((∃ s, compile source = .ok s) ↔ tree.Within Param.Named) ∧
      (tree.defaults = [] → ((∃ s, compile source = .ok s) ↔ tree.Documented)) ∧
      (∀ fault, compile source = .error fault → ∃ span : Script.Span,
        fault = .unsupported (span.text source)) ∧
      ∀ s, compile source = .ok s → s.expr.quote = tree.bare := by
  -- names are collected without fail, so compiling fails where lowering does
  have hlower : (∃ s, compile source = .ok s) ↔ ∃ x, tree.lower = .ok x := by
    rw [compile, hparse]
    simp only
    split
    · next x hx => exact iff_of_true ⟨_, rfl⟩ ⟨x, hx⟩
    · next span hspan => exact iff_of_false nofun fun ⟨x, hx⟩ => nomatch hspan.symm.trans hx
  have hwithin := hlower.trans tree.exists_lower_ok
  refine ⟨hwithin, fun hnone => ?_, fun fault h => ?_, fun s h => ?_⟩
  · rw [hwithin, Syntax.Documented, tree.documented_iff, and_iff_left hnone]
  · rw [compile, hparse] at h
    simp only at h
    split at h
    · cases h
    · next span _ =>
      cases h
      exact ⟨span, rfl⟩
  · rw [compile, hparse] at h
    simp only at h
    split at h
    · next x hx =>
      cases h
      exact tree.quote_lower hx
    · cases h

/-- Recognizes the tree of `v => { if (v) return (v.k); ; }`, wherever its parts are in a source. -/
def Script.Syntax.isReader : Syntax → Bool
  | .arrow _ false [.name "v" none] none (.statements [.branch (.name "v")
      (.result (some (.paren (.member (.name "v") "k")))) none, .empty]) => true
  | _ => false

theorem Script.Syntax.eq_of_isReader {tree : Syntax} (h : tree.isReader) :
    ∃ span, tree = .arrow span false [.name "v" none] none (.statements [.branch (.name "v")
      (.result (some (.paren (.member (.name "v") "k")))) none, .empty]) := by
  unfold isReader at h
  split at h
  · exact ⟨_, rfl⟩
  · cases h

/-- A function with a choice, parentheses and an empty statement. -/
theorem Script.compile_documented_reader :
    ∃ tree s, Syntax.parse? "v => \x7b if (v) return (v.k); ; \x7d" = some tree ∧
      tree.Documented ∧ compile "v => \x7b if (v) return (v.k); ; \x7d" = .ok s ∧
      s.expr.quote = tree.bare := by
  have htree : (Syntax.parse? "v => \x7b if (v) return (v.k); ; \x7d").any Syntax.isReader =
      true := by
    decide +kernel
  obtain ⟨tree, hparse, hreader⟩ := (Option.any_eq_true _ _).1 htree
  obtain ⟨span, rfl⟩ := Syntax.eq_of_isReader hreader
  have hplain : ∀ p ∈ [Param.name "v" none], p.Simple := by
    intro p hp
    rw [List.mem_singleton.1 hp]
    exact ⟨"v", rfl⟩
  have hdocumented : Syntax.Documented (.arrow span false [.name "v" none] none
      (.statements [.branch (.name "v")
        (.result (some (.paren (.member (.name "v") "k")))) none, .empty])) :=
    ⟨rfl, rfl, hplain, ⟨trivial, trivial⟩, trivial, trivial⟩
  obtain ⟨-, hiff, -, hquote⟩ := compile_documented hparse
  obtain ⟨s, hs⟩ := (hiff rfl).2 hdocumented
  exact ⟨_, s, hparse, hdocumented, hs, hquote s hs⟩

/-- Recognizes the tree of `(a = 1) => a`, wherever its parts are in a source. -/
def Script.Syntax.isDefaulted : Syntax → Bool
  | .arrow _ false [.name "a" (some (.literal (.number _)))] none (.expression (.name "a")) => true
  | _ => false

theorem Script.Syntax.eq_of_isDefaulted {tree : Syntax} (h : tree.isDefaulted) :
    ∃ span x, tree = .arrow span false [.name "a" (some (.literal (.number x)))] none
      (.expression (.name "a")) := by
  unfold isDefaulted at h
  split at h
  · exact ⟨_, _, rfl⟩
  · cases h

/-- **A default is dropped** without notice: the source is not of the subset that is documented, and
compiles to a function without it. -/
theorem Script.compiles_undocumented :
    ∃ tree s, Syntax.parse? "(a = 1) => a" = some tree ∧ ¬ tree.Documented ∧
      compile "(a = 1) => a" = .ok s ∧ s.expr = .lambda ["a"] (.expression (.name "a")) := by
  have htree : (Syntax.parse? "(a = 1) => a").any Syntax.isDefaulted = true := by
    decide +kernel
  obtain ⟨tree, hparse, hdefaulted⟩ := (Option.any_eq_true _ _).1 htree
  obtain ⟨span, x, rfl⟩ := Syntax.eq_of_isDefaulted hdefaulted
  refine ⟨_, ⟨"(a = 1) => a", .lambda ["a"] (.expression (.name "a")), []⟩, hparse, ?_, ?_, rfl⟩
  · rintro ⟨-, -, hplain, -⟩
    obtain ⟨id, hid⟩ := hplain _ List.mem_cons_self
    cases hid
  · rw [compile, hparse]
    rfl

end Trellis
