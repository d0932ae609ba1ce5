import Trellis.Binding.Resolution
import Trellis.Proofs.Scope.Address
import Trellis.Proofs.Scope.Notices
import Trellis.Proofs.Scope.WellFormed
import Trellis.Proofs.Script.Assignments

/-!
# What the address of a change tells

The address of a written member is the path of its frame with the namespace and the keys behind it,
joined as they are. So two members may have one address: a point in a key reads like the end of one,
and a colon in a namespace or in a key like the end of a path. Writes that are reported at one address
are to one member exactly if theirs is not such an address, and without points and colons in keys
and without colons in namespaces it never is.

* `Value.parted_of_intercalate`: keys that are joined to one text lead to different members.
* `Handle.Clash`: one address of two members.
* `Handle.change_identifies`: what the address of a change tells.
* `Handle.change_ambiguous`: two members with one address.
-/

namespace Trellis

/-! ### Keys with points between them -/

/-- Keys, each behind a point. -/
def dotted (keys : List (List Char)) : List Char :=
  keys.flatMap ('.' :: ·)

theorem intercalate_eq_dotted (key : List Char) : ∀ keys : List (List Char),
    ['.'].intercalate (key :: keys) = key ++ dotted keys
  | [] => by rw [List.intercalate_singleton]; exact (List.append_nil key).symm
  | next :: keys => by
    rw [List.intercalate_cons_cons, intercalate_eq_dotted next keys, List.append_assoc]
    rfl

/-- What is in joined keys and no point is in one of them. -/
theorem mem_intercalate {c : Char} {keys : List (List Char)} (h : c ∈ ['.'].intercalate keys)
    (hc : c ≠ '.') : ∃ key ∈ keys, c ∈ key := by
  cases keys with
  | nil => cases h
  | cons key keys =>
    rw [intercalate_eq_dotted, List.mem_append] at h
    rcases h with h | h
    · exact ⟨key, List.mem_cons_self, h⟩
    · obtain ⟨next, hnext, h⟩ := List.mem_flatMap.1 h
      exact ⟨next, List.mem_cons_of_mem _ hnext, (List.mem_cons.1 h).resolve_left hc⟩

/-- Texts in front of dotted keys are the same if none of them holds a point. -/
theorem eq_of_append_dotted {k k' : List Char} {ks ks' : List (List Char)}
    (hk : '.' ∉ k) (hk' : '.' ∉ k') (h : k ++ dotted ks = k' ++ dotted ks') : k = k' := by
  -- what the one has more than the other would begin with a point
  have hrest : ∀ {c : List Char} {l l' : List (List Char)}, '.' ∉ c → dotted l = c ++ dotted l' →
      c = [] := by
    intro c l l' hc h
    cases c with
    | nil => rfl
    | cons x c =>
      cases l with
      | nil => cases h
      | cons key l =>
        have hx : '.' = x := (List.cons.inj h).1
        exact absurd (hx ▸ List.mem_cons_self) hc
  rcases List.append_eq_append_iff.1 h with ⟨c, rfl, hc⟩ | ⟨c, rfl, hc⟩
  · rw [hrest (fun hmem => hk' (List.mem_append_right _ hmem)) hc, List.append_nil]
  · rw [hrest (fun hmem => hk (List.mem_append_right _ hmem)) hc, List.append_nil]

/-- A place in a list is spelled without points. -/
theorem Number.notMem_of_index? {key : String} {i : Nat} (h : Number.index? key = some i) :
    '.' ∉ key.toList := by
  intro hmem
  unfold Number.index? at h
  have hpoint : ∀ cs : List Char, '.' ∈ cs → (cs.isEmpty || !cs.all Decimal.isDigit) = true := by
    intro cs hcs
    rw [Bool.or_eq_true, Bool.not_eq_true', List.all_eq_false]
    exact .inr ⟨'.', hcs, by decide⟩
  split at h
  · next cs heq =>
    have hcs : '.' ∈ cs := by
      rw [heq] at hmem
      exact (List.mem_cons.1 hmem).resolve_left (by decide)
    simp only [hpoint cs hcs, if_true] at h
    cases h
  · simp only [hpoint _ hmem, if_true] at h
    cases h

namespace Value

/-- **Keys** that are joined to one text lead to different members, if something can be put at
both. -/
theorem parted_of_intercalate {keys : List String} : ∀ {keys' : List String}
    {v x x' r r' : Value}, keys ≠ [] → keys' ≠ [] →
    ['.'].intercalate (keys.map String.toList) = ['.'].intercalate (keys'.map String.toList) →
    v.replace keys x = .ok r → v.replace keys' x' = .ok r' → keys ≠ keys' →
    v.Parted keys keys' := by
  induction keys with
  | nil => exact fun h => absurd rfl h
  | cons key rest ih =>
    intro keys' v x x' r r' _ hkeys' hjoin hr hr' hne
    cases keys' with
    | nil => exact absurd rfl hkeys'
    | cons key' rest' =>
      rw [List.map_cons, List.map_cons, intercalate_eq_dotted, intercalate_eq_dotted] at hjoin
      obtain ⟨y, hy, hbelow⟩ := replace_cons_eq_ok hr
      obtain ⟨y', hy', hbelow'⟩ := replace_cons_eq_ok hr'
      by_cases hkey : key = key'
      · subst hkey
        have hrest : dotted (rest.map String.toList) = dotted (rest'.map String.toList) :=
          List.append_cancel_left hjoin
        have hone : v.Coincide key key := by
          cases v with
          | array items =>
            obtain ⟨i, hi, -, -⟩ := replaceMember_array hy
            exact ⟨i, hi, hi⟩
          | _ => exact rfl
        cases rest with
        | nil =>
          cases rest' with
          | nil => exact absurd rfl hne
          | cons next' rest' => cases hrest
        | cons next rest =>
          cases rest' with
          | nil => cases hrest
          | cons next' rest' =>
            obtain ⟨inner, hinner, hreplaced⟩ := hbelow.resolve_left fun h => nomatch h.1
            obtain ⟨inner', hinner', hreplaced'⟩ := hbelow'.resolve_left fun h => nomatch h.1
            cases hinner.symm.trans hinner'
            refine .later hone hinner (ih (List.cons_ne_nil _ _) (List.cons_ne_nil _ _) ?_
              hreplaced hreplaced' fun h => hne (congrArg _ h))
            rw [List.map_cons, List.map_cons, intercalate_eq_dotted, intercalate_eq_dotted]
            exact (List.cons.inj hrest).2
      · refine .here fun hone => ?_
        cases v with
        | array items =>
          -- a key that goes on behind a point is no place
          obtain ⟨i, hi, hi'⟩ := hone
          exact hkey (String.toList_inj.1 (eq_of_append_dotted (Number.notMem_of_index? hi)
            (Number.notMem_of_index? hi') hjoin))
        | object members => exact hkey hone
        | _ => cases hy

/-- Keys that part do not go one way. -/
theorem Parted.not_sameWay {v : Value} {keys keys' : List String} (h : v.Parted keys keys') :
    ¬ v.SameWay keys keys' := by
  induction h with
  | here hapart =>
    intro h
    cases h with
    | last hone => exact hapart hone
    | step hone => exact hapart hone
  | later hone hthere hon ih =>
    intro h
    cases h with
    | last => cases hon
    | step _ hthere' hway =>
      cases hthere.symm.trans hthere'
      exact ih hway

end Value

/-! ### Addresses -/

namespace Handle

/-- What stands behind the path of a frame in the address of a member. -/
def Request.text (r : Request) : String :=
  ":" ++ r.ns ++ "." ++ ".".intercalate r.keys

theorem memberAddress_eq (f : Frame) (r : Request) :
    Store.memberAddress f r.ns r.keys = f.path ++ r.text := by
  unfold Store.memberAddress Request.text
  simp only [String.append_assoc]

/-- **One address of two members.** In one frame, other keys are joined to the same text. In two
frames, the path of the one goes on where the other one's ends, as its namespace and keys do. -/
inductive Clash (f : Frame) (r : Request) (f' : Frame) (r' : Request) : Prop
  | keys (frame : f.path = f'.path) (space : r.ns = r'.ns) (apart : r.keys ≠ r'.keys)
      (joined : ".".intercalate r.keys = ".".intercalate r'.keys)
  | inside (rest : String) (frames : f.path ≠ f'.path) (path : f'.path = f.path ++ rest)
      (on : r.text = rest ++ r'.text)
  | outside (rest : String) (frames : f.path ≠ f'.path) (path : f.path = f'.path ++ rest)
      (on : r'.text = rest ++ r.text)

/-- A write without points and colons in its keys and without colons in its namespace. -/
structure Request.Unmarked (r : Request) : Prop where
  points : ∀ key ∈ r.keys, '.' ∉ key.toList
  colons : ':' ∉ r.ns.toList ∧ ∀ key ∈ r.keys, ':' ∉ key.toList

variable {f f' : Frame} {r r' : Request}

theorem toList_text (r : Request) : r.text.toList =
    ':' :: (r.ns.toList ++ '.' :: (".".intercalate r.keys).toList) := by
  unfold Request.text
  simp only [String.toList_append]
  simp

/-- **Addresses are one text** for the same keys below one frame, and else only if they clash. -/
theorem address_eq_iff (hspace : f.path = f'.path → r.ns = r'.ns) :
    f.path ++ r.text = f'.path ++ r'.text ↔
      (f.path = f'.path ∧ r.keys = r'.keys) ∨ Clash f r f' r' := by
  constructor
  · intro h
    by_cases hpath : f.path = f'.path
    · have htext : r.text.toList = r'.text.toList := by
        rw [hpath] at h
        have hlist := congrArg String.toList h
        rw [String.toList_append, String.toList_append] at hlist
        exact List.append_cancel_left hlist
      rw [toList_text, toList_text, hspace hpath] at htext
      have hjoined := (List.cons.inj (List.append_cancel_left (List.cons.inj htext).2)).2
      by_cases hkeys : r.keys = r'.keys
      · exact .inl ⟨hpath, hkeys⟩
      · exact .inr (.keys hpath (hspace hpath) hkeys (String.toList_inj.1 hjoined))
    · have hlist := congrArg String.toList h
      rw [String.toList_append, String.toList_append] at hlist
      -- the one path goes on where the other one ends
      rcases List.append_eq_append_iff.1 hlist with ⟨c, hp, ht⟩ | ⟨c, hp, ht⟩
      · refine .inr (.inside (String.ofList c) hpath (String.toList_inj.1 ?_)
          (String.toList_inj.1 ?_))
        · rw [String.toList_append, String.toList_ofList, hp]
        · rw [String.toList_append, String.toList_ofList, ht]
      · refine .inr (.outside (String.ofList c) hpath (String.toList_inj.1 ?_)
          (String.toList_inj.1 ?_))
        · rw [String.toList_append, String.toList_ofList, hp]
        · rw [String.toList_append, String.toList_ofList, ht]
  · have htext : r.ns = r'.ns → ".".intercalate r.keys = ".".intercalate r'.keys →
        r.text = r'.text := by
      intro hns hjoined
      unfold Request.text
      rw [hns, hjoined]
    rintro (⟨hpath, hkeys⟩ | ⟨hpath, hns, -, hjoined⟩ | ⟨rest, -, hpath, hon⟩ | ⟨rest, -, hpath, hon⟩)
    · rw [hpath, htext (hspace hpath) (congrArg _ hkeys)]
    · rw [hpath, htext hns hjoined]
    · rw [hpath, hon, String.append_assoc]
    · rw [hpath, hon, String.append_assoc]

/-- Such a text does not begin inside another one. -/
theorem Request.Unmarked.text_ne (h : r.Unmarked) {p q rest : String} (hne : p ≠ q)
    (hp : q = p ++ rest) : r.text ≠ rest ++ r'.text := by
  intro heq
  have hlist := congrArg String.toList heq
  rw [String.toList_append, toList_text, toList_text] at hlist
  cases hchars : rest.toList with
  | nil =>
    refine hne (String.toList_inj.1 ?_)
    rw [hp, String.toList_append, hchars, List.append_nil]
  | cons c cs =>
    rw [hchars] at hlist
    have hmem : ':' ∈ r.ns.toList ++ '.' :: (".".intercalate r.keys).toList := by
      rw [(List.cons.inj hlist).2]
      exact List.mem_append_right _ List.mem_cons_self
    rcases List.mem_append.1 hmem with hns | hkeys
    · exact h.colons.1 hns
    · have hjoined := (List.mem_cons.1 hkeys).resolve_left (by decide)
      rw [String.toList_intercalate] at hjoined
      obtain ⟨_, hcs, hmem⟩ := mem_intercalate hjoined (by decide)
      obtain ⟨key, hkey, rfl⟩ := List.mem_map.1 hcs
      exact h.colons.2 key hkey hmem

/-- Without points and colons no two members have one address. -/
theorem Request.Unmarked.not_clash (h : r.Unmarked) (h' : r'.Unmarked) (hkeys : r.keys ≠ [])
    (hkeys' : r'.keys ≠ []) : ¬ Clash f r f' r' := by
  rintro (⟨-, -, hapart, hjoined⟩ | ⟨rest, hne, hp, hon⟩ | ⟨rest, hne, hp, hon⟩)
  · have hsplit : ∀ {keys : List String}, keys ≠ [] → (∀ key ∈ keys, '.' ∉ key.toList) →
        (".".intercalate keys).toList.splitOn '.' = keys.map String.toList := by
      intro keys hkeys hpoints
      rw [String.toList_intercalate]
      refine List.splitOn_intercalate '.' (fun cs hcs => ?_) (by simpa using hkeys)
      obtain ⟨key, hkey, rfl⟩ := List.mem_map.1 hcs
      exact hpoints key hkey
    have hmap := hsplit hkeys h.points
    rw [hjoined, hsplit hkeys' h'.points] at hmap
    exact hapart ((List.map_injective_iff.2 fun _ _ => String.toList_inj.1) hmap.symm)
  · exact h.text_ne hne hp hon
  · exact h'.text_ne hne.symm hp hon

/-! ### Changes -/

variable {h : Handle} {op op' : Operation} {w w' : Written}

/-- A write that succeeded found a frame and a place for the value, and its address is that of the
member. -/
theorem found_of_writeOf? (hw : h.writeOf? op = some w) : w.keys ≠ [] ∧ ∃ id f data,
    h.store.space w.scope w.ns = .ok (id, f) ∧ f.data.replace w.keys w.value = .ok data ∧
      w.address = f.path ++ w.text := by
  obtain ⟨r, -, hstore⟩ := Option.bind_eq_some_iff.1 hw
  split at hstore
  · next address store hok =>
    cases hstore
    have hkeys := Store.keys_ne_nil_of_write hok
    obtain ⟨id, f, data, hs, hr, -⟩ := Store.write_eq_ok hok
    rw [Store.write_of_space hkeys hs, hr] at hok
    cases hok
    exact ⟨hkeys, id, f, data, hs, hr, memberAddress_eq f r⟩
  · cases hstore

/-- What an expression stores below a namespace is a write like one of the host. -/
theorem writeOf?_of_store {p : Place} {root : String} {keys : List String} {v : Value}
    {s t : Session} (hstore : (p.store root keys v).runOn s = (.ok (), t)) :
    (∃ w, s.handle.writeOf? (.ask (.write p.scope root keys v)) = some w) ∧
      t.handle = s.handle.perform (.ask (.write p.scope root keys v)) := by
  have hrun := p.store_runOn root keys v s
  have hwrite := write_eq s.handle ⟨p.scope, root, keys, v⟩
  cases hs : s.handle.store.write p.scope root keys v with
  | error e =>
    rw [hs] at hwrite
    rw [hwrite] at hrun
    obtain ⟨e', he⟩ := hrun
    cases hstore.symm.trans he
  | ok e =>
    rw [hs] at hwrite
    rw [hwrite] at hrun
    cases hstore.symm.trans hrun
    have hw : s.handle.writeOf? (.ask (.write p.scope root keys v)) =
        some ⟨⟨p.scope, root, keys, v⟩, e.1, s.handle.subscribers, e.2⟩ := by
      unfold writeOf?
      rw [Operation.request?, Option.bind_some, hs]
    exact ⟨⟨_, hw⟩, (perform_of_writeOf? hw).symm⟩

/-- **What the address of a change tells.** In a store that operations lead to, two writes that
succeed, be it by the host, at a path or by an expression, are reported at one address if they are to
the same keys of one frame, and else only if they clash. If they are reported at one address they are
to one member exactly if they do not clash; and without points and colons in keys and without colons
in namespaces they never clash. What an expression stores below a namespace, whatever session it runs
in, is one write of this kind. -/
theorem change_identifies (hs : h.store.Reachable) (hw : h.writeOf? op = some w)
    (hw' : h.writeOf? op' = some w') :
    (h.perform op).deliveries = h.deliveries ++ w.told (h.revision + 1) ∧
    (h.perform op').deliveries = h.deliveries ++ w'.told (h.revision + 1) ∧
    (∀ (p : Place) (root : String) (keys : List String) (v : Value) (s t : Session),
      s.handle = h → (p.store root keys v).runOn s = (.ok (), t) →
        (∃ w, h.writeOf? (.ask (.write p.scope root keys v)) = some w) ∧
          t.handle = h.perform (.ask (.write p.scope root keys v))) ∧
    ∃ id f id' f', h.store.space w.scope w.ns = .ok (id, f) ∧
      h.store.space w'.scope w'.ns = .ok (id', f') ∧
      (w.address = w'.address ↔
        (id = id' ∧ w.keys = w'.keys) ∨ Clash f w.toRequest f' w'.toRequest) ∧
      (w.address = w'.address → ((id = id' ∧ f.data.SameWay w.keys w'.keys) ↔
        ¬ Clash f w.toRequest f' w'.toRequest)) ∧
      (w.Unmarked → w'.Unmarked → ¬ Clash f w.toRequest f' w'.toRequest) := by
  have hsound := hs.consistent.toSound
  obtain ⟨hkeys, id, f, data, hspace, hr, haddress⟩ := found_of_writeOf? hw
  obtain ⟨hkeys', id', f', data', hspace', hr', haddress'⟩ := found_of_writeOf? hw'
  obtain ⟨hf, hk⟩ := Store.frame?_of_space hspace
  obtain ⟨hf', hk'⟩ := Store.frame?_of_space hspace'
  -- frames at one address are one, and of one namespace
  have hframe : f.path = f'.path → id = id' ∧ f = f' ∧ w.ns = w'.ns := by
    intro hpath
    obtain rfl := hsound.eq_of_path hf hf' hpath
    obtain rfl := Option.some.inj (hf.symm.trans hf')
    exact ⟨rfl, rfl, FrameKind.space.inj (hk.symm.trans hk')⟩
  have hpath : id = id' → f.path = f'.path := by
    rintro rfl
    rw [Option.some.inj (hf.symm.trans hf')]
  have hiff := address_eq_iff (r := w.toRequest) (f := f) fun hp => (hframe hp).2.2
  rw [← haddress, ← haddress'] at hiff
  have hsame : w.address = w'.address ↔
      (id = id' ∧ w.keys = w'.keys) ∨ Clash f w.toRequest f' w'.toRequest := by
    rw [hiff, show f.path = f'.path ↔ id = id' from ⟨fun hp => (hframe hp).1, hpath⟩]
  refine ⟨?_, ?_, ?_, id, f, id', f', hspace, hspace', hsame, fun heq => ⟨?_, fun hfree => ?_⟩,
    fun hu hu' => hu.not_clash hu' hkeys hkeys'⟩
  · rw [perform_of_writeOf? hw]
  · rw [perform_of_writeOf? hw']
  · rintro p root keys v s t rfl hstore
    exact writeOf?_of_store hstore
  · rintro ⟨hid, hway⟩ (⟨hp, -, hapart, hjoined⟩ | ⟨-, hne, -, -⟩ | ⟨-, hne, -, -⟩)
    · obtain ⟨-, rfl, -⟩ := hframe hp
      have hlist := congrArg String.toList hjoined
      rw [String.toList_intercalate, String.toList_intercalate] at hlist
      exact (Value.parted_of_intercalate hkeys hkeys' hlist hr hr' hapart).not_sameWay hway
    · exact hne (hpath hid)
    · exact hne (hpath hid)
  · obtain ⟨hid, hk⟩ := (hsame.1 heq).resolve_right hfree
    rw [← hk]
    exact ⟨hid, Value.sameWay_self hr⟩

/-- A namespace with a box in it, and another one inside that. -/
def drawer : Handle :=
  new.run [.subscribe, .ask (.openSpace Store.rootId "0:n" "n"),
    .ask (.addData 1 "n" [("a", .object [])]), .ask (.openSpace 1 "0:m" "m")]

theorem drawer_reachable : drawer.store.Reachable :=
  ⟨[.openSpace Store.rootId "0:n" "n", .addData 1 "n" [("a", .object [])],
    .openSpace 1 "0:m" "m"], rfl⟩

/-- A write from the inner namespace and one at a path are reported at one address and are to one
member. -/
theorem change_identifies_drawer :
    ∃ w w', drawer.writeOf? (.ask (.write 2 "n" ["a", "b"] .null)) = some w ∧
      drawer.writeOf? (.writePath 1 ⟨"n", none, ["a", "b"]⟩ (.bool true)) = some w' ∧
      w.address = w'.address ∧ w.Unmarked ∧ w'.Unmarked ∧
      ∃ id f id' f', drawer.store.space 2 "n" = .ok (id, f) ∧
        drawer.store.space 1 "n" = .ok (id', f') ∧ id = id' ∧ f.data.SameWay w.keys w'.keys := by
  obtain ⟨w, hw⟩ : ∃ w, drawer.writeOf? (.ask (.write 2 "n" ["a", "b"] .null)) = some w :=
    ⟨_, rfl⟩
  obtain ⟨w', hw'⟩ : ∃ w, drawer.writeOf? (.writePath 1 ⟨"n", none, ["a", "b"]⟩ (.bool true)) =
      some w := ⟨_, rfl⟩
  obtain ⟨-, -, -, id, f, id', f', hspace, hspace', -, hone, hfree⟩ :=
    change_identifies drawer_reachable hw hw'
  cases hw
  cases hw'
  have hunmarked : ∀ scope v, Request.Unmarked ⟨scope, "n", ["a", "b"], v⟩ := fun _ _ =>
    have hpoints : ∀ key ∈ ["a", "b"], '.' ∉ key.toList := by decide
    have hcolon : ':' ∉ "n".toList := by decide
    have hcolons : ∀ key ∈ ["a", "b"], ':' ∉ key.toList := by decide
    ⟨hpoints, hcolon, hcolons⟩
  obtain ⟨hid, hway⟩ := (hone rfl).2 (hfree (hunmarked _ _) (hunmarked _ _))
  exact ⟨_, _, rfl, rfl, rfl, hunmarked _ _, hunmarked _ _, id, f, id', f', hspace, hspace', hid,
    hway⟩

/-- Whether an expression assigns null to a member with a point in its name. -/
def isPointed : Expr → Bool
  | .assign .assign (.member (.name "n") (.computed (.literal (.string "a.b")))) (.literal .null) =>
    true
  | _ => false

theorem eq_of_isPointed {x : Expr} (h : isPointed x = true) :
    x = .assign .assign (.member (.name "n") (.computed (.literal (.string "a.b"))))
      (.literal .null) := by
  unfold isPointed at h
  split at h
  · rfl
  · cases h

/-- **One address of two members.** What a host writes to the member `b` of the member `a`, and what
an expression assigns to the member `a.b`, is reported at one address. -/
theorem change_ambiguous :
    drawer.store.Reachable ∧ ∃ script, Script.compile "n['a.b'] = null" = .ok script ∧
    ∃ w w' f, drawer.writeOf? (.ask (.write 1 "n" ["a", "b"] .null)) = some w ∧
      drawer.writeOf? (.ask (.write 1 "n" ["a.b"] .null)) = some w' ∧
      ((script.run 1).runOn { Session.new with handle := drawer }).2.handle =
        drawer.perform (.ask (.write 1 "n" ["a.b"] .null)) ∧
      w.address = w'.address ∧ drawer.store.space 1 "n" = .ok (1, f) ∧
      ¬ f.data.SameWay w.keys w'.keys := by
  have hexpr : (Script.compile "n['a.b'] = null").toOption.any (isPointed ·.expr) = true := by
    decide +kernel
  cases hcompile : Script.compile "n['a.b'] = null" with
  | error e =>
    rw [hcompile] at hexpr
    cases hexpr
  | ok script =>
    obtain ⟨source, expr, dependencies⟩ := script
    rw [hcompile] at hexpr
    obtain rfl := eq_of_isPointed hexpr
    refine ⟨drawer_reachable, _, rfl, _, _, _, rfl, rfl, rfl, by decide, rfl, ?_⟩
    have hapart : "a" ≠ "a.b" := by decide
    exact Value.Parted.not_sameWay (.here hapart)

end Handle

end Trellis
