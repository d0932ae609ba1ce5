import Trellis.Proofs.Scope.Chain
import Mathlib.Data.List.Nodup

/-!
# Sound stores

In a sound store the index of addresses and the frames say the same: each live frame is found at its
address, and no two live frames share one. Every operation keeps stores sound, so a frame is opened
once, and opening its address again leads to it.

* `Store.Sound`: the invariant; `Store.Sound.of_outline`: it does not depend on data.
* `Store.openFrame_cases`: all that opening a frame can come to.
* `Store.Sound.openFrame`, `Store.Sound.beginPass`, `Store.Sound.finishPass`: the operations.
-/

namespace Trellis

namespace Store

/-- The frames and the index of addresses fit together, around a root that every pass touches. -/
structure Sound (s : Store) : Prop where
  ids : (s.frames.map Prod.fst).Nodup
  names : s.addresses.Distinct
  indexed : ∀ id f, s.frame? id = some f → s.scopeAt? f.path = some id
  live : ∀ path id, s.scopeAt? path = some id → ∃ f, s.frame? id = some f ∧ f.path = path
  fresh : ∀ id f, s.frame? id = some f → id < s.nextId
  past : ∀ id f, s.frame? id = some f → f.epoch ≤ s.epoch
  root : ∃ f, s.frame? rootId = some f ∧ f.path = "" ∧ f.parent = none ∧ f.kind = .root ∧
    f.epoch = s.epoch

variable {s t : Store} {id j parent : ScopeId} {f g outer : Frame}

/-- Live frames at one address are the same. -/
theorem Sound.eq_of_path (h : s.Sound) (hf : s.frame? id = some f) (hg : s.frame? j = some g)
    (hpath : f.path = g.path) : id = j := by
  have hid := h.indexed id f hf
  rw [hpath, h.indexed j g hg] at hid
  exact (Option.some.inj hid).symm

theorem frame?_new (hf : Store.new.frame? id = some f) : id = rootId ∧ f = .root := by
  by_cases hid : id = rootId
  · subst hid
    cases hf
    exact ⟨rfl, rfl⟩
  · have hb : (id == rootId) = false := beq_eq_false_iff_ne.mpr hid
    change List.lookup id [(rootId, Frame.root)] = some f at hf
    rw [List.lookup_cons, hb] at hf
    cases hf

theorem Sound.new : Store.new.Sound where
  ids := by decide
  names := by unfold Members.Distinct; decide
  indexed := by
    intro id f hf
    obtain ⟨rfl, rfl⟩ := frame?_new hf
    rfl
  live := by
    intro path id hid
    change Members.get? [("", rootId)] path = some id at hid
    rw [Members.get?_cons] at hid
    split at hid
    · next hpath => cases hid; exact ⟨.root, rfl, hpath.symm⟩
    · cases hid
  fresh := by
    intro id f hf
    obtain ⟨rfl, rfl⟩ := frame?_new hf
    decide
  past := by
    intro id f hf
    obtain ⟨rfl, rfl⟩ := frame?_new hf
    decide
  root := ⟨.root, rfl, rfl, rfl, rfl, rfl⟩

/-- **Changing frames in place**, and the epoch with them, keeps a store sound if they keep their
addresses, are not from later on, and the root keeps its nature and is up to date. -/
theorem Sound.mapFrames (h : s.Sound) {g : ScopeId → Frame → Frame} {now : Nat}
    (hpath : ∀ i f, (g i f).path = f.path)
    (hpast : ∀ i f, f.epoch ≤ s.epoch → (g i f).epoch ≤ now)
    (hroot : ∀ f, f.epoch = s.epoch → (g rootId f).parent = f.parent ∧
      (g rootId f).kind = f.kind ∧ (g rootId f).epoch = now) :
    (({ s with epoch := now } : Store).mapFrames g).Sound := by
  have hframe : ∀ id, (({ s with epoch := now } : Store).mapFrames g).frame? id =
      (s.frame? id).map (g id) := fun _ => frame?_mapFrames g
  have hold : ∀ {id f}, (({ s with epoch := now } : Store).mapFrames g).frame? id = some f →
      ∃ f₀, s.frame? id = some f₀ ∧ g id f₀ = f :=
    fun hf => Option.map_eq_some_iff.1 (hframe _ ▸ hf)
  refine ⟨?_, h.names, ?_, ?_, ?_, ?_, ?_⟩
  · unfold Store.mapFrames
    simp only [List.map_map, Function.comp_def]
    exact h.ids
  · intro id f hf
    obtain ⟨f₀, hf₀, rfl⟩ := hold hf
    rw [hpath]
    exact h.indexed id f₀ hf₀
  · intro path id hid
    obtain ⟨f, hf, hp⟩ := h.live path id hid
    refine ⟨g id f, ?_, (hpath id f).trans hp⟩
    rw [hframe, hf]
    rfl
  · intro id f hf
    obtain ⟨f₀, hf₀, -⟩ := hold hf
    exact h.fresh id f₀ hf₀
  · intro id f hf
    obtain ⟨f₀, hf₀, rfl⟩ := hold hf
    exact hpast id f₀ (h.past id f₀ hf₀)
  · obtain ⟨f, hf, hp, hpar, hk, he⟩ := h.root
    obtain ⟨hpar', hk', he'⟩ := hroot f he
    refine ⟨g rootId f, ?_, (hpath _ f).trans hp, hpar'.trans hpar, hk'.trans hk, he'⟩
    rw [hframe, hf]
    rfl

/-- The outline of a store says whether it is sound. -/
theorem Sound.of_outline (h : s.Sound) (ho : t.outline = s.outline) : t.Sound := by
  have hs : s.outline.Sound :=
    h.mapFrames (fun _ _ => rfl) (fun _ _ he => he) fun _ he => ⟨rfl, rfl, he⟩
  rw [← ho] at hs
  -- a frame and the bare one are at one address, of one kind and from one epoch
  have hback : ∀ {id f}, t.frame? id = some f → t.outline.frame? id = some f.bare := by
    intro id f hf
    rw [frame?_outline, hf]
    rfl
  have hforth : ∀ {id f}, t.outline.frame? id = some f → ∃ f', t.frame? id = some f' ∧ f'.bare = f :=
    fun hf => Option.map_eq_some_iff.1 (frame?_outline ▸ hf)
  refine ⟨?_, hs.names, ?_, ?_, ?_, ?_, ?_⟩
  · have hids := hs.ids
    unfold outline Store.mapFrames at hids
    simpa only [List.map_map, Function.comp_def] using hids
  · intro id f hf
    exact hs.indexed id f.bare (hback hf)
  · intro path id hid
    obtain ⟨f, hf, hp⟩ := hs.live path id hid
    obtain ⟨f', hf', rfl⟩ := hforth hf
    exact ⟨f', hf', hp⟩
  · intro id f hf
    exact hs.fresh id f.bare (hback hf)
  · intro id f hf
    exact hs.past id f.bare (hback hf)
  · obtain ⟨f, hf, hp, hpar, hk, he⟩ := hs.root
    obtain ⟨f', hf', rfl⟩ := hforth hf
    exact ⟨f', hf', hp, hpar, hk, he⟩

/-! ### Opening -/

/-- A frame when it is opened. -/
def opened (epoch : Nat) (outer : ScopeId) (path : String) (kind : FrameKind) : Frame :=
  ⟨path, some outer, kind, .empty, epoch⟩

/-- The store with one more frame. -/
def insert (s : Store) (f : Frame) : Store :=
  { s with
    frames := (s.nextId, f) :: s.frames
    addresses := Members.assign s.addresses f.path s.nextId
    nextId := s.nextId + 1 }

/-- What becomes of a frame `f` that a pass enters as something of a kind. -/
structure Entered (now : Nat) (what : FrameKind) (f : Frame) (created : Bool)
    (g : Frame → Frame) : Prop where
  path : ∀ x, (g x).path = x.path
  parent : ∀ x, (g x).parent = x.parent
  epoch : ∀ x, (g x).epoch = now
  kind : (g f).kind = what
  kept : created = false → (g f).data = f.data ∧ f.kind = what
  cleared : created = true → (g f).data = .empty ∧ f.kind ≠ what

/-- **Opening a frame** inside a live one enters the frame that has its address, or makes one. -/
theorem openFrame_cases (h : s.Sound) (hp : s.frame? parent = some outer) (segment : String)
    (kind : FrameKind) :
    (∃ id f created g, s.frame? id = some f ∧ f.path = outer.address segment ∧
      Entered s.epoch kind f created g ∧
      s.openFrame parent segment kind = .ok ((id, created), s.modify id g)) ∨
    (s.scopeAt? (outer.address segment) = none ∧
      s.openFrame parent segment kind = .ok ((s.nextId, true),
        s.insert (opened s.epoch parent (outer.address segment) kind))) := by
  unfold openFrame
  rw [hp]
  simp only
  cases ha : s.scopeAt? (outer.address segment) with
  | none => exact .inr ⟨rfl, rfl⟩
  | some id =>
    obtain ⟨f, hf, hpath⟩ := h.live _ id ha
    simp only [hf]
    by_cases hk : f.kind = kind
    · refine .inl ⟨id, f, false, _, hf, hpath, ?_, if_pos hk⟩
      exact ⟨fun _ => rfl, fun _ => rfl, fun _ => rfl, hk, fun _ => ⟨rfl, hk⟩, nofun⟩
    · refine .inl ⟨id, f, true, _, hf, hpath, ?_, if_neg hk⟩
      exact ⟨fun _ => rfl, fun _ => rfl, fun _ => rfl, rfl, nofun, fun _ => ⟨rfl, hk⟩⟩

/-- An address inside a frame is not the root's. -/
theorem address_ne_root (f : Frame) (segment : String) : f.address segment ≠ "" := by
  intro h
  have hlist := congrArg String.toList h
  unfold Frame.address at hlist
  simp at hlist

/-- Opening an address inside a frame does not enter the root. -/
theorem Sound.ne_root (h : s.Sound) {segment : String} (hf : s.frame? id = some f)
    (hpath : f.path = outer.address segment) : id ≠ rootId := by
  rintro rfl
  obtain ⟨r, hr, hp, -⟩ := h.root
  rw [hf] at hr
  cases hr
  exact address_ne_root outer segment (hpath.symm.trans hp)

theorem frame?_insert_self (f : Frame) : (s.insert f).frame? s.nextId = some f := by
  unfold frame? insert
  simp

theorem frame?_insert_of_ne (f : Frame) (hj : j ≠ s.nextId) :
    (s.insert f).frame? j = s.frame? j := by
  unfold frame? insert
  simp only [List.lookup_cons, beq_eq_false_iff_ne.mpr hj]

/-- A frame is the one that was made last, or was there before. -/
theorem frame?_insert_cases {g : Frame} (h : (s.insert f).frame? id = some g) :
    (id = s.nextId ∧ g = f) ∨ s.frame? id = some g := by
  by_cases hid : id = s.nextId
  · subst hid
    rw [frame?_insert_self] at h
    exact .inl ⟨rfl, (Option.some.inj h).symm⟩
  · rw [frame?_insert_of_ne f hid] at h
    exact .inr h

theorem Sound.ne_nextId (h : s.Sound) (hf : s.frame? id = some f) : id ≠ s.nextId :=
  Nat.ne_of_lt (h.fresh id f hf)

/-- A change of the last frame that was made. -/
theorem modify_insert (h : s.Sound) {g : Frame → Frame} (hg : (g f).path = f.path) :
    (s.insert f).modify s.nextId g = s.insert (g f) := by
  -- the other frames have other numbers
  have hold : s.frames.map (fun e => if e.1 = s.nextId then (e.1, g e.2) else e) = s.frames := by
    refine (List.map_congr_left fun e he => ?_).trans (List.map_id _)
    have hne : e.1 ≠ s.nextId := by
      intro heq
      have hsome : (s.frame? e.1).isSome := List.lookup_isSome_iff.2 ⟨e, he, by simp⟩
      obtain ⟨f', hf'⟩ := Option.isSome_iff_exists.1 hsome
      exact h.ne_nextId hf' heq
    simp [hne]
  unfold modify insert
  simp only [List.map_cons, if_true, hold, hg]

/-- Frames that were there are there when one more is made. -/
theorem Sound.frame?_insert (h : s.Sound) (hf : s.frame? id = some f) (g : Frame) :
    (s.insert g).frame? id = some f :=
  (frame?_insert_of_ne g (h.ne_nextId hf)).trans hf

theorem Sound.insert (h : s.Sound) (hpath : s.scopeAt? f.path = none) (hepoch : f.epoch = s.epoch) :
    (s.insert f).Sound where
  ids := by
    -- numbers are given in order, so the next one is free
    have hnew : s.nextId ∉ s.frames.map Prod.fst := by
      intro hm
      obtain ⟨e, he, hid⟩ := List.mem_map.1 hm
      have hlive : (s.frame? e.1).isSome := List.lookup_isSome_iff.2 ⟨e, he, beq_self_eq_true _⟩
      obtain ⟨g, hg⟩ := Option.isSome_iff_exists.1 hlive
      exact h.ne_nextId hg hid
    exact List.nodup_cons.2 ⟨hnew, h.ids⟩
  names := h.names.assign _ _
  indexed := by
    intro id g hg
    change Members.get? (Members.assign s.addresses f.path s.nextId) g.path = some id
    rcases frame?_insert_cases hg with ⟨rfl, rfl⟩ | hg
    · exact Members.get?_assign_self _ _ _
    · have hg' := h.indexed id g hg
      rw [Members.get?_assign_of_ne]
      · exact hg'
      · intro heq
        rw [← heq, hg'] at hpath
        cases hpath
  live := by
    intro path id hid
    change Members.get? (Members.assign s.addresses f.path s.nextId) path = some id at hid
    by_cases heq : path = f.path
    · subst heq
      rw [Members.get?_assign_self] at hid
      cases hid
      exact ⟨f, frame?_insert_self f, rfl⟩
    · rw [Members.get?_assign_of_ne _ heq] at hid
      obtain ⟨g, hg, hp⟩ := h.live path id hid
      exact ⟨g, (frame?_insert_of_ne f (h.ne_nextId hg)).trans hg, hp⟩
  fresh := by
    intro id g hg
    change id < s.nextId + 1
    rcases frame?_insert_cases hg with ⟨rfl, -⟩ | hg
    · exact Nat.lt_succ_self _
    · exact Nat.lt_succ_of_lt (h.fresh id g hg)
  past := by
    intro id g hg
    rcases frame?_insert_cases hg with ⟨-, rfl⟩ | hg
    · exact Nat.le_of_eq hepoch
    · exact h.past id g hg
  root := by
    obtain ⟨r, hr, hrest⟩ := h.root
    exact ⟨r, (frame?_insert_of_ne f (h.ne_nextId hr)).trans hr, hrest⟩

theorem Sound.openFrame (h : s.Sound) (hp : s.frame? parent = some outer) {segment : String}
    {kind : FrameKind} {created : Bool}
    (ho : s.openFrame parent segment kind = .ok ((id, created), t)) : t.Sound := by
  rcases openFrame_cases h hp segment kind with ⟨i, f, c, g, hf, hpath, he, hok⟩ | ⟨hnone, hok⟩
  · rw [hok] at ho
    cases ho
    have hne := h.ne_root hf hpath
    rw [modify_eq]
    refine h.mapFrames (fun i x => ?_) (fun i x hx => ?_) fun x hx => ?_
    · unfold changed
      split
      · exact he.path x
      · rfl
    · unfold changed
      split
      · exact Nat.le_of_eq (he.epoch x)
      · exact hx
    · rw [changed, if_neg hne.symm]
      exact ⟨rfl, rfl, hx⟩
  · rw [hok] at ho
    cases ho
    exact h.insert hnone rfl

/-! ### Passes -/

/-- Beginning a pass touches the root. -/
theorem frame?_beginPass (j : ScopeId) :
    s.beginPass.frame? j =
      (s.frame? j).map (changed rootId (fun f => { f with epoch := s.epoch + 1 }) j) := by
  unfold Store.beginPass
  rw [modify_eq]
  exact frame?_mapFrames _

theorem Sound.beginPass (h : s.Sound) : s.beginPass.Sound := by
  unfold Store.beginPass
  rw [modify_eq]
  refine h.mapFrames (fun i f => ?_) (fun i f hf => ?_) fun f _ => ⟨rfl, rfl, rfl⟩
  · unfold changed
    split <;> rfl
  · unfold changed
    split
    · exact Nat.le_refl _
    · exact Nat.le_succ_of_le hf

/-- On a list without repetitions looking up and filtering go together. -/
theorem lookup_filter {κ α : Type} [BEq κ] [LawfulBEq κ] {l : List (κ × α)}
    (h : (l.map Prod.fst).Nodup) (p : κ × α → Bool) (k : κ) :
    (l.filter p).lookup k = (l.lookup k).filter fun a => p (k, a) := by
  induction l with
  | nil => rfl
  | cons e l ih =>
    obtain ⟨i, a⟩ := e
    rw [List.map_cons, List.nodup_cons] at h
    have ih := ih h.2
    by_cases hk : k = i
    · subst hk
      have hnone : l.lookup k = none :=
        List.lookup_eq_none_iff.2 fun e he =>
          bne_iff_ne.2 fun heq => h.1 (List.mem_map.2 ⟨e, he, heq.symm⟩)
      rw [hnone] at ih
      rw [List.lookup_cons_self, Option.filter_some]
      by_cases hp : p (k, a) = true
      · rw [List.filter_cons_of_pos hp, List.lookup_cons_self, if_pos hp]
      · rw [List.filter_cons_of_neg hp, ih, if_neg hp]
        rfl
    · have hb : (k == i) = false := beq_eq_false_iff_ne.mpr hk
      rw [List.lookup_cons, hb]
      by_cases hp : p (i, a) = true
      · rw [List.filter_cons_of_pos hp, List.lookup_cons, hb]
        exact ih
      · rw [List.filter_cons_of_neg hp]
        exact ih

/-- The keys of a list are those that are found. -/
theorem mem_keys_iff {α : Type} {l : List (ScopeId × α)} :
    id ∈ l.map Prod.fst ↔ (l.lookup id).isSome := by
  rw [List.lookup_isSome_iff, List.mem_map]
  simp only [beq_iff_eq]
  exact ⟨fun ⟨e, he, hid⟩ => ⟨e, he, hid.symm⟩, fun ⟨e, he, hid⟩ => ⟨e, he, hid.symm⟩⟩

/-- The frames of a pass are those it touched. -/
theorem frame?_finishPass (h : s.Sound) (j : ScopeId) :
    s.finishPass.2.frame? j = (s.frame? j).filter fun f => f.epoch = s.epoch :=
  lookup_filter h.ids _ j

theorem frame?_finishPass_iff (h : s.Sound) :
    s.finishPass.2.frame? id = some f ↔ s.frame? id = some f ∧ f.epoch = s.epoch := by
  rw [frame?_finishPass h, Option.filter_eq_some_iff]
  simp

theorem mem_live_iff (h : s.Sound) :
    id ∈ (s.frames.filter fun e => e.2.epoch = s.epoch).map Prod.fst ↔
      ∃ f, s.frame? id = some f ∧ f.epoch = s.epoch := by
  have hlook : (s.frames.filter fun e => e.2.epoch = s.epoch).lookup id = _ :=
    frame?_finishPass h id
  rw [mem_keys_iff, hlook]
  cases s.frame? id with
  | none => simp
  | some f => simp [Option.filter_some]

theorem Sound.finishPass (h : s.Sound) : s.finishPass.2.Sound := by
  have hscope : ∀ path, s.finishPass.2.scopeAt? path =
      (s.scopeAt? path).filter fun id =>
        ((s.frames.filter fun e => e.2.epoch = s.epoch).map Prod.fst).contains id :=
    fun path => lookup_filter h.names _ path
  have hold : ∀ {id f}, s.finishPass.2.frame? id = some f →
      s.frame? id = some f ∧ f.epoch = s.epoch :=
    fun hf => (frame?_finishPass_iff h).1 hf
  refine ⟨?_, ?_, ?_, ?_, ?_, ?_, ?_⟩
  · exact h.ids.sublist (List.filter_sublist.map Prod.fst)
  · exact List.Nodup.sublist (List.filter_sublist.map Prod.fst) h.names
  · intro id f hf
    obtain ⟨hf', he⟩ := hold hf
    rw [hscope, h.indexed id f hf', Option.filter_some, if_pos]
    exact List.contains_iff_mem.2 ((mem_live_iff h).2 ⟨f, hf', he⟩)
  · intro path id hid
    rw [hscope, Option.filter_eq_some_iff] at hid
    obtain ⟨f, hf, hp⟩ := h.live path id hid.1
    obtain ⟨f', hf', he⟩ := (mem_live_iff h).1 (List.contains_iff_mem.1 hid.2)
    rw [hf] at hf'
    cases hf'
    exact ⟨f, (frame?_finishPass_iff h).2 ⟨hf, he⟩, hp⟩
  · intro id f hf
    exact h.fresh id f (hold hf).1
  · intro id f hf
    exact h.past id f (hold hf).1
  · obtain ⟨f, hf, hp, hpar, hk, he⟩ := h.root
    exact ⟨f, (frame?_finishPass_iff h).2 ⟨hf, he⟩, hp, hpar, hk, he⟩

end Store

end Trellis
