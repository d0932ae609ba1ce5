import Trellis.Proofs.Scope.Operations
import Mathlib.Data.Set.Card

/-!
# What a finished pass drops

A pass is told apart from earlier ones by its epoch alone, which every opening writes into the frame
it is about. However often passes were begun and finished, and whatever failed in between, the
frames of the present epoch are the root and those opened since a pass was last begun, so these are
the ones that a finished pass leaves.

* `Store.Touched`: frames opened since a pass was last begun, read off the operations.
* `Store.current_iff_touched`: the epoch says the same.
* `Store.ncard_swept`: how many frames a finished pass drops.
* `Store.Reopened`, `Store.Sound.reopened`: what opening a namespace comes to.
* `Store.Sound.reopened_swept`: where a frame was dropped its data is lost.
* `Store.Sparing`: operations that data outlives.
* `Store.finished_pass_leaves`: all of it.
-/

namespace Trellis

namespace Store

/-- After the operations a frame was opened, and no pass was begun since. -/
def Touched (ops : List Operation) (id : ScopeId) : Prop :=
  ∃ before op after, ops = before ++ op :: after ∧ op.opens ∧
    (new.run before).target? op = some id ∧ .beginPass ∉ after

/-- A live frame of the present epoch. -/
def Current (s : Store) (id : ScopeId) : Prop :=
  ∃ f, s.frame? id = some f ∧ f.epoch = s.epoch

variable {s t : Store} {op : Operation} {ops : List Operation} {id : ScopeId} {f : Frame}

/-! ### Touching -/

theorem not_touched_nil : ¬ Touched [] id := by
  rintro ⟨before, op, after, h, -⟩
  cases before <;> cases h

/-- **One more operation** touches the frame it opens, and none that was touched is forgotten unless
it begins a pass. -/
theorem touched_concat : Touched (ops ++ [op]) id ↔
    (op ≠ .beginPass ∧ Touched ops id) ∨ (op.opens ∧ (new.run ops).target? op = some id) := by
  constructor
  · rintro ⟨before, op', after, h, hopens, htarget, hnone⟩
    rcases List.eq_nil_or_concat after with rfl | ⟨after, last, rfl⟩
    · obtain ⟨rfl, hlast⟩ := List.append_inj' h rfl
      cases hlast
      exact .inr ⟨hopens, htarget⟩
    · rw [List.concat_eq_append, ← List.cons_append, ← List.append_assoc] at h
      obtain ⟨rfl, hlast⟩ := List.append_inj' h rfl
      cases hlast
      rw [List.concat_eq_append, List.mem_append, not_or] at hnone
      exact .inl ⟨fun hop => hnone.2 (hop ▸ List.mem_singleton.2 rfl),
        before, op', after, rfl, hopens, htarget, hnone.1⟩
  · rintro (⟨hop, before, op', after, rfl, hopens, htarget, hnone⟩ | ⟨hopens, htarget⟩)
    · refine ⟨before, op', after ++ [op], by simp, hopens, htarget, ?_⟩
      rw [List.mem_append, not_or]
      exact ⟨hnone, fun h => hop (List.mem_singleton.1 h).symm⟩
    · exact ⟨ops, op, [], rfl, hopens, htarget, List.not_mem_nil⟩

theorem Sound.current_root (h : s.Sound) : s.Current rootId := by
  obtain ⟨r, hr, -, -, -, he⟩ := h.root
  exact ⟨r, hr, he⟩

/-- An operation that is about a frame begins no pass. -/
theorem ne_beginPass_of_target? (h : s.target? op = some id) : op ≠ .beginPass := by
  rintro rfl
  cases h

/-- What an operation is not about is current if it was. -/
theorem current_iff_of_ne {i : ScopeId} (htarget : s.target? op = some i) (hi : id ≠ i)
    (hframe : t.frame? id = s.frame? id) (hepoch : t.epoch = s.epoch) :
    t.Current id ↔ (op ≠ .beginPass ∧ s.Current id) ∨ (op.opens ∧ s.target? op = some id) := by
  have hsame : t.Current id ↔ s.Current id := by
    unfold Current
    rw [hframe, hepoch]
  have htarget' : s.target? op ≠ some id := by
    rw [htarget]
    exact fun heq => hi (Option.some.inj heq).symm
  simp [hsame, ne_beginPass_of_target? htarget, htarget']

/-- **An operation** makes the frame it opens current, and leaves the others current that were so
unless it begins a pass. -/
theorem Effect.current_iff (h : s.Sound) (he : s.Effect op t) (hid : id ≠ rootId) :
    t.Current id ↔ (op ≠ .beginPass ∧ s.Current id) ∨ (op.opens ∧ s.target? op = some id) := by
  cases he with
  | began =>
    have hsame : s.beginPass.frame? id = s.frame? id := frame?_modify_of_ne _ hid
    refine iff_of_false ?_ (by simp [target?])
    rintro ⟨f, hf, he⟩
    rw [hsame] at hf
    -- the frame is from before the new epoch
    have hpast := h.past id f hf
    change f.epoch = s.epoch + 1 at he
    omega
  | finished =>
    have hiff : s.finishPass.2.Current id ↔ s.Current id := by
      refine exists_congr fun f => ?_
      rw [frame?_finishPass_iff h, and_assoc]
      exact and_congr_right fun _ => and_self_iff
    simp [hiff, target?]
  | @changed _ i f g htarget hf hroot hpath hparent hepoch _ =>
    by_cases hi : id = i
    · subst hi
      have hbegin := ne_beginPass_of_target? htarget
      have hnew : (s.modify id g).frame? id = some (g f) := by rw [frame?_modify_self, hf]; rfl
      unfold Current
      rw [hnew, hf]
      simp only [Option.some.injEq, exists_eq_left', hepoch, htarget, and_true]
      change (if op.opens = true then s.epoch else f.epoch) = s.epoch ↔ _
      cases op.opens <;> simp [hbegin]
    · exact current_iff_of_ne htarget hi (frame?_modify_of_ne g hi) rfl
  | @made _ parent outer f _ hplace htarget hlive hfree _ hinside hepoch =>
    by_cases hi : id = s.nextId
    · subst hi
      have hopens : op.opens := by
        rw [Operation.opens, hplace]
        rfl
      exact iff_of_true ⟨f, frame?_insert_self f, hepoch⟩ (.inr ⟨hopens, htarget⟩)
    · exact current_iff_of_ne htarget hi (frame?_insert_of_ne f hi) rfl

/-- An opening that fails is about no frame. -/
theorem target?_of_error {e : Fault} (ha : s.attempt op = .error e) (hopens : op.opens) :
    s.target? op = none := by
  have hmap : ∀ {α : Type} {x : Except Fault α} {f : α → Store} {g : α → ScopeId},
      x.map f = .error e → x.toOption.map g = none := by
    intro α x f g hx
    cases x with
    | error e => rfl
    | ok a => cases hx
  cases op with
  | openSpace parent segment ns => exact hmap ha
  | openSlot owner ns slot given => exact hmap ha
  | addData scope ns members => cases hopens
  | setLoop scope binding => cases hopens
  | write scope ns keys value => cases hopens
  | beginPass => cases hopens
  | finishPass => cases hopens

/-- **The present epoch** is that of the root and of the frames that were touched. -/
theorem current_iff_touched (ops : List Operation) (id : ScopeId) :
    (new.run ops).Current id ↔ id = rootId ∨ Touched ops id := by
  by_cases hid : id = rootId
  · exact iff_of_true (hid ▸ (run_consistent ops).toSound.current_root) (.inl hid)
  rw [or_iff_right hid]
  induction ops using List.reverseRecOn with
  | nil =>
    refine iff_of_false ?_ not_touched_nil
    rintro ⟨f, hf, -⟩
    exact hid (frame?_new hf).1
  | append_singleton ops op ih =>
    have h := (run_consistent ops).toSound
    rw [touched_concat, run_concat, ← ih]
    cases ha : (new.run ops).attempt op with
    | ok t =>
      rw [perform_eq ha]
      exact (h.effect_of_attempt ha).current_iff h hid
    | error e =>
      have hbegin : op ≠ .beginPass := by
        rintro rfl
        cases ha
      have htarget : ¬ (op.opens ∧ (new.run ops).target? op = some id) := by
        rintro ⟨hopens, htarget⟩
        rw [target?_of_error ha hopens] at htarget
        cases htarget
      rw [perform, ha]
      simp [hbegin, htarget]

/-! ### Dropping -/

/-- **How many frames** a finished pass drops. -/
theorem ncard_swept (h : s.Sound) :
    {id | (s.frame? id).isSome ∧ s.finishPass.2.frame? id = none}.ncard = s.finishPass.1 := by
  have hlook : ∀ id, (s.frames.filter fun e => ¬ e.2.epoch = s.epoch).lookup id =
      (s.frame? id).filter fun f => ¬ f.epoch = s.epoch :=
    fun id => lookup_filter h.ids (fun e => ¬ e.2.epoch = s.epoch) id
  have hset : {id | (s.frame? id).isSome ∧ s.finishPass.2.frame? id = none} =
      (((s.frames.filter fun e => ¬ e.2.epoch = s.epoch).map Prod.fst).toFinset : Set ScopeId) := by
    ext id
    rw [List.coe_toFinset, Set.mem_ofPred_eq, Set.mem_ofPred_eq, mem_keys_iff, hlook,
      frame?_finishPass h]
    cases s.frame? id with
    | none => simp
    | some f => simp [Option.filter_some]
  rw [hset, Set.ncard_coe_finset, List.toFinset_card_of_nodup, List.length_map]
  · have hsplit := List.length_eq_length_filter_add (l := s.frames) fun e => e.2.epoch = s.epoch
    change _ = s.frames.length - _
    simp only [← decide_not] at hsplit
    omega
  · exact h.ids.sublist (List.filter_sublist.map Prod.fst)

/-- **A frame that was not touched** is dropped. -/
theorem swept_of_not_touched (hroot : id ≠ rootId) (hnot : ¬ Touched ops id) :
    (new.run ops).finishPass.2.frame? id = none := by
  have h := (run_consistent ops).toSound
  refine Option.eq_none_iff_forall_ne_some.2 fun f hf => ?_
  have hcurrent : (new.run ops).Current id := ⟨f, (frame?_finishPass_iff h).1 hf⟩
  rcases (current_iff_touched ops id).1 hcurrent with hid | htouched
  · exact hroot hid
  · exact hnot htouched

/-! ### Opening again -/

/-- What opening a namespace at an address came to: a live frame of the namespace is entered and
keeps its data, and otherwise the frame is new, or starts over. -/
inductive Reopened (s : Store) (address ns : String) (t : Store) : ScopeId → Bool → Prop
  | entered {id : ScopeId} {f g : Frame} (before : s.frame? id = some f)
      (located : f.path = address) (same : f.kind = .space ns) (after : t.frame? id = some g)
      (path : g.path = address) (kind : g.kind = .space ns) (kept : g.data = f.data) :
      Reopened s address ns t id false
  | created {id : ScopeId} {g : Frame}
      (other : ∀ j f, s.frame? j = some f → f.path = address → f.kind ≠ .space ns)
      (after : t.frame? id = some g) (path : g.path = address) (kind : g.kind = .space ns)
      (cleared : g.data = .empty) : Reopened s address ns t id true

/-- **Opening a namespace** that succeeds. -/
theorem Sound.reopened (h : s.Sound) {parent : ScopeId} {segment ns : String} {created : Bool}
    (ho : s.openSpace parent segment ns = .ok ((id, created), t)) :
    ∃ outer, s.frame? parent = some outer ∧
      s.Reopened (outer.address segment) ns t id created := by
  unfold openSpace at ho
  cases hp : s.frame? parent with
  | none =>
    unfold Store.openFrame at ho
    rw [hp] at ho
    cases ho
  | some outer =>
    refine ⟨outer, rfl, ?_⟩
    rcases openFrame_cases h hp segment (.space ns) with
      ⟨i, f, c, g, hf, hat, he, hok⟩ | ⟨hnone, hok⟩
    · rw [hok] at ho
      cases ho
      have hafter : (s.modify id g).frame? id = some (g f) := by rw [frame?_modify_self, hf]; rfl
      have hpath := (he.path f).trans hat
      cases created with
      | false =>
        obtain ⟨hdata, hk⟩ := he.kept rfl
        exact .entered hf hat hk hafter hpath he.kind hdata
      | true =>
        obtain ⟨hdata, hk⟩ := he.cleared rfl
        refine .created (fun j x hx hxp => ?_) hafter hpath he.kind hdata
        -- the frame at the address is the one that was entered
        obtain rfl := h.eq_of_path hx hf (hxp.trans hat.symm)
        rw [hf] at hx
        cases hx
        exact hk
    · rw [hok] at ho
      cases ho
      refine .created (fun j x hx hxp => ?_) (frame?_insert_self _) rfl rfl rfl
      have hindexed := h.indexed j x hx
      rw [hxp, hnone] at hindexed
      cases hindexed

/-- **Data is lost** with its frame: what is opened at the address of a frame that was dropped is
another frame, with no data. -/
theorem Sound.reopened_swept (h : s.Sound) (hf : s.frame? id = some f)
    (hgone : s.finishPass.2.frame? id = none) {parent i : ScopeId} {outer : Frame}
    {segment ns : String} {created : Bool} (houter : s.finishPass.2.frame? parent = some outer)
    (haddress : outer.address segment = f.path)
    (ho : s.finishPass.2.openSpace parent segment ns = .ok ((i, created), t)) :
    i ≠ id ∧ created = true ∧ ∃ g, t.frame? i = some g ∧ g.data = .empty := by
  have hs := h.finishPass
  have hold : id < s.finishPass.2.nextId := h.fresh id f hf
  have hlater := hs.later (.openSpace parent segment ns) (by rw [attempt, ho]; rfl)
  have hnone : t.frame? id = none := hlater.gone hgone hold
  obtain ⟨outer', houter', hre⟩ := hs.reopened ho
  rw [houter] at houter'
  cases houter'
  cases hre with
  | entered hbefore hlocated =>
    -- a frame at the address would be the one that was dropped
    have hbefore' := ((frame?_finishPass_iff h).1 hbefore).1
    obtain rfl := h.eq_of_path hbefore' hf (hlocated.trans haddress)
    rw [hgone] at hbefore
    cases hbefore
  | created _ hafter _ _ hcleared =>
    refine ⟨?_, rfl, _, hafter, hcleared⟩
    rintro rfl
    rw [hnone] at hafter
    cases hafter

/-! ### Outliving -/

/-- A frame holds what a frame held, and stands for the same at the same address. -/
def Holds (s : Store) (id : ScopeId) (f : Frame) : Prop :=
  ∃ g, s.frame? id = some g ∧ g.path = f.path ∧ g.kind = f.kind ∧ g.data = f.data

/-- **An operation** leaves a frame of a namespace with what it holds if it does no more to it than
open the namespace again, and the frame is current when a pass is finished. -/
theorem Holds.attempt (h : s.Sound) (hh : s.Holds id f) {ns : String} (hk : f.kind = .space ns)
    (ha : s.attempt op = .ok t)
    (hspares : s.target? op = some id → ∃ parent segment, op = .openSpace parent segment ns)
    (hcurrent : op = .finishPass → s.Current id) : t.Holds id f := by
  obtain ⟨g, hg, hpath, hkind, hdata⟩ := hh
  by_cases hbegin : op = .beginPass
  · subst hbegin
    cases ha
    have hroot := h.ne_root_of_space hg (hkind.trans hk)
    exact ⟨g, (frame?_modify_of_ne _ hroot).trans hg, hpath, hkind, hdata⟩
  by_cases hfinish : op = .finishPass
  · obtain ⟨x, hx, he⟩ := hcurrent hfinish
    subst hfinish
    cases ha
    rw [hg] at hx
    cases hx
    exact ⟨g, (frame?_finishPass_iff h).2 ⟨hg, he⟩, hpath, hkind, hdata⟩
  obtain ⟨i, htarget, hone⟩ := (h.effect_of_attempt ha).oneFrame h hbegin hfinish
  by_cases hi : id = i
  · subst hi
    obtain ⟨parent, segment, rfl⟩ := hspares htarget
    obtain ⟨⟨⟨j, created⟩, u⟩, ho, rfl⟩ := Except.map_eq_ok.1 ha
    have hj : j = id := by
      rw [target?, ho] at htarget
      exact Option.some.inj htarget
    subst hj
    obtain ⟨g', hg', hpath', -⟩ := hone.kept j g hg
    obtain ⟨outer, -, hre⟩ := h.reopened ho
    cases hre with
    | entered hbefore _ _ hafter hp hk' hd =>
      rw [hg] at hbefore
      cases hbefore
      rw [hg'] at hafter
      cases hafter
      exact ⟨g', hg', hpath'.trans hpath, hk'.trans hk.symm, hd.trans hdata⟩
    | created hother hafter hp _ _ =>
      -- the frame itself stands for the namespace at the address
      rw [hg'] at hafter
      cases hafter
      exact absurd (hkind.trans hk) (hother j g hg (hpath'.symm.trans hp))
  · exact ⟨g, (hone.others id hi).trans hg, hpath, hkind, hdata⟩

/-- After `ops` more operations leave the data of a namespace's frame alone: every pass that is
finished has touched the frame, and what is about the frame fails or opens the namespace again. -/
structure Sparing (ops more : List Operation) (id : ScopeId) (ns : String) : Prop where
  touched : ∀ before after, more = before ++ .finishPass :: after → Touched (ops ++ before) id
  reopens : ∀ before op after t, more = before ++ op :: after →
    (new.run (ops ++ before)).attempt op = .ok t →
    (new.run (ops ++ before)).target? op = some id →
      ∃ parent segment, op = .openSpace parent segment ns

theorem Sparing.init {more : List Operation} {ns : String} (h : Sparing ops (more ++ [op]) id ns) :
    Sparing ops more id ns where
  touched before after hsplit := h.touched before (after ++ [op]) (by simp [hsplit])
  reopens before op' after t hsplit := h.reopens before op' (after ++ [op]) t (by simp [hsplit])

/-- **Data outlives** operations that leave it alone. -/
theorem Sparing.holds {more : List Operation} {ns : String} (h : Sparing ops more id ns)
    (hf : (new.run ops).frame? id = some f) (hk : f.kind = .space ns) :
    (new.run (ops ++ more)).Holds id f := by
  induction more using List.reverseRecOn with
  | nil =>
    rw [List.append_nil]
    exact ⟨f, hf, rfl, rfl, rfl⟩
  | append_singleton more op ih =>
    have hheld := ih h.init
    rw [← List.append_assoc, run_concat, perform]
    split
    · next t ha =>
      refine hheld.attempt (run_consistent _).toSound hk ha (h.reopens more op [] t rfl ha) ?_
      rintro rfl
      exact (current_iff_touched _ id).2 (.inr (h.touched more [] rfl))
    · exact hheld

/-- **What a pass leaves.** Finishing a pass leaves the root and the frames that were opened since a
pass was last begun, as they were and under their addresses, and says how many others it dropped.
Opening a namespace keeps the data of the frame that stands for it there, or begins with none. So
data outlives any number of passes that touch its frame, and is lost after one that does not. -/
theorem finished_pass_leaves (ops : List Operation) :
    (∀ id, ((new.run ops).finishPass.2.frame? id).isSome ↔ id = rootId ∨ Touched ops id) ∧
    (∀ id f, (new.run ops).finishPass.2.frame? id = some f → (new.run ops).frame? id = some f) ∧
    (∀ path id, (new.run ops).finishPass.2.scopeAt? path = some id ↔
      ∃ f, (new.run ops).finishPass.2.frame? id = some f ∧ f.path = path) ∧
    {id | ((new.run ops).frame? id).isSome ∧ (new.run ops).finishPass.2.frame? id = none}.ncard =
      (new.run ops).finishPass.1 ∧
    (∀ parent segment ns id created t,
      (new.run ops).openSpace parent segment ns = .ok ((id, created), t) →
      ∃ outer, (new.run ops).frame? parent = some outer ∧
        (new.run ops).Reopened (outer.address segment) ns t id created) ∧
    (∀ more id f ns, (new.run ops).frame? id = some f → f.kind = .space ns →
      Sparing ops more id ns → (new.run (ops ++ more)).Holds id f) ∧
    (∀ id f, (new.run ops).frame? id = some f → id ≠ rootId → ¬ Touched ops id →
      (∀ more, (new.run (ops ++ .finishPass :: more)).frame? id = none) ∧
      ∀ parent outer segment ns i created t,
        (new.run ops).finishPass.2.frame? parent = some outer → outer.address segment = f.path →
        (new.run ops).finishPass.2.openSpace parent segment ns = .ok ((i, created), t) →
        i ≠ id ∧ created = true ∧ ∃ g, t.frame? i = some g ∧ g.data = .empty) := by
  have h := run_consistent ops
  have hs := h.toSound.finishPass
  refine ⟨fun id => ?_, fun id f hf => ?_, fun path id => ?_, ncard_swept h.toSound,
    fun _ _ _ _ _ _ ho => h.toSound.reopened ho,
    fun more id f ns hf hk hspares => hspares.holds hf hk, fun id f hf hroot hnot => ?_⟩
  · rw [← current_iff_touched, Option.isSome_iff_exists]
    exact exists_congr fun f => frame?_finishPass_iff h.toSound
  · exact ((frame?_finishPass_iff h.toSound).1 hf).1
  · constructor
    · exact hs.live path id
    · rintro ⟨f, hf, rfl⟩
      exact hs.indexed id f hf
  · have hgone := swept_of_not_touched hroot hnot
    have hold : id < (new.run ops).finishPass.2.nextId := h.fresh id f hf
    refine ⟨fun more => ?_, fun parent outer segment ns i created t houter haddress ho => ?_⟩
    · rw [run_append]
      exact (hs.later_run more).gone hgone hold
    · exact h.toSound.reopened_swept hf hgone houter haddress ho

/-- A namespace opened in both passes is kept, the one that was not opened again is dropped. -/
example : (new.run [.openSpace rootId "0:hall" "hall", .openSpace rootId "1:attic" "attic",
    .beginPass, .openSpace rootId "0:hall" "hall"]).finishPass.1 = 1 := rfl

end Store

end Trellis
