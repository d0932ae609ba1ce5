import Trellis.Proofs.View.Notices

/-!
# When a view is dirty

A view subscribes before anything can be written, and nobody ever leaves, so the view hears of every
write. What it has heard of is then the revision, and the view is dirty exactly if nothing was shown
yet or the revision has grown since something was shown last.

* `Handle.Heeds`: a subscriber has heard of every write.
* `View.Unshown`, `View.ShownLast`: the renders of a run that succeed.
* `View.dirty_exact`: a view after any run.
-/

namespace Trellis

open Schema Session Act

namespace Handle

/-! ### Hearing of every write -/

/-- A subscriber is there, and has been told of as many writes as there were. -/
structure Heeds (h : Handle) (n : Nat) : Prop where
  present : n < h.subscribers
  all : (h.heard n).length = h.revision

variable {h h' : Handle} {op : Operation} {n : Nat}

/-- Nobody leaves. -/
theorem subscribers_le_of_attempt (ha : h.attempt op = .ok h') : h.subscribers ≤ h'.subscribers := by
  cases hr : op.request? with
  | some r =>
    rw [attempt_of_request hr, write_eq] at ha
    obtain ⟨e, -, rfl⟩ := Except.map_eq_ok.1 ha
    exact Nat.le_refl _
  | none =>
    cases op with
    | subscribe =>
      have heq : h.subscribe.2 = h' := Except.ok.inj ha
      have hmore : h.subscribe.2.subscribers = h.subscribers + 1 := rfl
      rw [← heq, hmore]
      omega
    | ask op =>
      rw [attempt_ask hr] at ha
      obtain ⟨s, -, rfl⟩ := Except.map_eq_ok.1 ha
      exact Nat.le_refl _
    | writePath scope path v =>
      have hslot : path.slot.isSome := by
        by_contra hslot
        simp [Operation.request?, hslot] at hr
      simp [attempt, writePath, hslot] at ha

theorem subscribers_le_perform (h : Handle) (op : Operation) :
    h.subscribers ≤ (h.perform op).subscribers := by
  cases ha : h.attempt op with
  | ok h' =>
    rw [perform_of_ok ha]
    exact subscribers_le_of_attempt ha
  | error e => exact Nat.le_of_eq (congrArg Handle.subscribers (perform_of_error ha).symm)

/-- Whoever is there is told of a write once. -/
theorem Written.told_once {w : Written} (hn : n < w.present) (number : Nat) :
    ((w.told number).filter fun d => d.subscriber = n).length = 1 := by
  have hmem : n ∈ List.range w.present := List.mem_range.2 hn
  have hcount : List.count n (List.range w.present) = 1 :=
    List.count_eq_one_of_mem List.nodup_range hmem
  rw [Written.told, ← List.countP_eq_length_filter, List.countP_map, ← hcount, List.count]
  congr 1

/-- **An operation** is a write that is heard of, or there is nothing to hear. -/
theorem Heeds.perform (hh : h.Heeds n) (op : Operation) : (h.perform op).Heeds n := by
  have hall := hh.all
  refine ⟨Nat.lt_of_lt_of_le hh.present (subscribers_le_perform h op), ?_⟩
  cases hw : h.writeOf? op with
  | some w =>
    have hpresent : w.present = h.subscribers := by
      obtain ⟨r, -, hstore⟩ := Option.bind_eq_some_iff.1 hw
      split at hstore
      · cases hstore
        rfl
      · cases hstore
    have honce := Written.told_once (hpresent ▸ hh.present) (h.revision + 1)
    rw [perform_of_writeOf? hw]
    simp only [heard, List.filter_append, List.length_append] at hall ⊢
    omega
  | none =>
    obtain ⟨hrevision, hdeliveries⟩ := perform_of_not_writeOf? hw
    rw [heard, hrevision, hdeliveries]
    exact hall

theorem Heeds.run (hh : h.Heeds n) (ops : List Operation) : (h.run ops).Heeds n := by
  induction ops generalizing h with
  | nil => exact hh
  | cons op ops ih => exact ih (hh.perform op)

end Handle

namespace View

variable {N C : Type} {v : View N C} {deeds earlier later : List Deed}

/-! ### The view's own subscription -/

/-- The view has heard of every write. -/
def Attentive (v : View N C) : Prop :=
  v.session.handle.Heeds v.subscriber

theorem mount_attentive (n : Node) (b : Builder N C) (k : Nat) : (View.mount n b k).Attentive :=
  ⟨Nat.zero_lt_one, rfl⟩

theorem after_subscriber (v : View N C) (d : Deed) : (v.after d).subscriber = v.subscriber := by
  cases d with
  | render => exact v.render_subscriber
  | ask op => rfl
  | fire listeners args => rfl
  | evaluate script scope => rfl
  | call f args => rfl

/-- **A deed** is operations of the handle, and the view hears of what they write. -/
theorem Attentive.after (hv : v.Attentive) (hb : v.builder.Handling) (d : Deed) :
    (v.after d).Attentive := by
  obtain ⟨ops, -, hops⟩ := v.after_asks hb d
  unfold Attentive
  rw [hops, v.after_subscriber]
  exact Handle.Heeds.run hv ops

theorem Attentive.afterAll (hv : v.Attentive) (hb : v.builder.Handling) (deeds : List Deed) :
    (v.afterAll deeds).Attentive := by
  induction deeds generalizing v with
  | nil => exact hv
  | cons d deeds ih => exact ih (hv.after hb d) (by rw [v.after_builder]; exact hb)

theorem afterAll_builder (deeds : List Deed) :
    ∀ v : View N C, (v.afterAll deeds).builder = v.builder := by
  induction deeds with
  | nil => exact fun _ => rfl
  | cons d deeds ih => exact fun v => (ih (v.after d)).trans (v.after_builder d)

theorem afterAll_append (v : View N C) (deeds more : List Deed) :
    v.afterAll (deeds ++ more) = (v.afterAll deeds).afterAll more :=
  List.foldl_append

/-! ### Renders that succeed -/

/-- Rendering the view succeeds. -/
def Renders (v : View N C) : Prop :=
  ∃ node, v.render.1 = .ok node

/-- No render of a run succeeds. -/
def Unshown (v : View N C) (deeds : List Deed) : Prop :=
  ∀ earlier later, deeds = earlier ++ .render :: later → ¬ (v.afterAll earlier).Renders

/-- The last render of a run that succeeds: it comes after `earlier`, and none of `later` does. -/
structure ShownLast (v : View N C) (deeds earlier later : List Deed) : Prop where
  split : deeds = earlier ++ .render :: later
  made : (v.afterAll earlier).Renders
  last : (v.afterAll (earlier ++ [.render])).Unshown later

theorem unshown_cons {d : Deed} :
    v.Unshown (d :: deeds) ↔ (d = .render → ¬ v.Renders) ∧ (v.after d).Unshown deeds := by
  constructor
  · intro h
    refine ⟨fun hd => h [] deeds (by rw [hd, List.nil_append]), fun earlier later hsplit => ?_⟩
    exact h (d :: earlier) later (by rw [hsplit, List.cons_append])
  · rintro ⟨hd, hdeeds⟩ earlier later hsplit
    cases earlier with
    | nil =>
      obtain ⟨rfl, rfl⟩ := List.cons.inj hsplit
      exact hd rfl
    | cons d' earlier =>
      obtain ⟨rfl, rfl⟩ := List.cons.inj hsplit
      exact hdeeds earlier later rfl

/-- **In a run** no render succeeds, or one is the last that does. -/
theorem unshown_or_shownLast (deeds : List Deed) :
    ∀ v : View N C, v.Unshown deeds ∨ ∃ earlier later, v.ShownLast deeds earlier later := by
  induction deeds with
  | nil =>
    intro v
    left
    intro earlier later hsplit
    simp at hsplit
  | cons d deeds ih =>
    intro v
    rcases ih (v.after d) with hdeeds | ⟨earlier, later, hsplit, hmade, hlast⟩
    · by_cases hd : d = .render → ¬ v.Renders
      · exact .inl (unshown_cons.2 ⟨hd, hdeeds⟩)
      · push Not at hd
        obtain ⟨rfl, hmade⟩ := hd
        exact .inr ⟨[], deeds, rfl, hmade, hdeeds⟩
    · exact .inr ⟨d :: earlier, later, by rw [hsplit, List.cons_append], hmade, hlast⟩

/-! ### What is settled -/

/-- A deed settles nothing unless it is a render that succeeds. -/
theorem after_settled {d : Deed} (hd : d = .render → ¬ v.Renders) :
    (v.after d).settled = v.settled := by
  cases d with
  | render => exact render_settled_error fun node hnode => hd rfl ⟨node, hnode⟩
  | ask op => rfl
  | fire listeners args => rfl
  | evaluate script scope => rfl
  | call f args => rfl

theorem Unshown.settled (h : v.Unshown deeds) : (v.afterAll deeds).settled = v.settled := by
  induction deeds generalizing v with
  | nil => rfl
  | cons d deeds ih =>
    obtain ⟨hd, hdeeds⟩ := unshown_cons.1 h
    exact (ih hdeeds).trans (after_settled hd)

/-- **The last render** that succeeds settles the revision it leaves. -/
theorem ShownLast.settled (h : v.ShownLast deeds earlier later) (hv : v.Attentive)
    (hb : v.builder.Handling) :
    (v.afterAll deeds).settled =
      some (v.afterAll (earlier ++ [.render])).session.handle.revision := by
  obtain ⟨node, hnode⟩ := h.made
  have hattentive : (v.afterAll (earlier ++ [.render])).Attentive := hv.afterAll hb _
  have hrender : v.afterAll (earlier ++ [.render]) = (v.afterAll earlier).render.2 :=
    afterAll_append v earlier [.render]
  have hrest : v.afterAll deeds = (v.afterAll (earlier ++ [.render])).afterAll later := by
    rw [h.split, ← afterAll_append, List.append_assoc, List.singleton_append]
  rw [hrest, h.last.settled, ← hattentive.all, hrender]
  exact render_settled_ok hnode

/-- What an attentive view takes for dirty. -/
theorem Attentive.isDirty_iff (hv : v.Attentive) :
    v.isDirty = true ↔ ∀ r, v.settled = some r → r < v.session.handle.revision := by
  have hheard : v.heard = v.session.handle.revision := hv.all
  unfold isDirty
  cases hs : v.settled with
  | none => simp
  | some r => simp [hheard]

/-- **The flag is exact.** A view is mounted, and a host does whatever it likes to it. Then the view is
dirty exactly if no render has succeeded yet, or the revision is larger than it was when the last
render that succeeded returned. A render that fails leaves a dirty view dirty. -/
theorem dirty_exact (n : Node) {b : Builder N C} (hb : b.Handling) (k : Nat) (deeds : List Deed) :
    let mounted := View.mount n b k
    let v := mounted.afterAll deeds
    (v.isDirty = true ↔
      mounted.Unshown deeds ∨
        ∃ earlier later, mounted.ShownLast deeds earlier later ∧
          (mounted.afterAll (earlier ++ [.render])).session.handle.revision <
            v.session.handle.revision) ∧
    ((∃ e, v.render.1 = .error e) → v.isDirty = true → v.render.2.isDirty = true) := by
  intro mounted v
  have hmounted : mounted.Attentive := mount_attentive n b k
  have hv : v.Attentive := hmounted.afterAll hb deeds
  constructor
  · rw [hv.isDirty_iff]
    constructor
    · intro hdirty
      rcases unshown_or_shownLast deeds mounted with hnone | ⟨earlier, later, hlast⟩
      · exact .inl hnone
      · exact .inr ⟨earlier, later, hlast, hdirty _ (hlast.settled hmounted hb)⟩
    · rintro (hnone | ⟨earlier, later, hlast, hmore⟩) r hr
      · have hunsettled : v.settled = none := hnone.settled
        rw [hunsettled] at hr
        cases hr
      · have hsettled := hlast.settled hmounted hb
        change v.settled = _ at hsettled
        rw [hsettled] at hr
        cases hr
        exact hmore
  · rintro ⟨e, he⟩ hdirty
    have hbuilder : v.builder = b := afterAll_builder deeds mounted
    have hafter : v.render.2.Attentive := hv.after (hbuilder ▸ hb) .render
    have hsettled : v.render.2.settled = v.settled :=
      render_settled_error fun node hnode => by rw [he] at hnode; cases hnode
    obtain ⟨ops, -, hops⟩ := v.after_asks (hbuilder ▸ hb) .render
    have hrevision : v.session.handle.revision ≤ v.render.2.session.handle.revision := by
      have hrun := (Handle.run_exact v.session.handle ops).1
      change v.render.2.session.handle = _ at hops
      rw [hops, hrun]
      omega
    rw [hafter.isDirty_iff, hsettled]
    intro r hr
    exact Nat.lt_of_lt_of_le (hv.isDirty_iff.1 hdirty r hr) hrevision

/-- A lamp that takes down in the middle of a render that it is shown is clean at its end; a click
makes it dirty, and a write that fails does not count. -/
theorem dirty_exact_lamp :
    let mounted := View.mount lampNode (Builder.trees Registry.empty ⟨true⟩) 0
    mounted.builder.Handling ∧
      (mounted.afterAll [.render]).isDirty = false ∧
      (mounted.afterAll lampDeeds).isDirty = true ∧
        ∃ earlier later, mounted.ShownLast lampDeeds earlier later ∧
          (mounted.afterAll (earlier ++ [.render])).session.handle.revision <
            (mounted.afterAll lampDeeds).session.handle.revision := by
  have hempty : ∀ name make,
      (Registry.empty : Registry Rendered.Component) name = some make → make.Honest :=
    fun _ _ h => by cases h
  have hb : (Builder.trees Registry.empty ⟨true⟩).Handling :=
    (Rendered.honest hempty ⟨true⟩).handling
  obtain ⟨hexact, -⟩ := dirty_exact lampNode hb 0 lampDeeds
  dsimp only at hexact ⊢
  have hclean : ((View.mount lampNode (Builder.trees Registry.empty ⟨true⟩) 0).afterAll
      [.render]).isDirty = false := by
    decide +kernel
  have hdirty : ((View.mount lampNode (Builder.trees Registry.empty ⟨true⟩) 0).afterAll
      lampDeeds).isDirty = true := by
    decide +kernel
  have hok :
      (View.mount lampNode (Builder.trees Registry.empty ⟨true⟩) 0).render.1.isOk = true := by
    decide +kernel
  refine ⟨hb, hclean, hdirty, ?_⟩
  generalize View.mount lampNode (Builder.trees Registry.empty ⟨true⟩) 0 = mounted at *
  rcases hexact.1 hdirty with hnone | hlast
  · cases hrender : mounted.render.1 with
    | ok node => exact absurd ⟨node, hrender⟩ ((unshown_cons.1 hnone).1 rfl)
    | error e => rw [hrender] at hok; cases hok
  · exact hlast

end View

end Trellis
