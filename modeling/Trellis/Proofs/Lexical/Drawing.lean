import Trellis.Proofs.Lexical.Entering
import Trellis.Proofs.Rendered.Listeners

/-!
# Building and drawing

Building at the end of a way comes to what is drawn in the layers seen from there, if the steps it
may go on by have not been gone yet. It goes by no other steps, so acts that go by different steps
can follow one another.

* `Draws`: an act comes to what is drawn, by the given steps.
* `Draws.bind`: acts that go by different steps.
* `Draws.enter`: one step further, where no step has been gone yet.
-/

namespace Trellis

open Schema Session Act

/-- What building begins with: a session of the first pass in which the end of the way sees some
layers, and none of the steps it may go on by has been gone. -/
structure Ready (n : Node) (w : Way) (id : ScopeId) (env : Env) (P : Step → Prop) (s : Session) :
    Prop where
  first : s.First n
  has : s.Has w id
  sees : s.store.Sees id env
  untaken : ∀ x ∈ s.visits, ∀ step v, x.way = w ++ step :: v → ¬ P step

/-- What building leaves: frames are as they were, and those that were entered are behind the steps
it may go on by. -/
structure Grows (w : Way) (P : Step → Prop) (s t : Session) : Prop where
  frames : ∀ id f, s.store.frame? id = some f → t.store.frame? id = some f
  visits : s.visits ⊆ t.visits
  taken : ∀ x ∈ t.visits, x ∈ s.visits ∨ ∃ step v, x.way = w ++ step :: v ∧ P step

variable {n : Node} {w : Way} {id : ScopeId} {env : Env} {P Q R : Step → Prop} {s t u : Session}

theorem Grows.refl : Grows w P s s where
  frames _ _ h := h
  visits := List.Subset.refl _
  taken _ h := .inl h

theorem Grows.trans (h : Grows w P s t) (h' : Grows w P t u) : Grows w P s u where
  frames id f hf := h'.frames id f (h.frames id f hf)
  visits := List.Subset.trans h.visits h'.visits
  taken x hx := by
    rcases h'.taken x hx with hx | hx
    · exact h.taken x hx
    · exact .inr hx

theorem Grows.mono (hPQ : ∀ step, P step → Q step) (h : Grows w P s t) : Grows w Q s t where
  frames := h.frames
  visits := h.visits
  taken x hx := by
    rcases h.taken x hx with hx | ⟨step, v, hway, hP⟩
    · exact .inl hx
    · exact .inr ⟨step, v, hway, hPQ step hP⟩

theorem Ready.mono (hPQ : ∀ step, P step → Q step) (h : Ready n w id env Q s) :
    Ready n w id env P s where
  first := h.first
  has := h.has
  sees := h.sees
  untaken x hx step v hway hP := h.untaken x hx step v hway (hPQ step hP)

/-- Steps that were not gone by an act have not been gone after it. -/
theorem Ready.after (h : Ready n w id env Q s) (ht : t.First n) (hg : Grows w P s t)
    (hdis : ∀ step, P step → ¬ Q step) : Ready n w id env Q t where
  first := ht
  has := h.has.mono hg.visits
  sees := h.sees.mono hg.frames
  untaken x hx step v hway := by
    rcases hg.taken x hx with hx | ⟨step', v', hway', hP⟩
    · exact h.untaken x hx step v hway
    · obtain ⟨rfl, -⟩ := List.cons.inj (List.append_cancel_left (hway.symm.trans hway'))
      exact hdis step hP

/-- An act at the end of a way comes to what was drawn, up to `f`, and goes on by the given
steps. -/
def Draws (n : Node) (w : Way) (id : ScopeId) (env : Env) (P : Step → Prop) {α β : Type}
    (f : α → β) (act : Act α) (out : Except Fault β) : Prop :=
  ∀ s, Ready n w id env P s → (act.runOn s).1.map f = out ∧
    ∀ a, (act.runOn s).1 = .ok a → (act.runOn s).2.First n ∧ Grows w P s (act.runOn s).2

namespace Draws

variable {α β γ δ : Type} {f : α → β} {g : γ → δ} {act : Act α} {out : Except Fault β}

/-- An act that leaves the session as it is. -/
theorem reads (raw : Except Fault α) (h : ∀ s, Ready n w id env P s → Reads s act raw) :
    Draws n w id env P f act (raw.map f) := by
  intro s hs
  rw [show act.runOn s = (raw, s) from h s hs]
  exact ⟨rfl, fun _ _ => ⟨hs.first, .refl⟩⟩

theorem pure (a : α) : Draws n w id env P f (pure a) (pure (f a)) :=
  reads (.ok a) fun _ _ => rfl

theorem throw (e : Fault) : Draws n w id env P f (throw e) (throw e) :=
  reads (.error e) fun _ _ => rfl

theorem mono (hPQ : ∀ step, P step → Q step) (h : Draws n w id env P f act out) :
    Draws n w id env Q f act out := by
  intro s hs
  obtain ⟨hout, hok⟩ := h s (hs.mono hPQ)
  exact ⟨hout, fun a ha => ⟨(hok a ha).1, (hok a ha).2.mono hPQ⟩⟩

/-- **Acts that go by different steps**, one after the other. -/
theorem bind (hPR : ∀ step, P step → R step) (hQR : ∀ step, Q step → R step)
    (hdis : ∀ step, P step → ¬ Q step) {next : α → Act γ} {k : β → Except Fault δ}
    (h : Draws n w id env P f act out) (hn : ∀ a, Draws n w id env Q g (next a) (k (f a))) :
    Draws n w id env R g (act >>= next) (out >>= k) := by
  intro s hs
  obtain ⟨hout, hok⟩ := h s (hs.mono hPR)
  rw [runOn_bind]
  revert hout hok
  rcases act.runOn s with ⟨outcome, t⟩
  intro hout hok
  cases outcome with
  | error e =>
    rw [← hout]
    exact ⟨rfl, nofun⟩
  | ok a =>
    -- the first act went by other steps than those the second may go by
    obtain ⟨ht, hg⟩ := hok a rfl
    obtain ⟨hout', hok'⟩ := hn a t ((hs.mono hQR).after ht hg hdis)
    rw [← hout]
    refine ⟨hout', fun c hc => ?_⟩
    obtain ⟨hu, hg'⟩ := hok' c hc
    exact ⟨hu, (hg.mono hPR).trans (hg'.mono hQR)⟩

/-- Reading goes by no step. -/
theorem reads_bind (raw : Except Fault α) (h : ∀ s, Ready n w id env P s → Reads s act raw)
    {next : α → Act γ} {k : α → Except Fault δ} (hn : ∀ a, Draws n w id env P g (next a) (k a)) :
    Draws n w id env P g (act >>= next) (raw >>= k) := by
  intro s hs
  rw [runOn_bind, show act.runOn s = (raw, s) from h s hs]
  cases raw with
  | error e => exact ⟨rfl, nofun⟩
  | ok a => exact hn a s hs

/-- What is done with the outcome goes by no step. -/
theorem bind_pure (h : Draws n w id env P f act out) (k : α → γ) (k' : β → δ)
    (hk : ∀ a, g (k a) = k' (f a)) :
    Draws n w id env P g (act >>= fun a => Pure.pure (k a)) (out >>= fun b => Pure.pure (k' b)) := by
  refine bind (Q := fun _ => False) (fun _ h => h) nofun (fun _ _ h => h) h fun a => ?_
  rw [← hk]
  exact pure (k a)

/-- **One step further** no step has been gone yet. -/
theorem enter {site : Site} {step : Step} {data : Value} {act : Act Site}
    (hstep : ((Locus.content n).after (site.way ++ [step])).isSome)
    (hopens : ∀ s, site.Unopened n step s → site.Opens step data s act)
    (henters : site.Enters n step act) {next : Site → Act γ} {out : Except Fault δ}
    (hn : ∀ scope, Draws n (site.way ++ [step]) scope (⟨step.kind, data⟩ :: env) (fun _ => True) g
      (next ⟨site.way ++ [step], scope, []⟩) out) :
    Draws n site.way site.scope env (· = step) g (act >>= next) out := by
  intro s hs
  -- neither the step nor any way that goes on from it has been gone
  have huntaken : ∀ x ∈ s.visits, ∀ v, x.way ≠ site.way ++ step :: v :=
    fun x hx v hway => hs.untaken x hx step v hway rfl
  obtain ⟨f, hk, hp, hd, hrun⟩ := hopens s ⟨hs.first, hs.has, hstep, fun x hx => huntaken x hx []⟩
  have hsound := hs.first.built.placed.sound
  have hold : ∀ i h, s.store.frame? i = some h →
      (s.entered (site.way ++ [step]) f).store.frame? i = some h :=
    fun i h hf => hsound.frame?_insert hf f
  have hbuilt : (s.entered (site.way ++ [step]) f).Built n := by
    obtain ⟨_, _, t, harrives, -, hact⟩ := henters s hs.first.built hs.has
    rw [hrun] at hact
    rcases hact with hact | ⟨e, hact⟩
    · cases hact
      exact harrives.after
    · cases hact
  have ht : (s.entered (site.way ++ [step]) f).First n := hs.first.entered_first hbuilt
  -- so in the new frame all steps are open
  have hready : Ready n (site.way ++ [step]) s.store.nextId (⟨step.kind, data⟩ :: env)
      (fun _ => True) (s.entered (site.way ++ [step]) f) := by
    refine ⟨ht, .inr List.mem_cons_self, ?_, fun x hx st v hway _ => ?_⟩
    · obtain ⟨outer, houter, -⟩ := hs.first.built.placed.has hs.has
      rw [← hk, ← hd]
      exact .inner (Store.frame?_insert_self f) hp (hsound.fresh _ outer houter) (hs.sees.mono hold)
    · rcases List.mem_cons.1 hx with rfl | hx
      · simp at hway
      · exact huntaken x hx (st :: v) (by rw [hway]; simp)
  obtain ⟨hout, hok⟩ := hn s.store.nextId _ hready
  rw [runOn_bind, hrun]
  refine ⟨hout, fun c hc => ?_⟩
  obtain ⟨hu, hg⟩ := hok c hc
  refine ⟨hu, fun i h hf => hg.frames i h (hold i h hf), fun x hx => hg.visits ?_, fun x hx => ?_⟩
  · exact List.mem_cons_of_mem _ hx
  · rcases hg.taken x hx with hx | ⟨st, v, hway, -⟩
    · rcases List.mem_cons.1 hx with rfl | hx
      · exact .inr ⟨step, [], rfl, rfl⟩
      · exact .inl hx
    · exact .inr ⟨step, st :: v, by rw [hway]; simp, rfl⟩

end Draws

end Trellis
