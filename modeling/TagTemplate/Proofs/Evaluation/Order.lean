import TagTemplate.Proofs.Evaluation.Bindings
import TagTemplate.Proofs.Evaluation.Clock

/-! Evaluations and the order of bindings. Where the tags of a host take the bindings as a mapping,
nothing in an evaluation depends on the order in which names were bound, or on what was done before
it began. -/
namespace TagTemplate.Evaluation

variable {H σ τ : Type}

/-- The tags of the host take the bindings as a mapping, and leave one. -/
structure OrderApart (host : Host H σ) (view : σ → τ) : Prop where
  call {s t : σ} {bs cs : Bindings H} (h : H) (arguments : List String) : bs.Same cs →
    view s = view t →
      (host.call h arguments bs s).1 = (host.call h arguments cs t).1 ∧
        (host.call h arguments bs s).2.1.Same (host.call h arguments cs t).2.1 ∧
        view (host.call h arguments bs s).2.2 = view (host.call h arguments cs t).2.2

/-- The worlds are alike but for the clock and the order of bindings, and what has been done since is
the same in both; before, it was `before` in the one and `before'` in the other. -/
structure World.Abreast (view : σ → τ) (before before' : List Event) (v w : World H σ) : Prop where
  bindings : v.bindings.Same w.bindings
  state : view v.state = view w.state
  acts : ∃ since, acts v.events = since ++ before ∧ acts w.events = since ++ before'

variable {host : Host H σ} {view : σ → τ} {before before' : List Event} {u v w : World H σ}

namespace World.Abreast

theorem act (h : Abreast view before before' v w) {event : Event} (hact : event.isAct) :
    Abreast view before before' { v with events := event :: v.events }
      { w with events := event :: w.events } := by
  obtain ⟨since, hv, hw⟩ := h.acts
  refine ⟨h.bindings, h.state, event :: since, ?_, ?_⟩
  · rw [Evaluation.acts, List.filter_cons_of_pos hact, ← Evaluation.acts, hv, List.cons_append]
  · rw [Evaluation.acts, List.filter_cons_of_pos hact, ← Evaluation.acts, hw, List.cons_append]

theorem now (hclock : ClockApart host view) (h : Abreast view before before' v w) :
    Abreast view before before' (Eval.now host v).2 (Eval.now host w).2 :=
  ⟨h.bindings, ((hclock.now v.state).trans h.state).trans (hclock.now w.state).symm, h.acts⟩

theorem trans_agree (h : Abreast view before before' u v) (hagree : World.Agree view v w) :
    Abreast view before before' u w :=
  ⟨hagree.bindings ▸ h.bindings, h.state.trans hagree.state, hagree.acts ▸ h.acts⟩

theorem agree_trans (hagree : World.Agree view u v) (h : Abreast view before before' v w) :
    Abreast view before before' u w :=
  ⟨hagree.bindings ▸ h.bindings, hagree.state.trans h.state, hagree.acts ▸ h.acts⟩

end World.Abreast

theorem congruence_abreast (hclock : ClockApart host view) (horder : OrderApart host view)
    (before before' : List Event) :
    Congruence host .unlimited .unlimited
      (Keeps (H := H) (World.Abreast view before before')) where
  pure _ _ _ h := ⟨rfl, h⟩
  throw _ _ _ h := ⟨rfl, h⟩
  bind := .bind
  resolve name := .resolve name fun _ _ h => h.bindings.resolve? name
  draw v w h := by
    obtain ⟨hnumber, hstate⟩ := hclock.draw h.state
    exact ⟨hnumber, h.bindings, hstate, h.acts⟩
  callHost tag arguments v w h := by
    obtain ⟨hresult, hbindings, hstate⟩ := horder.call tag arguments h.bindings h.state
    exact ⟨hresult, hbindings, hstate, h.acts⟩
  across hxy := hxy.mapError _
  checkTime v w h := by
    rw [checkTime_unlimited, checkTime_unlimited]
    exact ⟨rfl, h.now hclock⟩
  called _ _ _ _ h := ⟨rfl, h.act rfl⟩
  declare name value v w h := by
    have hact := h.act (show (Event.bound name value).isAct = true from rfl)
    exact ⟨rfl, h.bindings.insert name _, hact.state, hact.acts⟩

end TagTemplate.Evaluation
