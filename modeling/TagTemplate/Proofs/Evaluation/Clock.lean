import TagTemplate.Proofs.Evaluation.Congruence

/-! Evaluations and the clock. Hosts are looked at through a view of their state that leaves out the
clock: worlds that agree in it differ in nothing but in what the clock shows and how often it has
been read. -/
namespace TagTemplate.Evaluation
open Template

variable {H σ τ α β : Type}

def Event.isAct : Event → Bool
  | .read _ => false
  | _ => true

def acts (events : List Event) : List Event :=
  events.filter Event.isAct

/-- What a reading of the clock changes, the view does not show, and the draws and tags of the host
do not see. -/
structure ClockApart (host : Host H σ) (view : σ → τ) : Prop where
  now (s : σ) : view (host.now s).2 = view s
  draw {s t : σ} : view s = view t →
    (host.draw s).1 = (host.draw t).1 ∧ view (host.draw s).2 = view (host.draw t).2
  call {s t : σ} (h : H) (arguments : List String) (bindings : Bindings H) : view s = view t →
    (host.call h arguments bindings s).1 = (host.call h arguments bindings t).1 ∧
      (host.call h arguments bindings s).2.1 = (host.call h arguments bindings t).2.1 ∧
      view (host.call h arguments bindings s).2.2 = view (host.call h arguments bindings t).2.2

structure World.Agree (view : σ → τ) (v w : World H σ) : Prop where
  bindings : v.bindings = w.bindings
  state : view v.state = view w.state
  acts : acts v.events = acts w.events

/-- From worlds that are alike the computations give the same result and worlds that are alike. -/
def Alike (view : σ → τ) {α : Type} (x y : Eval H σ α) : Prop :=
  ∀ v w, World.Agree view v w → (x v).1 = (y w).1 ∧ World.Agree view (x v).2 (y w).2

def Allowance.unlimited : Allowance := ⟨none, none⟩

variable {host : Host H σ} {view : σ → τ} {x y z : Eval H σ α} {f g : α → Eval H σ β}
  {v w : World H σ}

namespace World.Agree

theorem refl (view : σ → τ) (w : World H σ) : Agree view w w :=
  ⟨rfl, rfl, rfl⟩

theorem symm (h : Agree view v w) : Agree view w v :=
  ⟨h.bindings.symm, h.state.symm, h.acts.symm⟩

theorem trans {u : World H σ} (h : Agree view u v) (h' : Agree view v w) : Agree view u w :=
  ⟨h.bindings.trans h'.bindings, h.state.trans h'.state, h.acts.trans h'.acts⟩

theorem now (h : ClockApart host view) (w : World H σ) : Agree view (Eval.now host w).2 w :=
  ⟨rfl, h.now w.state, rfl⟩

theorem called (h : Agree view v w) (event : Event) :
    Agree view { v with events := event :: v.events } { w with events := event :: w.events } := by
  refine ⟨h.bindings, h.state, ?_⟩
  simp only [Evaluation.acts, List.filter_cons]
  rw [← Evaluation.acts, ← Evaluation.acts, h.acts]

theorem declare (h : Agree view v w) (name value : String) :
    Agree view (Eval.declare name value v).2 (Eval.declare name value w).2 := by
  have hcalled := h.called (.bound name value)
  exact ⟨congrArg (·.insert name (.constant value)) h.bindings, hcalled.state, hcalled.acts⟩

end World.Agree

theorem Alike.refl_of_eq (h : ∀ w, (x w).2 = w) (hresult : ∀ v w, World.Agree view v w →
    (x v).1 = (x w).1) : Alike view x x := by
  intro v w hagree
  rw [h v, h w]
  exact ⟨hresult v w hagree, hagree⟩

theorem Alike.symm (h : Alike view x y) : Alike view y x := by
  intro v w hagree
  obtain ⟨hresult, hworld⟩ := h w v hagree.symm
  exact ⟨hresult.symm, hworld.symm⟩

theorem Alike.trans (h : Alike view x y) (h' : Alike view y z) : Alike view x z := by
  intro v w hagree
  obtain ⟨hresult, hworld⟩ := h v v (.refl view v)
  obtain ⟨hresult', hworld'⟩ := h' v w hagree
  exact ⟨hresult.trans hresult', hworld.trans hworld'⟩

theorem Alike.bind (h : Alike view x y) (hf : ∀ a, Alike view (f a) (g a)) :
    Alike view (x >>= f) (y >>= g) :=
  Keeps.bind h hf

theorem Alike.mapError (h : Alike view x y) (k : EvalError → EvalError) :
    Alike view (Eval.mapError k x) (Eval.mapError k y) :=
  Keeps.mapError h k

theorem callCongruence_alike (h : ClockApart host view) :
    CallCongruence host (Alike (H := H) view) where
  pure a := .refl_of_eq (fun _ => rfl) fun _ _ _ => rfl
  throw e := .refl_of_eq (fun _ => rfl) fun _ _ _ => rfl
  bind := .bind
  resolve name := Keeps.resolve name fun _ _ hagree => by rw [hagree.bindings]
  draw v w hagree := by
    obtain ⟨hnumber, hstate⟩ := h.draw hagree.state
    exact ⟨hnumber, hagree.bindings, hstate, hagree.acts⟩
  callHost tag arguments v w hagree := by
    obtain ⟨hresult, hbindings, hstate⟩ := h.call tag arguments v.bindings hagree.state
    simp only [Eval.callHost, ← hagree.bindings]
    exact ⟨hresult, hbindings, hstate, hagree.acts⟩

theorem checkTime_unlimited (host : Host H σ) (w : World H σ) :
    checkTime host .unlimited w = (.ok (), (Eval.now host w).2) := rfl

theorem evaluate_untimed (host : Host H σ) (tree : Node) :
    evaluate host none tree = Eval.mapError .reported (evalNode host .unlimited depthLimit tree) := rfl

theorem alike_checkTime (h : ClockApart host view) :
    Alike view (checkTime host .unlimited) (pure ()) := by
  intro v w hagree
  rw [checkTime_unlimited]
  exact ⟨rfl, (World.Agree.now h v).trans hagree⟩

theorem congruence_alike (h : ClockApart host view) :
    Congruence host .unlimited .unlimited (Alike (H := H) view) where
  toCallCongruence := callCongruence_alike h
  across hxy := hxy.mapError _
  checkTime := (alike_checkTime h).trans (alike_checkTime h).symm
  called _ _ _ _ hagree := ⟨rfl, hagree.called _⟩
  declare name value _ _ hagree := ⟨rfl, hagree.declare name value⟩

end TagTemplate.Evaluation
