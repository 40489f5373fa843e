import TagTemplate.Proofs.Evaluation.Visits

/-! Hosts whose tags leave names alone. Without built-in tags among the names, which may refuse
their arguments, every evaluation with such a host is orderly. -/
namespace TagTemplate.Evaluation
open Template

variable {H σ : Type}

namespace Visit

/-- The tags of the host always give a text and never change what names stand for. -/
def Silent (host : Host H σ) : Prop :=
  ∀ tag texts bindings s, ∃ text s', host.call tag texts bindings s = (.ok text, bindings, s')

def NoBuiltins (bindings : Bindings H) : Prop :=
  ∀ name b, bindings.find? name ≠ some (.builtin b)

variable {host : Host H σ} {u v : Visit H σ} {q : Place}

theorem NoBuiltins.insert {bindings : Bindings H} (h : NoBuiltins bindings) (name value : String) :
    NoBuiltins (bindings.insert name (.constant value)) := by
  intro other b
  rw [Bindings.find?_insert]
  split
  · nofun
  · exact h other b

theorem congruence_noBuiltins (h : Silent host) :
    Congruence host .unlimited .unlimited (fun {α : Type} (x _ : Eval H σ α) =>
      ∀ w, NoBuiltins w.bindings → NoBuiltins (x w).2.bindings) where
  pure _ _ hw := hw
  throw _ _ hw := hw
  bind {_ _ x _ f _} hx hf w hw := by
    rcases hxw : x w with ⟨e | a, w'⟩
    · rw [Eval.bind_of_error hxw]
      simpa only [hxw] using hx w hw
    · rw [Eval.bind_of_ok hxw]
      exact hf a w' (by simpa only [hxw] using hx w hw)
  resolve name w hw := by rwa [snd_resolve]
  draw _ hw := hw
  callHost tag texts w hw := by
    obtain ⟨text, s, hcall⟩ := h tag texts w.bindings w.state
    simp only [Eval.callHost, hcall]
    exact hw
  across hx w hw := hx w hw
  checkTime _ hw := hw
  called _ _ _ hw := hw
  declare name value _ hw := hw.insert name value

theorem noBuiltins_at (h : Silent host) (hv : NoBuiltins v.world.bindings)
    (hu : v.at? host q = some u) : NoBuiltins u.world.bindings := by
  induction q generalizing v with
  | nil =>
    cases hu
    exact hv
  | cons i rest ih =>
    obtain ⟨part, hpart, hrest⟩ := Option.bind_eq_some_iff.mp hu
    obtain ⟨-, -, before, happroach⟩ := spec_of_partIn? hpart
    have hkeeps := (congruence_noBuiltins h).approach part.depth v.node i v.world hv
    rw [happroach] at hkeeps
    exact ih hkeeps hrest

theorem orderly_of_silent (h : Silent host) (hv : NoBuiltins v.world.bindings)
    (hevaluable : ∀ node ∈ v.node.nodes, evaluable node) : v.Orderly host := by
  refine ⟨hevaluable, ?_⟩
  intro q u hu name binding texts w _ _ hbinding _
  obtain ⟨hfind, hne⟩ := Bindings.find?_of_resolve? hbinding
  cases binding with
  | absent => exact absurd rfl hne
  | constant value => exact ⟨value, _, rfl, rfl⟩
  | builtin b => exact absurd hfind (noBuiltins_at h hv hu name b)
  | host tag =>
    obtain ⟨text, s, hcall⟩ := h tag texts w.bindings w.state
    refine ⟨text, { w with state := s, events := .called name texts :: w.events }, ?_, rfl⟩
    simp only [callBinding, Eval.callHost, hcall]

def joining : Host Unit Unit where
  now _ := (0, ())
  draw _ := (.ok 0, ())
  call _ texts bindings _ := (.ok (String.join texts), bindings, ())

theorem silent_joining : Silent joining := fun _ texts _ _ => ⟨String.join texts, (), rfl⟩

theorem noBuiltins_empty : NoBuiltins (.empty : Bindings H) := nofun

end Visit
end TagTemplate.Evaluation
