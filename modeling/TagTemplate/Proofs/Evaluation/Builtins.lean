import TagTemplate.Evaluation.Builtin
import TagTemplate.Proofs.Number.Draws

/-! What the built-in tags answer to texts. Whatever the draw, each gives a text or refuses its
arguments, unless the step into a range is too wide for a number. -/
namespace TagTemplate.Evaluation
open Binary64

/-- The bounds of a range are finite numbers in their order, and the way from one to the other is
not finite. -/
def TooFarApart (arguments : List String) : Prop :=
  ∃ low high rest x y, arguments = low :: high :: rest ∧ bound "from" low = .ok x ∧
    bound "to" high = .ok y ∧ ¬y < x ∧ ¬(y - x).isFinite

namespace Builtin

/-- Arguments with which a step cannot be counted: a range too wide, or more items to choose from
than the largest power of two that is a number. -/
def Oversteps : Builtin → List String → Prop
  | .join, _ => False
  | .random, arguments => 2 ^ 1023 < arguments.length
  | .randomNumber, arguments => TooFarApart arguments

end Builtin

def BuiltinError.IsUncounted (e : BuiltinError) : Prop :=
  e = .infiniteStep ∨ e = .undefinedStep

variable {x low high draw : Float} {arguments : List String}

theorem floorInt_of_isFinite (h : x.isFinite) : ∃ n, floorInt x = .ok n := by
  rw [isFinite_eq] at h
  obtain ⟨d, hd⟩ := Option.isSome_iff_exists.mp h
  exact ⟨d.floor, by rw [floorInt, hd]⟩

theorem floorInt_of_not_isFinite (h : ¬x.isFinite) :
    ∃ e : BuiltinError, floorInt x = .error e ∧ e.IsUncounted := by
  rw [isFinite_eq, Option.not_isSome_iff_eq_none] at h
  rw [floorInt, h]
  by_cases hnan : x.isNaN
  · exact ⟨.undefinedStep, by rw [if_pos hnan], .inr rfl⟩
  · exact ⟨.infiniteStep, by rw [if_neg hnan], .inl rfl⟩

/-- A range gives a number if and only if its width is finite. -/
theorem numberIn_cases (low high : Float) (hdraw : IsDraw draw) :
    ((high - low).isFinite ∧ ∃ text, numberIn low high draw = .ok text) ∨
      ¬(high - low).isFinite ∧
        ∃ e : BuiltinError, numberIn low high draw = .error e ∧ e.IsUncounted := by
  by_cases hfinite : (high - low).isFinite
  · obtain ⟨n, hn⟩ := floorInt_of_isFinite (isFinite_draw_mul hdraw hfinite)
    exact .inl ⟨hfinite, _, by rw [numberIn, hn]; rfl⟩
  · obtain ⟨e, he, huncounted⟩ := floorInt_of_not_isFinite (mt isFinite_of_isFinite_mul hfinite)
    exact .inr ⟨hfinite, e, by rw [numberIn, he]; rfl, huncounted⟩

variable {α : Type} {items : List α}

theorem item?_of_lt {index : Int} (h : 0 ≤ index) (hlength : index < items.length) :
    ∃ item, item? items index = some item := by
  have hlt : index.toNat < items.length := by omega
  exact ⟨items[index.toNat], by rw [item?]; simp [h.not_gt, hlt]⟩

theorem choose_cases (hdraw : IsDraw draw) (hitems : items ≠ []) :
    (∃ item, choose items draw = .ok item) ∨
      2 ^ 1023 < items.length ∧
        ∃ e : BuiltinError, choose items draw = .error e ∧ e.IsUncounted := by
  have hpos : 0 < items.length := List.length_pos_iff.mpr hitems
  by_cases hfinite : (Float.ofNat items.length).isFinite
  · obtain ⟨d, hd, hlow, hhigh⟩ := exists_floor_draw_mul hdraw hpos hfinite
    obtain ⟨item, hitem⟩ := item?_of_lt hlow hhigh
    have hfloor : floorInt (draw * Float.ofNat items.length) = .ok d.floor := by
      rw [floorInt, hd]
    refine .inl ⟨item, ?_⟩
    rw [choose, hfloor]
    simp only [bind, Except.bind, hitem]
  · obtain ⟨e, he, huncounted⟩ := floorInt_of_not_isFinite
      (mt isFinite_of_isFinite_mul hfinite : ¬(draw * Float.ofNat items.length).isFinite)
    refine .inr ⟨Nat.not_le.mp (mt isFinite_ofNat hfinite), e, ?_, huncounted⟩
    rw [choose, he]
    rfl

theorem mapM_id_map_some (texts : List String) : (texts.map some).mapM id = some texts := by
  induction texts with
  | nil => rfl
  | cons text rest ih => simp [ih]

theorem isUser_of_bound_eq_error {role value : String} {e : BuiltinError}
    (h : bound role value = .error e) : e.isUser := by
  unfold bound at h
  split at h
  · split at h
    · cases h
    · cases h
      rfl
  · cases h
    rfl

theorem bounds_cases (arguments : List String) :
    (∃ e, bounds arguments.head? arguments[1]? = .error e ∧ e.isUser) ∨
      bounds arguments.head? arguments[1]? = .ok (0, 99) ∨
      ∃ low high rest x y, arguments = low :: high :: rest ∧ bound "from" low = .ok x ∧
        bound "to" high = .ok y ∧ bounds arguments.head? arguments[1]? = .ok (x, y) := by
  match arguments with
  | [] => exact .inr (.inl rfl)
  | [_] => exact .inl ⟨.bareFrom, rfl, rfl⟩
  | low :: high :: rest =>
    have hbounds : bounds (low :: high :: rest).head? (low :: high :: rest)[1]? =
      (do let x ← bound "from" low; let y ← bound "to" high; return (x, y)) := rfl
    rw [hbounds]
    rcases hx : bound "from" low with e | x
    · exact .inl ⟨e, rfl, isUser_of_bound_eq_error hx⟩
    rcases hy : bound "to" high with e | y
    · exact .inl ⟨e, rfl, isUser_of_bound_eq_error hy⟩
    · exact .inr (.inr ⟨low, high, rest, x, y, rfl, hx, hy, rfl⟩)

theorem isFinite_default : ((99 : Float) - 0).isFinite := by decide +kernel

theorem drawn_number_cases (hdraw : IsDraw draw) :
    ((high - low).isFinite ∧ ∃ s, (numberIn low high draw).map some = .ok s) ∨
      ¬(high - low).isFinite ∧
        ∃ e : BuiltinError, (numberIn low high draw).map some = .error e ∧ e.IsUncounted := by
  rcases numberIn_cases low high hdraw with ⟨hfinite, text, htext⟩ | ⟨hfinite, e, he, huncounted⟩
  · exact .inl ⟨hfinite, some text, by rw [htext]; rfl⟩
  · exact .inr ⟨hfinite, e, by rw [he]; rfl, huncounted⟩

namespace Builtin

inductive Answers (b : Builtin) (arguments : List String) : Except BuiltinError Outcome → Prop
  | refused (e : BuiltinError) : e.isUser → Answers b arguments (.error e)
  | text (s : String) : Answers b arguments (.ok (.text s))
  | drawn (f : Float → Except BuiltinError (Option String)) :
    (∀ draw, IsDraw draw → (∃ s, f draw = .ok s) ∨
      b.Oversteps arguments ∧ ∃ e : BuiltinError, f draw = .error e ∧ e.IsUncounted) →
    Answers b arguments (.ok (.drawn f))

theorem answers_join (arguments : List String) :
    Answers .join arguments (outcome .join (arguments.map some)) := by
  cases arguments with
  | nil => exact .refused .missingSeparator rfl
  | cons separator items =>
    have hjoin : outcome .join ((separator :: items).map some) =
        .ok (.text (separator.intercalate items)) := by
      simp only [outcome, List.map_cons, List.head?_cons, Option.join_some, List.tail_cons,
        Evaluation.join, mapM_id_map_some, Except.map]
    rw [hjoin]
    exact .text _

theorem answers_random (arguments : List String) :
    Answers .random arguments (outcome .random (arguments.map some)) := by
  by_cases h : arguments = []
  · subst h
    exact .refused .emptyChoice rfl
  · have hne : arguments.map some ≠ [] := mt List.map_eq_nil_iff.mp h
    have houtcome : outcome .random (arguments.map some) =
        .ok (.drawn (choose (arguments.map some))) := by
      simp [outcome, h]
    rw [houtcome]
    refine .drawn _ fun draw hdraw => ?_
    have hcases := choose_cases hdraw hne
    rwa [List.length_map] at hcases

theorem outcome_randomNumber (arguments : List String) :
    outcome .randomNumber (arguments.map some) =
      match bounds arguments.head? arguments[1]? with
      | .error e => .error e
      | .ok (low, high) =>
        if high < low then .error .rangeOrder
        else .ok (.drawn fun draw => (numberIn low high draw).map some) := by
  have hhead : (arguments.map some).head?.join = arguments.head? := by
    cases arguments <;> rfl
  have hnext : (arguments.map some)[1]?.join = arguments[1]? := by
    match arguments with
    | [] | [_] | _ :: _ :: _ => rfl
  rw [outcome, hhead, hnext]
  cases bounds arguments.head? arguments[1]? <;> rfl

theorem answers_randomNumber (arguments : List String) :
    Answers .randomNumber arguments (outcome .randomNumber (arguments.map some)) := by
  rw [outcome_randomNumber]
  rcases bounds_cases arguments with
    ⟨e, he, huser⟩ | hdefault | ⟨low, high, rest, x, y, hargs, hx, hy, hbounds⟩
  · rw [he]
    exact .refused e huser
  · rw [hdefault]
    simp only
    split
    · exact .refused .rangeOrder rfl
    · refine .drawn _ fun draw hdraw => ?_
      exact (drawn_number_cases hdraw).imp And.right fun h => absurd isFinite_default h.1
  · rw [hbounds]
    simp only
    split
    · exact .refused .rangeOrder rfl
    · next horder =>
      refine .drawn _ fun draw hdraw => ?_
      exact (drawn_number_cases hdraw).imp And.right fun h =>
        ⟨⟨low, high, rest, x, y, hargs, hx, hy, horder, h.1⟩, h.2⟩

theorem answers_outcome (b : Builtin) (arguments : List String) :
    b.Answers arguments (b.outcome (arguments.map some)) := by
  cases b with
  | join => exact answers_join arguments
  | random => exact answers_random arguments
  | randomNumber => exact answers_randomNumber arguments

theorem outcome_of_tooFarApart (h : TooFarApart arguments) :
    ∃ f, outcome .randomNumber (arguments.map some) = .ok (.drawn f) ∧
      ∀ draw, IsDraw draw → ∃ e : BuiltinError, f draw = .error e ∧ e.IsUncounted := by
  obtain ⟨low, high, rest, x, y, rfl, hx, hy, horder, hfinite⟩ := h
  refine ⟨fun draw => (numberIn x y draw).map some, ?_, fun draw hdraw => ?_⟩
  · rw [outcome_randomNumber]
    simp only [List.head?_cons, List.getElem?_cons_succ, List.getElem?_cons_zero, bounds, hx, hy,
      bind, Except.bind, pure, Except.pure, if_neg horder]
  · exact ((drawn_number_cases hdraw).resolve_left fun h => hfinite h.1).2

end Builtin
end TagTemplate.Evaluation
