import TagTemplate.Proofs.Template.Run

/-! Where refusals point. The character that an error names is one of the source, so that the error
can be shown. -/
namespace TagTemplate.Template
open Reader

/-- A refusal points at a character of the text, or in front of a text that ends at once. -/
theorem index_of_read_eq_error {limit : Nat} {s : State} {index : Int} {cs : List Char}
    {r : Refusal} (h : read limit s index cs = .error r) :
    index - 1 ≤ r.index ∧ r.index < index + cs.length := by
  rcases read_eq_error h with ⟨t, -, -, rfl⟩ | ⟨p, c, rest, t, rfl, -, -, hi⟩
  · constructor
    · simp only; omega
    · simp only; omega
  · simp only [List.length_append, List.length_cons]
    omega

theorem index_nonneg_of_read_eq_error {limit : Nat} {s : State} {cs : List Char} {r : Refusal}
    (hs : finish? s ≠ none) (h : read limit s 0 cs = .error r) : 0 ≤ r.index := by
  rcases read_eq_error h with ⟨t, ht, hf, rfl⟩ | ⟨p, c, rest, t, rfl, -, -, hi⟩
  · cases cs with
    | nil =>
      obtain rfl : s = t := Option.some.inj ht
      contradiction
    | cons c rest => simp only [List.length_cons]; omega
  · omega

theorem ofRefusal_eq_malformed {source : List Char} {r : Refusal}
    (h : 0 ≤ r.index ∧ r.index < source.length) :
    ∃ e : SyntaxError, ReadError.ofRefusal source r = .malformed e ∧ e.fault = r.fault ∧
      e.message = r.fault.message ∧ e.source = source ∧ (e.index : Int) = r.index := by
  refine ⟨⟨r.fault, r.fault.message, source, r.index.toNat, by omega⟩, ?_, rfl, rfl, rfl, ?_⟩
  · simp only [ReadError.ofRefusal, SyntaxError.at?, dif_pos h]
  · exact Int.toNat_of_nonneg h.1

theorem eq_of_ofRefusal_eq_malformed {source : List Char} {r : Refusal} {e : SyntaxError}
    (h : ReadError.ofRefusal source r = .malformed e) :
    e.fault = r.fault ∧ e.message = r.fault.message ∧ (e.index : Int) = r.index := by
  unfold ReadError.ofRefusal SyntaxError.at? at h
  split at h
  · next he =>
    split at he
    · next hinside =>
      cases h
      cases he
      exact ⟨rfl, rfl, Int.toNat_of_nonneg hinside.1⟩
    · cases he
  · cases h

theorem compileWithin_eq_ok_iff {limit : Nat} {source : String} {t : Node} :
    compileWithin limit source = .ok t ↔ readDocument limit source.toList = .ok t := by
  unfold compileWithin
  cases readDocument limit source.toList with
  | error r => simp only [mapError_error, reduceCtorEq]
  | ok node => simp only [mapError_ok, Except.ok.injEq]

theorem finish?_emptyDocument :
    finish? (.start .emptyTemplate false) = some (.template [] 0) :=
  rfl

theorem compileWithin_of_refusal {limit : Nat} {source : String} {r : Refusal}
    (h : readDocument limit source.toList = .error r) :
    ∃ e : SyntaxError, compileWithin limit source = .error (.malformed e) ∧ e.fault = r.fault ∧
      e.message = r.fault.message ∧ e.source = source.toList ∧
      (e.index : Int) = r.reported.index := by
  have hlower := index_nonneg_of_read_eq_error (by simp [finish?_emptyDocument]) h
  have hupper := (index_of_read_eq_error h).2
  have hinside : 0 ≤ r.reported.index ∧ r.reported.index < source.toList.length := by
    simp only [Refusal.reported]
    constructor
    · split <;> omega
    · split <;> omega
  obtain ⟨e, he, hfault, hmessage, hsource, hindex⟩ := ofRefusal_eq_malformed hinside
  refine ⟨e, ?_, hfault, hmessage, hsource, hindex⟩
  simp only [compileWithin, h, mapError_error, he]

end TagTemplate.Template
