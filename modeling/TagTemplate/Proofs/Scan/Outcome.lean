import TagTemplate.Scan.Outcome

/-! Scans by handlers that can fail. What a pass does is what the first handler does that does not
skip the character, and the scan goes on from there. -/
namespace TagTemplate.Scan

variable {ε ν : Type}

def Outcome.orElse : Outcome ε ν → Outcome ε ν → Outcome ε ν
  | skip, o => o
  | o, _ => o

section
variable (o : Outcome ε ν) (node : ν) (count : Nat) (e : ε)

@[simp] theorem Outcome.skip_orElse : skip.orElse o = o := rfl
@[simp] theorem Outcome.orElse_skip : o.orElse skip = o := by cases o <;> rfl
@[simp] theorem Outcome.take_orElse : (take node count).orElse o = take node count := rfl
@[simp] theorem Outcome.finish_orElse : (finish node count).orElse o = finish node count := rfl
@[simp] theorem Outcome.raise_orElse : (raise e).orElse o = raise e := rfl
end

def firstOutcome : List (Act ε ν) → Act ε ν
  | [], _, _, _ => .skip
  | act :: rest, c, position, node =>
    (act c position node).orElse (firstOutcome rest c position node)

theorem pass_acts (acts : List (Act ε ν)) (c : Char) (position : Nat) (node : ν) :
    pass (acts.map Act.handler) c ⟨position, false, .ok node⟩ =
      ((firstOutcome acts c position node).cursor position node).1 := by
  induction acts with
  | nil => rfl
  | cons act rest ih =>
    simp only [List.map_cons, pass, Act.handler, firstOutcome]
    cases act c position node with
    | skip => exact ih
    | take next count => rfl
    | finish next count => rfl
    | raise e => rfl

variable {handlers : List (Handler ν)} {text : List Char} {s : Cursor ν}

theorem scan_of_finished (h : s.finished = true) : scan handlers text s = .ok s := by
  unfold scan
  simp [h]

theorem scan_of_length_le (h : text.length ≤ s.position) : scan handlers text s = .ok s := by
  unfold scan
  rw [dif_neg]
  omega

theorem scan_of_getElem? {c : Char} (hf : s.finished = false) (hc : text[s.position]? = some c) :
    scan handlers text s =
      if s.position < (pass handlers c s).position then scan handlers text (pass handlers c s)
      else if (pass handlers c s).finished then .ok (pass handlers c s)
      else .error ⟨c, s.position, pass handlers c s⟩ := by
  obtain ⟨hlt, rfl⟩ := List.getElem?_eq_some_iff.mp hc
  rw [scan, dif_pos ⟨hf, hlt⟩]

variable {acts : List (Act ε ν)} {c : Char} {position count : Nat} {node next : ν}

theorem scan_of_take (hc : text[position]? = some c)
    (h : firstOutcome acts c position node = .take next count) (hcount : 0 < count) :
    scan (acts.map Act.handler) text ⟨position, false, .ok node⟩ =
      scan (acts.map Act.handler) text ⟨position + count, false, .ok next⟩ := by
  rw [scan_of_getElem? rfl hc, pass_acts, h]
  exact if_pos (Nat.lt_add_of_pos_right hcount)

theorem scan_of_finish (hc : text[position]? = some c)
    (h : firstOutcome acts c position node = .finish next count) :
    scan (acts.map Act.handler) text ⟨position, false, .ok node⟩ =
      .ok ⟨position + count, true, .ok next⟩ := by
  rw [scan_of_getElem? rfl hc, pass_acts, h]
  simp only [Outcome.cursor]
  split
  · exact scan_of_finished rfl
  · rfl

theorem scan_of_raise {e : ε} (hc : text[position]? = some c)
    (h : firstOutcome acts c position node = .raise e) :
    scan (acts.map Act.handler) text ⟨position, false, .ok node⟩ =
      .ok ⟨position, true, .error e⟩ := by
  rw [scan_of_getElem? rfl hc, pass_acts, h]
  simp only [Outcome.cursor, Nat.lt_irrefl, if_false, if_true]

/-- What the end handlers make of a node, the one added last first. -/
def settle (ends : List (EndAct ε ν)) (position : Nat) (node : ν) : Except ε ν :=
  ends.reverse.foldlM (fun node act => act position node) node

theorem settle_one (act : EndAct ε ν) (position : Nat) (node : ν) :
    settle [act] position node = act position node := by
  simp only [settle, List.reverse_cons, List.reverse_nil, List.nil_append, List.foldlM_cons,
    List.foldlM_nil, bind_pure]

theorem settle_two (first last : EndAct ε ν) (position : Nat) (node : ν) :
    settle [first, last] position node = (last position node).bind (first position) := by
  simp only [settle, List.reverse_cons, List.reverse_nil, List.nil_append, List.cons_append,
    List.foldlM_cons, List.foldlM_nil, bind_pure]
  rfl

theorem conclude_of_error (ends : List (EndAct ε ν)) {s : Cursor (Except ε ν)} {e : ε}
    (h : s.node = .error e) : conclude (ends.map EndAct.handler) s = s := by
  cases ends with
  | nil => rfl
  | cons act rest => simp [conclude, EndAct.handler, h]

theorem node_conclude (ends : List (EndAct ε ν)) (position : Nat) (finished : Bool) (node : ν) :
    (conclude (ends.map EndAct.handler) ⟨position, finished, .ok node⟩).node =
      ends.foldlM (fun node act => act position node) node := by
  induction ends generalizing node with
  | nil => rfl
  | cons act rest ih =>
    simp only [List.map_cons, conclude, EndAct.handler, List.foldlM_cons]
    cases h : act position node with
    | error e => rw [conclude_of_error rest rfl]; rfl
    | ok next => exact ih next

/-- What a chain makes of a text, when its scan has come to an end. -/
theorem run_chainOfActs (ends : List (EndAct ε ν)) {stop : Nat} {finished : Bool}
    {result : Except ε ν}
    (h : scan (acts.map Act.handler) text ⟨position, false, .ok node⟩ = .ok ⟨stop, finished, result⟩) :
    ((chainOfActs acts ends).run text position (.ok node)).map Cursor.node =
      .ok (result.bind (settle ends stop)) := by
  simp only [Chain.run, chainOfActs, h, Except.map, ← List.map_reverse]
  cases result with
  | error e => rw [conclude_of_error _ rfl]; rfl
  | ok next => rw [node_conclude]; rfl

end TagTemplate.Scan
