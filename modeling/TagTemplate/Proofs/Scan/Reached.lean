import TagTemplate.Proofs.Scan.Passes

/-! The cursors that a scan comes to. Where handlers may fail, what their outcomes keep is kept by the
whole scan, and every handler that is asked finds it so. -/
namespace TagTemplate.Scan

section
variable {ν : Type} {steps : List (EndHandler ν)} {f : EndHandler ν} {s t u : Cursor ν}
  {seen : List (Cursor ν)}

theorem answers_ne_nil (h : seen.length ≤ steps.length) (hseen : seen ≠ []) :
    answers steps seen ≠ [] := by
  intro hanswers
  have hlength := congrArg List.length hanswers
  have hpos := List.length_pos_iff.mpr hseen
  simp only [answers, List.length_zipWith, List.length_nil] at hlength
  omega

theorem Asked.of_cons (h : Asked (f :: steps) s seen t) :
    (seen = [s] ∧ t = (f s).1 ∧ (f s).2 = true) ∨
      ∃ rest, seen = s :: rest ∧ (f s).2 = false ∧ Asked steps (f s).1 rest t := by
  have hlength := h.length_le
  obtain ⟨hhanded, hunclaimed, hclaimed⟩ := h
  cases seen with
  | nil => simp [answers] at hclaimed
  | cons first rest =>
    simp only [List.cons_append, List.zipWith_cons_cons, List.cons.injEq] at hhanded
    obtain ⟨rfl, hhanded⟩ := hhanded
    simp only [List.length_cons, Nat.add_le_add_iff_right] at hlength
    have hanswers : answers (f :: steps) (first :: rest) = (f first).2 :: answers steps rest := by
      simp [answers]
    rw [hanswers] at hunclaimed hclaimed
    by_cases hrest : rest = []
    · subst hrest
      simp only [List.nil_append, List.zipWith_nil_right, List.cons.injEq, and_true] at hhanded
      cases hfirst : (f first).2 with
      | true => exact .inl ⟨rfl, hhanded, rfl⟩
      | false =>
        obtain rfl : steps = [] := by
          cases steps with
          | nil => rfl
          | cons g steps => simp [answers, hfirst] at hclaimed
        exact .inr ⟨[], rfl, rfl, hhanded ▸ .nil t⟩
    · have hmore := answers_ne_nil hlength hrest
      rw [List.dropLast_cons_of_ne_nil hmore] at hunclaimed
      have hfirst := hunclaimed _ List.mem_cons_self
      refine .inr ⟨rest, rfl, hfirst, hhanded, fun a ha => hunclaimed a (List.mem_cons_of_mem _ ha), ?_⟩
      intro hlt
      have hlast := hclaimed (by simpa using hlt)
      rwa [List.getLast?_cons_of_ne_nil hmore] at hlast

theorem Asked.eq_conclude (h : Asked steps s seen t) : t = conclude steps s := by
  induction steps generalizing s seen with
  | nil =>
    have hseen : seen = [] := List.eq_nil_of_length_eq_zero (Nat.le_zero.mp h.length_le)
    have hhanded := h.handed
    rw [hseen] at hhanded
    exact (List.cons.inj hhanded).1
  | cons f rest ih =>
    simp only [conclude]
    rcases h.of_cons with ⟨-, rfl, hclaims⟩ | ⟨seen, -, hpasses, hrest⟩
    · simp [hclaims]
    · simp [hpasses, ih hrest]

theorem Asked.eq_of_mem (h : Asked steps s seen t)
    (hsteps : ∀ f ∈ steps, (f s).2 = false → (f s).1 = s) : ∀ u ∈ seen, u = s := by
  induction steps generalizing seen with
  | nil =>
    obtain rfl : seen = [] := List.eq_nil_of_length_eq_zero (Nat.le_zero.mp h.length_le)
    simp
  | cons f rest ih =>
    rcases h.of_cons with ⟨rfl, -, -⟩ | ⟨seen, rfl, hpasses, hrest⟩
    · simp
    · rw [hsteps f List.mem_cons_self hpasses] at hrest
      have hothers := ih hrest fun g hg => hsteps g (List.mem_cons_of_mem _ hg)
      simpa using hothers

/-- The scan comes to what a pass leaves, and to what its handlers are given. -/
def Reached (handlers : List (Handler ν)) (text : List Char) (s u : Cursor ν) : Prop :=
  ∃ passes t, Passes handlers text s passes t ∧ (u = t ∨ ∃ p ∈ passes, u ∈ p.seen)

end

section
variable {ε ν : Type} {acts : List (Act ε ν)} {text : List Char} {s t : Cursor (Except ε ν)}

theorem Act.handle_unclaimed (act : Act ε ν) (c : Char) (hs : s.finished = false)
    (h : (act.handler.handle c s).2 = false) : (act.handler.handle c s).1 = s := by
  obtain ⟨position, finished, node⟩ := s
  obtain rfl : finished = false := hs
  simp only [Act.handler] at h ⊢
  cases node with
  | error e => rfl
  | ok node =>
    simp only at h ⊢
    cases hact : act c position node with
    | skip => rfl
    | _ => rw [hact] at h; cases h

abbrev Condition (ν : Type) := (finished : Bool) → (position : Nat) → ν → Prop

def Outcome.Brings (Holds : Condition ν) (position : Nat) : Outcome ε ν → Prop
  | take next count => Holds false (position + count) next
  | finish next count => Holds true (position + count) next
  | skip | raise _ => True

def Keeps (acts : List (Act ε ν)) (text : List Char) (Holds : Condition ν) : Prop :=
  ∀ c position node, text[position]? = some c → Holds false position node →
    (firstOutcome acts c position node).Brings Holds position

def HoldsAt (Holds : Condition ν) (s : Cursor (Except ε ν)) : Prop :=
  ∀ node, s.node = .ok node → Holds s.finished s.position node

variable {Holds : Condition ν}

theorem Keeps.of_pass (hkeeps : Keeps acts text Holds) {c : Char} (hs : s.finished = false)
    (hc : text[s.position]? = some c) (h : HoldsAt Holds s) :
    HoldsAt Holds (pass (acts.map Act.handler) c s) := by
  obtain ⟨position, finished, node⟩ := s
  obtain rfl : finished = false := hs
  cases node with
  | error e => cases acts <;> exact h
  | ok node =>
    have hnext := hkeeps c position node hc (h node rfl)
    rw [pass_acts]
    cases hout : firstOutcome acts c position node with
    | skip => exact h
    | take next count =>
      rw [hout] at hnext
      rintro _ ⟨⟩
      exact hnext
    | finish next count =>
      rw [hout] at hnext
      rintro _ ⟨⟩
      exact hnext
    | raise e => rintro _ ⟨⟩

/-- What a scan begins with and its outcomes keep holds wherever it comes to. -/
theorem Keeps.of_reached (hkeeps : Keeps acts text Holds) (hstart : HoldsAt Holds s)
    (h : Reached (acts.map Act.handler) text s t) : HoldsAt Holds t := by
  obtain ⟨passes, last, hpasses, ht⟩ := h
  induction passes generalizing s with
  | nil =>
    obtain rfl : last = s := (List.cons.inj hpasses.linked).1
    obtain rfl : t = last := by simpa using ht
    exact hstart
  | cons p rest ih =>
    obtain ⟨rfl, ⟨hopen, hchar, hasked⟩, hrest⟩ := hpasses.of_cons
    rw [List.map_map] at hasked
    have hleft : p.left = pass (acts.map Act.handler) p.char p.start := by
      rw [hasked.eq_conclude, pass_eq_conclude, List.map_map]
    have hseen : ∀ u ∈ p.seen, u = p.start := by
      refine hasked.eq_of_mem fun f hf => ?_
      obtain ⟨act, -, rfl⟩ := List.mem_map.mp hf
      exact act.handle_unclaimed p.char hopen
    rcases ht with rfl | ⟨q, hq, ht⟩
    · exact ih (hleft ▸ hkeeps.of_pass hopen hchar hstart) hrest (.inl rfl)
    rcases List.mem_cons.mp hq with rfl | hq
    · rw [hseen t ht]
      exact hstart
    · exact ih (hleft ▸ hkeeps.of_pass hopen hchar hstart) hrest (.inr ⟨q, hq, ht⟩)

theorem exists_reached_of_run {ends : List (EndAct ε ν)} {position : Nat} {node result : ν}
    {s : Cursor (Except ε ν)}
    (h : (chainOfActs acts ends).run text position (.ok node) = .ok s) (hs : s.node = .ok result) :
    ∃ t built, Reached (acts.map Act.handler) text ⟨position, false, .ok node⟩ t ∧
      t.node = .ok built ∧ settle ends t.position built = .ok result ∧
      (t.finished = true ∨ text.length ≤ t.position) := by
  obtain ⟨passes, t, hpasses, hcomes, -⟩ :=
    scan_watched (acts.map Act.handler) text ⟨position, false, .ok node⟩ []
  cases hscan : scan (acts.map Act.handler) text ⟨position, false, .ok node⟩ with
  | error e => simp [Chain.run, chainOfActs, hscan, Except.map] at h
  | ok last =>
    rw [hscan] at hcomes
    cases hcomes with
    | ended moved stops =>
      have hnode := run_chainOfActs ends hscan
      rw [h] at hnode
      replace hnode : Except.ok result = t.node.bind (settle ends t.position) :=
        hs.symm.trans (Except.ok.inj hnode)
      cases ht : t.node with
      | error e => rw [ht] at hnode; cases hnode
      | ok built =>
        rw [ht] at hnode
        exact ⟨t, built, ⟨passes, t, hpasses, .inl rfl⟩, ht, hnode.symm, stops⟩

end
end TagTemplate.Scan
