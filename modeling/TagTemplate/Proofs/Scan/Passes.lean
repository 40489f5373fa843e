import TagTemplate.Proofs.Scan.Outcome

/-! What a scan does, pass by pass. A chain that is watched behaves as before and keeps a record of
every handler that is asked. The passes of a scan begin further and further on in the text, and
either all of them move or finish, or the first one that does neither is the last. -/
namespace TagTemplate.Scan

variable {ν : Type}

def answers (steps : List (EndHandler ν)) (seen : List (Cursor ν)) : List Bool :=
  List.zipWith (fun f u => (f u).2) steps seen

/-- The handlers are asked up to the first one that claims. They are given the cursors `seen`: the
first handler `s`, each other one what the handler before it has left. -/
structure Asked (steps : List (EndHandler ν)) (s : Cursor ν) (seen : List (Cursor ν))
    (t : Cursor ν) : Prop where
  handed : seen ++ [t] = s :: List.zipWith (fun f u => (f u).1) steps seen
  unclaimed : ∀ claimed ∈ (answers steps seen).dropLast, claimed = false
  claimed : seen.length < steps.length → (answers steps seen).getLast? = some true

section
variable {steps : List (EndHandler ν)} {f : EndHandler ν} {s t : Cursor ν} {seen : List (Cursor ν)}

theorem Asked.nil (s : Cursor ν) : Asked [] s [] s where
  handed := rfl
  unclaimed := by simp [answers]
  claimed h := absurd h (Nat.lt_irrefl 0)

theorem Asked.of_claims (h : (f s).2 = true) (steps : List (EndHandler ν)) :
    Asked (f :: steps) s [s] (f s).1 where
  handed := by simp
  unclaimed := by simp [answers]
  claimed _ := by simp [answers, h]

theorem Asked.cons (h : (f s).2 = false) (hrest : Asked steps (f s).1 seen t) :
    Asked (f :: steps) s (s :: seen) t where
  handed := by rw [List.cons_append, hrest.handed, List.zipWith_cons_cons]
  unclaimed := by
    have hanswers : answers (f :: steps) (s :: seen) = false :: answers steps seen := by
      simp [answers, h]
    rw [hanswers]
    intro claimed hmem
    cases hrest' : answers steps seen with
    | nil => simp [hrest'] at hmem
    | cons first rest =>
      rw [hrest', List.dropLast_cons_cons, List.mem_cons, ← hrest'] at hmem
      exact hmem.elim id (hrest.unclaimed claimed)
  claimed hlt := by
    have hlast := hrest.claimed (Nat.lt_of_succ_lt_succ hlt)
    simp only [answers] at hlast
    simp [answers, List.getLast?_cons, hlast]

end

theorem pass_eq_conclude (handlers : List (Handler ν)) (c : Char) (s : Cursor ν) :
    pass handlers c s = conclude (handlers.map (·.handle c)) s := by
  induction handlers generalizing s with
  | nil => rfl
  | cons h rest ih =>
    simp only [pass, List.map_cons, conclude, ih]

/-- A handler that is asked: its number in the order in which the handlers were added, the character,
which there is none of at the end, and the cursor. -/
structure Query (ν : Type) where
  handler : Nat
  char : Option Char
  cursor : Cursor ν

structure Watched (ν : Type) where
  node : ν
  record : List (Query ν)

def Cursor.recorded (s : Cursor ν) (record : List (Query ν)) : Cursor (Watched ν) :=
  ⟨s.position, s.finished, ⟨s.node, record⟩⟩

@[simp] theorem Cursor.position_recorded (s : Cursor ν) (record : List (Query ν)) :
    (s.recorded record).position = s.position := rfl

@[simp] theorem Cursor.finished_recorded (s : Cursor ν) (record : List (Query ν)) :
    (s.recorded record).finished = s.finished := rfl

def Cursor.plain (s : Cursor (Watched ν)) : Cursor ν :=
  ⟨s.position, s.finished, s.node.node⟩

def Stall.recorded (e : Stall ν) (record : List (Query ν)) : Stall (Watched ν) :=
  ⟨e.char, e.position, e.cursor.recorded record⟩

def EndHandler.watched (char : Option Char) (f : EndHandler ν) (number : Nat) :
    EndHandler (Watched ν) := fun s =>
  let (next, claimed) := f s.plain
  (next.recorded (s.node.record ++ [⟨number, char, s.plain⟩]), claimed)

def Handler.watched (h : Handler ν) (number : Nat) : Handler (Watched ν) where
  handle c := EndHandler.watched (some c) (h.handle c) number
  position_le c s := h.position_le c s.plain

def watchedHandlers (handlers : List (Handler ν)) : List (Handler (Watched ν)) :=
  handlers.zipIdx.map fun (h, number) => h.watched number

def Chain.watched (chain : Chain ν) : Chain (Watched ν) where
  handlers := watchedHandlers chain.handlers
  ends := chain.ends.zipIdx.map fun (f, number) => EndHandler.watched none f number

def queries (char : Option Char) (numbers : List Nat) (seen : List (Cursor ν)) : List (Query ν) :=
  List.zipWith (fun number s => ⟨number, char, s⟩) numbers seen

theorem conclude_watched (char : Option Char) (steps : List (EndHandler ν × Nat)) (s : Cursor ν)
    (record : List (Query ν)) :
    ∃ seen, Asked (steps.map Prod.fst) s seen (conclude (steps.map Prod.fst) s) ∧
      conclude (steps.map fun (f, number) => EndHandler.watched char f number) (s.recorded record) =
        (conclude (steps.map Prod.fst) s).recorded
          (record ++ queries char (steps.map Prod.snd) seen) := by
  induction steps generalizing s record with
  | nil => exact ⟨[], .nil s, by simp [conclude, queries]⟩
  | cons step rest ih =>
    obtain ⟨f, number⟩ := step
    have hwatched : EndHandler.watched char f number (s.recorded record) =
        ((f s).1.recorded (record ++ [⟨number, char, s⟩]), (f s).2) := rfl
    simp only [List.map_cons, conclude, hwatched]
    cases hclaim : (f s).2 with
    | true =>
      refine ⟨[s], .of_claims hclaim _, ?_⟩
      simp [queries]
    | false =>
      obtain ⟨seen, hasked, hrecord⟩ := ih (f s).1 (record ++ [⟨number, char, s⟩])
      refine ⟨s :: seen, .cons hclaim hasked, ?_⟩
      simpa [queries] using hrecord

/-- A pass over the handlers: its character, the cursor at its beginning, the cursors that the
handlers are given, and the cursor that it leaves. -/
structure Pass (ν : Type) where
  char : Char
  start : Cursor ν
  seen : List (Cursor ν)
  left : Cursor ν

namespace Pass

def Stalls (p : Pass ν) : Prop :=
  p.left.position = p.start.position ∧ p.left.finished = false

def stall (p : Pass ν) : Stall ν := ⟨p.char, p.start.position, p.left⟩

def queries (p : Pass ν) : List (Query ν) :=
  Scan.queries (some p.char) (List.range p.seen.length) p.seen

structure Goes (handlers : List (Handler ν)) (text : List Char) (p : Pass ν) : Prop where
  unfinished : p.start.finished = false
  char_at : text[p.start.position]? = some p.char
  asked : Asked (handlers.map (·.handle p.char)) p.start p.seen p.left

end Pass

/-- Passes one after another, from the cursor `s` to the cursor `t`. Each begins with what the one
before it has left, and further on in the text. -/
structure Passes (handlers : List (Handler ν)) (text : List Char) (s : Cursor ν)
    (passes : List (Pass ν)) (t : Cursor ν) : Prop where
  linked : passes.map Pass.start ++ [t] = s :: passes.map Pass.left
  goes : ∀ p ∈ passes, p.Goes handlers text
  further : (passes.map (·.start.position)).Pairwise (· < ·)

section
variable {handlers : List (Handler ν)} {text : List Char} {s t : Cursor ν} {p : Pass ν}
  {passes : List (Pass ν)}

theorem Passes.nil (s : Cursor ν) : Passes handlers text s [] s :=
  ⟨rfl, by simp, .nil⟩

theorem Passes.single (hgoes : p.Goes handlers text) : Passes handlers text p.start [p] p.left :=
  ⟨rfl, by simpa using hgoes, by simp⟩

theorem Passes.of_cons (h : Passes handlers text s (p :: passes) t) :
    p.start = s ∧ p.Goes handlers text ∧ Passes handlers text p.left passes t := by
  obtain ⟨hlinked, hgoes, hfurther⟩ := h
  simp only [List.map_cons, List.cons_append, List.cons.injEq] at hlinked hfurther
  exact ⟨hlinked.1, hgoes p List.mem_cons_self, hlinked.2,
    fun q hq => hgoes q (List.mem_cons_of_mem _ hq), (List.pairwise_cons.mp hfurther).2⟩

theorem Passes.position_le (h : Passes handlers text s passes t) :
    ∀ p ∈ passes, s.position ≤ p.start.position := by
  cases passes with
  | nil => simp
  | cons first rest =>
    obtain ⟨rfl, -, -⟩ := h.of_cons
    have hfurther := (List.pairwise_cons.mp h.further).1
    intro p hp
    rcases List.mem_cons.mp hp with rfl | hp
    · exact Nat.le_refl _
    · exact Nat.le_of_lt (hfurther _ (List.mem_map_of_mem hp))

theorem Passes.cons (hgoes : p.Goes handlers text) (hmoved : p.start.position < p.left.position)
    (hrest : Passes handlers text p.left passes t) :
    Passes handlers text p.start (p :: passes) t where
  linked := by rw [List.map_cons, List.cons_append, hrest.linked, List.map_cons]
  goes := by simpa using ⟨hgoes, hrest.goes⟩
  further := by
    rw [List.map_cons, List.pairwise_cons]
    refine ⟨fun position hmem => ?_, hrest.further⟩
    obtain ⟨q, hq, rfl⟩ := List.mem_map.mp hmem
    exact Nat.lt_of_lt_of_le hmoved (hrest.position_le q hq)

theorem Passes.length_le (h : Passes handlers text s passes t) :
    passes.length ≤ text.length - s.position := by
  induction passes generalizing s with
  | nil => exact Nat.zero_le _
  | cons p rest ih =>
    obtain ⟨rfl, hgoes, hrest⟩ := h.of_cons
    obtain ⟨hlt, -⟩ := List.getElem?_eq_some_iff.mp hgoes.char_at
    have hlength := ih hrest
    cases rest with
    | nil => simp only [List.length_cons, List.length_nil]; omega
    | cons q rest =>
      have hfurther : p.start.position < q.start.position :=
        (List.pairwise_cons.mp h.further).1 _ (List.mem_map_of_mem List.mem_cons_self)
      rw [hrest.of_cons.1] at hfurther
      simp only [List.length_cons] at hlength ⊢
      omega

end

theorem Asked.length_le {steps : List (EndHandler ν)} {s t : Cursor ν} {seen : List (Cursor ν)}
    (h : Asked steps s seen t) : seen.length ≤ steps.length := by
  have hlength := congrArg List.length h.handed
  simp only [List.length_append, List.length_cons, List.length_nil, List.length_zipWith] at hlength
  omega

theorem queries_range {n : Nat} {seen : List (Cursor ν)} (h : seen.length ≤ n)
    (char : Option Char) :
    queries char (List.range n) seen = queries char (List.range seen.length) seen := by
  apply List.ext_getElem?
  intro i
  simp only [queries, List.getElem?_zipWith]
  grind

theorem exists_pass (handlers : List (Handler ν)) {text : List Char} {s : Cursor ν} {c : Char}
    (hs : s.finished = false) (hc : text[s.position]? = some c) (record : List (Query ν)) :
    ∃ p : Pass ν, p.Goes handlers text ∧ p.char = c ∧ p.start = s ∧ p.left = pass handlers c s ∧
      pass (watchedHandlers handlers) c (s.recorded record) =
        p.left.recorded (record ++ p.queries) := by
  obtain ⟨seen, hasked, hrecord⟩ := conclude_watched (some c)
    (handlers.zipIdx.map fun (h, number) => (h.handle c, number)) s record
  have hsteps : (handlers.zipIdx.map fun (h, number) => (h.handle c, number)).map Prod.fst =
      handlers.map (·.handle c) := by
    rw [List.map_map, ← List.zipIdx_map_fst 0 handlers, List.map_map]
    simp
  have hnumbers : (handlers.zipIdx.map fun (h, number) => (h.handle c, number)).map Prod.snd =
      List.range handlers.length := by
    rw [List.map_map, List.range_eq_range', ← List.zipIdx_map_snd]
    rfl
  have hwatched : (watchedHandlers handlers).map (·.handle c) =
      (handlers.zipIdx.map fun (h, number) => (h.handle c, number)).map
        fun (f, number) => EndHandler.watched (some c) f number := by
    simp only [watchedHandlers, List.map_map]
    rfl
  rw [hsteps] at hasked hrecord
  rw [hnumbers, queries_range (by simpa using hasked.length_le)] at hrecord
  rw [← pass_eq_conclude] at hasked hrecord
  refine ⟨⟨c, s, seen, pass handlers c s⟩, ⟨hs, hc, hasked⟩, rfl, rfl, rfl, ?_⟩
  rw [pass_eq_conclude, hwatched, hrecord]
  rfl

/-- How passes come to an end. The last one stalls, or none does and the text is over or a handler
has finished. -/
inductive Comes (text : List Char) :
    List (Pass ν) → Cursor ν → Except (Stall ν) (Cursor ν) → Prop
  | stalled {before : List (Pass ν)} {p : Pass ν} (moved : ∀ q ∈ before, ¬q.Stalls)
      (stalls : p.Stalls) : Comes text (before ++ [p]) p.left (.error p.stall)
  | ended {passes : List (Pass ν)} {t : Cursor ν} (moved : ∀ q ∈ passes, ¬q.Stalls)
      (stops : t.finished = true ∨ text.length ≤ t.position) : Comes text passes t (.ok t)

theorem Comes.of_still {p : Pass ν} (h : p.left.position = p.start.position) (text : List Char) :
    Comes text [p] p.left (if p.left.finished then .ok p.left else .error p.stall) := by
  cases hf : p.left.finished with
  | true =>
    refine .ended ?_ (.inl hf)
    simp [Pass.Stalls, hf]
  | false =>
    rw [← List.nil_append [p]]
    exact .stalled (by simp) ⟨h, hf⟩

theorem Comes.cons {text : List Char} {p : Pass ν} {passes : List (Pass ν)} {t : Cursor ν}
    {result : Except (Stall ν) (Cursor ν)} (hmoved : ¬p.Stalls) (h : Comes text passes t result) :
    Comes text (p :: passes) t result := by
  cases h with
  | stalled moved stalls =>
    rw [← List.cons_append]
    exact .stalled (by simpa using ⟨hmoved, moved⟩) stalls
  | ended moved stops => exact .ended (by simpa using ⟨hmoved, moved⟩) stops

def recordedEnd (record : List (Query ν)) :
    Except (Stall ν) (Cursor ν) → Except (Stall (Watched ν)) (Cursor (Watched ν))
  | .ok t => .ok (t.recorded record)
  | .error e => .error (e.recorded record)

/-- A scan is made of passes. What is recorded when it is watched is what they ask. -/
theorem scan_watched (handlers : List (Handler ν)) (text : List Char) (s : Cursor ν)
    (record : List (Query ν)) :
    ∃ passes t, Passes handlers text s passes t ∧ Comes text passes t (scan handlers text s) ∧
      scan (watchedHandlers handlers) text (s.recorded record) =
        recordedEnd (record ++ passes.flatMap Pass.queries) (scan handlers text s) := by
  -- On the number of characters left, which each pass that moves makes smaller.
  obtain ⟨n, hn⟩ : ∃ n, text.length - s.position = n := ⟨_, rfl⟩
  induction n using Nat.strongRecOn generalizing s record with
  | ind n ih =>
    cases hs : s.finished with
    | true =>
      rw [scan_of_finished hs, scan_of_finished (s := s.recorded record) hs]
      exact ⟨[], s, .nil s, .ended (by simp) (.inl hs), by simp [recordedEnd]⟩
    | false =>
      rcases Nat.lt_or_ge s.position text.length with hlt | hge
      case inr =>
        rw [scan_of_length_le hge, scan_of_length_le (s := s.recorded record) hge]
        exact ⟨[], s, .nil s, .ended (by simp) (.inr hge), by simp [recordedEnd]⟩
      obtain ⟨c, hc⟩ : ∃ c, text[s.position]? = some c := ⟨_, List.getElem?_eq_getElem hlt⟩
      obtain ⟨p, hgoes, rfl, rfl, hleft, hrecord⟩ := exists_pass handlers hs hc record
      rw [scan_of_getElem? hs hc, scan_of_getElem? (s := p.start.recorded record) hs hc, hrecord,
        ← hleft]
      simp only [Cursor.position_recorded, Cursor.finished_recorded]
      by_cases hmoved : p.start.position < p.left.position
      · simp only [hmoved, if_true]
        obtain ⟨passes, t, hpasses, hcomes, hend⟩ :=
          ih _ (by omega) p.left (record ++ p.queries) rfl
        refine ⟨p :: passes, t, hpasses.cons hgoes hmoved, hcomes.cons ?_, ?_⟩
        · exact fun hstalls => absurd hstalls.1 (Nat.ne_of_gt hmoved)
        · rw [hend, List.flatMap_cons, List.append_assoc]
      have hstill : p.left.position = p.start.position := by
        have hle := position_le_pass handlers p.char p.start
        rw [← hleft] at hle
        omega
      simp only [hmoved, if_false]
      refine ⟨[p], p.left, .single hgoes, .of_still hstill text, ?_⟩
      rw [List.flatMap_singleton, apply_ite (recordedEnd _)]
      rfl

theorem exists_ending (ends : List (EndHandler ν)) (s : Cursor ν) (record : List (Query ν)) :
    ∃ seen, Asked ends.reverse s seen (conclude ends.reverse s) ∧
      conclude (ends.zipIdx.map fun (f, number) => EndHandler.watched none f number).reverse
          (s.recorded record) =
        (conclude ends.reverse s).recorded
          (record ++ queries none (List.range ends.length).reverse seen) := by
  have hends := conclude_watched none ends.zipIdx.reverse s record
  rwa [List.map_reverse, List.map_reverse, List.map_reverse, List.zipIdx_map_fst,
    List.zipIdx_map_snd, ← List.range_eq_range'] at hends

/-- A chain makes its passes further and further on in the data. The first one that stalls is the
last, and the run ends with its error and without an end handler. If none stalls, the run goes on
until the text is over or a handler has finished, and then asks the end handlers in reverse. The
watched chain has asked what the passes and the end handlers say, and nothing else. -/
theorem chain_progresses_or_stalls (chain : Chain ν) (data : List Char) (start position : Nat)
    (node : ν) :
    let run := chain.run (data.drop start) position node
    let watchedRun := chain.watched.run (data.drop start) position ⟨node, []⟩
    ∃ passes last,
      Passes chain.handlers (data.drop start) ⟨position, false, node⟩ passes last ∧
      (∀ p ∈ passes, data[start + p.start.position]? = some p.char) ∧
      passes.length ≤ data.length - (start + position) ∧
      ((∃ before p, passes = before ++ [p] ∧ (∀ q ∈ before, ¬q.Stalls) ∧ p.Stalls ∧
          run = .error p.stall ∧
          watchedRun = .error (p.stall.recorded (passes.flatMap Pass.queries))) ∨
        (∀ p ∈ passes, ¬p.Stalls) ∧
        (last.finished = true ∨ data.length ≤ start + last.position) ∧
        ∃ seen t, Asked chain.ends.reverse last seen t ∧ run = .ok t ∧
          watchedRun = .ok (t.recorded (passes.flatMap Pass.queries ++
            queries none (List.range chain.ends.length).reverse seen))) := by
  intro run watchedRun
  obtain ⟨passes, last, hpasses, hcomes, hscan⟩ :=
    scan_watched chain.handlers (data.drop start) ⟨position, false, node⟩ []
  have hlength : (data.drop start).length = data.length - start := List.length_drop
  refine ⟨passes, last, hpasses, ?_, ?_, ?_⟩
  · intro p hp
    rw [← List.getElem?_drop]
    exact (hpasses.goes p hp).char_at
  · have hle := hpasses.length_le
    simp only [hlength] at hle
    omega
  have hrun : run = (scan chain.handlers (data.drop start) ⟨position, false, node⟩).map
      (conclude chain.ends.reverse) := rfl
  have hwatched : watchedRun = (recordedEnd (passes.flatMap Pass.queries)
      (scan chain.handlers (data.drop start) ⟨position, false, node⟩)).map
        (conclude chain.watched.ends.reverse) :=
    congrArg (Except.map (conclude chain.watched.ends.reverse)) hscan
  generalize scan chain.handlers (data.drop start) ⟨position, false, node⟩ = result
    at hcomes hrun hwatched
  cases hcomes with
  | stalled moved stalls => exact .inl ⟨_, _, rfl, moved, stalls, hrun, hwatched⟩
  | ended moved stops =>
    rw [hlength] at stops
    obtain ⟨seen, hasked, hrecord⟩ :=
      exists_ending chain.ends last (passes.flatMap Pass.queries)
    refine .inr ⟨moved, stops.imp_right (by omega), seen, _, hasked, hrun, ?_⟩
    rw [hwatched]
    exact congrArg Except.ok hrecord

end TagTemplate.Scan
