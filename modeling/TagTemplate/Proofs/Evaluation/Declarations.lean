import Mathlib.Data.List.Induction
import TagTemplate.Proofs.Evaluation.Accumulation
import TagTemplate.Proofs.Evaluation.Acting

/-! What an evaluation does to names. Where no tag of the host changes them, the bindings at the end
are those at the beginning, updated by the declarations that have been completed, in the order in
which they were: whatever the evaluation ends with, and whenever it does. -/
namespace TagTemplate.Evaluation
open Template

variable {H σ : Type}

def Event.bound? : Event → Option (String × String)
  | .bound name value => some (name, value)
  | _ => none

def boundNames (events : List Event) : List (String × String) :=
  events.reverse.filterMap Event.bound?

def Bindings.bindTexts (bs : Bindings H) (bound : List (String × String)) : Bindings H :=
  bs.insertAll (bound.map fun b => (b.1, .constant b.2))

/-- On the way from the first world to the second these names have been bound, and nothing else has
been done to what names stand for. -/
structure World.Binds (v w : World H σ) (bound : List (String × String)) : Prop where
  bindings : w.bindings = v.bindings.bindTexts bound
  events : ∃ since, w.events = since ++ v.events ∧ boundNames since = bound

namespace Visit

def completion? (host : Host H σ) (allowance : Allowance) (v : Visit H σ) (d : Place × Node) :
    Option (String × String) :=
  d.2.declaredName?.bind fun name => (v.reachedValue? host allowance d.1).map (name, ·)

/-- The declarations that are completed, in post-order. -/
def completed (host : Host H σ) (allowance : Allowance) (v : Visit H σ) : List (String × String) :=
  v.node.postOrder.filterMap (v.completion? host allowance)

def Spares (host : Host H σ) (allowance : Allowance) (v : Visit H σ) : Prop :=
  ∀ depth tag texts w, v.depth = depth + 1 →
    approach host allowance depth v.node v.node.parts.length v.world =
      (.ok (some (.host tag), texts), w) →
    (host.call tag texts w.bindings w.state).2.1 = w.bindings

def Untouched (host : Host H σ) (allowance : Allowance) (v : Visit H σ) : Prop :=
  ∀ q u, v.reach? host allowance q = some u → u.Spares host allowance

end Visit

variable {host : Host H σ} {allowance : Allowance} {depth i : Nat} {node : Node}
  {u v w : World H σ} {bs : Bindings H} {first later : List (String × String)}
  {binding : Option (Binding H)} {texts : List String}

theorem Bindings.bindTexts_append (bs : Bindings H) (first later : List (String × String)) :
    bs.bindTexts (first ++ later) = (bs.bindTexts first).bindTexts later := by
  simp [bindTexts, insertAll]

theorem Bindings.bindTexts_singleton (bs : Bindings H) (name value : String) :
    bs.bindTexts [(name, value)] = bs.insert name (.constant value) := rfl

theorem Bindings.find?_bindTexts (bs : Bindings H) (bound : List (String × String)) (name : String) :
    (bs.bindTexts bound).find? name =
      match (bound.filter fun b => b.1 = name).getLast? with
      | some b => some (.constant b.2)
      | none => bs.find? name := by
  induction bound using List.reverseRecOn with
  | nil => rfl
  | append_singleton before last ih =>
    rw [bindTexts_append, bindTexts_singleton, find?_insert]
    by_cases h : last.1 = name
    · simp [h]
    · rw [if_neg h, ih]
      simp [h]

theorem Bindings.mem_names_iff {bs : Bindings H} {name : String} :
    name ∈ bs.names ↔ (bs.find? name).isSome := by
  rw [names, List.mem_mergeSort, ← keys, mem_keys_iff]

namespace World.Binds

theorem of_same (hbindings : w.bindings = v.bindings)
    (hevents : ∃ since, w.events = since ++ v.events ∧ boundNames since = []) : Binds v w [] :=
  ⟨hbindings, hevents⟩

theorem refl (v : World H σ) : Binds v v [] :=
  of_same rfl ⟨[], rfl, rfl⟩

theorem trans (h : Binds u v first) (h' : Binds v w later) : Binds u w (first ++ later) := by
  obtain ⟨since, hsince, hfirst⟩ := h.events
  obtain ⟨next, hnext, hlater⟩ := h'.events
  refine ⟨?_, next ++ since, ?_, ?_⟩
  · rw [h'.bindings, h.bindings, Bindings.bindTexts_append]
  · rw [hnext, hsince, List.append_assoc]
  · rw [boundNames, List.reverse_append, List.filterMap_append, ← boundNames, ← boundNames, hfirst,
      hlater]

end World.Binds

theorem additive_binds : Additive (World.Binds (H := H) (σ := σ)) where
  refl := World.Binds.refl
  trans := World.Binds.trans

theorem binds_now (host : Host H σ) (w : World H σ) : World.Binds w (Eval.now host w).2 [] :=
  .of_same rfl ⟨[.read (host.now w.state).1], rfl, rfl⟩

theorem binds_callBinding {binding : Binding H}
    (h : ∀ tag, binding = .host tag → (host.call tag texts w.bindings w.state).2.1 = w.bindings) :
    World.Binds w (callBinding host binding texts w).2 [] := by
  cases binding with
  | absent => exact .refl w
  | constant value => exact .refl w
  | host tag => exact .of_same (h tag rfl) ⟨[], rfl, rfl⟩
  | builtin b =>
    rw [snd_callBinding_builtin]
    rcases snd_callBuiltin host b (texts.map some) w with h | h <;>
      rw [h] <;> exact .of_same rfl ⟨[], rfl, rfl⟩

theorem binds_conclude (node : Node) (hparts : texts.length = node.parts.length)
    (h : ∀ tag, binding = some (.host tag) →
      (host.call tag texts w.bindings w.state).2.1 = w.bindings) :
    World.Binds w (conclude host allowance binding texts node w).2
      (node.declaredName?.bind fun name => texts.head?.map (name, ·)).toList := by
  cases node with
  | tag name arguments n =>
    have hcalled : World.Binds w (Eval.record (.called name texts) w).2 [] :=
      .of_same rfl ⟨[.called name texts], rfl, rfl⟩
    refine additive_binds.bind hcalled fun _ w₁ hw₁ => ?_
    obtain rfl : { w with events := .called name texts :: w.events } = w₁ := by cases hw₁; rfl
    refine additive_binds.bind (binds_callBinding fun tag htag => ?_) fun _ w₂ _ => ?_
    · cases binding with
      | none => cases htag
      | some binding => exact h tag (congrArg some htag)
    · exact additive_binds.bind (adds_checkTime (binds_now host) allowance w₂)
        fun _ w₃ _ => .refl w₃
  | declaration name value n =>
    cases value with
    | none =>
      obtain rfl : texts = [] := List.eq_nil_of_length_eq_zero hparts
      exact .refl w
    | some value =>
      obtain ⟨text, rfl⟩ := List.length_eq_one_iff.mp hparts
      exact ⟨rfl, [.bound name text], rfl, rfl⟩
  | _ => exact .refl w

namespace Visit

variable {v u : Visit H σ} {d : Place × Node} {text : String}

theorem exists_declaration (h : node.declaredName?.isSome) :
    ∃ name value n, node = .declaration name value n := by
  cases node with
  | declaration name value n => exact ⟨name, value, n, rfl⟩
  | _ => cases h

theorem parts_of_declaredName? (h : node.declaredName?.isSome) :
    node.parts = [] ∨ ∃ part, node.parts = [part] := by
  obtain ⟨name, value, n, rfl⟩ := exists_declaration h
  cases value with
  | none => exact .inl rfl
  | some value => exact .inr ⟨value, rfl⟩

theorem valueIn?_eq (host : Host H σ) (allowance : Allowance) (hdepth : v.depth = depth + 1)
    (hname : v.node.declaredName?.isSome) :
    v.valueIn? host allowance =
      (approach host allowance depth v.node v.node.parts.length v.world).1.toOption.bind
        (·.2.head?) := by
  -- A declaration has its value for its only part, so that the first text is the value's.
  have hnothing : ∀ before w,
      approach host allowance depth v.node 0 v.world = (.ok before, w) → before.2 = [] :=
    fun before w h => List.eq_nil_of_length_eq_zero (length_of_approach (Nat.zero_le _) h)
  rcases parts_of_declaredName? hname with hparts | ⟨part, hparts⟩
  · have hnone : v.partIn? host allowance 0 = none := by
      refine Option.eq_none_iff_forall_ne_some.mpr fun u hu => ?_
      have hpart := mem_parts_of_partIn? hu
      rw [hparts] at hpart
      cases hpart
    rw [valueIn?, hnone, hparts]
    rcases happroach : approach host allowance depth v.node 0 v.world with ⟨e | before, w⟩
    · rfl
    · simp [Except.toOption, hnothing before w happroach]
  · have hpart : v.node.parts[0]? = some part := by rw [hparts]; rfl
    rw [valueIn?, hparts, List.length_singleton]
    obtain ⟨e, w, _, hsucc, hnone⟩ | ⟨before, u, hok, hu, _, hsucc⟩ :=
      approach_succ_cases host allowance hdepth hpart
    · rw [hnone, hsucc]
      rfl
    · rw [hu, hsucc, hnothing before _ hok, Option.bind_some]
      cases (u.outcome host allowance).1 <;> rfl

theorem completion?_own (host : Host H σ) (allowance : Allowance) (hdepth : v.depth = depth + 1) :
    v.completion? host allowance ([], v.node) =
      v.node.declaredName?.bind fun name =>
        ((approach host allowance depth v.node v.node.parts.length v.world).1.toOption.bind
          (·.2.head?)).map (name, ·) := by
  have hroot : v.reachedValue? host allowance [] = v.valueIn? host allowance := rfl
  rw [completion?, hroot]
  cases hname : v.node.declaredName? with
  | none => rfl
  | some name => rw [valueIn?_eq host allowance hdepth (by rw [hname]; rfl)]

def ownCompletion (host : Host H σ) (allowance : Allowance) (node : Node) (v : Option (Visit H σ)) :
    Option (String × String) :=
  node.declaredName?.bind fun name => (v.bind (valueIn? host allowance)).map (name, ·)

theorem accumulation_binds (host : Host H σ) (allowance : Allowance) :
    Accumulation host allowance World.Binds (ownCompletion host allowance)
      (Untouched host allowance) where
  toAdditive := additive_binds
  now := binds_now host
  unvisited node := by cases h : node.declaredName? <;> simp [ownCompletion, h]
  part h hu q x hx := h (_ :: q) x ((reach?_cons hu q).trans hx)
  tooDeep {v} hdepth := by
    cases h : v.node.declaredName? <;>
      simp [ownCompletion, h, valueIn?, partIn?_of_depth_eq_zero hdepth]
  failed {v _ _ _} hdepth happroach := by
    have hown := completion?_own host allowance hdepth
    rw [happroach] at hown
    change v.completion? host allowance ([], v.node) = none
    rw [hown]
    cases v.node.declaredName? <;> rfl
  conclude {v depth settled texts w} h hdepth happroach := by
    have hown := completion?_own host allowance hdepth
    rw [happroach] at hown
    have hlength := length_of_approach (Nat.le_refl _) happroach
    change World.Binds w _ (v.completion? host allowance ([], v.node)).toList
    rw [hown]
    refine binds_conclude v.node hlength ?_
    rintro tag rfl
    exact h [] v rfl depth tag texts w hdepth happroach

/-- However an evaluation ends, it has bound the names of the declarations that it has completed, and
done nothing else to what names stand for. -/
theorem binds_outcome (h : v.Untouched host allowance) :
    World.Binds v.world (v.outcome host allowance).2 (v.completed host allowance) :=
  (accumulation_binds host allowance).outcome h

theorem exists_value_iff (host : Host H σ) (allowance : Allowance) {v : Visit H σ}
    (hname : v.node.declaredName?.isSome) :
    (∃ value, v.valueIn? host allowance = some value) ↔
      ∃ text w, v.outcome host allowance = (.ok text, w) := by
  cases hdepth : v.depth with
  | zero =>
    simp [valueIn?, partIn?_of_depth_eq_zero hdepth, outcome_of_depth_eq_zero hdepth]
  | succ depth =>
    rw [valueIn?_eq host allowance hdepth hname]
    obtain ⟨e, e', w, happroach, houtcome, -⟩ | ⟨binding, texts, w, happroach, hlength, houtcome⟩ :=
      outcome_cases host allowance hdepth
    · simp [happroach, houtcome, Except.toOption]
    · obtain ⟨name, value, n, hnode⟩ := exists_declaration hname
      rw [happroach, houtcome]
      rw [hnode] at hlength ⊢
      cases value with
      | none =>
        obtain rfl : texts = [] := List.eq_nil_of_length_eq_zero hlength
        simp [Except.toOption, conclude, Eval.throw]
      | some value =>
        obtain ⟨text, rfl⟩ := List.length_eq_one_iff.mp hlength
        exact iff_of_true ⟨text, rfl⟩ ⟨"", _, rfl⟩

theorem find?_bindTexts_completed {nodes : List (Place × Node)} (bs : Bindings H)
    (h : ∀ d ∈ nodes, d.2.declaredName?.isSome →
      ∃ value, v.reachedValue? host allowance d.1 = some value) (name : String) :
    match Node.lastDeclaration? name nodes with
    | some d => ∃ value, v.reachedValue? host allowance d.1 = some value ∧
        (bs.bindTexts (nodes.filterMap (v.completion? host allowance))).find? name =
          some (.constant value)
    | none =>
      (bs.bindTexts (nodes.filterMap (v.completion? host allowance))).find? name =
        bs.find? name := by
  -- From the end of the list: the last declaration of a name settles it.
  induction nodes using List.reverseRecOn with
  | nil => rfl
  | append_singleton before d ih =>
    have hbefore := ih fun d' hd' => h d' (List.mem_append_left _ hd')
    rw [List.filterMap_append, Bindings.bindTexts_append]
    cases hname : d.2.declaredName? with
    | none =>
      have hnothing : [d].filterMap (v.completion? host allowance) = [] := by
        simp [completion?, hname]
      rw [Node.lastDeclaration?_concat_of_ne (by simp [hname]), hnothing]
      exact hbefore
    | some other =>
      obtain ⟨value, hvalue⟩ := h d (by simp) (by rw [hname]; rfl)
      have hone : [d].filterMap (v.completion? host allowance) = [(other, value)] := by
        simp [completion?, hname, hvalue]
      rw [hone, Bindings.bindTexts_singleton, Bindings.find?_insert]
      by_cases hother : other = name
      · rw [Node.lastDeclaration?_concat_of_eq (by rw [hname, hother]), if_pos hother]
        exact ⟨value, hvalue, rfl⟩
      · rw [Node.lastDeclaration?_concat_of_ne (by simp [hname, hother]), if_neg hother]
        exact hbefore

theorem exists_value_of_outcome_ok (h : v.outcome host allowance = (.ok text, w)) :
    ∀ d ∈ v.node.postOrder, d.2.declaredName?.isSome →
      ∃ value, v.reachedValue? host allowance d.1 = some value := by
  intro d hd hname
  obtain ⟨u, hu, hnode, text', w', hok⟩ := exists_reach_of_outcome_ok h d hd
  obtain ⟨value, hvalue⟩ := (exists_value_iff host allowance (hnode ▸ hname)).mpr ⟨text', w', hok⟩
  exact ⟨value, by rw [reachedValue?, hu, Option.bind_some, hvalue]⟩

/-- What the text of a tree leaves names to: each declared name stands for the value of the last of
its declarations, and every other one for what it stood for before. -/
theorem find?_of_outcome_ok (huntouched : v.Untouched host allowance)
    (h : v.outcome host allowance = (.ok text, w)) (name : String) :
    match Node.lastDeclaration? name v.node.postOrder with
    | some d => ∃ value, v.reachedValue? host allowance d.1 = some value ∧
        w.bindings.find? name = some (.constant value)
    | none => w.bindings.find? name = v.world.bindings.find? name := by
  have hbinds := (binds_outcome huntouched).bindings
  rw [h] at hbinds
  rw [hbinds]
  exact find?_bindTexts_completed v.world.bindings (exists_value_of_outcome_ok h) name

theorem mem_names_of_outcome_ok (huntouched : v.Untouched host allowance)
    (h : v.outcome host allowance = (.ok text, w)) (name : String) :
    name ∈ w.bindings.names ↔ name ∈ v.world.bindings.names ∨ name ∈ v.node.declaredNames := by
  have hname := find?_of_outcome_ok huntouched h name
  rw [Bindings.mem_names_iff, Bindings.mem_names_iff, ← Node.isSome_lastDeclaration?_iff]
  cases hlast : Node.lastDeclaration? name v.node.postOrder with
  | none =>
    simp only [hlast] at hname
    simp [hname]
  | some d =>
    simp only [hlast] at hname
    obtain ⟨value, -, hbound⟩ := hname
    simp [hbound]

theorem exists_value_of_mem_declaredNames (huntouched : v.Untouched host allowance)
    (h : v.outcome host allowance = (.ok text, w)) {name : String}
    (hdeclared : name ∈ v.node.declaredNames) :
    ∃ d value, Node.lastDeclaration? name v.node.postOrder = some d ∧
      v.reachedValue? host allowance d.1 = some value ∧
      w.bindings.find? name = some (.constant value) := by
  obtain ⟨d, hlast⟩ := Option.isSome_iff_exists.mp (Node.isSome_lastDeclaration?_iff.mpr hdeclared)
  have hname := find?_of_outcome_ok huntouched h name
  simp only [hlast] at hname
  obtain ⟨value, hvalue, hbound⟩ := hname
  exact ⟨d, value, hlast, hvalue, hbound⟩

theorem reachedValue?_of_outcome_error {q : Place} {e : EvalError}
    (hu : v.reach? host allowance q = some u) (hname : u.node.declaredName?.isSome)
    (h : u.outcome host allowance = (.error e, w)) : v.reachedValue? host allowance q = none := by
  rw [reachedValue?, hu, Option.bind_some]
  refine Option.eq_none_iff_forall_ne_some.mpr fun value hvalue => ?_
  obtain ⟨text, w', hok⟩ := (exists_value_iff host allowance hname).mp ⟨value, hvalue⟩
  cases hok.symm.trans h

theorem untouched_of_leavesNames (h : LeavesNames host) (allowance : Allowance) (v : Visit H σ) :
    v.Untouched host allowance :=
  fun _ _ _ _ tag texts w _ _ => h tag texts w.bindings w.state

end Visit

/-- Where no tag of the host changes what names stand for, an evaluation leaves the bindings that it
began with, updated by the declarations that it has completed, in the order in which it has, and so
it does whatever it ends with. If it gives a text, all are completed, and each declared name stands
for the value of the declaration that is completed last. A declaration within which it fails, however
deep within, has no value and binds nothing. -/
theorem completed_declarations_alone_bind (host : Host H σ) (timeout : Option Number) (tree : Node)
    (w : World H σ) {r : Except EvalError String} {v : World H σ}
    (hrun : evaluate host timeout tree w = (r, v)) :
    (∀ e w₀, allow host timeout w = (.error e, w₀) → r = .error e ∧ World.Binds w v []) ∧
    ∀ allowance w₀, allow host timeout w = (.ok allowance, w₀) →
      let start := Visit.root tree w₀
      start.Untouched host allowance →
      World.Binds w v (start.completed host allowance) ∧
      (∀ name, (∀ b ∈ start.completed host allowance, b.1 ≠ name) →
        v.bindings.find? name = w.bindings.find? name) ∧
      (∀ text, r = .ok text →
        (∀ name, name ∈ v.bindings.names ↔ name ∈ w.bindings.names ∨ name ∈ tree.declaredNames) ∧
        ∀ name ∈ tree.declaredNames, ∃ d value,
          Node.lastDeclaration? name tree.postOrder = some d ∧
          start.reachedValue? host allowance d.1 = some value ∧
          v.bindings.find? name = some (.constant value)) ∧
      ∀ q u e w', start.reach? host allowance q = some u → u.node.declaredName?.isSome →
        u.outcome host allowance = (.error e, w') →
        start.reachedValue? host allowance q = none ∧ (∃ e', r = .error e') ∧ v = w' := by
  have hbegins := additive_binds.allow (binds_now host) timeout w
  constructor
  · intro e w₀ hallow
    rw [hallow] at hbegins
    rw [evaluate, Eval.bind_of_error hallow] at hrun
    cases hrun
    exact ⟨rfl, hbegins⟩
  intro allowance w₀ hallow start huntouched
  rw [hallow] at hbegins
  obtain ⟨result, hstart, rfl⟩ : ∃ result, start.outcome host allowance = (result, v) ∧
      r = result.mapError .reported := by
    rw [evaluate_of_allow hallow] at hrun
    cases hrun
    exact ⟨_, rfl, rfl⟩
  have hbinds := hbegins.trans (Visit.binds_outcome huntouched)
  rw [hstart, List.nil_append] at hbinds
  refine ⟨hbinds, fun name hname => ?_, ?_, ?_⟩
  · have hnone : (start.completed host allowance).filter (fun b => b.1 = name) = [] := by
      simpa using hname
    rw [hbinds.bindings, Bindings.find?_bindTexts, hnone]
    rfl
  · intro text htext
    obtain rfl : result = .ok text := by
      cases result <;> cases htext
      rfl
    have hbefore : start.world.bindings = w.bindings := hbegins.bindings
    rw [← hbefore]
    exact ⟨Visit.mem_names_of_outcome_ok huntouched hstart,
      fun name => Visit.exists_value_of_mem_declaredNames huntouched hstart⟩
  · intro q u e w' hu hname herror
    obtain ⟨e', he', -⟩ := Visit.outcome_of_reach_error hu herror
    cases hstart.symm.trans he'
    exact ⟨Visit.reachedValue?_of_outcome_error hu hname herror, ⟨e'.reported, rfl⟩, rfl⟩

/-- Within the value of `y` one declaration is completed before the evaluation fails there; both
declarations of `x` are, the inner one first. -/
def failingInside : Node :=
  .template
    [.declaration "x"
        (some (.template [.declaration "x" (some (.quoted .single "a" 3)) 7, .text "b" 1] 10)) 14,
      .declaration "y"
        (some (.template [.declaration "z" (some (.quoted .single "c" 3)) 7, .tag "m" [] 3] 12)) 16] 30

theorem failure_keeps_completed :
    let w : World Unit Unit := ⟨.empty, (), []⟩
    ∃ v, evaluate Visit.joining none failingInside w = (.error (.undefinedTag "m"), v) ∧
      v.bindings.find? "x" = some (.constant "b") ∧ v.bindings.find? "z" = some (.constant "c") ∧
      v.bindings.find? "y" = none := by
  intro w
  have herror : (evaluate Visit.joining none failingInside w).1 = .error (.undefinedTag "m") := by
    decide +kernel
  have hleaves : LeavesNames Visit.joining := fun _ _ _ _ => rfl
  have hallow : allow Visit.joining none w = (.ok .unlimited, w) := rfl
  have hcompleted : (Visit.root failingInside w).completed Visit.joining .unlimited =
      [("x", "a"), ("x", "b"), ("z", "c")] := by decide +kernel
  generalize failingInside = tree at herror hcompleted ⊢
  cases hrun : evaluate Visit.joining none tree w with | mk r v
  obtain rfl : r = _ := by simpa only [hrun] using herror
  obtain ⟨hbinds, hothers, -, -⟩ :=
    (completed_declarations_alone_bind Visit.joining none tree w hrun).2 .unlimited w hallow
      (Visit.untouched_of_leavesNames hleaves _ _)
  rw [hcompleted] at hbinds hothers
  refine ⟨v, rfl, ?_, ?_, hothers "y" (by decide)⟩
  · rw [hbinds.bindings]
    rfl
  · rw [hbinds.bindings]
    rfl

end TagTemplate.Evaluation
