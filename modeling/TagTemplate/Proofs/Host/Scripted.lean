import TagTemplate.Host.Scripted
import TagTemplate.Proofs.Evaluation.Order

/-! The scripted host, its clock and its bindings. Scripts may make the clock go on, but none of them
reads it, so that what a tag replies does not depend on it; nor does it depend on the order in which
names were bound. -/
namespace TagTemplate.Host
open Evaluation

def Stage.offClock (s : Stage) :
    Random.Generator × List (String × Nat) × List (String × List String) :=
  (s.generator, s.counts, s.calls)

/-- A relation between bindings that no script tells apart: lookups give the same, and what a script
changes keeps it. -/
structure Unseen (S : Bindings Tag → Bindings Tag → Prop) : Prop where
  find? {bs cs : Bindings Tag} (h : S bs cs) (name : String) : bs.find? name = cs.find? name
  insert {bs cs : Bindings Tag} (h : S bs cs) (name : String) (binding : Binding Tag) :
    S (bs.insert name binding) (cs.insert name binding)
  erase {bs cs : Bindings Tag} (h : S bs cs) (name : String) : S (bs.erase name) (cs.erase name)

theorem unseen_eq : Unseen Eq where
  find? h _ := by rw [h]
  insert h _ _ := by rw [h]
  erase h _ := by rw [h]

theorem unseen_same : Unseen Bindings.Same where
  find? h := h.find?
  insert h := h.insert
  erase h := h.erase

def SameReply (S : Bindings Tag → Bindings Tag → Prop) (r r' : Reply) : Prop :=
  r.1 = r'.1 ∧ S r.2.1 r'.2.1 ∧ r.2.2.offClock = r'.2.2.offClock

variable {s t : Stage}

theorem offClock_record (h : s.offClock = t.offClock) (name : String) (arguments : List String) :
    (s.record name arguments).offClock = (t.record name arguments).offClock := by
  simp only [Stage.offClock, Stage.record, Prod.mk.injEq] at h ⊢
  exact ⟨h.1, h.2.1, by rw [h.2.2]⟩

theorem offClock_draw (h : s.offClock = t.offClock) :
    s.draw.1 = t.draw.1 ∧ s.draw.2.offClock = t.draw.2.offClock := by
  simp only [Stage.offClock, Stage.draw, Prod.mk.injEq] at h ⊢
  exact ⟨by rw [h.1], by rw [h.1], h.2.1, h.2.2⟩

theorem offClock_count (h : s.offClock = t.offClock) (name : String) :
    (s.count name).1 = (t.count name).1 ∧
      (s.count name).2.offClock = (t.count name).2.offClock := by
  simp only [Stage.offClock, Stage.count, Prod.mk.injEq] at h ⊢
  exact ⟨by rw [h.2.1], h.1, by rw [h.2.1], h.2.2⟩

variable {S : Bindings Tag → Bindings Tag → Prop} {bs cs : Bindings Tag}

theorem Unseen.contains (hS : Unseen S) (h : S bs cs) (name : String) :
    bs.contains name = cs.contains name :=
  congrArg Option.isSome (hS.find? h name)

theorem Unseen.eraseAll (hS : Unseen S) (h : S bs cs) (names : List String) :
    S (names.foldl Bindings.erase bs) (names.foldl Bindings.erase cs) := by
  induction names generalizing bs cs with
  | nil => exact h
  | cons name rest ih => exact ih (hS.erase h name)

theorem sameReply_callBuiltin (hbindings : S bs cs) (h : s.offClock = t.offClock) (b : Builtin)
    (arguments : List String) :
    SameReply S (callBuiltin b arguments bs s) (callBuiltin b arguments cs t) := by
  unfold callBuiltin
  split
  · exact ⟨rfl, hbindings, h⟩
  · exact ⟨rfl, hbindings, h⟩
  · obtain ⟨hnumber, hstage⟩ := offClock_draw h
    exact ⟨by simp only [hnumber], hbindings, hstage⟩

theorem sameReply_setBinding (hS : Unseen S) (hbindings : S bs cs) (h : s.offClock = t.offClock)
    (arguments : List String) :
    SameReply S (setBinding arguments bs s) (setBinding arguments cs t) := by
  unfold setBinding
  split
  · exact ⟨rfl, hS.insert hbindings _ _, h⟩
  · exact ⟨rfl, hbindings, h⟩

theorem sameReply_run (hS : Unseen S) (depth : Nat) (tag : Tag) (arguments : List String)
    (hbindings : S bs cs) (h : s.offClock = t.offClock) :
    SameReply S (run depth tag arguments bs s) (run depth tag arguments cs t) := by
  induction depth generalizing tag arguments bs cs s t with
  | zero => exact ⟨rfl, hbindings, h⟩
  | succ depth ih =>
    have hrecorded := offClock_record h tag.name arguments
    obtain ⟨name, script⟩ := tag
    cases script with
    | echo => exact ⟨rfl, hbindings, hrecorded⟩
    | value v => exact ⟨rfl, hbindings, hrecorded⟩
    | count =>
      obtain ⟨hcount, hstage⟩ := offClock_count hrecorded name
      exact ⟨congrArg (fun n => Except.ok (toString n)) hcount, hbindings, hstage⟩
    | raise e => exact ⟨rfl, hbindings, hrecorded⟩
    | sleep milliseconds => exact ⟨rfl, hbindings, hrecorded⟩
    | has =>
      refine ⟨?_, hbindings, hrecorded⟩
      simp only [run, hS.contains hbindings]
    | set => exact sameReply_setBinding hS hbindings hrecorded arguments
    | unset => exact ⟨rfl, hS.eraseAll hbindings arguments, hrecorded⟩
    | call other =>
      simp only [run, hS.find? hbindings other]
      cases cs.find? other with
      | none => exact ⟨rfl, hbindings, hrecorded⟩
      | some binding =>
        cases binding with
        | absent => exact ⟨rfl, hbindings, hrecorded⟩
        | constant value => exact ⟨rfl, hbindings, hrecorded⟩
        | builtin b => exact sameReply_callBuiltin hbindings hrecorded b arguments
        | host tag => exact ih tag arguments hbindings hrecorded
    | noArguments text =>
      simp only [run]
      split
      · exact ⟨rfl, hbindings, hrecorded⟩
      · exact ⟨rfl, hbindings, h⟩

/-- The scripts do not read the clock. -/
theorem clockApart_scripted : ClockApart scripted Stage.offClock where
  now _ := rfl
  draw := offClock_draw
  call tag arguments _ h := sameReply_run unseen_eq callLimit tag arguments rfl h

/-- The scripts look names up, and do nothing else with the bindings but bind and unbind names. -/
theorem orderApart_scripted : OrderApart scripted Stage.offClock where
  call tag arguments hbindings h := sameReply_run unseen_same callLimit tag arguments hbindings h

end TagTemplate.Host
