import TagTemplate.Proofs.Scan.Reached
import TagTemplate.Proofs.Template.Moves
import TagTemplate.Proofs.Template.Productions

/-! What a tag has built while it is read. Wherever the scan of a tag comes to, its node stands for
the characters read, its turn tells what may come next, and a declaration refuses a second value and
nothing else in its place. -/
namespace TagTemplate.Template
open Scan Reader

variable {x : Setting} {data : List Char} {body i n : Nat} {c : Char} {b : Build}

def NameEnded (read : List Char) (name : String) : Prop :=
  name ≠ "" ∧ ∃ blank space rest, blank.all isSpace ∧ isSpace space ∧
    read = blank ++ name.toList ++ space :: rest

theorem NameEnded.append {read : List Char} {name : String} (h : NameEnded read name)
    (more : List Char) : NameEnded (read ++ more) name := by
  obtain ⟨hname, blank, space, rest, hblank, hspace, rfl⟩ := h
  exact ⟨hname, blank, space, rest ++ more, hblank, hspace, by simp⟩

theorem not_nameEnded {blank behind : List Char} {name : String} (hblank : blank.all isSpace)
    (hname : name.toList.all isNameChar) (hbehind : behind.all (!isSpace ·)) :
    ¬NameEnded (blank ++ name.toList ++ behind) name := by
  rintro ⟨hne, blank', space, rest, hblank', hspace, heq⟩
  obtain ⟨d, ds, hd⟩ : ∃ d ds, name.toList = d :: ds :=
    List.exists_cons_of_ne_nil (by simpa using hne)
  have hfirst : isSpace d = false :=
    isSpace_eq_false_of_isNameChar (List.all_eq_true.mp hname d (by simp [hd]))
  have hfront : blank = blank' := by
    have htake := congrArg (List.takeWhile isSpace) heq
    rw [List.append_assoc, List.append_assoc,
      List.takeWhile_append_of_pos (List.all_eq_true.mp hblank),
      List.takeWhile_append_of_pos (List.all_eq_true.mp hblank')] at htake
    simpa [hd, hfirst] using htake
  subst hfront
  obtain rfl : behind = space :: rest := List.append_cancel_left heq
  simp [hspace] at hbehind

theorem extract_succ (hc : data[body + i]? = some c) :
    data.extract body (body + (i + 1)) = data.extract body (body + i) ++ [c] := by
  rw [List.extract_eq_take_drop, List.extract_eq_take_drop, Nat.add_sub_cancel_left,
    Nat.add_sub_cancel_left, List.take_add_one, List.getElem?_drop, hc]
  rfl

theorem extract_add (data : List Char) (body i k : Nat) :
    ∃ more, data.extract body (body + (i + k)) = data.extract body (body + i) ++ more := by
  rw [List.extract_eq_take_drop, List.extract_eq_take_drop, Nat.add_sub_cancel_left,
    Nat.add_sub_cancel_left, List.take_add]
  exact ⟨_, rfl⟩

/-- What a tag has built behind `i` characters of its body. Up to the space behind it the name is all
that has been read; a brace that closes the tag is read, but is no part of a name or a comment. -/
inductive Tracks (data : List Char) (body : Nat) : Nat → Build → Prop
  | naming {i : Nat} {name : String} {blank : List Char} {closed escaped : Bool}
      (blank_spaces : blank.all isSpace) (name_chars : name.toList.all isNameChar)
      (read : data.extract body (body + i) =
        blank ++ name.toList ++ if closed then [tagClose] else []) :
      Tracks data body i ⟨.tag name [] i, closed, escaped, 0⟩
  | calling {i : Nat} {name : String} {arguments : List Node} {closed escaped : Bool} {turn : Nat}
      (name_ended : NameEnded (data.extract body (body + i)) name) (turn_pos : 0 < turn)
      (turn_le : turn ≤ arguments.length + 1) :
      Tracks data body i ⟨.tag name arguments i, closed, escaped, turn⟩
  | comment {i : Nat} {content : String} {closed escaped : Bool} (marked : 0 < i)
      (read : content.toList =
        data.extract (body + 1) (body + i - if closed then 1 else 0)) :
      Tracks data body i ⟨.comment content i, closed, escaped, 0⟩
  | declaration {i : Nat} {name : String} {value : Option Node} {closed escaped : Bool} {turn : Nat}
      (named : name ≠ "") (turn_pos : 0 < turn) (valued : 1 < turn → value.isSome) :
      Tracks data body i ⟨.declaration name value i, closed, escaped, turn⟩

def Tracked (x : Setting) (data : List Char) : Condition Build := fun finished i b =>
  b.closed = finished ∧ Tracks data x.body i b ∧ i ≤ (data.drop x.body).length

theorem tracks_close (h : Tracks data body i b) (hopen : b.closed = false)
    (hc : data[body + i]? = some tagClose) :
    Tracks data body (i + 1) { b with node := b.node.lengthen 1, closed := true } := by
  cases h with
  | @naming name blank closed escaped hblank hname hread =>
    obtain rfl : closed = false := hopen
    refine .naming hblank hname ?_
    rw [extract_succ hc, hread]
    simp
  | calling hended hpos hle =>
    refine .calling ?_ hpos hle
    rw [extract_succ hc]
    exact hended.append _
  | @comment content closed escaped hmarked hread =>
    obtain rfl : closed = false := hopen
    refine .comment (Nat.succ_pos _) ?_
    simpa using hread
  | declaration hnamed hpos hvalued => exact .declaration hnamed hpos hvalued

def StaysInside (nested : Nested) (data : List Char) : Prop :=
  ∀ p start index child, start < data.length → nested p start index = .ok child →
    start + child.length ≤ data.length

section
variable (hc : (data.drop x.body)[i]? = some c)
include hc

theorem tracked_take {next : Build} (hopen : next.closed = false)
    (h : Tracks data x.body (i + 1) next) : Tracked x data false (i + 1) next :=
  ⟨hopen, h, (List.getElem?_eq_some_iff.mp hc).1⟩

theorem brings_closing (hopen : b.closed = false) (hclose : c = tagClose)
    (h : Tracks data x.body i b) : (Setting.closing b).Brings (Tracked x data) i := by
  subst hclose
  rw [List.getElem?_drop] at hc
  refine ⟨rfl, tracks_close h hopen hc, ?_⟩
  rw [← List.getElem?_drop] at hc
  exact (List.getElem?_eq_some_iff.mp hc).1

theorem brings_begin (hinside : StaysInside x.nested data) (hopen : b.closed = false)
    (h : ∀ child : Node,
      Tracks data x.body (i + child.length) { b with node := b.node.receive child }) :
    (x.begin c i b).Brings (Tracked x data) i := by
  have hlt : i < data.length - x.body := by
    simpa using (List.getElem?_eq_some_iff.mp hc).1
  unfold Setting.begin
  split
  · next p _ =>
    unfold Setting.call
    cases hchild : x.nested p (x.body + i) (x.index + i) with
    | error e => trivial
    | ok child =>
      have hroom := hinside p (x.body + i) (x.index + i) child (by omega) hchild
      refine ⟨hopen, h child, ?_⟩
      rw [List.length_drop]
      omega
  · trivial

theorem brings_comment {content : String} {escaped : Bool}
    (h : Tracks data x.body i ⟨.comment content i, false, escaped, 0⟩) :
    (firstOutcome (Production.tag.handlers x) c i ⟨.comment content i, false, escaped, 0⟩).Brings
      (Tracked x data) i := by
  rw [firstOutcome_comment rfl]
  split
  · next hclose => exact brings_closing hc rfl hclose.1 h
  · cases h with
    | comment hmarked hread =>
      refine tracked_take hc rfl (.comment (Nat.succ_pos _) ?_)
      -- The mark stands first in the body, and the content behind it.
      obtain ⟨k, rfl⟩ : ∃ k, i = k + 1 := ⟨i - 1, by omega⟩
      have hshift : ∀ m, x.body + (m + 1) = x.body + 1 + m := by omega
      rw [List.getElem?_drop, hshift k] at hc
      simp only [Bool.false_eq_true, if_false, Nat.sub_zero, hshift k] at hread
      simp only [Bool.false_eq_true, if_false, Nat.sub_zero, hshift (k + 1)]
      rw [String.toList_push, hread, extract_succ hc]

theorem brings_declaration (hinside : StaysInside x.nested data) {name : String}
    {value : Option Node} {escaped : Bool} {turn : Nat}
    (h : Tracks data x.body i ⟨.declaration name value i, false, escaped, turn⟩) :
    (firstOutcome (Production.tag.handlers x) c i
      ⟨.declaration name value i, false, escaped, turn⟩).Brings (Tracked x data) i := by
  obtain ⟨hnamed, hpos, hvalued⟩ : name ≠ "" ∧ 0 < turn ∧ (1 < turn → value.isSome) := by
    cases h with
    | declaration hnamed hpos hvalued => exact ⟨hnamed, hpos, hvalued⟩
  rw [firstOutcome_declaration rfl hpos]
  split
  · next hclose => exact brings_closing hc rfl hclose.1 h
  split
  · refine tracked_take hc rfl (.declaration hnamed ?_ ?_)
    · show 0 < if value.isSome then turn + 1 else turn
      split <;> omega
    · show (1 < if value.isSome then turn + 1 else turn) → value.isSome
      split
      · exact fun _ => ‹_›
      · exact hvalued
  split
  · trivial
  · exact brings_begin hc hinside rfl fun child => .declaration hnamed hpos fun _ => rfl

theorem brings_calling (hinside : StaysInside x.nested data) {name : String}
    {arguments : List Node} {escaped : Bool} {turn : Nat} (hpos : 0 < turn)
    (h : Tracks data x.body i ⟨.tag name arguments i, false, escaped, turn⟩) :
    (firstOutcome (Production.tag.handlers x) c i
      ⟨.tag name arguments i, false, escaped, turn⟩).Brings (Tracked x data) i := by
  obtain ⟨hended, hle⟩ :
      NameEnded (data.extract x.body (x.body + i)) name ∧ turn ≤ arguments.length + 1 := by
    cases h with
    | naming => exact absurd hpos (Nat.lt_irrefl 0)
    | calling hended _ hle => exact ⟨hended, hle⟩
  have hmore : ∀ k, NameEnded (data.extract x.body (x.body + (i + k))) name := by
    intro k
    obtain ⟨more, hmore⟩ := extract_add data x.body i k
    exact hmore ▸ hended.append more
  rw [firstOutcome_tag rfl]
  split
  · next hclose =>
    split
    · trivial
    · exact brings_closing hc rfl hclose.1 h
  split
  · next hcomment =>
    -- In front of the first character no name has been read.
    rw [hcomment.2] at hended
    simp [NameEnded] at hended
  split
  · split
    · trivial
    split
    · trivial
    · exact tracked_take hc rfl (.declaration hended.1 Nat.one_pos (by simp))
  rw [if_neg (Nat.ne_of_gt hpos)]
  split
  · refine tracked_take hc rfl (.calling (hmore 1) ?_ ?_)
    · show 0 < if turn ≤ arguments.length then turn + 1 else turn
      split <;> omega
    · show (if turn ≤ arguments.length then turn + 1 else turn) ≤ arguments.length + 1
      split <;> omega
  · refine brings_begin hc hinside rfl fun child => .calling (hmore _) hpos ?_
    simp only [List.length_append, List.length_cons, List.length_nil]
    omega

theorem brings_naming {name : String} {escaped : Bool}
    (h : Tracks data x.body i ⟨.tag name [] i, false, escaped, 0⟩) :
    (firstOutcome (Production.tag.handlers x) c i
      ⟨.tag name [] i, false, escaped, 0⟩).Brings (Tracked x data) i := by
  obtain ⟨blank, hblank, hname, hread⟩ : ∃ blank : List Char, blank.all isSpace ∧
      name.toList.all isNameChar ∧ data.extract x.body (x.body + i) = blank ++ name.toList := by
    cases h with
    | naming hblank hname hread => exact ⟨_, hblank, hname, by simpa using hread⟩
    | calling _ hpos _ => exact absurd hpos (Nat.lt_irrefl 0)
  have hnext : data.extract x.body (x.body + (i + 1)) = blank ++ name.toList ++ [c] := by
    rw [List.getElem?_drop] at hc
    rw [extract_succ hc, hread]
  rw [firstOutcome_tag rfl]
  split
  · next hclose =>
    split
    · trivial
    · exact brings_closing hc rfl hclose.1 h
  split
  · next hcomment =>
    obtain ⟨-, rfl⟩ := hcomment
    exact tracked_take hc rfl (.comment Nat.one_pos (by simp))
  split
  · split
    · trivial
    split
    · trivial
    · next hne => exact tracked_take hc rfl (.declaration hne Nat.one_pos (by simp))
  rw [if_pos rfl]
  split
  · next hs =>
    by_cases hempty : name = ""
    · subst hempty
      have hblank' : (blank ++ [c]).all isSpace := by simp [hblank, hs]
      rw [if_pos rfl]
      exact tracked_take hc rfl (.naming hblank' hname (by simpa using hnext))
    · rw [if_neg hempty]
      have hended : NameEnded (data.extract x.body (x.body + (i + 1))) name :=
        ⟨hempty, blank, c, [], hblank, hs, hnext⟩
      exact tracked_take hc rfl (.calling hended Nat.one_pos (Nat.le_refl 1))
  split
  · next hn =>
    have hname' : (name.push c).toList.all isNameChar := by simp [hname, hn]
    exact tracked_take hc rfl (.naming hblank hname' (by simpa using hnext))
  · trivial

end

/-- What a tag has built tracks what it has read, at every character. -/
theorem keeps_tracked (hinside : StaysInside x.nested data) :
    Keeps (Production.tag.handlers x) (data.drop x.body) (Tracked x data) := by
  rintro c i b hc ⟨hopen, h, -⟩
  cases b with
  | mk node closed escaped turn =>
    obtain rfl : closed = false := hopen
    cases h with
    | naming hblank hname hread => exact brings_naming hc (.naming hblank hname hread)
    | calling hended hpos hle => exact brings_calling hc hinside hpos (.calling hended hpos hle)
    | comment hmarked hread => exact brings_comment hc (.comment hmarked hread)
    | declaration hnamed hpos hvalued =>
      exact brings_declaration hc hinside (.declaration hnamed hpos hvalued)

/-- What is built behind `i` characters of the body of a tag, in terms of those characters. -/
structure TagInvariant (data : List Char) (body i : Nat) (b : Build) : Prop where
  builds : Production.tag.Builds b.node b.turn
  length : b.node.length = i
  read : (data.extract body (body + i)).length = i
  comment : ∀ content n, b.node = .comment content n →
    b.turn = 0 ∧ content.toList = data.extract (body + 1) (body + i - if b.closed then 1 else 0)
  tag : ∀ name arguments n, b.node = .tag name arguments n →
    (b.turn = 0 ↔ ¬NameEnded (data.extract body (body + i)) name) ∧
      (b.turn = 0 → arguments = []) ∧
      (b.turn ≠ 0 → 1 ≤ b.turn ∧ b.turn ≤ arguments.length + 1)
  declaration : ∀ name value n, b.node = .declaration name value n →
    name ≠ "" ∧ 1 ≤ b.turn ∧ (1 < b.turn → value.isSome)

theorem tagInvariant_of_tracked {finished : Bool} (h : Tracked x data finished i b) :
    TagInvariant data x.body i b := by
  obtain ⟨-, htracks, hlength⟩ := h
  have hread : (data.extract x.body (x.body + i)).length = i := by
    rw [List.length_drop] at hlength
    simp only [List.extract_eq_take_drop, List.length_take, List.length_drop]
    omega
  cases htracks with
  | @naming name blank closed escaped hblank hname htext =>
    refine ⟨trivial, rfl, hread, by rintro _ _ ⟨⟩, ?_, by rintro _ _ _ ⟨⟩⟩
    rintro _ _ _ ⟨⟩
    have hopen : ¬NameEnded (data.extract x.body (x.body + i)) name := by
      rw [htext]
      refine not_nameEnded hblank hname ?_
      cases closed <;> decide
    exact ⟨iff_of_true rfl hopen, fun _ => rfl, fun h => absurd rfl h⟩
  | calling hended hpos hle =>
    refine ⟨trivial, rfl, hread, by rintro _ _ ⟨⟩, ?_, by rintro _ _ _ ⟨⟩⟩
    rintro _ _ _ ⟨⟩
    have hne := Nat.ne_of_gt hpos
    exact ⟨iff_of_false hne (not_not_intro hended), fun h => absurd h hne, fun _ => ⟨hpos, hle⟩⟩
  | comment hmarked htext =>
    refine ⟨trivial, rfl, hread, ?_, by rintro _ _ _ ⟨⟩, by rintro _ _ _ ⟨⟩⟩
    rintro _ _ ⟨⟩
    exact ⟨rfl, htext⟩
  | declaration hnamed hpos hvalued =>
    refine ⟨hpos, rfl, hread, by rintro _ _ ⟨⟩, by rintro _ _ _ ⟨⟩, ?_⟩
    rintro _ _ _ ⟨⟩
    exact ⟨hnamed, hpos, hvalued⟩

theorem staysInside_nested (data : List Char) (limit : Nat) :
    StaysInside (Production.nested data limit) data := by
  intro p start index child hstart h
  rw [nested_eq_readNested] at h
  cases limit with
  | zero => cases h
  | succ limit =>
    simp only [readNested] at h
    cases hread : Reader.read limit (.start (p.construct data start) true) (index + 1)
        (data.drop (start + 1)) with
    | error r => rw [hread] at h; cases h
    | ok node =>
      rw [hread] at h
      cases h
      have hlength := (length_of_read rfl hread).2
      simp only [State.extent, State.start, charsAround, List.length_drop] at hlength
      omega

theorem eq_of_checkComplete {position : Nat} {b' : Build}
    (h : checkComplete x position b = .ok b') : b' = b := by
  unfold checkComplete Setting.checkClosed at h
  split at h
  · cases h
  split at h <;> cases h
  rfl

theorem length_complete (x : Setting) (b : Build) :
    (x.complete b).length = b.node.length + if x.delimited then 1 else 0 := by
  cases hnode : b.node <;> simp only [Setting.complete, hnode, Node.lengthen, Node.length]

def TagReaches (x : Setting) (data : List Char) : Cursor (Except (Breakdown Refusal) Build) → Prop :=
  Reached ((Production.tag.handlers x).map Act.handler) (data.drop x.body)
    ⟨0, false, .ok ⟨.tag "" [] 0, false, false, 0⟩⟩

theorem tracked_of_reaches {t : Cursor (Except (Breakdown Refusal) Build)}
    (hinside : StaysInside x.nested data) (h : TagReaches x data t) (hnode : t.node = .ok b) :
    Tracked x data t.finished t.position b := by
  refine (keeps_tracked hinside).of_reached ?_ h b hnode
  rintro _ ⟨⟩
  have hread : data.extract x.body (x.body + 0) = [] ++ "".toList ++ [] := by simp
  exact ⟨rfl, .naming rfl rfl hread, Nat.zero_le _⟩

theorem firstOutcome_of_declaration {name : String} {value : Option Node}
    (h : TagInvariant data body i b) (hnode : b.node = .declaration name value n)
    (hs : isSpace c = false) (hclose : ¬(c = tagClose ∧ x.delimited)) :
    firstOutcome (Production.tag.handlers x) c i b =
      if value.isSome then x.fail .unexpectedToken i else x.begin c i b := by
  obtain ⟨-, hpos, hvalued⟩ := h.declaration _ _ _ hnode
  rw [firstOutcome_declaration hnode hpos, if_neg hclose, hs]
  by_cases hvalue : value.isSome
  · simp [hvalue]
  · simp [hvalue, mt hvalued hvalue]

/-- What the scan of a tag has built at its end is the node that the tag gives. -/
theorem exists_reaches_of_handle {limit start : Nat} {delimited : Bool} {index : Int} {node : Node}
    (h : Production.tag.handle limit data delimited start index = .ok node) :
    let x : Setting :=
      ⟨Production.nested data limit, Production.tag.body delimited start, index, delimited⟩
    ∃ t b, TagReaches x data t ∧ t.node = .ok b ∧
      (t.finished = true ∨ data.length ≤ x.body + t.position) ∧ node = x.complete b := by
  intro x
  simp only [Production.handle, Production.handleWith] at h
  split at h
  · cases h
  · next s hrun =>
    cases hs : s.node with
    | error e => rw [hs] at h; cases h
    | ok result =>
      rw [hs] at h
      cases h
      obtain ⟨t, b, hreached, hbuilt, hsettle, hover⟩ := exists_reached_of_run hrun hs
      rw [Production.endHandlers, settle_one] at hsettle
      obtain rfl := eq_of_checkComplete hsettle
      refine ⟨t, result, hreached, hbuilt, hover.imp_right fun hlength => ?_, rfl⟩
      rw [List.length_drop] at hlength
      exact Nat.sub_le_iff_le_add'.mp hlength

/-- Wherever the scan of a tag comes to, the invariant holds of what it has built, and a declaration
refuses a second value and takes a first one. The tag that is read is what has been built where the
scan ends, with the brace that opens it; and reading a tag is running its handlers. -/
theorem tag_state_invariant (limit : Nat) (data : List Char) (delimited : Bool) (start : Nat)
    (index : Int) :
    let x : Setting :=
      ⟨Production.nested data limit, Production.tag.body delimited start, index, delimited⟩
    (∀ t b, TagReaches x data t → t.node = .ok b →
      b.closed = t.finished ∧ TagInvariant data x.body t.position b ∧
      ∀ name value n, b.node = .declaration name value n → b.valued = value.isSome ∧
        ∀ c, isSpace c = false → ¬(c = tagClose ∧ delimited) →
          firstOutcome (Production.tag.handlers x) c t.position b =
            if value.isSome then x.fail .unexpectedToken t.position
            else x.begin c t.position b) ∧
    (∀ node, Production.tag.handle limit data delimited start index = .ok node →
      ∃ t b, TagReaches x data t ∧ t.node = .ok b ∧
        (t.finished = true ∨ data.length ≤ x.body + t.position) ∧
        node = x.complete b ∧ node.length = t.position + if delimited then 1 else 0) ∧
    ∀ origin node, Production.tag.parse data origin delimited start = .ok node →
      Production.tag.handle nestingLimit data delimited start (origin.getD ⟨data, x.body⟩).index =
        .ok node := by
  intro x
  have hinside : StaysInside x.nested data := staysInside_nested data limit
  refine ⟨?_, ?_, ?_⟩
  · intro t b hreaches hnode
    have htracked := tracked_of_reaches hinside hreaches hnode
    have hinvariant := tagInvariant_of_tracked htracked
    refine ⟨htracked.1, hinvariant, fun name value n hdeclared => ⟨?_, ?_⟩⟩
    · obtain ⟨-, -, hvalued⟩ := hinvariant.declaration _ _ _ hdeclared
      simpa [Build.valued, hdeclared] using hvalued
    · exact fun c hs hclose => firstOutcome_of_declaration hinvariant hdeclared hs hclose
  · intro node hnode
    obtain ⟨t, b, hreaches, hbuilt, hover, rfl⟩ := exists_reaches_of_handle hnode
    refine ⟨t, b, hreaches, hbuilt, hover, rfl, ?_⟩
    rw [length_complete, (tagInvariant_of_tracked (tracked_of_reaches hinside hreaches hbuilt)).length]
  · intro origin node hnode
    have hsame := parseByHandlers_eq .tag data origin delimited start
    rw [hnode] at hsame
    simp only [Production.parseByHandlers, mapError_ok] at hsame
    show Production.tag.handle nestingLimit data delimited start
      (origin.getD ⟨data, Production.tag.body delimited start⟩).index = .ok node
    cases hhandle : Production.tag.handle nestingLimit data delimited start
        (origin.getD ⟨data, Production.tag.body delimited start⟩).index with
    | error e => rw [hhandle] at hsame; cases hsame
    | ok built => rw [hhandle] at hsame; exact congrArg _ (Except.ok.inj hsame)

theorem declaration_state_behind_value :
    let data := "\x7bx='a'\x7d b".toList
    let x : Setting := ⟨Production.nested data nestingLimit, 1, 1, true⟩
    ∃ t b, TagReaches x data t ∧ t.node = .ok b ∧ t.position = 6 ∧ b.closed = true ∧
      b.node = .declaration "x" (some (.quoted .single "a" 3)) 6 ∧ 1 ≤ b.turn ∧
      firstOutcome (Production.tag.handlers x) '\'' 6 b = x.fail .unexpectedToken 6 := by
  intro data x
  obtain ⟨hstate, hend, hparse⟩ := tag_state_invariant nestingLimit data true 0 1
  have hnode : Production.tag.parse data none true 0 =
      .ok (.declaration "x" (some (.quoted .single "a" 3)) 7) := rfl
  obtain ⟨t, b, hreaches, hbuilt, hover, hcomplete, hlength⟩ := hend _ (hparse none _ hnode)
  obtain ⟨hclosed, hinvariant, hvalue⟩ := hstate t b hreaches hbuilt
  have hposition : t.position = 6 := (Nat.succ.inj hlength).symm
  have hdeclared : b.node = .declaration "x" (some (.quoted .single "a" 3)) 6 := by
    replace hcomplete : Node.declaration "x" (some (.quoted .single "a" 3)) 7 =
      b.node.lengthen 1 := hcomplete
    cases hkind : b.node <;> simp_all [Node.lengthen]
  refine ⟨t, b, hreaches, hbuilt, hposition, ?_, hdeclared, ?_, ?_⟩
  · rw [hclosed]
    refine hover.resolve_right ?_
    rw [hposition]
    decide
  · exact (hinvariant.declaration _ _ _ hdeclared).2.1
  · rw [← hposition]
    exact (hvalue _ _ _ hdeclared).2 _ rfl (by decide)

end TagTemplate.Template
