import TagTemplate.Proofs.Template.Handlers
import TagTemplate.Proofs.Template.Refusals

/-! The productions by their handlers give what the reader gives, a tree or an error, and never a
stall. Errors point at a character of the source. -/
namespace TagTemplate.Template
open Scan Reader

variable {data : List Char} {x : Setting} {p : Production} {b : Build} {limit n : Nat} {c : Char}

def readNested (data : List Char) : (limit : Nat) → Nested
  | 0 => fun _ _ index => .error (.error ⟨.nestingTooDeep, index⟩)
  | limit + 1 => fun p start index =>
    (Reader.read limit (.start (p.construct data start) true) (index + 1)
      (data.drop (start + 1))).mapError .error

theorem call_eq_read {holder : Holder} {inner : Construct} {q : Production}
    {rest : List Char} (hnested : x.nested = readNested data limit)
    (hmove : b.construct.move x.delimited n c = .ok (.enter holder inner))
    (hinner : q.construct data (x.body + n) = inner)
    (hrest : data.drop (x.body + n + 1) = rest) :
    (∃ r, x.call q n b = .raise (.error r) ∧
      Reader.read limit ⟨b.construct, n, [], x.delimited⟩ (x.index + n) (c :: rest) = .error r) ∨
    ∃ child : Node, x.call q n b = .take { b with node := b.node.receive child } child.length ∧
      0 < child.length ∧ child.length ≤ rest.length + 1 ∧
      Reader.read limit ⟨b.construct, n, [], x.delimited⟩ (x.index + n) (c :: rest) =
        Reader.read limit ⟨.holder (holder.receive child), n + child.length, [], x.delimited⟩
          (x.index + n + child.length) ((c :: rest).drop child.length) := by
  unfold Setting.call
  rw [hnested]
  cases limit with
  | zero =>
    left
    exact ⟨_, rfl, read_cons_of_enter_zero hmove _ _⟩
  | succ limit =>
    simp only [readNested, hinner, hrest, read_cons_of_enter hmove]
    cases hread : Reader.read limit (.start inner true) (x.index + n + 1) rest with
    | error r =>
      left
      exact ⟨r, rfl, rfl⟩
    | ok child =>
      right
      have hlength := length_of_read rfl hread
      simp only [State.extent, State.start, charsAround] at hlength
      exact ⟨child, rfl, by omega, by omega, rfl⟩

/-- The scan of a chain comes to an end, and to the one that the reader comes to from there. -/
def EndsAsRead (data : List Char) (x : Setting) (p : Production) (limit n : Nat) (b : Build) : Prop :=
  ∃ stop finished result,
    scan ((p.handlers x).map Act.handler) (data.drop x.body) ⟨n, false, .ok b⟩ =
      .ok ⟨stop, finished, result⟩ ∧
    (result.bind (settle (p.endHandlers x) stop)).map x.complete =
      (Reader.read limit ⟨b.construct, n, [], x.delimited⟩ (x.index + n)
        ((data.drop x.body).drop n)).mapError .error

theorem endsAsRead_of_end (h : Stands p b n) (hn : (data.drop x.body).length = n) :
    EndsAsRead data x p limit n b := by
  refine ⟨n, false, .ok b, scan_of_length_le (Nat.le_of_eq hn), ?_⟩
  rw [List.drop_of_length_le (Nat.le_of_eq hn)]
  refine (settle_of_stands h).trans ?_
  simp only [Reader.read]
  cases finish? ⟨b.construct, n, [], x.delimited⟩ with
  | some node => rfl
  | none =>
    simp only [mapError_error, Setting.fault]
    congr 3
    omega

theorem EndsAsRead.of_take {next : Build} {count : Nat} (hc : (data.drop x.body)[n]? = some c)
    (htake : firstOutcome (p.handlers x) c n b = .take next count) (hcount : 0 < count)
    (hread : Reader.read limit ⟨b.construct, n, [], x.delimited⟩ (x.index + n)
        ((data.drop x.body).drop n) =
      Reader.read limit ⟨next.construct, n + count, [], x.delimited⟩ (x.index + n + count)
        (((data.drop x.body).drop n).drop count))
    (h : EndsAsRead data x p limit (n + count) next) : EndsAsRead data x p limit n b := by
  unfold EndsAsRead at h ⊢
  rw [scan_of_take hc htake hcount, hread]
  rwa [Int.natCast_add, ← Int.add_assoc, ← List.drop_drop] at h

/-- From wherever a production stands, its scan comes to the end that the reader comes to. -/
theorem endsAsRead (hnested : x.nested = readNested data limit) (h : Stands p b n)
    (hn : n ≤ (data.drop x.body).length) : EndsAsRead data x p limit n b := by
  -- On the number of characters left: a nested production takes many of them at once.
  obtain ⟨m, hm⟩ : ∃ m, (data.drop x.body).length - n = m := ⟨_, rfl⟩
  induction m using Nat.strongRecOn generalizing b n with
  | ind m ih =>
    rcases Nat.eq_or_lt_of_le hn with hend | hlt
    · exact endsAsRead_of_end h hend.symm
    obtain ⟨c, hc⟩ : ∃ c, (data.drop x.body)[n]? = some c := ⟨_, List.getElem?_eq_getElem hlt⟩
    have hdata : data[x.body + n]? = some c := by rw [← List.getElem?_drop, hc]
    have hdrop : (data.drop x.body).drop n = c :: data.drop (x.body + n + 1) := by
      obtain ⟨_, rfl⟩ := List.getElem?_eq_some_iff.mp hc
      rw [List.drop_eq_getElem_cons hlt, List.drop_drop, Nat.add_assoc]
    have hfollows := follows hdata h
    cases hmove : b.construct.move x.delimited n c with
    | error fault =>
      rw [hmove] at hfollows
      unfold EndsAsRead
      rw [hdrop, read_cons_of_error hmove]
      rcases hfollows with hraise | ⟨next, hfinish, hsettle⟩
      · exact ⟨n, true, _, scan_of_raise hc hraise, rfl⟩
      · refine ⟨n + 1, true, _, scan_of_finish hc hfinish, ?_⟩
        simp only [Except.bind, hsettle]
        rfl
    | ok move =>
      rw [hmove] at hfollows
      cases move with
      | take inner =>
        obtain ⟨next, htake, rfl, hnext⟩ := hfollows
        refine EndsAsRead.of_take hc htake Nat.one_pos ?_ (ih _ ?_ hnext hlt rfl)
        · rw [hdrop]
          exact read_cons_of_take hmove _ _
        · omega
      | close =>
        obtain ⟨next, hfinish, hsettle⟩ := hfollows
        unfold EndsAsRead
        rw [hdrop, read_cons_of_close hmove]
        exact ⟨n + 1, true, _, scan_of_finish hc hfinish, hsettle⟩
      | enter holder inner =>
        obtain ⟨q, hcall, hinner, hreceive⟩ := hfollows
        rcases call_eq_read hnested hmove hinner rfl with
          ⟨r, hraise, hread⟩ | ⟨child, htake, hpos, hlength, hread⟩
        · unfold EndsAsRead
          rw [hdrop, hread]
          exact ⟨n, true, _, scan_of_raise hc (hcall.trans hraise), rfl⟩
        · obtain ⟨hconstruct, hnext⟩ := hreceive child
          have hroom : n + child.length ≤ (data.drop x.body).length := by
            simp only [List.length_drop] at hlength hlt ⊢
            omega
          refine EndsAsRead.of_take hc (hcall.trans htake) hpos ?_ (ih _ ?_ hnext hroom rfl)
          · rw [hdrop, hread, hconstruct]
          · omega

variable {delimited : Bool} {start : Nat} {index : Int}

theorem stands_seed (p : Production) (data : List Char) (start : Nat) :
    Stands p ⟨p.seed data start, false, false, 0⟩ 0 := by
  cases p <;> exact ⟨trivial, rfl, rfl⟩

theorem construct_seed (p : Production) (data : List Char) (start : Nat) :
    Build.construct ⟨p.seed data start, false, false, 0⟩ = p.construct data start := by
  cases p <;> rfl

theorem handleWith_eq_read (p : Production) (data : List Char) (limit : Nat) (delimited : Bool)
    (start : Nat) (index : Int) :
    p.handleWith (readNested data limit) data delimited start index =
      (Reader.read limit (.start (p.construct data start) delimited) index
        (data.drop (p.body delimited start))).mapError .error := by
  let x : Setting := ⟨readNested data limit, p.body delimited start, index, delimited⟩
  obtain ⟨stop, finished, result, hscan, hresult⟩ :=
    endsAsRead (x := x) rfl (stands_seed p data start) (Nat.zero_le _)
  have hrun := run_chainOfActs (p.endHandlers x) hscan
  simp only [Production.handleWith]
  cases hchain : (chainOfActs (p.handlers x) (p.endHandlers x)).run (data.drop x.body) 0
      (.ok ⟨p.seed data start, false, false, 0⟩) with
  | error s =>
    rw [hchain] at hrun
    cases hrun
  | ok s =>
    rw [hchain] at hrun
    have hnode : s.node = result.bind (settle (p.endHandlers x) stop) := Except.ok.inj hrun
    rw [construct_seed] at hresult
    simpa [hnode, x, State.start] using hresult

/-- The productions inside others read what the reader reads inside other constructs. -/
theorem nested_eq_readNested (data : List Char) (limit : Nat) :
    Production.nested data limit = readNested data limit := by
  induction limit with
  | zero => rfl
  | succ limit ih =>
    funext p start index
    simp only [Production.nested]
    rw [ih, handleWith_eq_read]
    cases p <;> rfl

theorem handle_eq_read (p : Production) (limit : Nat) (data : List Char) (delimited : Bool)
    (start : Nat) (index : Int) :
    p.handle limit data delimited start index =
      (Reader.read limit (.start (p.construct data start) delimited) index
        (data.drop (p.body delimited start))).mapError .error := by
  rw [Production.handle, nested_eq_readNested, handleWith_eq_read]

theorem parseByHandlers_eq (p : Production) (data : List Char) (origin : Option Origin)
    (delimited : Bool) (start : Nat) :
    p.parseByHandlers data origin delimited start =
      (p.parse data origin delimited start).mapError .error := by
  simp only [Production.parseByHandlers, Production.parse, handle_eq_read]
  cases Reader.read nestingLimit (.start (p.construct data start) delimited)
    (origin.getD ⟨data, p.body delimited start⟩).index (data.drop (p.body delimited start)) <;> rfl

theorem compileByHandlers_eq (source : String) :
    compileByHandlers source = (compile source).mapError .error := by
  simp only [compileByHandlers, compile, compileWithin, readDocument, handle_eq_read]
  simp only [Production.construct, Production.body, Bool.false_eq_true, if_false, List.drop_zero]
  cases Reader.read nestingLimit (.start .emptyTemplate false) 0 source.toList <;> rfl

def EndsWell (source : List Char) (read : Except ReadError Node)
    (handled : Except (Breakdown ReadError) Node) : Prop :=
  (∃ t, read = .ok t ∧ handled = .ok t) ∨
    ∃ e : SyntaxError, read = .error (.malformed e) ∧ handled = .error (.error (.malformed e)) ∧
      e.source = source ∧ e.index < source.length

theorem endsWell_compile (source : String) :
    EndsWell source.toList (compile source) (compileByHandlers source) := by
  rw [compileByHandlers_eq]
  cases hread : readDocument nestingLimit source.toList with
  | ok t =>
    have hcompile : compile source = .ok t := compileWithin_eq_ok_iff.mpr hread
    exact .inl ⟨t, hcompile, by rw [hcompile]; rfl⟩
  | error r =>
    obtain ⟨e, hcompile, -, -, hsource, -⟩ := compileWithin_of_refusal hread
    exact .inr ⟨e, hcompile, by rw [compile, hcompile]; rfl, hsource, hsource ▸ e.index_lt⟩

theorem index_of_read_production {r : Refusal} (hstart : start < data.length)
    (h : Reader.read limit (.start (p.construct data start) delimited) (p.body delimited start)
      (data.drop (p.body delimited start)) = .error r) :
    0 ≤ r.index ∧ r.index < data.length := by
  have hbody : p.body delimited start = start ∨ p.body delimited start = start + 1 := by
    cases p <;> cases delimited <;> simp [Production.body]
  rcases read_eq_error h with ⟨t, -, -, rfl⟩ | ⟨q, c, rest, t, htext, -, -, hi⟩
  · simp only [List.length_drop]
    omega
  · have hlength := congrArg List.length htext
    simp only [List.length_drop, List.length_append, List.length_cons] at hlength
    omega

theorem endsWell_parse (hstart : start < data.length) :
    EndsWell data (p.parse data none delimited start)
      (p.parseByHandlers data none delimited start) := by
  rw [parseByHandlers_eq]
  simp only [Production.parse, Option.getD_none]
  cases hread : Reader.read nestingLimit (.start (p.construct data start) delimited)
      (p.body delimited start) (data.drop (p.body delimited start)) with
  | ok t => exact .inl ⟨t, rfl, rfl⟩
  | error r =>
    obtain ⟨e, he, -, -, hsource, -⟩ :=
      ofRefusal_eq_malformed (index_of_read_production hstart hread)
    refine .inr ⟨e, ?_, ?_, hsource, hsource ▸ e.index_lt⟩
    · simp only [mapError_error, he]
    · simp only [mapError_error, he]

/-- Nothing fails inside. Compiling ends with a tree or with an error at a character of the source, and
so does each production by itself from any character on; no chain of handlers comes to a stall. -/
theorem compile_and_parse_end_well :
    (∀ source : String, EndsWell source.toList (compile source) (compileByHandlers source)) ∧
    ∀ (p : Production) (data : List Char) (delimited : Bool) (start : Nat), start < data.length →
      EndsWell data (p.parse data none delimited start)
        (p.parseByHandlers data none delimited start) :=
  ⟨endsWell_compile, fun _ _ _ _ h => endsWell_parse h⟩

end TagTemplate.Template
