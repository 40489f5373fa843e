import TagTemplate.Proofs.Template.Productions

/-! A production reads its own slice of the data. The characters that a node stands for settle it,
wherever they stand and whatever stands around them, and the place of a refusal is counted from the
first character of the body. -/
namespace TagTemplate.Template

namespace Reader

variable {limit : Nat} {s : State} {index : Int} {cs : List Char} {node : Node}

def Refusal.shift (r : Refusal) (count : Int) : Refusal :=
  { r with index := r.index + count }

/-- Whether a text is read does not depend on the index at which it begins, only the index that a
refusal names does. -/
theorem read_add (limit : Nat) (s : State) (index count : Int) (cs : List Char) :
    read limit s (index + count) cs = (read limit s index cs).mapError (·.shift count) := by
  induction cs generalizing s index with
  | nil =>
    simp only [read]
    cases finish? s with
    | some node => rfl
    | none =>
      simp only [mapError_error, Refusal.shift, Except.error.injEq, Refusal.mk.injEq, true_and]
      omega
  | cons c rest ih =>
    simp only [read]
    cases step limit s c with
    | error fault => rfl
    | ok p =>
      cases p with
      | closed node => rfl
      | reading t =>
        simp only
        rw [← ih, Int.add_right_comm]

/-- The characters up to the closing delimiter settle a node. What stands behind it is not read. -/
theorem read_take_append (hd : s.delimited = true) (h : read limit s index cs = .ok node)
    (behind : List Char) :
    read limit s index (cs.take (node.length - (s.extent + 1)) ++ behind) = .ok node := by
  -- Each character read makes the extent greater by one, up to the length of the node: what is
  -- left to be read is known at every step.
  induction cs generalizing s index with
  | nil => simp [read, finish?, State.enclosed, hd] at h
  | cons c rest ih =>
    simp only [read] at h
    split at h
    · cases h
    · next hs =>
      cases h
      have hlength := length_of_step_closed hs
      have hcount : node.length - (s.extent + 1) = 1 := by omega
      simp only [hcount, List.take_succ_cons, List.take_zero, List.cons_append, read, hs]
    · next t hs =>
      obtain ⟨hextent, hdelimited⟩ := extent_of_step hs
      have hlength := length_of_read (hdelimited.trans hd) h
      have hcount : node.length - (s.extent + 1) = (node.length - (t.extent + 1)) + 1 := by omega
      rw [hcount, List.take_succ_cons, List.cons_append, read_cons_of_step hs]
      exact ih (hdelimited.trans hd) h

end Reader

open Reader

namespace Production

variable {p : Production} {limit : Nat} {data data' : List Char} {start start' : Nat} {node : Node}

def originOf (p : Production) (data : List Char) (start : Nat) (given : Option Origin) : Origin :=
  given.getD ⟨data, p.body true start⟩

def readInPlace (limit : Nat) (p : Production) (data : List Char) (given : Option Origin)
    (start : Nat) : Except (Breakdown ReadError) Node :=
  let origin := p.originOf data start given
  (p.handle limit data true start origin.index).mapError (.map (.ofRefusal origin.source))

theorem readInPlace_nestingLimit (p : Production) (data : List Char) (given : Option Origin)
    (start : Nat) :
    p.readInPlace nestingLimit data given start =
      (p.parse data given true start).mapError .error :=
  parseByHandlers_eq p data given true start

/-- The body read by itself, with indices from its first character on. -/
def readBody (limit : Nat) (p : Production) (data : List Char) (start : Nat) :
    Except Refusal Node :=
  Reader.read limit (.start (p.construct data start) true) 0 (data.drop (start + 1))

theorem readInPlace_eq_readBody (limit : Nat) (p : Production) (data : List Char)
    (given : Option Origin) (start : Nat) :
    p.readInPlace limit data given start =
      (p.readBody limit data start).mapError fun r =>
        let origin := p.originOf data start given
        .error (.ofRefusal origin.source (r.shift origin.index)) := by
  have hbody : p.body true start = start + 1 := by cases p <;> rfl
  have hread := read_add limit (.start (p.construct data start) true) 0
    (p.originOf data start given).index (data.drop (start + 1))
  rw [Int.zero_add] at hread
  simp only [readInPlace, handle_eq_read, hbody, hread, readBody]
  cases Reader.read limit (.start (p.construct data start) true) 0 (data.drop (start + 1)) <;> rfl

theorem readInPlace_eq_ok_iff {given : Option Origin} :
    p.readInPlace limit data given start = .ok node ↔ p.readBody limit data start = .ok node := by
  rw [readInPlace_eq_readBody]
  cases p.readBody limit data start <;> simp

theorem construct_congr (h : data'[start']? = data[start]?) (p : Production) :
    p.construct data' start' = p.construct data start := by
  cases p
  · simp only [construct, h]
  · rfl
  · rfl

theorem readBody_of_drop_eq (h : data'.drop start' = data.drop start) :
    p.readBody limit data' start' = p.readBody limit data start := by
  have hopening : data'[start']? = data[start]? := by
    rw [← List.head?_drop, ← List.head?_drop, h]
  have hbehind : data'.drop (start' + 1) = data.drop (start + 1) := by
    rw [← List.drop_drop, h, List.drop_drop]
  rw [readBody, readBody, construct_congr hopening, hbehind]

theorem readBody_of_extract_eq (h : p.readBody limit data start = .ok node)
    (hslice : data'.extract start' (start' + node.length) =
      data.extract start (start + node.length)) :
    p.readBody limit data' start' = .ok node := by
  have hlength := (length_of_read rfl h).1
  simp only [State.extent, State.start, charsAround] at hlength
  obtain ⟨n, hn⟩ : ∃ n, node.length = n + 1 := ⟨node.length - 1, by omega⟩
  simp only [hn, List.extract_eq_take_drop, Nat.add_sub_cancel_left] at hslice
  -- The opening delimiter counts too: a quote settles which quote closes.
  have hopening : data'[start']? = data[start]? := by
    have hheads := congrArg List.head? hslice
    simpa [List.head?_take] using hheads
  have hbody : (data'.drop (start' + 1)).take n = (data.drop (start + 1)).take n := by
    have htails := congrArg (List.drop 1) hslice
    simpa [List.drop_take] using htails
  have hread := read_take_append rfl h ((data'.drop (start' + 1)).drop n)
  have hcount : node.length - ((State.start (p.construct data start) true).extent + 1) = n := by
    simp only [State.extent, State.start, charsAround]
    omega
  rw [hcount, ← hbody, List.take_append_drop, ← construct_congr hopening] at hread
  exact hread

theorem ofRefusal_shift_eq_malformed {source source' : List Char} {r : Refusal}
    {count count' : Int} {e : SyntaxError}
    (h : ReadError.ofRefusal source (r.shift count) = .malformed e)
    (hinside : 0 ≤ count' + (e.index - count) ∧ count' + (e.index - count) < source'.length) :
    ∃ e' : SyntaxError, ReadError.ofRefusal source' (r.shift count') = .malformed e' ∧
      e'.fault = e.fault ∧ e'.message = e.message ∧ e'.source = source' ∧
      (e'.index : Int) = count' + (e.index - count) := by
  obtain ⟨hfault, hmessage, hindex⟩ := eq_of_ofRefusal_eq_malformed h
  simp only [Refusal.shift] at hfault hmessage hindex
  have hplace : (r.shift count').index = count' + (e.index - count) := by
    simp only [Refusal.shift]
    omega
  rw [← hplace] at hinside ⊢
  rw [hfault, hmessage]
  exact ofRefusal_eq_malformed hinside

/-- A production inside another one reads its own slice. Its node is given wherever the characters
that it stands for stand, whatever there is around them and whatever source and index errors are to
show. An error is the same behind any other text, as far from the first character of the body. -/
theorem productions_read_their_slice (p : Production) :
    (∀ data given start, p.readInPlace nestingLimit data given start =
      (p.parse data given true start).mapError .error) ∧
    ∀ (limit : Nat) (data : List Char) (given : Option Origin) (start : Nat),
      (∀ node, p.readInPlace limit data given start = .ok node →
        ∀ data' given' start', data'.extract start' (start' + node.length) =
            data.extract start (start + node.length) →
          p.readInPlace limit data' given' start' = .ok node) ∧
      ∀ e, p.readInPlace limit data given start = .error (.error (.malformed e)) →
        ∀ front given',
          let data' := front ++ data.drop start
          let origin := p.originOf data start given
          let origin' := p.originOf data' front.length given'
          let index := origin'.index + (e.index - origin.index)
          0 ≤ index ∧ index < origin'.source.length →
          ∃ e' : SyntaxError,
            p.readInPlace limit data' given' front.length = .error (.error (.malformed e')) ∧
            e'.fault = e.fault ∧ e'.message = e.message ∧ e'.source = origin'.source ∧
            (e'.index : Int) = index := by
  refine ⟨p.readInPlace_nestingLimit, fun limit data given start => ⟨?_, ?_⟩⟩
  · intro node h data' given' start' hslice
    rw [readInPlace_eq_ok_iff] at h ⊢
    exact readBody_of_extract_eq h hslice
  · intro e h front given' data' origin origin' index hinside
    have hsame : p.readBody limit data' front.length = p.readBody limit data start :=
      readBody_of_drop_eq List.drop_left
    rw [readInPlace_eq_readBody] at h ⊢
    rw [hsame]
    cases hread : p.readBody limit data start with
    | ok node =>
      rw [hread] at h
      cases h
    | error r =>
      rw [hread] at h
      have hrefusal : ReadError.ofRefusal origin.source (r.shift origin.index) = .malformed e := by
        simpa using h
      obtain ⟨e', he', hshown⟩ := ofRefusal_shift_eq_malformed hrefusal hinside
      exact ⟨e', by simpa using he', hshown⟩

theorem tag_read_elsewhere :
    let t := Node.tag "m" [.quoted .single "b" 3] 7
    tag.readInPlace nestingLimit "a\x7bm 'b'\x7d c".toList none 1 = .ok t ∧
      tag.readInPlace nestingLimit "\x7bm 'b'\x7d\x7d".toList (some ⟨[], 5⟩) 0 = .ok t ∧
      ∃ e e' : SyntaxError,
        tag.readInPlace nestingLimit "a\x7bm x\x7d".toList none 1 = .error (.error (.malformed e)) ∧
        tag.readInPlace nestingLimit "bc\n\x7bm x\x7d".toList (some ⟨"\x7bm x\x7d".toList, 1⟩) 3 =
          .error (.error (.malformed e')) ∧
        e.index = 4 ∧ e'.index = 3 ∧ e'.fault = .invalidToken := by
  intro t
  obtain ⟨hparse, hread⟩ := productions_read_their_slice .tag
  have htag : tag.readInPlace nestingLimit "a\x7bm 'b'\x7d c".toList none 1 = .ok t := by
    rw [hparse]
    rfl
  obtain ⟨e, herror, hindex, hfault⟩ : ∃ e : SyntaxError,
      tag.readInPlace nestingLimit "a\x7bm x\x7d".toList none 1 = .error (.error (.malformed e)) ∧
      e.index = 4 ∧ e.fault = .invalidToken := by
    rw [hparse]
    exact ⟨_, rfl, rfl, rfl⟩
  refine ⟨htag, (hread _ _ _ _).1 t htag _ _ 0 (by decide), ?_⟩
  obtain ⟨e', herror', hfault', -, -, hindex'⟩ := (hread _ _ _ _).2 e herror "bc\n".toList
    (some ⟨"\x7bm x\x7d".toList, 1⟩) (by rw [hindex]; decide)
  rw [hindex] at hindex'
  exact ⟨e, e', herror, herror', hindex, Int.ofNat.inj hindex', hfault'.trans hfault⟩

end Production

end TagTemplate.Template
