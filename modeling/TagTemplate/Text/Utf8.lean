import TagTemplate.Number.Power

/-! Reading octets as UTF-8. A reading either yields all the characters or names the first octets
that no character starts with, and why. -/
namespace TagTemplate.Text.Utf8

inductive Reason where
  | invalidStart
  | invalidContinuation
  | unexpectedEnd
  deriving DecidableEq, Repr

/-- Octets that cannot be read: their place, how many they are, the first of them and the reason. -/
structure Failure where
  place : Nat
  count : Nat
  octet : UInt8
  reason : Reason
  deriving DecidableEq, Repr

def Reason.message : Reason → String
  | .invalidStart => "invalid start byte"
  | .invalidContinuation => "invalid continuation byte"
  | .unexpectedEnd => "unexpected end of data"

def Failure.message (f : Failure) : String :=
  let what :=
    if f.count = 1 then
      s!"byte 0x{String.ofList (Nat.toDigits 16 f.octet.toNat)} in position {f.place}"
    else s!"bytes in position {f.place}-{f.place + f.count - 1}"
  s!"'utf-8' codec can't decode {what}: {f.reason.message}"

/-- How a first octet goes on: the least and greatest second octet, and how many follow in all. -/
def continuation? (octet : UInt8) : Option (UInt8 × UInt8 × Nat) :=
  if octet < 0xC2 then none
  else if octet < 0xE0 then some (0x80, 0xBF, 1)
  else if octet = 0xE0 then some (0xA0, 0xBF, 2)
  else if octet = 0xED then some (0x80, 0x9F, 2)
  else if octet < 0xF0 then some (0x80, 0xBF, 2)
  else if octet = 0xF0 then some (0x90, 0xBF, 3)
  else if octet < 0xF4 then some (0x80, 0xBF, 3)
  else if octet = 0xF4 then some (0x80, 0x8F, 3)
  else none

/-- Takes the octets that continue a character, `taken` of which have been read, and adds their
bits to `value`. Only the first of them has bounds of its own. -/
def continued (low high : UInt8) (taken value : Nat) :
    Nat → List UInt8 → Except (Reason × Nat) (Nat × List UInt8)
  | 0, octets => .ok (value, octets)
  | _ + 1, [] => .error (.unexpectedEnd, taken)
  | n + 1, octet :: octets =>
    if low ≤ octet && octet ≤ high then
      continued 0x80 0xBF (taken + 1) (value * 64 + (octet.toNat - 0x80)) n octets
    else .error (.invalidContinuation, taken)

/-- Reads octets from `place` on; `fuel` bounds the characters and so never exceeds the octets. -/
def decodeFrom : (fuel : Nat) → (place : Nat) → List UInt8 → Except Failure (List Char)
  | 0, _, _ => .ok []
  | _ + 1, _, [] => .ok []
  | fuel + 1, place, octet :: octets =>
    if octet < 0x80 then
      (decodeFrom fuel (place + 1) octets).map (Char.ofNat octet.toNat :: ·)
    else
      match continuation? octet with
      | none => .error ⟨place, 1, octet, .invalidStart⟩
      | some (low, high, more) =>
        let bits := octet.toNat % twoPow (6 - more)
        match continued low high 1 bits more octets with
        | .error (reason, count) => .error ⟨place, count, octet, reason⟩
        | .ok (value, rest) =>
          (decodeFrom fuel (place + 1 + more) rest).map (Char.ofNat value :: ·)

def decode (octets : List UInt8) : Except Failure (List Char) :=
  decodeFrom octets.length 0 octets

/-- Every line ends in a line feed: a carriage return becomes one, together with a line feed that
follows it. -/
def plainLines : List Char → List Char
  | [] => []
  | '\r' :: '\n' :: rest => '\n' :: plainLines rest
  | c :: rest => (if c = '\r' then '\n' else c) :: plainLines rest

def text (octets : List UInt8) : Except Failure String :=
  (decode octets).map fun cs => String.ofList (plainLines cs)

end TagTemplate.Text.Utf8
