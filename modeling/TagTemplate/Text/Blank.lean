/-! The blank characters of Unicode, and cutting them off the ends of a text.
Layout inside tags is narrower: it knows the space and the line feed only. -/
namespace TagTemplate.Text

def isBlank (c : Char) : Bool :=
  let n := c.toNat
  (0x09 ≤ n && n ≤ 0x0D) || (0x1C ≤ n && n ≤ 0x20) || n == 0x85 || n == 0xA0 || n == 0x1680 ||
    (0x2000 ≤ n && n ≤ 0x200A) || n == 0x2028 || n == 0x2029 || n == 0x202F || n == 0x205F ||
    n == 0x3000

theorem isBlank_of_isWhitespace {c : Char} (h : c.isWhitespace = true) : isBlank c = true := by
  simp only [Char.isWhitespace, Bool.or_eq_true, decide_eq_true_eq] at h
  rcases h with ((rfl | rfl) | rfl) | rfl <;> decide

def isSeparator (c : Char) : Bool :=
  0x1C ≤ c.toNat && c.toNat ≤ 0x1F

/-- White space in Unicode's sense, without the information separators. -/
def isSpacing (c : Char) : Bool :=
  isBlank c && !isSeparator c

def trim (cut : Char → Bool) (cs : List Char) : List Char :=
  ((cs.dropWhile cut).reverse.dropWhile cut).reverse

def stripEnd (s : String) : String :=
  String.ofList (s.toList.reverse.dropWhile isBlank).reverse

def strip (s : String) : String :=
  String.ofList (trim isBlank s.toList)

end TagTemplate.Text
