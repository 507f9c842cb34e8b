import Mathlib

/-! The C library functions that text parsers use, on lists of characters. A C
string ends at its first `'\0'`; the locale is the `"C"` one. -/
namespace TinaPackage

def isspace (c : Char) : Bool :=
  c = ' ' || c = '\t' || c = '\n' || c = '\x0b' || c = '\x0c' || c = '\r'

variable (s : List Char)

/-- What a C function sees of a buffer that is followed by a terminator. -/
def cstr : List Char := s.takeWhile (· ≠ '\x00')

def trimEnd : List Char := (s.reverse.dropWhile isspace).reverse

def trim : List Char := trimEnd (s.dropWhile isspace)

def strcaseeq (t : List Char) : Bool := s.map Char.toLower == t.map Char.toLower

def strncaseeq (n : ℕ) (s t : List Char) : Bool := strcaseeq (s.take n) (t.take n)

/-- The text behind the first `c`, `strchr (s, c) + 1`. -/
def afterFirst (c : Char) : List Char → Option (List Char)
  | [] => none
  | x :: xs => if x = c then some xs else afterFirst c xs

/-- The text before the first occurrence of `needle`, `strstr (s, needle) - s` characters long. -/
def beforeFirst (needle : List Char) : List Char → Option (List Char)
  | [] => if needle = [] then some [] else none
  | x :: xs => if needle.isPrefixOf (x :: xs) then some []
    else (beforeFirst needle xs).map (x :: ·)

/-- The text before the last `c`, `strrchr (s, c) - s` characters long. -/
def beforeLast (c : Char) (s : List Char) : Option (List Char) :=
  (afterFirst c s.reverse).map List.reverse

def digitValue (c : Char) : ℕ := c.toNat - '0'.toNat

def decimalValue : ℕ := s.foldl (fun n c => 10*n+digitValue c) 0

/-- An integer in decimal as the `strto` functions scan it: its sign, its magnitude
and the text behind it. There is no conversion without a digit. -/
def scanInteger : Option (Bool × ℕ × List Char) :=
  let t := s.dropWhile isspace
  let negative := t.head? = some '-'
  let u := if t.head? = some '-' ∨ t.head? = some '+' then t.drop 1 else t
  let digits := u.takeWhile Char.isDigit
  if digits = [] then none
  else some (negative, decimalValue digits, u.dropWhile Char.isDigit)

/-- The value and the rest that `strtoll (s, &end, 10)` yields; out of range it saturates. -/
def strtoll : Option (ℤ × List Char) :=
  (scanInteger s).map fun (negative, n, rest) =>
    (if negative then max (-(n : ℤ)) (-2^63) else min (n : ℤ) (2^63-1), rest)

/-- The value and the rest that `strtoull (s, &end, 10)` yields: a minus sign negates
in the unsigned type, and what is out of range becomes the largest value. -/
def strtoull : Option (ℕ × List Char) :=
  (scanInteger s).map fun (negative, n, rest) =>
    (if 2^64 ≤ n then 2^64-1 else if negative then (2^64-n) % 2^64 else n, rest)

end TinaPackage
