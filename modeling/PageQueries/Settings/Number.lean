import PageQueries.Text.Blank
import PageQueries.Validation

/-!
# Reading integers

A setting that is an integer may be given as a numeral.  A *plain* numeral has a minus sign, if any,
and digits that do not begin with a needless zero.  Any other text is first *cleaned*: white space
around it, a plus sign, leading zeros, a fraction of zeros and single underscores are dropped, and
what is left must be plain.
-/
namespace PageQueries.Numeral

/-- The largest number of characters of a plain numeral. -/
def sizeLimit : Nat := 4300

/-- A numeral cut behind its minus sign, if it has one. -/
def sign : Text → Bool × Text
  | '-' :: t => (true, t)
  | t => (false, t)

/-- The digits that a text begins with: a lone zero, or all of them. -/
def startDigits : Text → Text
  | '0' :: _ => ['0']
  | t => t.takeWhile Char.isDigit

def value (digits : Text) : Nat := digits.foldl (fun n d => n * 10 + (d.toNat - 0x30)) 0

/-- Reads a plain numeral.  One that is too long is told before what follows its digits is looked
at. -/
def readPlain (t : Text) : Except Fault Int :=
  let (negative, r) := sign t
  let digits := startDigits r
  if digits.isEmpty then .error .intUnreadable
  else if sizeLimit < digits.length + (if negative then 1 else 0) then .error .intTooLong
  else if digits.length < r.length then .error .intUnreadable
  else .ok (if negative then -(value digits : Int) else value digits)

/-- A text without one plus sign at its start; a plus sign before a minus sign is no sign. -/
def dropPlus : Text → Option Text
  | '+' :: '-' :: _ => none
  | '+' :: t => some t
  | t => some t

/-- A numeral without its leading zeros and the underscores among them.  The last character stays if
nothing else follows, and the one before a point stays.  A minus sign may stand behind the zeros. -/
def dropZeros (t : Text) : Option Text :=
  match t with
  | '0' :: r =>
    let isZero (c : Char) : Bool := c = '0' || c = '_'
    let last := (r.takeWhile isZero).getLastD '0'
    match r.dropWhile isZero with
    | [] => some [last]
    | '.' :: r => some (last :: '.' :: r)
    | c :: r => if c.isDigit || c = '-' then some (c :: r) else none
  | c :: _ => if c.isDigit || c = '-' then some t else none
  | [] => none

/-- A numeral without a fraction that consists of zeros. -/
def dropFraction (t : Text) : Text :=
  match t.dropWhile (· != '.') with
  | '.' :: places =>
    if !places.isEmpty && places.all (· = '0') then t.takeWhile (· != '.') else t
  | _ => t

/-- A numeral without its underscores, if each stands alone between other characters. -/
def dropUnderscores (t : Text) : Text :=
  let groups := Text.splitOn '_' t
  if groups.any (·.isEmpty) then t else groups.flatten

def clean (t : Text) : Option Text := do
  let t ← dropPlus (Text.trimBy Text.isWhiteSpace t)
  let t ← dropZeros t
  some (dropUnderscores (dropFraction t))

/-- The integer that a text is a numeral of. -/
def read (t : Text) : Except Fault Int :=
  match readPlain t with
  | .error .intUnreadable =>
    match (clean t).map readPlain with
    | some (.ok n) => .ok n
    | _ => .error .intUnreadable
  | r => r

end PageQueries.Numeral

namespace PageQueries

/-- Accepts an integer, a truth value as one or zero, a floating-point number that is an integer
within a word, and a numeral. -/
def acceptInt : Json → Except Fault Int
  | .int n => .ok n
  | .bool b => .ok (if b then 1 else 0)
  | .float (.finite negative m e) =>
    match (Binary64.finite negative m e).toInt? with
    | some n => if isWithinWord n then .ok n else .error .intTooLong
    | none => .error .intFractional
  | .float _ => .error .intInfinite
  | .text t => Numeral.read t
  | _ => .error .intExpected

end PageQueries
