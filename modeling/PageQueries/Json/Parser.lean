import PageQueries.Json.Basic

/-!
# Reading JSON

`parse` reads a text that is one JSON value with white space around it.  Beside the standard's
values it knows `NaN`, `Infinity` and `-Infinity`.  Of members with the same name the first gives
the position and the last the value.  Control characters in strings must be escaped; an escaped
half of a surrogate pair without its other half is read as U+FFFD.  Two limits guard the reader: the
digits of an integer, and how deep arrays and objects are nested.
-/
namespace PageQueries.Json

/-- The characters that may stand between the tokens. -/
def isSpace (c : Char) : Bool := c = ' ' || c = '\t' || c = '\n' || c = '\r'

def skipSpace (t : Text) : Text := t.dropWhile isSpace

def hexValue? (c : Char) : Option Nat :=
  let n := c.toNat
  if 0x30 ≤ n ∧ n ≤ 0x39 then some (n - 0x30)
  else if 0x41 ≤ n ∧ n ≤ 0x46 then some (n - 0x37)
  else if 0x61 ≤ n ∧ n ≤ 0x66 then some (n - 0x57)
  else none

/-- Reads four hexadecimal digits. -/
def codeUnit? : Text → Option (Nat × Text)
  | a :: b :: c :: d :: t => do
    let a ← hexValue? a
    let b ← hexValue? b
    let c ← hexValue? c
    let d ← hexValue? d
    some (((a * 16 + b) * 16 + c) * 16 + d, t)
  | _ => none

/-- Whether a code unit is the first, or the second, half of a surrogate pair. -/
def isHighHalf (u : Nat) : Bool := decide (0xd800 ≤ u) && decide (u < 0xdc00)

@[inherit_doc isHighHalf]
def isLowHalf (u : Nat) : Bool := decide (0xdc00 ≤ u) && decide (u < 0xe000)

/-- What a half without its other half is read as. -/
def replacement : Char := Char.ofNat 0xfffd

/-- The character of a code unit that is not part of a pair. -/
def unitChar (u : Nat) : Char := if isHighHalf u || isLowHalf u then replacement else Char.ofNat u

/-- Reads the code unit after `\u`, and the second half of a pair if it follows. -/
def unicodeEscape? (t : Text) : Option (Char × Text) := do
  let (u, t) ← codeUnit? t
  if isHighHalf u then
    match t with
    | '\\' :: 'u' :: r => do
      let (v, r) ← codeUnit? r
      if isLowHalf v then
        some (Char.ofNat (0x10000 + (u - 0xd800) * 0x400 + (v - 0xdc00)), r)
      else some (replacement, t)
    | _ => some (replacement, t)
  else some (unitChar u, t)

/-- Reads what follows a backslash. -/
def escape? : Text → Option (Char × Text)
  | '"' :: t => some ('"', t)
  | '\\' :: t => some ('\\', t)
  | '/' :: t => some ('/', t)
  | 'b' :: t => some ('\x08', t)
  | 'f' :: t => some ('\x0c', t)
  | 'n' :: t => some ('\n', t)
  | 'r' :: t => some ('\r', t)
  | 't' :: t => some ('\t', t)
  | 'u' :: t => unicodeEscape? t
  | _ => none

theorem length_codeUnit? {t : Text} {r : Nat × Text} (h : codeUnit? t = some r) :
    r.2.length ≤ t.length := by
  unfold codeUnit? at h
  split at h
  · simp only [Option.bind_eq_bind, Option.bind_eq_some_iff] at h
    obtain ⟨_, _, _, _, _, _, _, _, h⟩ := h
    simp only [Option.some.injEq] at h
    subst h
    simp only [List.length_cons]
    omega
  · simp at h

theorem length_unicodeEscape? {t : Text} {r : Char × Text} (h : unicodeEscape? t = some r) :
    r.2.length ≤ t.length := by
  simp only [unicodeEscape?, Option.bind_eq_bind, Option.bind_eq_some_iff] at h
  obtain ⟨⟨u, t'⟩, hu, h⟩ := h
  have h₁ := length_codeUnit? hu
  simp only at h h₁
  split at h
  · split at h
    · simp only [Option.bind_eq_some_iff] at h
      obtain ⟨⟨v, r'⟩, hv, h⟩ := h
      have h₂ := length_codeUnit? hv
      simp only [List.length_cons] at h h₁ h₂
      split at h
      · simp only [Option.some.injEq] at h
        subst h
        simp only
        omega
      · simp only [Option.some.injEq] at h
        subst h
        simpa using h₁
    · simp only [Option.some.injEq] at h
      subst h
      exact h₁
  · simp only [Option.some.injEq] at h
    subst h
    exact h₁

theorem length_escape? {t : Text} {r : Char × Text} (h : escape? t = some r) :
    r.2.length ≤ t.length := by
  unfold escape? at h
  split at h
  case h_9 t' =>
    have := length_unicodeEscape? h
    simp only [List.length_cons]
    omega
  all_goals
    simp only [Option.some.injEq, reduceCtorEq] at h
    try (subst h; simp)

/-- Reads the characters of a string up to and with its closing quote. -/
def stringBody? (t : Text) : Option (Text × Text) :=
  match t with
  | [] => none
  | c :: t =>
    if c = '"' then some ([], t)
    else if c = '\\' then
      match _h : escape? t with
      | none => none
      | some (d, rest) => (stringBody? rest).map fun r => (d :: r.1, r.2)
    else if c.toNat < 0x20 then none
    else (stringBody? t).map fun r => (c :: r.1, r.2)
termination_by t.length
decreasing_by
  · have : rest.length ≤ t.length := length_escape? _h
    simp only [List.length_cons]
    omega
  · simp

def digits (t : Text) : Text × Text := (t.takeWhile Char.isDigit, t.dropWhile Char.isDigit)

def digitsValue (ds : Text) : Nat := ds.foldl (fun n d => n * 10 + (d.toNat - 0x30)) 0

/-- Reads a fraction: a point and at least one digit. -/
def fraction (t : Text) : Text × Text :=
  match t with
  | '.' :: r => if (digits r).1.isEmpty then ([], t) else digits r
  | _ => ([], t)

/-- Reads an exponent: its mark, a sign that may be missing, and at least one digit. -/
def exponent (t : Text) : Option Int × Text :=
  match t with
  | c :: r =>
    if c = 'e' || c = 'E' then
      let (negative, r) := match r with
        | '-' :: r => (true, r)
        | '+' :: r => (false, r)
        | r => (false, r)
      let (ds, r) := digits r
      if ds.isEmpty then (none, t)
      else
        let n : Int := digitsValue ds
        (some (if negative then -n else n), r)
    else (none, t)
  | [] => (none, t)

/-- A limit that a text exceeds. -/
inductive Limit where
  /-- An integer has so many digits. -/
  | digits (count : Nat)
  /-- An array is nested too deep. -/
  | arrayDepth
  /-- An object is nested too deep. -/
  | objectDepth
  deriving DecidableEq, Repr

/-- The largest number of digits of an integer. -/
def digitLimit : Nat := 4300

/-- The largest number of arrays and objects one within another. -/
def depthLimit : Nat := 988

def Limit.message : Limit → Text
  | digits count =>
    "Exceeds the limit (".toList ++ Text.ofNat digitLimit
      ++ " digits) for integer string conversion: value has ".toList ++ Text.ofNat count
      ++ " digits; use sys.set_int_max_str_digits() to increase the limit".toList
  | arrayDepth =>
    "maximum recursion depth exceeded while decoding a JSON array from a unicode string".toList
  | objectDepth =>
    "maximum recursion depth exceeded while decoding a JSON object from a unicode string".toList

/-- Why a text is not read. -/
inductive ParseError where
  | malformed
  | limit (l : Limit)
  deriving DecidableEq, Repr

/-- The outcome of a reader that knows no limits. -/
def ofOption {α : Type} : Option (α × Text) → Except ParseError (α × Text)
  | some r => .ok r
  | none => .error .malformed

/-- Reads a number without its sign.  An integer part of several digits begins with none but a
non-zero digit; a fraction or an exponent makes the number a floating-point number. -/
def unsigned (negative : Bool) (t : Text) : Except ParseError (Json × Text) :=
  let (whole, r) : Text × Text := match t with
    | '0' :: r => (['0'], r)
    | _ => digits t
  if whole.isEmpty then .error .malformed
  else
    let (places, r) := fraction r
    let (power, r) := exponent r
    if places.isEmpty && power.isNone then
      if digitLimit < whole.length then .error (.limit (.digits whole.length))
      else
        let n : Int := digitsValue whole
        .ok (int (if negative then -n else n), r)
    else
      .ok (float (.ofDecimal negative (digitsValue (whole ++ places))
        (power.getD 0 - places.length)), r)

/-- Reads a number, the infinite ones and the word for no number included. -/
def number (t : Text) : Except ParseError (Json × Text) :=
  match Text.after? "NaN".toList t, Text.after? "Infinity".toList t,
      Text.after? "-Infinity".toList t with
  | some r, _, _ => .ok (float .nan, r)
  | _, some r, _ => .ok (float (.infinity false), r)
  | _, _, some r => .ok (float (.infinity true), r)
  | none, none, none =>
    match t with
    | '-' :: r => unsigned true r
    | _ => unsigned false t

def word? (t : Text) : Option (Json × Text) :=
  match Text.after? "null".toList t, Text.after? "true".toList t, Text.after? "false".toList t with
  | some r, _, _ => some (null, r)
  | _, some r, _ => some (bool true, r)
  | _, _, some r => some (bool false, r)
  | none, none, none => none

mutual

/-- Reads a value that lies within `depth` arrays and objects.  Each step into a part takes one unit
of fuel. -/
def value (depth : Nat) : (fuel : Nat) → Text → Except ParseError (Json × Text)
  | 0, _ => .error .malformed
  | fuel + 1, t =>
    match t with
    | '"' :: r => (ofOption (stringBody? r)).map fun r => (text r.1, r.2)
    | '[' :: r =>
      if depthLimit ≤ depth then .error (.limit .arrayDepth)
      else
        match skipSpace r with
        | ']' :: r => .ok (array [], r)
        | r => (items (depth + 1) fuel r).map fun r => (array r.1, r.2)
    | '\x7b' :: r =>
      if depthLimit ≤ depth then .error (.limit .objectDepth)
      else
        match skipSpace r with
        | '\x7d' :: r => .ok (object [], r)
        | r => (members (depth + 1) fuel r).map fun r => (object (Pairs.collapse r.1), r.2)
    | _ =>
      match word? t with
      | some r => .ok r
      | none => number t

def items (depth : Nat) : (fuel : Nat) → Text → Except ParseError (List Json × Text)
  | 0, _ => .error .malformed
  | fuel + 1, t => do
    let (v, r) ← value depth fuel t
    match skipSpace r with
    | ',' :: r => (items depth fuel (skipSpace r)).map fun r => (v :: r.1, r.2)
    | ']' :: r => .ok ([v], r)
    | _ => .error .malformed

def members (depth : Nat) : (fuel : Nat) → Text →
    Except ParseError (List (Text × Json) × Text)
  | 0, _ => .error .malformed
  | fuel + 1, t =>
    match t with
    | '"' :: r => do
      let (name, r) ← ofOption (stringBody? r)
      match skipSpace r with
      | ':' :: r => do
        let (v, r) ← value depth fuel (skipSpace r)
        match skipSpace r with
        | ',' :: r => (members depth fuel (skipSpace r)).map fun r => ((name, v) :: r.1, r.2)
        | '\x7d' :: r => .ok ([(name, v)], r)
        | _ => .error .malformed
      | _ => .error .malformed
    | _ => .error .malformed

end

/-- Reads a whole text as one value.  A value nested `n` deep has at least `n` characters. -/
def parse (t : Text) : Except ParseError Json := do
  let (v, r) ← value 0 (2 * t.length + 2) (skipSpace t)
  if (skipSpace r).isEmpty then return v else throw .malformed

end PageQueries.Json
