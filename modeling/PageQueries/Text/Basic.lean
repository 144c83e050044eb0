/-!
# Texts

A text is the list of its characters, so offsets count characters and the laws of lists are the
laws of texts.  This module adds the few searches that pages need: what follows a given opening,
and where a given part first occurs.
-/
namespace PageQueries

/-- A text is its characters, in order. -/
abbrev Text := List Char

namespace Text

/-- What follows `start` in a text that begins with it. -/
def after? : (start : Text) → Text → Option Text
  | [], t => some t
  | _ :: _, [] => none
  | s :: start, c :: t => if s = c then after? start t else none

/-- Whether the second text ends with the first. -/
def isEnding (ending t : Text) : Bool := ending.isSuffixOf t

/-- The offset of the first occurrence of `part`. -/
def indexOf? (part : Text) : Text → Option Nat
  | [] => if part.isEmpty then some 0 else none
  | c :: t => if part.isPrefixOf (c :: t) then some 0 else (indexOf? part t).map (· + 1)

/-- The offset of the first occurrence of `part` that begins at `start` or later.  Nothing occurs
beyond the end of the text, not even the empty text. -/
def indexFrom? (part : Text) (start : Nat) (t : Text) : Option Nat :=
  if start ≤ t.length then (indexOf? part (t.drop start)).map (· + start) else none

/-- The parts one after another with `separator` between neighbours. -/
def join (separator : Text) (parts : List Text) : Text := separator.intercalate parts

/-- The parts between the occurrences of a separating character; always at least one. -/
def splitOn (separator : Char) : Text → List Text
  | [] => [[]]
  | c :: t =>
    if c = separator then [] :: splitOn separator t
    else
      match splitOn separator t with
      | [] => [[c]]
      | part :: parts => (c :: part) :: parts

def ofNat (n : Nat) : Text := Nat.toDigits 10 n

/-- The decimal digits of an integer, after a minus sign if it is negative. -/
def ofInt : Int → Text
  | .ofNat n => ofNat n
  | .negSucc n => '-' :: ofNat (n + 1)

/-- The order of texts: by the first character in which they differ, a text before its
continuations. -/
def le : Text → Text → Bool
  | [], _ => true
  | _ :: _, [] => false
  | a :: s, b :: t => if a = b then le s t else decide (a.toNat ≤ b.toNat)

theorem after?_append (start t : Text) : after? start (start ++ t) = some t := by
  induction start with
  | nil => rfl
  | cons c start ih => simpa [after?] using ih

theorem eq_append_of_after? {start t rest : Text} (h : after? start t = some rest) :
    t = start ++ rest := by
  induction start generalizing t with
  | nil => simpa [after?] using h
  | cons s start ih =>
    cases t with
    | nil => simp [after?] at h
    | cons c t =>
      simp only [after?] at h
      split at h
      · next hs => rw [hs, List.cons_append, ← ih h]
      · exact absurd h (by simp)

theorem after?_eq_some_iff {start t rest : Text} :
    after? start t = some rest ↔ t = start ++ rest :=
  ⟨eq_append_of_after?, fun h => h ▸ after?_append start rest⟩

end Text

end PageQueries
