import PageQueries.Record
import PageQueries.Text.Blank
import PageQueries.Text.Line

/-!
# Fenced queries

A page names its queries in fenced blocks.  A block begins with a line of three backticks or three
tildes, the language, the query's name and anything else; it ends with the next line that holds the
same fence and nothing but inline blanks.  An opening line without such an end is plain text.
-/
namespace PageQueries

/-- The two marks that fence a block. -/
inductive Fence where
  | backticks
  | tildes
  deriving DecidableEq, Repr

namespace Fence

/-- The three characters of a fence. -/
def mark : Fence → Text
  | backticks => ['\x60', '\x60', '\x60']
  | tildes => ['~', '~', '~']

/-- The characters of a query's name: all but blanks and the characters of the marks. -/
def isNameChar (c : Char) : Bool := !Text.isBlank c && c != '\x60' && c != '~'

/-- Reads the language, at least one inline blank, and a name. -/
def nameAt? (language t : Text) : Option (Text × Text) :=
  match Text.after? language t with
  | some (c :: r) =>
    let r := r.dropWhile Text.isInlineBlank
    let id := r.takeWhile isNameChar
    if Text.isInlineBlank c && !id.isEmpty then some (id, r.dropWhile isNameChar) else none
  | _ => none

/-- Reads what `nameAt?` reads, after any number of inline blanks. -/
def name? (language : Text) : Text → Option (Text × Text)
  | [] => none
  | c :: t =>
    match nameAt? language (c :: t) with
    | some r => some r
    | none => if Text.isInlineBlank c then name? language t else none

def nextLine? (t : Text) : Option Text :=
  match t.dropWhile (· != '\n') with
  | [] => none
  | _ :: r => some r

/-- A line that begins a block: its fence and the query's name. -/
structure Opening where
  fence : Fence
  id : Text

/-- Reads an opening line of one of the fences; the rest is what follows the line. -/
def openingOf? (language : Text) (fence : Fence) (t : Text) : Option (Opening × Text) := do
  let r ← Text.after? fence.mark t
  let (id, r) ← name? language r
  let body ← nextLine? r
  some (⟨fence, id⟩, body)

def opening? (language t : Text) : Option (Opening × Text) :=
  (openingOf? language .backticks t).or (openingOf? language .tildes t)

/-- Reads a closing line; the rest begins with the line's end. -/
def closing? (fence : Fence) (t : Text) : Option Text := do
  let r ← Text.after? fence.mark t
  match r.dropWhile Text.isInlineBlank with
  | [] => some []
  | '\n' :: r => some ('\n' :: r)
  | _ => none

/-- Reads a block from the beginning of its opening line (`fence_pattern`).  The text of the query
is what stands between the lines, without surrounding blanks. -/
def block? (language t : Text) : Option (Record × Text) := do
  let (opening, body) ← opening? language t
  let (body, rest) ← Text.splitAtLine? (closing? opening.fence) body
  some (⟨opening.id, Text.trim body, false, []⟩, rest)

theorem length_nameAt? {language t : Text} {r : Text × Text} (h : nameAt? language t = some r) :
    r.2.length ≤ t.length := by
  unfold nameAt? at h
  split at h
  · next c u hu =>
    have ht := Text.eq_append_of_after? hu
    simp only at h
    split at h
    · simp only [Option.some.injEq] at h
      have h₁ : ∀ (p : Char → Bool) (v : Text), (v.dropWhile p).length ≤ v.length :=
        fun p v => (List.dropWhile_suffix p).length_le
      have h₂ := h₁ isNameChar (u.dropWhile Text.isInlineBlank)
      have h₃ := h₁ Text.isInlineBlank u
      rw [← h, ht]
      simp only [List.length_append, List.length_cons]
      omega
    · simp at h
  · simp at h

theorem length_name? {language t : Text} {r : Text × Text} (h : name? language t = some r) :
    r.2.length ≤ t.length := by
  induction t with
  | nil => simp [name?] at h
  | cons c t ih =>
    simp only [name?] at h
    split at h
    · next r' hr =>
      simp only [Option.some.injEq] at h
      exact h ▸ length_nameAt? hr
    · split at h
      · exact Nat.le_succ_of_le (ih h)
      · simp at h

theorem length_nextLine? {t r : Text} (h : nextLine? t = some r) : r.length < t.length := by
  unfold nextLine? at h
  split at h
  · simp at h
  · next c u hu =>
    have h₁ := (List.dropWhile_suffix (fun c : Char => c != '\n') (l := t)).length_le
    rw [hu, List.length_cons] at h₁
    simp only [Option.some.injEq] at h
    subst h
    omega

theorem length_openingOf? {language t : Text} {fence : Fence} {r : Opening × Text}
    (h : openingOf? language fence t = some r) : r.2.length < t.length := by
  simp only [openingOf?, Option.bind_eq_bind, Option.bind_eq_some_iff, Option.some.injEq] at h
  obtain ⟨u, hu, ⟨id, v⟩, hv, w, hw, rfl⟩ := h
  have h₁ := congrArg List.length (Text.eq_append_of_after? hu)
  have h₂ := length_name? hv
  have h₃ := length_nextLine? hw
  simp only [List.length_append] at h₁ h₂ h₃ ⊢
  omega

theorem length_closing? {fence : Fence} {t r : Text} (h : closing? fence t = some r) :
    r.length ≤ t.length := by
  simp only [closing?, Option.bind_eq_bind, Option.bind_eq_some_iff] at h
  obtain ⟨u, hu, h⟩ := h
  have h₁ := congrArg List.length (Text.eq_append_of_after? hu)
  have h₂ := (List.dropWhile_suffix Text.isInlineBlank (l := u)).length_le
  simp only [List.length_append] at h₁
  split at h
  · simp only [Option.some.injEq] at h
    simp [← h]
  · next v hv =>
    rw [hv] at h₂
    simp only [Option.some.injEq] at h
    rw [← h]
    omega
  · simp at h

theorem length_block? {language t : Text} {r : Record × Text} (h : block? language t = some r) :
    r.2.length < t.length := by
  simp only [block?, Option.bind_eq_bind, Option.bind_eq_some_iff, Option.some.injEq] at h
  obtain ⟨⟨o, body⟩, ho, ⟨u, rest⟩, hs, rfl⟩ := h
  have h₁ : body.length < t.length := by
    simp only [opening?, Option.or_eq_some_iff] at ho
    rcases ho with ho | ⟨_, ho⟩ <;> exact length_openingOf? ho
  obtain ⟨v, rfl, hv⟩ := Text.eq_append_of_cutAtLine? hs
  have h₂ := length_closing? hv
  simp only [List.length_append] at h₁ ⊢
  omega

/-- The queries of a text, in order.  `atStart` tells whether a line begins here. -/
def extractFrom (language : Text) (atStart : Bool) (t : Text) : List Record :=
  match _h : if atStart then block? language t else none with
  | some (record, rest) => record :: extractFrom language false rest
  | none =>
    match t with
    | [] => []
    | c :: t => extractFrom language (c == '\n') t
termination_by t.length
decreasing_by
  · split at _h
    · exact length_block? _h
    · simp at _h
  · simp

/-- The queries of a page in the fenced blocks of a language (`FencedQueryExtractor.extract`). -/
def extract (language content : Text) : List Record := extractFrom language true content

/-- The language of queries, unless a page's extractor is set up for another one. -/
def defaultLanguage : Text := "sql".toList

end Fence

end PageQueries
