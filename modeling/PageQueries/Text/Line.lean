import PageQueries.Text.Basic

/-!
# Lines

A line begins at the start of a text and after every line feed.  `splitAtLine?` cuts a text before
the first line that a recogniser accepts: fenced blocks and frontmatter both end that way.
-/
namespace PageQueries.Text

/-- Cuts a text before its first accepted line.  `atStart` tells whether a line begins here;
`accepts` sees everything from the beginning of a line on.  The result is what precedes the line,
with what the recogniser made of the line. -/
def cutAtLine? {α : Type} (accepts : Text → Option α) : (atStart : Bool) → Text → Option (Text × α)
  | atStart, t =>
    match if atStart then accepts t else none with
    | some a => some ([], a)
    | none =>
      match t with
      | [] => none
      | c :: t => (cutAtLine? accepts (c = '\n') t).map fun r => (c :: r.1, r.2)
termination_by structural _ t => t

/-- Cuts a text, itself the beginning of a line, before its first accepted line. -/
def splitAtLine? {α : Type} (accepts : Text → Option α) (t : Text) : Option (Text × α) :=
  cutAtLine? accepts true t

/-- Reads every line end, be it carriage return, line feed or both, as one line feed. -/
def unifyLineEnds : Text → Text
  | [] => []
  | '\r' :: '\n' :: t => '\n' :: unifyLineEnds t
  | c :: t => (if c = '\r' then '\n' else c) :: unifyLineEnds t

/-- A text without one line end, `\r\n` or `\n`, at its very end. -/
def dropFinalLineEnd (t : Text) : Text :=
  match t.reverse with
  | '\n' :: '\r' :: r => r.reverse
  | '\n' :: r => r.reverse
  | _ => t

theorem eq_append_of_cutAtLine? {α : Type} {accepts : Text → Option α} {b : Bool} {t u : Text}
    {a : α} (h : cutAtLine? accepts b t = some (u, a)) :
    ∃ v, t = u ++ v ∧ accepts v = some a := by
  induction t generalizing b u with
  | nil =>
    unfold cutAtLine? at h
    split at h
    · next a' ha =>
      simp only [Option.some.injEq, Prod.mk.injEq] at h
      obtain ⟨rfl, rfl⟩ := h
      cases b <;> simp_all
    · simp at h
  | cons c t ih =>
    unfold cutAtLine? at h
    split at h
    · next a' ha =>
      simp only [Option.some.injEq, Prod.mk.injEq] at h
      obtain ⟨rfl, rfl⟩ := h
      cases b <;> simp_all
    · simp only [Option.map_eq_some_iff] at h
      obtain ⟨⟨u', a'⟩, hu, he⟩ := h
      simp only [Prod.mk.injEq] at he
      obtain ⟨rfl, rfl⟩ := he
      obtain ⟨v, rfl, hv⟩ := ih hu
      exact ⟨v, rfl, hv⟩

end PageQueries.Text
