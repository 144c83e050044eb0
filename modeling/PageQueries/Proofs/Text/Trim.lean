import PageQueries.Proofs.Text.Line

/-!
# Trimmed texts

`trim` takes away the blanks at both ends of a text. A text without any is left
as it is, and what is left of any other is such a text.
-/
namespace PageQueries.Text

/-- There is no blank at either end. -/
structure Trimmed (t : Text) : Prop where
  head : ∀ c, t.head? = some c → isBlank c = false
  last : ∀ c, t.getLast? = some c → isBlank c = false

variable {t : Text}

theorem isBlank_of_head?_dropStart {c : Char} (h : (dropStart isBlank t).head? = some c) :
    isBlank c = false := by
  have hnot := List.head?_dropWhile_not isBlank t
  unfold dropStart at h
  rw [h] at hnot
  exact hnot

theorem isBlank_of_getLast?_dropEnd {c : Char} (h : (dropEnd isBlank t).getLast? = some c) :
    isBlank c = false := by
  have hnot := List.head?_dropWhile_not isBlank t.reverse
  unfold dropEnd at h
  rw [List.getLast?_reverse] at h
  rw [h] at hnot
  exact hnot

theorem trimmed_trim (t : Text) : Trimmed (trim t) := by
  refine ⟨fun c hc => ?_, fun c hc => isBlank_of_getLast?_dropEnd hc⟩
  -- Blanks that go at the end leave the first character where it is.
  obtain ⟨blanks, hsplit, -⟩ := exists_dropEnd (dropStart isBlank t)
  refine isBlank_of_head?_dropStart (t := t) ?_
  have hhead : (trim t).head? = some c := hc
  rw [hsplit, List.head?_append]
  exact congrArg (Option.or · blanks.head?) hhead

theorem dropEnd_eq_self {p : Char → Bool} (h : ∀ c, t.getLast? = some c → p c = false) :
    dropEnd p t = t := by
  have hend : t.reverse.dropWhile p = t.reverse :=
    dropWhile_eq (List.forall_mem_nil _) fun c hc => h c (by rwa [← List.head?_reverse])
  rw [dropEnd, hend, List.reverse_reverse]

theorem trim_eq_self_iff : trim t = t ↔ Trimmed t := by
  constructor
  · intro h
    rw [← h]
    exact trimmed_trim t
  · intro h
    have hstart : dropStart isBlank t = t := dropWhile_eq (List.forall_mem_nil _) h.head
    rw [trim, trimBy, hstart, dropEnd_eq_self h.last]

instance (t : Text) : Decidable (Trimmed t) := decidable_of_iff _ trim_eq_self_iff

end PageQueries.Text
