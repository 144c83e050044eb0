import PageQueries.Preprocessor
import PageQueries.Proofs.Frontmatter.Lines
import PageQueries.Proofs.Text.Search

/-!
# The end of the frontmatter, found again

The inner text is all that a detector of frontmatter gives. `endOffset?` looks
for it behind the opening dashes, and for dashes behind that. The inner text may
hold dashes, and it may occur too early: where it is of line ends and blanks
only, it may begin inside the opening line.

Too early an occurrence does no harm. It begins in the gap between the opening
dashes and the inner text, so the inner text stands in front of itself, shifted
by a part of the gap; it then has no other characters than the gap has, hence no
dash, and the next dashes are those of the closing line.

Results:
* `endOffset?_append`: the offset found in a page of given parts.
* `endOffset?_eq_some`: what any offset that is found stands behind.
* `endOffset?_default`: with the detector of frontmatter, the offset is that of
  the end of the block without its trailing blanks.
-/
namespace PageQueries.Frontmatter

open Text

/-- Where the inner text is taken to begin. -/
def start? (inner content : Text) : Option Nat :=
  if inner = [] then some delimiter.length else indexFrom? inner delimiter.length content

theorem endOffset?_eq (inner content : Text) :
    endOffset? inner content = (do
      let start ← start? inner content
      let close ← indexFrom? delimiter (start + inner.length) content
      some (close + delimiter.length)) := by
  cases inner <;> rfl

/-- Whatever the inner text, the offset is that behind some dashes, not the first three. -/
theorem endOffset?_eq_some {inner content : Text} {e : Nat}
    (h : endOffset? inner content = some e) :
    e ≤ content.length ∧
      ∃ p, delimiter.length ≤ p ∧ e = p + delimiter.length ∧ delimiter <+: content.drop p := by
  simp only [endOffset?_eq, Option.bind_eq_bind, Option.bind_eq_some_iff, Option.some.injEq] at h
  obtain ⟨start, hstart, close, hclose, rfl⟩ := h
  obtain ⟨hle, -, hat, -⟩ := indexFrom?_eq_some_iff.mp hclose
  have hbehind : delimiter.length ≤ start := by
    rw [start?] at hstart
    split at hstart
    · exact Nat.le_of_eq (Option.some.inj hstart)
    · exact (indexFrom?_eq_some_iff.mp hstart).1
  have hlength := hat.length_le
  have hthree : delimiter.length = 3 := rfl
  rw [List.length_drop] at hlength
  exact ⟨by omega, close, by omega, rfl, hat⟩

section Parts

variable {gap inner lineEnd after : Text}

/-- The inner text is found in its place, or it has no dash. -/
theorem start?_append (after inner : Text) (hgap : '-' ∉ gap) :
    ∃ start, start? inner (delimiter ++ (gap ++ (inner ++ after))) = some start ∧
      (start = delimiter.length + gap.length ∨
        delimiter.length ≤ start ∧ start ≤ delimiter.length + gap.length ∧ '-' ∉ inner) := by
  by_cases hne : inner = []
  · subst hne
    exact ⟨delimiter.length, rfl, Or.inr ⟨Nat.le_refl _, Nat.le_add_right _ _, List.not_mem_nil⟩⟩
  rw [start?, if_neg hne]
  have hat : inner <+: (delimiter ++ (gap ++ (inner ++ after))).drop
      (delimiter.length + gap.length) := by
    rw [← List.append_assoc, ← List.length_append, List.drop_left]
    exact List.prefix_append inner after
  obtain ⟨start, hfind, hle⟩ := exists_indexFrom? (Nat.le_add_right _ _) (by simp) hat
  refine ⟨start, hfind, ?_⟩
  rcases Nat.lt_or_eq_of_le hle with hlt | heq
  · obtain ⟨hstart, -, hearly, -⟩ := indexFrom?_eq_some_iff.mp hfind
    refine Or.inr ⟨hstart, hle, ?_⟩
    -- From the early place on, the page has a part of the gap and then the inner text again.
    obtain ⟨k, rfl⟩ := Nat.exists_eq_add_of_le hstart
    have hk : k < gap.length := by omega
    rw [← List.drop_drop, List.drop_left, List.drop_append_of_le_length (Nat.le_of_lt hk),
      ← List.append_assoc] at hearly
    have hshift : inner <+: gap.drop k ++ inner := by
      refine List.prefix_of_prefix_length_le hearly (List.prefix_append _ after) ?_
      rw [List.length_append]
      exact Nat.le_add_left _ _
    have hpart : gap.drop k ≠ [] := List.ne_nil_of_length_pos (by rw [List.length_drop]; omega)
    exact notMem_of_prefix_append hpart (fun hm => hgap (List.mem_of_mem_drop hm)) hshift
  · exact Or.inl heq

/-- In a page of given parts the dashes behind the inner text are found. -/
theorem endOffset?_append (hgap : '-' ∉ gap) (hend : '-' ∉ lineEnd) :
    endOffset? inner (delimiter ++ (gap ++ (inner ++ (lineEnd ++ (delimiter ++ after)))))
      = some (delimiter.length + (gap.length + inner.length + lineEnd.length)
          + delimiter.length) := by
  obtain ⟨start, hstart, hplace⟩ :=
    start?_append (lineEnd ++ (delimiter ++ after)) inner hgap
  have hclose : indexFrom? delimiter (start + inner.length)
      (delimiter ++ (gap ++ (inner ++ (lineEnd ++ (delimiter ++ after)))))
        = some (delimiter.length + (gap.length + inner.length + lineEnd.length)) := by
    rcases hplace with rfl | ⟨hle, hge, hinner⟩
    · have hfind : indexFrom? delimiter (delimiter.length + gap.length + inner.length)
          ((delimiter ++ gap ++ inner) ++ (lineEnd ++ (delimiter ++ after)))
            = some ((delimiter ++ gap ++ inner).length + lineEnd.length) :=
        indexFrom?_of_notMem hend (by simp; omega) (by simp; omega)
      simp only [List.append_assoc, List.length_append] at hfind
      rw [hfind]
      exact congrArg some (by omega)
    · have hnone : '-' ∉ gap ++ inner ++ lineEnd := by
        simp only [List.mem_append, not_or]
        exact ⟨⟨hgap, hinner⟩, hend⟩
      have hfind : indexFrom? delimiter (start + inner.length)
          (delimiter ++ ((gap ++ inner ++ lineEnd) ++ (delimiter ++ after)))
            = some (delimiter.length + (gap ++ inner ++ lineEnd).length) :=
        indexFrom?_of_notMem hnone (by omega) (by simp; omega)
      simpa only [List.append_assoc, List.length_append, Nat.add_assoc] using hfind
  rw [endOffset?_eq, hstart]
  simp only [Option.bind_eq_bind, Option.bind_some, hclose]

end Parts

/-! ## The page of a layout -/

theorem LosesLineEnd.exists_append {t inner : Text} (h : LosesLineEnd t inner) :
    ∃ lineEnd, t = inner ++ lineEnd ∧ '-' ∉ lineEnd := by
  cases h with
  | void => exact ⟨[], rfl, List.not_mem_nil⟩
  | both => exact ⟨['\r', '\n'], rfl, by decide⟩
  | lineFeed => exact ⟨['\n'], rfl, by decide⟩

theorem IsDelimiter.exists_gap {line : Text} (h : IsDelimiter line) :
    ∃ gap, line ++ ['\n'] = delimiter ++ gap ∧ '-' ∉ gap := by
  obtain ⟨blanks, carriage, rfl, hblanks, hcarriage⟩ := h
  refine ⟨blanks ++ carriage ++ ['\n'], by simp only [List.append_assoc], ?_⟩
  simp only [List.mem_append, not_or]
  refine ⟨⟨hblanks.notMem rfl, ?_⟩, by decide⟩
  rcases hcarriage with rfl | rfl <;> decide

namespace Layout

theorem exists_parts (L : Layout) :
    ∃ gap lineEnd, L.head = delimiter ++ (gap ++ (L.cut.inner ++ lineEnd)) ∧ '-' ∉ gap ∧
      '-' ∉ lineEnd := by
  obtain ⟨gap, hgap, hnone⟩ := L.opens.exists_gap
  obtain ⟨lineEnd, hinner, hend⟩ := (losesLineEnd_dropFinalLineEnd L.inside).exists_append
  refine ⟨gap, lineEnd, ?_, hnone, hend⟩
  calc L.head = (L.opening ++ ['\n']) ++ terminated L.inside := by
        rw [head, terminated_cons, List.append_assoc, List.singleton_append]
    _ = (delimiter ++ gap) ++ (L.cut.inner ++ lineEnd) := by rw [hgap, hinner]; rfl
    _ = delimiter ++ (gap ++ (L.cut.inner ++ lineEnd)) := List.append_assoc ..

theorem endOffset?_inner {L : Layout} {content : Text} (h : Text.lines content = L.lines) :
    endOffset? L.cut.inner content = some (L.head.length + delimiter.length) := by
  obtain ⟨gap, lineEnd, hhead, hgap, hend⟩ := L.exists_parts
  have hcontent : content = delimiter ++ (gap ++ (L.cut.inner ++ (lineEnd ++ (delimiter ++
      (L.blanks ++ (L.carriage ++ continued L.after)))))) := by
    rw [eq_append h, cut_append, hhead, closing]
    simp only [List.append_assoc]
  rw [hcontent, endOffset?_append hgap hend, hhead]
  simp only [List.length_append, Nat.add_assoc]

theorem dropEnd_block (L : Layout) :
    dropEnd isInlineBlank L.cut.block = L.head ++ delimiter := by
  have hblock : L.cut.block = (L.head ++ delimiter) ++ L.blanks :=
    (List.append_assoc L.head delimiter L.blanks).symm
  rw [hblock, dropEnd_append L.inlineBlanks, dropEnd, List.reverse_append]
  exact (congrArg List.reverse (List.dropWhile_cons_of_neg (by decide))).trans (by simp [delimiter])

end Layout

/-- **The end that is found again is that of the block**, without the inline blanks that trail it;
it lies behind the dashes of the closing line. -/
theorem endOffset?_default (content : Text) :
    (Hooks.default.frontmatter content).bind (endOffset? · content)
      = (split content).1.map (fun block => (dropEnd isInlineBlank block).length) ∧
    ∀ L : Layout, Text.lines content = L.lines →
      (Hooks.default.frontmatter content).bind (endOffset? · content)
        = some (L.head.length + delimiter.length) := by
  have hinner : Hooks.default.frontmatter content = (find? content).map inner := rfl
  have hlayout (L : Layout) (hL : Text.lines content = L.lines) :
      (Hooks.default.frontmatter content).bind (endOffset? · content)
        = some (L.head.length + delimiter.length) := by
    rw [hinner, find?_of_layout hL]
    exact L.endOffset?_inner hL
  refine ⟨?_, hlayout⟩
  cases hf : find? content with
  | none =>
    rw [hinner, split, hf]
    rfl
  | some f =>
    obtain ⟨L, hL, rfl⟩ := find?_eq_some_iff.mp hf
    rw [hlayout L hL, split, hf]
    simp only [Option.map_some, L.dropEnd_block, List.length_append]

/-- A page whose inner text, a blank line, occurs from the blank of the opening line on. -/
def blankPage : Text := "--- \n \n \n---\ntext".toList

def blankLayout : Layout where
  opening := "--- ".toList
  inside := [[' '], [' ']]
  blanks := []
  carriage := []
  after := ["text".toList]
  opens := by decide
  plain := by decide
  inlineBlanks := inlineBlanks_nil
  isCarriage := carriage_nil

theorem endOffset?_default_blankPage :
    Text.lines blankPage = blankLayout.lines ∧
      (Hooks.default.frontmatter blankPage).bind (endOffset? · blankPage) = some 12 :=
  have h : Text.lines blankPage = blankLayout.lines := by decide
  ⟨h, (endOffset?_default blankPage).2 blankLayout h⟩

end PageQueries.Frontmatter
