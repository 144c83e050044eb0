import PageQueries.Proofs.Fence.Blocks
import PageQueries.Proofs.Text.SolidLines

/-!
# Bodies of blocks

Two bodies that have the same text need not be the same lines, but they have
the same solid lines, apart from the blanks at the start of the first one. A
line that opens or closes a block is solid. So a body differs in its text from
another that has such a line more; this is what tells apart two blocks of which
one swallows the closing line of the other.

Results:
* `solid_ne_nil_of_trim_eq`, `trim_join_ne`, `trim_join_ne_append`: bodies that
  share some lines, and what their texts say about the others.
-/
namespace PageQueries.Fence

open Text

variable {language l id : Text} {fence : Fence}

theorem isOpening_dropEnd :
    IsOpening language fence id (dropEnd isBlank l) ↔ IsOpening language fence id l := by
  obtain ⟨blanks, hl, hblanks⟩ := exists_dropEnd l
  have happend : IsOpening language fence id (dropEnd isBlank l ++ blanks) ↔
      IsOpening language fence id (dropEnd isBlank l) := isOpening_append hblanks
  rw [← hl] at happend
  exact happend.symm

theorem solid_of_isOpening (h : IsOpening language fence id l) :
    solid [l] = [dropEnd isBlank l] := by
  obtain ⟨t, rest, hl, -⟩ := isOpening_dropEnd.mpr h
  rw [solid_singleton, if_neg]
  rw [hl]
  cases fence <;> exact List.cons_ne_nil _ _

theorem solid_of_isClosing (h : IsClosing fence l) : solid [l] = [fence.mark] := by
  obtain ⟨blanks, rfl, hblanks⟩ := h
  have hdrop : dropEnd isBlank (fence.mark ++ blanks) = fence.mark := by
    rw [dropEnd_append fun c hc => isBlank_of_isInlineBlank (hblanks c hc)]
    cases fence <;> rfl
  rw [solid_singleton, hdrop]
  cases fence <;> rfl

theorem bare_of_isOpening (h : IsOpening language fence id l) : bare [l] = [dropEnd isBlank l] := by
  obtain ⟨t, rest, hl, -⟩ := isOpening_dropEnd.mpr h
  rw [bare, solid_of_isOpening h, List.map_singleton, hl]
  cases fence <;> rfl

theorem bare_of_isClosing (h : IsClosing fence l) : bare [l] = [fence.mark] := by
  rw [bare, solid_of_isClosing h]
  cases fence <;> rfl

/-! ## Bodies with different texts -/

variable {early late after : List Text} {o closing : Text} {fence' : Fence}

/-- Besides the lines `late`, the second body has a line that closes a block. If the texts agree,
the first has such a line too, maybe behind blanks, so there is one before `o`. -/
theorem solid_ne_nil_of_trim_eq (hfeed : ∀ m ∈ early ++ o :: late, '\n' ∉ m)
    (hfeed' : ∀ m ∈ late ++ closing :: after, '\n' ∉ m) (ho : IsOpening language fence' id o)
    (hcloses : IsClosing fence closing)
    (h : trim (join ['\n'] (early ++ o :: late)) = trim (join ['\n'] (late ++ closing :: after))) :
    solid early ≠ [] := by
  intro hvoid
  have hearly : bare early = [] := by
    rw [bare, hvoid]
    rfl
  have hmarks := congrArg (List.count fence.mark) (bare_eq hfeed hfeed' h)
  rw [bare_append, bare_append, bare_cons o, bare_cons closing, hearly, bare_of_isOpening ho,
    bare_of_isClosing hcloses] at hmarks
  have hne : dropEnd isBlank o ≠ fence.mark := by
    intro he
    have hopens := isOpening_dropEnd.mpr ho
    rw [he] at hopens
    exact not_isClosing_of_isOpening hopens isClosing_mark
  simp only [List.nil_append, List.count_append, List.count_singleton_self,
    List.count_singleton, beq_false_of_ne hne, Bool.false_eq_true, if_false] at hmarks
  omega

/-- Two bodies that both end with the lines `late` differ if only the first has an opening line
before them, and nothing behind a closing line of the second makes up for it. -/
theorem trim_join_ne (hfeed : ∀ m ∈ early ++ o :: late, '\n' ∉ m)
    (hfeed' : ∀ m ∈ late ++ closing :: after, '\n' ∉ m) (ho : IsOpening language fence' id o)
    (hcloses : IsClosing fence closing)
    (hafter : ∀ m ∈ after, ∀ i, ¬ IsOpening language fence' i m) :
    trim (join ['\n'] (early ++ o :: late)) ≠ trim (join ['\n'] (late ++ closing :: after)) := by
  classical
  intro h
  let opens (m : Text) : Bool := decide (∃ i, IsOpening language fence' i m)
  have htail := congrArg (List.countP opens) (tail_solid_eq hfeed hfeed' h)
  have hne := solid_ne_nil_of_trim_eq hfeed hfeed' ho hcloses h
  have hopens : opens (dropEnd isBlank o) = true := decide_eq_true ⟨id, isOpening_dropEnd.mpr ho⟩
  have hmark : opens fence.mark = false := by
    refine decide_eq_false fun ⟨i, hi⟩ => ?_
    exact not_isClosing_of_isOpening hi isClosing_mark
  have hnone : (solid after).countP opens = 0 := by
    refine List.countP_eq_zero.mpr fun m hm => ?_
    obtain ⟨k, hk, rfl⟩ := List.mem_map.mp (List.mem_of_mem_filter hm)
    simpa [opens, isOpening_dropEnd] using hafter k hk
  have hle := (List.tail_sublist (solid (late ++ closing :: after))).countP_le (p := opens)
  rw [solid_append, solid_cons o, solid_of_isOpening ho, List.tail_append_of_ne_nil hne] at htail
  rw [solid_append, solid_cons closing, solid_of_isClosing hcloses] at htail hle
  simp only [List.countP_append, List.countP_singleton, hopens, hmark, hnone, if_true,
    Bool.false_eq_true, if_false] at htail hle
  omega

/-- A body that goes on behind a closing line has more lines. -/
theorem trim_join_ne_append (hfeed : ∀ m ∈ late, '\n' ∉ m)
    (hfeed' : ∀ m ∈ late ++ closing :: after, '\n' ∉ m) (hcloses : IsClosing fence closing) :
    trim (join ['\n'] late) ≠ trim (join ['\n'] (late ++ closing :: after)) := by
  intro h
  have hlength := length_solid_eq hfeed hfeed' h
  rw [solid_append, solid_cons closing, solid_of_isClosing hcloses] at hlength
  simp only [List.length_append, List.length_singleton] at hlength
  omega

/-- A body that goes on in front has more lines. -/
theorem trim_join_ne_prepend (hfeed : ∀ m ∈ early ++ o :: (late ++ after), '\n' ∉ m)
    (ho : IsOpening language fence' id o) :
    trim (join ['\n'] (early ++ o :: (late ++ after))) ≠ trim (join ['\n'] late) := by
  intro h
  have hlate : ∀ m ∈ late, '\n' ∉ m := fun m hm => hfeed m (by simp [hm])
  have hlength := length_solid_eq hfeed hlate h
  rw [solid_append, solid_cons o, solid_append, solid_of_isOpening ho] at hlength
  simp only [List.length_append, List.length_singleton] at hlength
  omega

/-- If only the first line of a text may open a block, a body with an opening line has that text
only without solid lines before. -/
theorem solid_eq_nil_of_quiet {text : Text} (hfeed : ∀ m ∈ early ++ o :: late, '\n' ∉ m)
    (ho : IsOpening language fence' id o)
    (htext : text = trim (join ['\n'] (early ++ o :: late)))
    (hquiet : ∀ m ∈ (lines text).tail, ∀ i, ¬ IsOpening language fence' i m) :
    solid early = [] := by
  by_contra hne
  have hmem : dropEnd isBlank o ∈ (solid (lines text)).tail := by
    rw [htext, (solid_lines_trim _).1, solid_lines_join hfeed, solid_append, solid_cons o,
      solid_of_isOpening ho, List.tail_append_of_ne_nil hne]
    simp
  obtain ⟨m, hm, hdrop⟩ := exists_of_mem_tail_solid hmem
  have hopens := isOpening_dropEnd.mpr ho
  rw [hdrop] at hopens
  exact hquiet m hm id (isOpening_dropEnd.mp hopens)

end PageQueries.Fence
