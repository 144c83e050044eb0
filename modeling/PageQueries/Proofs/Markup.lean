import PageQueries.Markup
import PageQueries.Proofs.Fence.Grammar
import PageQueries.Text.LowerCase

/-!
# Shown queries and fences

The views of a page's queries come into the page, so their lines are read as
lines of a page again. The first line of a view begins with `<`, and neither the
fences nor the blanks nor the language are written as entities: a line of an
escaped text opens or closes a block only if the line of the text does. The
last line goes on behind the text, with the tags that end the view and with
whatever stands in the page behind it; since a query's text does not end with a
blank, a name that begins there is no name of an opening line.

Results:
* `exists_isOpening_of_escape`: what opens a block when it is escaped.
* `inert_of_mem_lines_highlight`: the lines of a view neither open nor close
  blocks if those of the text, from the second on, do not.
-/
namespace PageQueries.Markup

open Text Fence

/-! ## Escaped texts -/

/-- The characters that are written as entities. -/
def entityChars : Text := ['&', '<', '>', '"', '\'', '\x7b', '\x7d']

theorem escapeChar_of_notMem {c : Char} (h : c ∉ entityChars) : escapeChar c = [c] := by
  simp only [entityChars, List.mem_cons, List.not_mem_nil, or_false, not_or] at h
  simp [escapeChar, h]

/-- Every one of these characters may stand in a name. -/
theorem escapeChar_of_mem {c : Char} (h : c ∈ entityChars) :
    isNameChar c = true ∧ ∃ u, escapeChar c = '&' :: u ∧ '\n' ∉ u := by
  simp only [entityChars, List.mem_cons, List.not_mem_nil, or_false] at h
  rcases h with rfl | rfl | rfl | rfl | rfl | rfl | rfl <;>
    exact ⟨by decide, _, rfl, by decide⟩

theorem escape_cons (c : Char) (t : Text) : escape (c :: t) = escapeChar c ++ escape t := rfl

theorem escape_append (t u : Text) : escape (t ++ u) = escape t ++ escape u := List.flatMap_append

theorem notMem_escape {t : Text} (h : '\n' ∉ t) : '\n' ∉ escape t := by
  intro hm
  obtain ⟨c, hc, hmem⟩ := List.mem_flatMap.mp hm
  by_cases hentity : c ∈ entityChars
  · obtain ⟨-, u, he, hu⟩ := escapeChar_of_mem hentity
    rw [he] at hmem
    rcases List.mem_cons.mp hmem with hamp | hmem
    · exact absurd hamp (by decide)
    · exact hu hmem
  · rw [escapeChar_of_notMem hentity, List.mem_singleton] at hmem
    exact h (hmem ▸ hc)

theorem lines_escape (t : Text) : lines (escape t) = (lines t).map escape := by
  induction t using line_induction with
  | last l hl => rw [lines_of_notMem hl, lines_of_notMem (notMem_escape hl), List.map_singleton]
  | more l t hl ih =>
    have hsplit : escape (l ++ '\n' :: t) = escape l ++ '\n' :: escape t :=
      escape_append l ('\n' :: t)
    rw [hsplit, lines_append hl, lines_append (notMem_escape hl), ih, List.map_cons]

/-- What stands behind an escaped text in a view: nothing, or a tag. -/
def BeforeTag (tail : Text) : Prop := ∀ c, tail.head? = some c → c = '<'

theorem beforeTag_nil : BeforeTag [] := by
  intro c hc
  cases hc

variable {t u v tail : Text}

/-- A part without entities and tags is written as it is. -/
theorem escape_eq_append (htail : BeforeTag tail) (hamp : '&' ∉ u) (htag : '<' ∉ u)
    (h : escape t ++ tail = u ++ v) : ∃ t', t = u ++ t' ∧ escape t' ++ tail = v := by
  induction u generalizing t with
  | nil => exact ⟨t, rfl, h⟩
  | cons d u ih =>
    rw [List.mem_cons, not_or] at hamp htag
    cases t with
    | nil =>
      have hd : (escape [] ++ tail).head? = some d := by rw [h]; rfl
      exact absurd (htail d hd).symm htag.1
    | cons c t =>
      rw [escape_cons, List.append_assoc] at h
      by_cases hentity : c ∈ entityChars
      · obtain ⟨-, w, he, -⟩ := escapeChar_of_mem hentity
        rw [he] at h
        exact absurd (List.cons.inj h).1 hamp.1
      · rw [escapeChar_of_notMem hentity] at h
        obtain ⟨rfl, hrest⟩ := List.cons.inj h
        obtain ⟨t', rfl, hv⟩ := ih hamp.2 htag.2 hrest
        exact ⟨t', rfl, hv⟩

theorem isNameChar_of_escape {c d : Char} (h : escape (c :: t) ++ tail = d :: v)
    (hd : isNameChar d = true) : isNameChar c = true := by
  by_cases hentity : c ∈ entityChars
  · exact (escapeChar_of_mem hentity).1
  · rw [escape_cons, escapeChar_of_notMem hentity] at h
    exact (List.cons.inj h).1 ▸ hd

variable {language l : Text} {fence : Fence}

/-- A line that opens a block as it is escaped opens one as it is, unless the name is only what
stands behind it. -/
theorem exists_isOpening_of_escape (hamp : '&' ∉ language) (htag : '<' ∉ language)
    (htail : BeforeTag tail) (hend : tail = [] ∨ dropEnd isBlank l = l) {id : Text}
    (h : IsOpening language fence id (escape l ++ tail)) : ∃ id, IsOpening language fence id l := by
  obtain ⟨blanks, gap, c, u, he, hblanks, hgap, hne, hc⟩ := exists_isOpening_iff.mp ⟨id, h⟩
  have hnotMem (d : Char) (hd : isInlineBlank d = false) (hmark : d ∉ fence.mark)
      (hlang : d ∉ language) : d ∉ fence.mark ++ (blanks ++ (language ++ gap)) := by
    simp [hmark, hlang, hblanks.notMem hd, hgap.notMem hd]
  obtain ⟨t, rfl, ht⟩ := escape_eq_append htail
    (hnotMem '&' rfl (by cases fence <;> decide) hamp)
    (hnotMem '<' rfl (by cases fence <;> decide) htag) he
  cases t with
  | nil =>
    -- The line would end with the blanks before the name.
    exfalso
    rcases hend with rfl | hend
    · cases ht
    · have hlength := congrArg List.length hend
      rw [List.append_nil, ← List.append_assoc, ← List.append_assoc,
        dropEnd_append (p := isBlank) fun d hd => isBlank_of_isInlineBlank (hgap d hd)] at hlength
      have hle := length_dropEnd_le isBlank (fence.mark ++ blanks ++ language)
      have hpos := List.length_pos_iff.mpr hne
      simp only [List.length_append] at hlength hle
      omega
  | cons d t =>
    exact exists_isOpening_iff.mpr
      ⟨blanks, gap, d, t, rfl, hblanks, hgap, hne, isNameChar_of_escape ht hc⟩

theorem isClosing_of_escape (htail : BeforeTag tail) (h : IsClosing fence (escape l ++ tail)) :
    IsClosing fence l := by
  obtain ⟨blanks, he, hblanks⟩ := h
  have hnotMem (d : Char) (hd : isInlineBlank d = false) (hmark : d ∉ fence.mark) :
      d ∉ fence.mark ++ blanks := by
    simp [hmark, hblanks.notMem hd]
  obtain ⟨t, rfl, ht⟩ := escape_eq_append htail (hnotMem '&' rfl (by cases fence <;> decide))
    (hnotMem '<' rfl (by cases fence <;> decide)) (he.trans (List.append_nil _).symm)
  cases t with
  | nil => exact ⟨blanks, List.append_nil _, hblanks⟩
  | cons c t =>
    rw [escape_cons] at ht
    by_cases hentity : c ∈ entityChars
    · obtain ⟨-, u, hu, -⟩ := escapeChar_of_mem hentity
      rw [hu] at ht
      cases ht
    · rw [escapeChar_of_notMem hentity] at ht
      cases ht

theorem inert_escape (hamp : '&' ∉ language) (htag : '<' ∉ language) (htail : BeforeTag tail)
    (hend : tail = [] ∨ dropEnd isBlank l = l) (h : Inert language l) :
    Inert language (escape l ++ tail) := by
  refine ⟨fun fence id hopens => ?_, fun fence hcloses => ?_⟩
  · obtain ⟨id', hid⟩ := exists_isOpening_of_escape hamp htag htail hend hopens
    exact h.opens fence id' hid
  · exact h.closes fence (isClosing_of_escape htail hcloses)

/-! ## Views -/

theorem beforeTag_append (u : Text) : BeforeTag ("</code></pre>".toList ++ u) := by
  intro c hc
  exact (Option.some.inj hc).symm

theorem dropEnd_last {init : List Text} {last : Text} (ht : lines t = init ++ [last])
    (h : dropEnd isBlank t = t) : dropEnd isBlank last = last := by
  obtain ⟨blanks, hlast, hblanks⟩ := exists_dropEnd last
  obtain ⟨he, -⟩ := lines_eq_append_iff.mp ht
  rw [continued_nil, List.append_nil, hlast, ← List.append_assoc] at he
  rw [he, dropEnd_append hblanks] at h
  have hlength := congrArg List.length h
  have hle := length_dropEnd_le isBlank (terminated init ++ dropEnd isBlank last)
  have hsum : (terminated init ++ dropEnd isBlank last ++ blanks).length
      = (terminated init ++ dropEnd isBlank last).length + blanks.length := List.length_append
  have hvoid : blanks = [] := List.length_eq_zero_iff.mp (by omega)
  rw [hvoid, List.append_nil] at hlast
  exact hlast.symm

/-- The tags that begin a view. -/
def viewStart (label : Text) : Text :=
  "<pre class=\"language-sql\" data-query=\"".toList ++ escape label ++ "\"><code>".toList

theorem highlight_append (text label u : Text) : highlight text label ++ u
    = viewStart label ++ (escape text ++ ("</code></pre>".toList ++ u)) := by
  unfold highlight viewStart
  simp only [List.append_assoc]

theorem exists_viewStart_eq_cons (label : Text) : ∃ t, viewStart label = '<' :: t := by
  have htag : "<pre class=\"language-sql\" data-query=\"".toList
      = '<' :: "pre class=\"language-sql\" data-query=\"".toList := by decide +kernel
  unfold viewStart
  rw [htag]
  exact ⟨_, rfl⟩

theorem inert_viewStart_append (label u : Text) : Inert language (viewStart label ++ u) := by
  obtain ⟨t, ht⟩ := exists_viewStart_eq_cons label
  rw [ht, List.cons_append]
  exact inert_cons (by decide) (by decide) _

theorem notMem_viewStart {label : Text} (h : '\n' ∉ label) : '\n' ∉ viewStart label := by
  unfold viewStart
  rw [List.mem_append, List.mem_append, not_or, not_or]
  exact ⟨⟨by decide +kernel, notMem_escape h⟩, by decide⟩

/-- **A view is as quiet as the text that it shows.** The first line of the text does not matter,
since the tags of the view stand in front of it. -/
theorem inert_of_mem_lines_highlight (hamp : '&' ∉ language) (htag : '<' ∉ language)
    {text label m : Text} (htext : dropEnd isBlank text = text)
    (hquiet : ∀ l ∈ (lines text).tail, Inert language l) (hlabel : '\n' ∉ label) (hu : '\n' ∉ u)
    (hm : m ∈ lines (highlight text label ++ u)) : Inert language m := by
  have htail := beforeTag_append u
  have hback : '\n' ∉ "</code></pre>".toList ++ u := by
    rw [List.mem_append, not_or]
    exact ⟨by decide, hu⟩
  rw [highlight_append] at hm
  generalize "</code></pre>".toList ++ u = back at htail hback hm
  obtain ⟨l, later, hlines, hfirst⟩ :=
    lines_notMem_append (notMem_viewStart hlabel) (escape text ++ back)
  obtain ⟨init, last, hescape, hback⟩ := lines_append_notMem hback (escape text)
  rw [hfirst] at hm
  rcases List.mem_cons.mp hm with rfl | hm
  · exact inert_viewStart_append label l
  rw [lines_escape, List.map_eq_append_iff] at hescape
  obtain ⟨before, ends, htextLines, rfl, hends⟩ := hescape
  obtain ⟨final, rfl, rfl⟩ := List.map_eq_singleton_iff.mp hends
  -- The first line of the escaped text went into the line that begins the view.
  rw [hback] at hlines
  cases before with
  | nil =>
    obtain ⟨-, rfl⟩ := List.cons.inj hlines
    exact absurd hm List.not_mem_nil
  | cons first before =>
    obtain ⟨-, rfl⟩ := List.cons.inj hlines
    rw [htextLines] at hquiet
    rcases List.mem_append.mp hm with hbefore | hfinal
    · obtain ⟨k, hk, rfl⟩ := List.mem_map.mp hbefore
      have hk' : k ∈ (first :: before ++ [final]).tail := List.mem_append_left [final] hk
      have hinert := inert_escape hamp htag beforeTag_nil (Or.inl rfl) (hquiet k hk')
      rwa [List.append_nil] at hinert
    · rw [List.mem_singleton.mp hfinal]
      have hfinal' : final ∈ (first :: before ++ [final]).tail :=
        List.mem_append_right before List.mem_cons_self
      exact inert_escape hamp htag htail (Or.inr (dropEnd_last htextLines htext))
        (hquiet final hfinal')

/-! ## Labels -/

theorem ofNat_ne_lineFeed {n : Nat} (h : n ≠ 10) : Char.ofNat n ≠ '\n' := by
  intro he
  by_cases hvalid : n.isValidChar
  · rw [Char.ofNat, dif_pos hvalid] at he
    have hnat : n = 10 := congrArg Char.toNat he
    exact h hnat
  · rw [Char.ofNat, dif_neg hvalid] at he
    exact absurd he (by decide)

theorem notMem_lowerChar {c : Char} (h : c ≠ '\n') : '\n' ∉ lowerChar c := by
  unfold lowerChar
  split
  · decide
  · split
    · next r hr =>
      have hcovers := List.find?_some hr
      have hrun : ∀ r ∈ caseRuns, 10 < r.first + r.shift := by decide +kernel
      have hshift := hrun r (List.mem_of_find?_eq_some hr)
      simp only [CaseRun.covers, Bool.and_eq_true, decide_eq_true_eq] at hcovers
      have hne : (c.toNat + r.shift).toNat ≠ 10 := by omega
      rw [List.mem_singleton]
      exact (ofNat_ne_lineFeed hne).symm
    · rw [List.mem_singleton]
      exact Ne.symm h

theorem notMem_lowerAfter {before t : Text} (h : '\n' ∉ t) : '\n' ∉ lowerAfter before t := by
  induction t generalizing before with
  | nil => exact List.not_mem_nil
  | cons c t ih =>
    rw [List.mem_cons, not_or] at h
    rw [lowerAfter, List.mem_append, not_or]
    refine ⟨?_, ih h.2⟩
    split
    · rw [lowerSigma]
      split <;> decide
    · exact notMem_lowerChar (Ne.symm h.1)

/-- Lower-casing makes no line feed. -/
theorem notMem_lower {t : Text} (h : '\n' ∉ t) : '\n' ∉ lower t := notMem_lowerAfter h

end PageQueries.Markup
