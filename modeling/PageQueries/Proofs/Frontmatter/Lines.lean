import PageQueries.Frontmatter
import PageQueries.Proofs.Text.Line

/-!
# Frontmatter by its lines

A page has frontmatter exactly if its first line is a delimiter and a later
line is one too; the first such later line ends the block. A `Layout` is the
lines of such a page with the proof that they are such lines. It determines the
cut: the block ends behind the inline blanks of its last line, and the inner
text is what stands between the two delimiters, without its last line end
(`LosesLineEnd`).

The readers of `Frontmatter` look at a line up to its line feed, with or without
a carriage return before it, so they accept delimiters and nothing else.

Results:
* `find?_eq_some_iff`: the cuts that the search finds are those of layouts.
* `split_by_lines`: which pages have frontmatter, and what their parts are.
-/
namespace PageQueries.Frontmatter

open Text

/-- Nothing, or the carriage return of a line end. -/
def Carriage (t : Text) : Prop := t = [] ∨ t = ['\r']

/-- Three dashes, inline blanks, and at most a carriage return behind them. -/
def IsDelimiter (line : Text) : Prop :=
  ∃ blanks carriage, line = delimiter ++ blanks ++ carriage ∧ InlineBlanks blanks ∧
    Carriage carriage

/-- The first of the lines is a delimiter, and so is a later one. -/
def HasBlock (ls : List Text) : Prop :=
  ∃ opening later, ls = opening :: later ∧ IsDelimiter opening ∧ ∃ l ∈ later, IsDelimiter l

/-- The second text is the first without one line end, `\r\n` or `\n`, at its end. -/
inductive LosesLineEnd : Text → Text → Prop
  | void : LosesLineEnd [] []
  | both (inner : Text) : LosesLineEnd (inner ++ ['\r', '\n']) inner
  | lineFeed (inner : Text) (h : inner.getLast? ≠ some '\r') : LosesLineEnd (inner ++ ['\n']) inner

/-- The lines of a page with frontmatter. The line that ends the block is the first delimiter
behind the opening one. -/
structure Layout where
  opening : Text
  inside : List Text
  blanks : Text
  carriage : Text
  after : List Text
  opens : IsDelimiter opening
  plain : ∀ l ∈ inside, ¬ IsDelimiter l
  inlineBlanks : InlineBlanks blanks
  isCarriage : Carriage carriage

namespace Layout

def closing (L : Layout) : Text := delimiter ++ L.blanks ++ L.carriage

def lines (L : Layout) : List Text := L.opening :: (L.inside ++ L.closing :: L.after)

/-- What stands before the closing line. -/
def head (L : Layout) : Text := terminated (L.opening :: L.inside)

def cut (L : Layout) : Frontmatter where
  block := L.head ++ (delimiter ++ L.blanks)
  inner := dropFinalLineEnd (terminated L.inside)
  rest := L.carriage ++ continued L.after

end Layout

variable {l t : Text} {later : List Text}

theorem carriage_nil : Carriage [] := Or.inl rfl

theorem notMem_delimiter : '\n' ∉ delimiter := by decide

theorem Carriage.notMem {carriage : Text} (h : Carriage carriage) : '\n' ∉ carriage := by
  rcases h with rfl | rfl <;> decide

theorem notMem_delimiting {blanks carriage : Text} (hblanks : InlineBlanks blanks)
    (hcarriage : Carriage carriage) : '\n' ∉ delimiter ++ blanks ++ carriage := by
  simp only [List.mem_append, not_or]
  exact ⟨⟨notMem_delimiter, hblanks.notMem rfl⟩, hcarriage.notMem⟩

/-! ## Reading a delimiter -/

/-- Inline blanks end where the line does, before or behind its carriage return. -/
theorem not_blank_of_carriage {carriage r : Text} (hcarriage : Carriage carriage)
    (hr : AtLineEnd r) : ∀ c, (carriage ++ r).head? = some c → isInlineBlank c = false := by
  rcases hcarriage with rfl | rfl
  · intro c hc
    rw [hr c hc]
    rfl
  · intro c hc
    rw [← Option.some.inj hc]
    rfl

theorem atLineEnd_iff : atLineEnd t = true ↔
    ∃ carriage r, t = carriage ++ r ∧ Carriage carriage ∧ AtLineEnd r := by
  constructor
  · intro h
    unfold atLineEnd at h
    split at h
    · exact ⟨[], [], rfl, carriage_nil, atLineEnd_nil⟩
    · exact ⟨[], _, rfl, carriage_nil, atLineEnd_lineFeed _⟩
    · exact ⟨['\r'], [], rfl, Or.inr rfl, atLineEnd_nil⟩
    · exact ⟨['\r'], _, rfl, Or.inr rfl, atLineEnd_lineFeed _⟩
    · cases h
  · rintro ⟨carriage, r, rfl, hcarriage, hr⟩
    cases r with
    | nil => rcases hcarriage with rfl | rfl <;> rfl
    | cons c r =>
      rw [hr c rfl]
      rcases hcarriage with rfl | rfl <;> rfl

theorem opening?_eq_some_iff {body : Text} :
    opening? t = some body ↔
      ∃ blanks carriage, t = delimiter ++ blanks ++ carriage ++ '\n' :: body ∧
        InlineBlanks blanks ∧ Carriage carriage := by
  simp only [opening?, Option.bind_eq_bind, Option.bind_eq_some_iff, after?_eq_some_iff]
  constructor
  · rintro ⟨u, rfl, h⟩
    obtain ⟨blanks, hu, hblanks⟩ := exists_inlineBlanks u
    split at h
    · next v hv =>
      cases h
      exact ⟨blanks, [], by rw [hu, hv]; simp, hblanks, carriage_nil⟩
    · next v hv =>
      cases h
      exact ⟨blanks, ['\r'], by rw [hu, hv]; simp, hblanks, Or.inr rfl⟩
    · cases h
  · rintro ⟨blanks, carriage, rfl, hblanks, hcarriage⟩
    refine ⟨blanks ++ (carriage ++ '\n' :: body), by simp only [List.append_assoc], ?_⟩
    rw [dropWhile_eq hblanks (not_blank_of_carriage hcarriage (atLineEnd_lineFeed body))]
    rcases hcarriage with rfl | rfl <;> rfl

theorem closing?_eq_some_iff {m r : Text} :
    closing? t = some (m, r) ↔
      ∃ blanks carriage r', t = delimiter ++ blanks ++ carriage ++ r' ∧ InlineBlanks blanks ∧
        Carriage carriage ∧ AtLineEnd r' ∧ m = delimiter ++ blanks ∧ r = carriage ++ r' := by
  simp only [closing?, Option.bind_eq_bind, Option.bind_eq_some_iff, after?_eq_some_iff]
  constructor
  · rintro ⟨u, rfl, h⟩
    split at h
    · next hend =>
      obtain ⟨carriage, r', hr', hcarriage, hline⟩ := atLineEnd_iff.mp hend
      obtain ⟨rfl, rfl⟩ := Prod.mk.inj (Option.some.inj h)
      refine ⟨u.takeWhile isInlineBlank, carriage, r', ?_, fun c hc => List.mem_takeWhile_imp hc,
        hcarriage, hline, rfl, hr'⟩
      rw [List.append_assoc, ← hr', List.append_assoc, List.takeWhile_append_dropWhile]
    · cases h
  · rintro ⟨blanks, carriage, r', rfl, hblanks, hcarriage, hline, rfl, rfl⟩
    refine ⟨blanks ++ (carriage ++ r'), by simp only [List.append_assoc], ?_⟩
    have hboundary := not_blank_of_carriage hcarriage hline
    rw [dropWhile_eq hblanks hboundary, takeWhile_eq hblanks hboundary,
      if_pos (atLineEnd_iff.mpr ⟨carriage, r', rfl, hcarriage, hline⟩)]

theorem opening?_line (hl : '\n' ∉ l) {body : Text} :
    opening? (l ++ continued later) = some body ↔
      IsDelimiter l ∧ ∃ next after, later = next :: after ∧ body = next ++ continued after := by
  rw [opening?_eq_some_iff]
  constructor
  · rintro ⟨blanks, carriage, he, hblanks, hcarriage⟩
    obtain ⟨rfl, hbody⟩ :=
      eq_line (notMem_delimiting hblanks hcarriage) hl (atLineEnd_lineFeed body) he
    refine ⟨⟨blanks, carriage, rfl, hblanks, hcarriage⟩, ?_⟩
    cases later with
    | nil => cases hbody
    | cons next after => exact ⟨next, after, rfl, (List.cons.inj hbody).2⟩
  · rintro ⟨⟨blanks, carriage, rfl, hblanks, hcarriage⟩, next, after, rfl, rfl⟩
    exact ⟨blanks, carriage, rfl, hblanks, hcarriage⟩

theorem closing?_line (hl : '\n' ∉ l) {m r : Text} :
    closing? (l ++ continued later) = some (m, r) ↔
      ∃ blanks carriage, l = delimiter ++ blanks ++ carriage ∧ InlineBlanks blanks ∧
        Carriage carriage ∧ m = delimiter ++ blanks ∧ r = carriage ++ continued later := by
  rw [closing?_eq_some_iff]
  constructor
  · rintro ⟨blanks, carriage, r', he, hblanks, hcarriage, hline, rfl, rfl⟩
    obtain ⟨rfl, rfl⟩ := eq_line (notMem_delimiting hblanks hcarriage) hl hline he
    exact ⟨blanks, carriage, rfl, hblanks, hcarriage, rfl, rfl⟩
  · rintro ⟨blanks, carriage, rfl, hblanks, hcarriage, rfl, rfl⟩
    exact ⟨blanks, carriage, continued later, rfl, hblanks, hcarriage, atLineEnd_continued later,
      rfl, rfl⟩

theorem closing?_line_eq_none (hl : '\n' ∉ l) :
    closing? (l ++ continued later) = none ↔ ¬ IsDelimiter l := by
  rw [Option.eq_none_iff_forall_ne_some]
  constructor
  · rintro h ⟨blanks, carriage, he, hblanks, hcarriage⟩
    exact h _ ((closing?_line hl).mpr ⟨blanks, carriage, he, hblanks, hcarriage, rfl, rfl⟩)
  · rintro h ⟨m, r⟩ hr
    obtain ⟨blanks, carriage, he, hblanks, hcarriage, -⟩ := (closing?_line hl).mp hr
    exact h ⟨blanks, carriage, he, hblanks, hcarriage⟩

theorem isDelimiter_iff : IsDelimiter l ↔ '\n' ∉ l ∧ (closing? l).isSome := by
  constructor
  · rintro ⟨blanks, carriage, rfl, hblanks, hcarriage⟩
    have hread : closing? (delimiter ++ blanks ++ carriage)
        = some (delimiter ++ blanks, carriage ++ []) :=
      closing?_eq_some_iff.mpr ⟨blanks, carriage, [], (List.append_nil _).symm, hblanks,
        hcarriage, atLineEnd_nil, rfl, rfl⟩
    rw [hread]
    exact ⟨notMem_delimiting hblanks hcarriage, rfl⟩
  · rintro ⟨hl, h⟩
    obtain ⟨r, hr⟩ := Option.isSome_iff_exists.mp h
    rw [← List.append_nil l, ← continued_nil] at hr
    obtain ⟨blanks, carriage, he, hblanks, hcarriage, -⟩ := (closing?_line hl).mp hr
    exact ⟨blanks, carriage, he, hblanks, hcarriage⟩

instance : DecidablePred IsDelimiter := fun _ => decidable_of_iff _ isDelimiter_iff.symm

/-! ## The cut of a page -/

theorem Layout.cut_append (L : Layout) : L.cut.block ++ L.cut.rest
    = L.head ++ (L.closing ++ continued L.after) := by
  simp only [cut, closing, List.append_assoc]

theorem Layout.eq_append {L : Layout} {content : Text} (h : Text.lines content = L.lines) :
    content = L.cut.block ++ L.cut.rest := by
  rw [L.cut_append, head]
  exact (lines_eq_append_iff.mp h).1

theorem Layout.take_eq {L : Layout} {content : Text} (h : Text.lines content = L.lines) :
    content.take (content.length - L.cut.rest.length) = L.cut.block := by
  rw [Layout.eq_append h, List.length_append, Nat.add_sub_cancel, List.take_left]

/-- The cut that the search makes, from the parts that it finds. -/
theorem find?_eq_some {content body before m r : Text} (hopening : opening? content = some body)
    (hsplit : splitAtLine? closing? body = some (before, (m, r))) :
    find? content
      = some ⟨content.take (content.length - r.length), dropFinalLineEnd before, r⟩ := by
  rw [find?, hopening]
  simp only [Option.bind_eq_bind, Option.bind_some, hsplit]

theorem find?_of_layout {content : Text} {L : Layout} (h : Text.lines content = L.lines) :
    find? content = some L.cut := by
  have hfeed : ∀ m ∈ L.lines, '\n' ∉ m := fun m hm => notMem_of_mem_lines (h ▸ hm)
  obtain ⟨hopening, hlater⟩ := List.forall_mem_cons.mp hfeed
  obtain ⟨next, behind, hnext⟩ : ∃ next behind, L.inside ++ L.closing :: L.after = next :: behind :=
    List.exists_cons_of_ne_nil (by simp)
  have hread : opening? content = some (next ++ continued behind) := by
    rw [(lines_eq_cons_iff.mp h).1, hnext]
    exact (opening?_line hopening).mpr ⟨L.opens, next, behind, rfl, rfl⟩
  have hsplit : splitAtLine? closing? (next ++ continued behind)
      = some (terminated L.inside, (delimiter ++ L.blanks, L.carriage ++ continued L.after)) := by
    rw [splitAtLine?_eq_some_iff fun l later hl => closing?_line_eq_none hl]
    rw [hnext, List.forall_mem_cons] at hlater
    have hclosing : '\n' ∉ L.closing := hfeed _ (by simp [Layout.lines])
    refine ⟨L.inside, L.closing, L.after, ?_, L.plain, rfl, (closing?_line hclosing).mpr ?_⟩
    · rw [lines_append_continued hlater.1 hlater.2, hnext]
    · exact ⟨L.blanks, L.carriage, rfl, L.inlineBlanks, L.isCarriage, rfl, rfl⟩
  have hcut : find? content = some ⟨content.take (content.length - L.cut.rest.length),
      L.cut.inner, L.cut.rest⟩ := find?_eq_some hread hsplit
  rw [hcut, Layout.take_eq h]

/-- The search finds the cuts of layouts. -/
theorem find?_eq_some_iff {content : Text} {f : Frontmatter} :
    find? content = some f ↔ ∃ L : Layout, Text.lines content = L.lines ∧ f = L.cut := by
  constructor
  · intro h
    have hparts := h
    simp only [find?, Option.bind_eq_bind, Option.bind_eq_some_iff] at hparts
    obtain ⟨body, hopening, ⟨before, m, r⟩, hsplit, -⟩ := hparts
    obtain ⟨opening, later, hlines⟩ := exists_lines_eq_cons content
    obtain ⟨hcontent, hfeed⟩ := lines_eq_cons_iff.mp hlines
    obtain ⟨hl, hlater⟩ := List.forall_mem_cons.mp hfeed
    rw [hcontent] at hopening
    obtain ⟨hopens, next, behind, rfl, rfl⟩ := (opening?_line hl).mp hopening
    obtain ⟨inside, closing, after, hbody, hplain, -, hclosing⟩ :=
      (splitAtLine?_eq_some_iff fun l later hl => closing?_line_eq_none hl).mp hsplit
    obtain ⟨blanks, carriage, rfl, hblanks, hcarriage, -⟩ :=
      (closing?_line (notMem_of_lines_eq hbody)).mp hclosing
    obtain ⟨hnext, hbehind⟩ := List.forall_mem_cons.mp hlater
    rw [lines_append_continued hnext hbehind] at hbody
    let L : Layout :=
      ⟨opening, inside, blanks, carriage, after, hopens, hplain, hblanks, hcarriage⟩
    have hL : Text.lines content = L.lines := by rw [hlines, hbody]; rfl
    exact ⟨L, hL, Option.some.inj (h.symm.trans (find?_of_layout hL))⟩
  · rintro ⟨L, hL, rfl⟩
    exact find?_of_layout hL

theorem hasBlock_iff {ls : List Text} : HasBlock ls ↔ ∃ L : Layout, ls = L.lines := by
  constructor
  · rintro ⟨opening, later, rfl, hopens, hcloses⟩
    obtain ⟨inside, closing, after, rfl, hplain, blanks, carriage, rfl, hblanks, hcarriage⟩ :=
      exists_first hcloses
    exact ⟨⟨opening, inside, blanks, carriage, after, hopens, hplain, hblanks, hcarriage⟩, rfl⟩
  · rintro ⟨L, rfl⟩
    refine ⟨L.opening, _, rfl, L.opens, L.closing, by simp, ?_⟩
    exact ⟨L.blanks, L.carriage, rfl, L.inlineBlanks, L.isCarriage⟩

theorem find?_isSome_iff {content : Text} :
    (find? content).isSome ↔ HasBlock (Text.lines content) := by
  rw [Option.isSome_iff_exists, hasBlock_iff]
  constructor
  · rintro ⟨f, hf⟩
    obtain ⟨L, hL, -⟩ := find?_eq_some_iff.mp hf
    exact ⟨L, hL⟩
  · rintro ⟨L, hL⟩
    exact ⟨L.cut, find?_of_layout hL⟩

/-! ## The inner text -/

theorem losesLineEnd_dropFinalLineEnd (ls : List Text) :
    LosesLineEnd (terminated ls) (dropFinalLineEnd (terminated ls)) := by
  by_cases h : ls = []
  · rw [h]
    exact .void
  · rw [terminated_eq_join h]
    generalize join ['\n'] ls = t
    rw [dropFinalLineEnd, List.reverse_append, List.reverse_singleton, List.singleton_append]
    split
    · next r hr =>
      rw [List.cons.injEq] at hr
      rw [← List.reverse_reverse t, hr.2, List.reverse_cons, List.append_assoc]
      exact .both r.reverse
    · next r hne hr =>
      rw [List.cons.injEq] at hr
      rw [← hr.2, List.reverse_reverse]
      refine .lineFeed t fun hlast => ?_
      rw [← List.head?_reverse, hr.2] at hlast
      obtain ⟨r', rfl⟩ := List.head?_eq_some_iff.mp hlast
      exact hne r' rfl
    · next hne =>
      exact absurd rfl (hne t.reverse)

/-- **Frontmatter is recognised by its lines.** -/
theorem split_by_lines (content : Text) :
    ((split content).1.isSome ↔ HasBlock (Text.lines content)) ∧
    ((inner? content).isSome ↔ HasBlock (Text.lines content)) ∧
    (∀ L : Layout, Text.lines content = L.lines →
      (split content).1 = some (L.head ++ (delimiter ++ L.blanks)) ∧
      ∃ inner, inner? content = some inner ∧ LosesLineEnd (terminated L.inside) inner) ∧
    (split content).1.getD [] ++ (split content).2 = content := by
  have hisSome : (split content).1.isSome = (find? content).isSome := by
    rw [split]
    cases find? content <;> rfl
  refine ⟨?_, ?_, ?_, ?_⟩
  · rw [hisSome, find?_isSome_iff]
  · rw [inner?, Option.isSome_map, find?_isSome_iff]
  · intro L hL
    rw [split, inner?, find?_of_layout hL]
    exact ⟨rfl, _, rfl, losesLineEnd_dropFinalLineEnd L.inside⟩
  · rw [split]
    cases hf : find? content with
    | none => rfl
    | some f =>
      obtain ⟨L, hL, rfl⟩ := find?_eq_some_iff.mp hf
      exact (Layout.eq_append hL).symm

/-- A page whose line ends are `\r\n`. -/
def crlfPage : Text := "--- \r\na: 1\r\n---b\r\n\r\n---\t\r\ntext".toList

def crlfLayout : Layout where
  opening := "--- \r".toList
  inside := ["a: 1\r".toList, "---b\r".toList, "\r".toList]
  blanks := "\t".toList
  carriage := "\r".toList
  after := ["text".toList]
  opens := by decide
  plain := by decide
  inlineBlanks := by decide
  isCarriage := Or.inr rfl

theorem split_by_lines_crlf :
    Text.lines crlfPage = crlfLayout.lines ∧
      (split crlfPage).1 = some (crlfLayout.head ++ (delimiter ++ crlfLayout.blanks)) ∧
      ∃ inner, inner? crlfPage = some inner ∧ LosesLineEnd (terminated crlfLayout.inside) inner :=
  have h : Text.lines crlfPage = crlfLayout.lines := by decide
  ⟨h, (split_by_lines crlfPage).2.2.1 crlfLayout h⟩

end PageQueries.Frontmatter
