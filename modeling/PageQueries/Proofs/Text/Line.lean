import Mathlib.Data.List.DropRight
import Mathlib.Data.List.Permutation
import Mathlib.Data.List.TakeWhile
import PageQueries.Text.Blank
import PageQueries.Text.Line

/-!
# A text by its lines

Line feeds part a text into its `lines`; there is always at least one. What
follows a line in its text is determined by the later lines: nothing behind the
last one, else a line feed and the next line (`continued`). So a text is
`l ++ continued later` for its first line `l` and the `later` ones, and a text
cut before some line is the lines before it, each with its line feed
(`terminated`), and the rest.

Readers of single lines see everything from the start of a line on. Two facts
turn what they say about the text into what they say about the line: a part
without line feed lies inside the line (`append_eq_line_iff`), and where the
reader also stops at a line end, it has read all of the line (`eq_line`).

Results:
* `lines_eq_cons_iff`, `lines_eq_append_iff`: the text of given lines, and back.
* `splitAtLine?_eq_some_iff`: a text is split before the first line that the
  recogniser accepts.
-/
namespace PageQueries.Text

/-- The lines of a text without their line feeds. -/
def lines (t : Text) : List Text := splitOn '\n' t

/-- What follows a line when `later` are the lines behind it. -/
def continued (later : List Text) : Text := later.flatMap ('\n' :: ·)

/-- Lines, each with a line feed. -/
def terminated (ls : List Text) : Text := ls.flatMap (· ++ ['\n'])

@[simp] theorem continued_nil : continued [] = [] := rfl

@[simp] theorem continued_cons (l : Text) (ls : List Text) :
    continued (l :: ls) = '\n' :: (l ++ continued ls) := rfl

@[simp] theorem terminated_nil : terminated [] = [] := rfl

@[simp] theorem terminated_cons (l : Text) (ls : List Text) :
    terminated (l :: ls) = l ++ '\n' :: terminated ls := by
  simp [terminated]

/-! ## Lines and their text -/

theorem splitOn_eq (separator : Char) (t : Text) :
    splitOn separator t = List.splitOn separator t := by
  induction t with
  | nil => rfl
  | cons c t ih =>
    rw [splitOn, List.splitOn_cons_eq_if_modifyHead, ih]
    by_cases h : c = separator
    · rw [if_pos h, if_pos (beq_iff_eq.mpr h)]
    · rw [if_neg h, if_neg (mt beq_iff_eq.mp h)]
      obtain ⟨part, parts, hparts⟩ := List.exists_cons_of_ne_nil (List.splitOn_ne_nil separator t)
      rw [hparts]
      rfl

/-- No part of a text holds the separator. -/
theorem notMem_of_mem_splitOn {separator : Char} {t part : Text}
    (h : part ∈ splitOn separator t) : separator ∉ part := by
  induction t generalizing part with
  | nil =>
    rw [splitOn, List.mem_singleton] at h
    rw [h]
    exact List.not_mem_nil
  | cons c t ih =>
    rw [splitOn] at h
    split at h
    · rcases List.mem_cons.mp h with rfl | h
      · exact List.not_mem_nil
      · exact ih h
    · rename_i hc
      split at h
      · rw [List.mem_singleton.mp h, List.mem_singleton]
        exact fun e => hc e.symm
      · rename_i first rest hsplit
        rw [hsplit] at ih
        rcases List.mem_cons.mp h with rfl | h
        · have hfirst := ih List.mem_cons_self
          simpa [hfirst] using fun e : separator = c => hc e.symm
        · exact ih (List.mem_cons_of_mem _ h)

theorem lines_of_notMem {l : Text} (h : '\n' ∉ l) : lines l = [l] := by
  rw [lines, splitOn_eq, List.splitOn_eq_singleton h]

theorem lines_append {l : Text} (h : '\n' ∉ l) (t : Text) :
    lines (l ++ '\n' :: t) = l :: lines t := by
  rw [lines, splitOn_eq, List.splitOn_append_cons_self_of_not_mem h, lines, splitOn_eq]

/-- Induction on the lines of a text. -/
@[elab_as_elim]
theorem line_induction {motive : Text → Prop} (last : ∀ l, '\n' ∉ l → motive l)
    (more : ∀ l t, '\n' ∉ l → motive t → motive (l ++ '\n' :: t)) (t : Text) : motive t := by
  by_cases h : '\n' ∈ t
  · obtain ⟨l, r, ht, hl⟩ := List.eq_append_cons_of_mem h
    rw [ht]
    exact more l r hl (line_induction last more r)
  · exact last t h
termination_by t.length
decreasing_by
  rw [ht, List.length_append, List.length_cons]
  omega

theorem notMem_of_mem_lines {t l : Text} (h : l ∈ lines t) : '\n' ∉ l := notMem_of_mem_splitOn h

theorem continued_lines (t : Text) : continued (lines t) = '\n' :: t := by
  induction t using line_induction with
  | last l hl => simp [lines_of_notMem hl]
  | more l t hl ih => rw [lines_append hl, continued_cons, ih]

theorem lines_append_continued {l : Text} {later : List Text} (hl : '\n' ∉ l)
    (hlater : ∀ m ∈ later, '\n' ∉ m) : lines (l ++ continued later) = l :: later := by
  induction later generalizing l with
  | nil => rw [continued_nil, List.append_nil, lines_of_notMem hl]
  | cons m later ih =>
    obtain ⟨hm, hlater⟩ := List.forall_mem_cons.mp hlater
    rw [continued_cons, lines_append hl, ih hm hlater]

theorem lines_eq_cons_iff {t l : Text} {later : List Text} :
    lines t = l :: later ↔ t = l ++ continued later ∧ ∀ m ∈ l :: later, '\n' ∉ m := by
  constructor
  · intro h
    have ht := continued_lines t
    rw [h, continued_cons, List.cons.injEq] at ht
    exact ⟨ht.2.symm, fun m hm => notMem_of_mem_lines (h ▸ hm)⟩
  · rintro ⟨rfl, h⟩
    obtain ⟨hl, hlater⟩ := List.forall_mem_cons.mp h
    exact lines_append_continued hl hlater

theorem exists_lines_eq_cons (t : Text) : ∃ l later, lines t = l :: later := by
  induction t using line_induction with
  | last l hl => exact ⟨l, [], lines_of_notMem hl⟩
  | more l t hl _ => exact ⟨l, lines t, lines_append hl t⟩

/-- A line feed ends the lines in front of it. -/
theorem lines_append_lineFeed (t u : Text) : lines (t ++ '\n' :: u) = lines t ++ lines u := by
  induction t using line_induction with
  | last l hl => rw [lines_append hl, lines_of_notMem hl, List.singleton_append]
  | more l t hl ih => rw [List.append_assoc, List.cons_append, lines_append hl, ih, lines_append hl,
      List.cons_append]

/-- Text without line feed goes on with the last line. -/
theorem lines_append_notMem {u : Text} (hu : '\n' ∉ u) (t : Text) :
    ∃ init last, lines t = init ++ [last] ∧ lines (t ++ u) = init ++ [last ++ u] := by
  induction t using line_induction with
  | last l hl =>
    refine ⟨[], l, lines_of_notMem hl, lines_of_notMem ?_⟩
    rw [List.mem_append, not_or]
    exact ⟨hl, hu⟩
  | more l t hl ih =>
    obtain ⟨init, last, ht, htu⟩ := ih
    refine ⟨l :: init, last, by rw [lines_append hl, ht]; rfl, ?_⟩
    rw [List.append_assoc, List.cons_append, lines_append hl, htu]
    rfl

/-- Text without line feed in front is in front of the first line. -/
theorem lines_notMem_append {u : Text} (hu : '\n' ∉ u) (t : Text) :
    ∃ l later, lines t = l :: later ∧ lines (u ++ t) = (u ++ l) :: later := by
  obtain ⟨l, later, ht⟩ := exists_lines_eq_cons t
  obtain ⟨he, hfeed⟩ := lines_eq_cons_iff.mp ht
  obtain ⟨hl, hlater⟩ := List.forall_mem_cons.mp hfeed
  refine ⟨l, later, ht, lines_eq_cons_iff.mpr ⟨by rw [he, List.append_assoc], ?_⟩⟩
  refine List.forall_mem_cons.mpr ⟨?_, hlater⟩
  rw [List.mem_append, not_or]
  exact ⟨hu, hl⟩

/-- What follows a line goes on as well behind any text. -/
theorem lines_append_later (t : Text) {later : List Text} (h : ∀ m ∈ later, '\n' ∉ m) :
    lines (t ++ continued later) = lines t ++ later := by
  cases later with
  | nil => rw [continued_nil, List.append_nil, List.append_nil]
  | cons l later =>
    obtain ⟨hl, hlater⟩ := List.forall_mem_cons.mp h
    rw [continued_cons, lines_append_lineFeed, lines_append_continued hl hlater]

theorem continued_append_cons (before : List Text) (l : Text) (after : List Text) :
    continued (before ++ l :: after) = '\n' :: (terminated before ++ (l ++ continued after)) := by
  induction before with
  | nil => rfl
  | cons m before ih =>
    rw [List.cons_append, continued_cons, ih, terminated_cons, List.append_assoc, List.cons_append]

theorem lines_eq_append_iff {t l : Text} {before after : List Text} :
    lines t = before ++ l :: after ↔
      t = terminated before ++ (l ++ continued after) ∧ ∀ m ∈ before ++ l :: after, '\n' ∉ m := by
  obtain ⟨k, ks, hks⟩ : ∃ k ks, before ++ l :: after = k :: ks :=
    List.exists_cons_of_ne_nil (by simp)
  have htext := continued_append_cons before l after
  rw [hks, continued_cons, List.cons.injEq] at htext
  rw [hks, lines_eq_cons_iff, htext.2]

/-- The characters of a line are characters of the text. -/
theorem mem_of_mem_lines {t l : Text} {c : Char} (hl : l ∈ lines t) (hc : c ∈ l) : c ∈ t := by
  have hmem : c ∈ continued (lines t) :=
    List.mem_flatMap.mpr ⟨l, hl, List.mem_cons_of_mem _ hc⟩
  rw [continued_lines] at hmem
  refine (List.mem_cons.mp hmem).resolve_left fun hfeed => ?_
  exact notMem_of_mem_lines hl (hfeed ▸ hc)

theorem exists_mem_lines {t : Text} {c : Char} (hc : c ∈ t) (hfeed : c ≠ '\n') :
    ∃ l ∈ lines t, c ∈ l := by
  have hmem : c ∈ continued (lines t) := by
    rw [continued_lines]
    exact List.mem_cons_of_mem _ hc
  obtain ⟨l, hl, hcl⟩ := List.mem_flatMap.mp hmem
  exact ⟨l, hl, (List.mem_cons.mp hcl).resolve_left hfeed⟩

theorem notMem_of_lines_eq {t l : Text} {before after : List Text}
    (h : lines t = before ++ l :: after) : '\n' ∉ l := by
  have hmem : l ∈ lines t := by
    rw [h]
    exact List.mem_append_right before List.mem_cons_self
  exact notMem_of_mem_lines hmem

/-- A member of a list in two parts is in the first or in the second. -/
theorem append_eq_append_cons_iff {α : Type} {first second before after : List α} {l : α} :
    first ++ second = before ++ l :: after ↔
      (∃ late, first = before ++ l :: late ∧ after = late ++ second) ∨
      ∃ early, second = early ++ l :: after ∧ before = first ++ early := by
  rw [List.append_eq_append_iff]
  constructor
  · rintro (⟨early, hbefore, hsecond⟩ | ⟨late, hfirst, hafter⟩)
    · exact Or.inr ⟨early, hsecond, hbefore⟩
    · rcases List.cons_eq_append_iff.mp hafter with ⟨rfl, hsecond⟩ | ⟨late, rfl, htail⟩
      · exact Or.inr ⟨[], hsecond, by simpa using hfirst.symm⟩
      · exact Or.inl ⟨late, hfirst, htail⟩
  · rintro (⟨late, rfl, rfl⟩ | ⟨early, rfl, rfl⟩)
    · exact Or.inr ⟨l :: late, rfl, rfl⟩
    · exact Or.inl ⟨early, rfl, rfl⟩

/-- What stands in front of the first place of a member, and behind it. -/
theorem append_cons_inj {α : Type} {s s' t t' : List α} {a : α} (hs : a ∉ s) (hs' : a ∉ s')
    (h : s ++ a :: t = s' ++ a :: t') : s = s' ∧ t = t' := by
  rcases append_eq_append_cons_iff.mp h with ⟨late, rfl, -⟩ | ⟨early, he, rfl⟩
  · exact absurd (List.mem_append_right s' List.mem_cons_self) hs
  · cases early with
    | nil => exact ⟨(List.append_nil s).symm, (List.cons.inj he).2⟩
    | cons b early =>
      obtain ⟨rfl, -⟩ := List.cons.inj he
      exact absurd (List.mem_append_right s List.mem_cons_self) hs'

/-- Of the members with a property, one is the first. -/
theorem exists_first {α : Type} {P : α → Prop} {ls : List α} (h : ∃ l ∈ ls, P l) :
    ∃ before l after, ls = before ++ l :: after ∧ (∀ m ∈ before, ¬ P m) ∧ P l := by
  classical
  obtain ⟨m, hm, hp⟩ := h
  have hsome : (ls.find? fun l => decide (P l)).isSome :=
    List.find?_isSome.mpr ⟨m, hm, decide_eq_true hp⟩
  obtain ⟨l, hfind⟩ := Option.isSome_iff_exists.mp hsome
  obtain ⟨hl, before, after, he, hbefore⟩ := List.find?_eq_some_iff_append.mp hfind
  exact ⟨before, l, after, he, by simpa using hbefore, of_decide_eq_true hl⟩

theorem terminated_eq_join {ls : List Text} (h : ls ≠ []) :
    terminated ls = join ['\n'] ls ++ ['\n'] := by
  induction ls with
  | nil => exact absurd rfl h
  | cons l ls ih =>
    cases ls with
    | nil => simp [join, terminated]
    | cons m ls =>
      rw [terminated_cons, ih (List.cons_ne_nil m ls), join, join, List.intercalate_cons_cons]
      simp

theorem terminated_append (ls ms : List Text) :
    terminated (ls ++ ms) = terminated ls ++ terminated ms := List.flatMap_append

theorem terminated_lines (t : Text) : terminated (lines t) = t ++ ['\n'] := by
  induction t using line_induction with
  | last l hl => simp [lines_of_notMem hl]
  | more l t hl ih => rw [lines_append hl, terminated_cons, ih, List.append_assoc, List.cons_append]

theorem join_lines (t : Text) : join ['\n'] (lines t) = t := by
  obtain ⟨l, later, hlines⟩ := exists_lines_eq_cons t
  have hne : lines t ≠ [] := by simp [hlines]
  have htext := terminated_lines t
  rw [terminated_eq_join hne] at htext
  exact List.append_cancel_right htext

/-- Lines that are joined are the lines of their text. -/
theorem lines_join {ls : List Text} (hne : ls ≠ []) (h : ∀ l ∈ ls, '\n' ∉ l) :
    lines (join ['\n'] ls) = ls := by
  rw [lines, splitOn_eq, join, List.splitOn_intercalate '\n' h hne]

theorem join_cons_cons (separator l m : Text) (ls : List Text) :
    join separator (l :: m :: ls) = l ++ (separator ++ join separator (m :: ls)) := by
  rw [join, join, List.intercalate_cons_cons, List.append_assoc]

/-- Joined parts begin with the first of them. -/
theorem exists_join_cons (separator part : Text) (parts : List Text) :
    ∃ rest, join separator (part :: parts) = part ++ rest := by
  cases parts with
  | nil => exact ⟨[], by simp [join]⟩
  | cons l ls => exact ⟨_, join_cons_cons separator part l ls⟩

theorem mem_join {separator part : Text} {parts : List Text} {c : Char} (hpart : part ∈ parts)
    (hc : c ∈ part) : c ∈ join separator parts := by
  induction parts with
  | nil => exact absurd hpart List.not_mem_nil
  | cons l ls ih =>
    cases ls with
    | nil =>
      rw [List.mem_singleton.mp hpart] at hc
      simpa [join] using hc
    | cons m ls =>
      rw [join_cons_cons]
      rcases List.mem_cons.mp hpart with rfl | hlater
      · exact List.mem_append_left _ hc
      · exact List.mem_append_right l (List.mem_append_right separator (ih hlater))

/-- The lines of joined parts are lines of the parts, the last of which goes on with what is
behind. -/
theorem exists_of_mem_lines_join {parts : List Text} {u m : Text} (hne : parts ≠ [])
    (hm : m ∈ lines (join ['\n'] parts ++ u)) :
    ∃ part ∈ parts, m ∈ lines part ∨ m ∈ lines (part ++ u) := by
  induction parts with
  | nil => exact absurd rfl hne
  | cons l ls ih =>
    cases ls with
    | nil =>
      have hsingle : join ['\n'] [l] = l := by simp [join]
      rw [hsingle] at hm
      exact ⟨l, List.mem_cons_self, Or.inr hm⟩
    | cons k ls =>
      rw [join_cons_cons, List.append_assoc, List.singleton_append, List.cons_append,
        lines_append_lineFeed] at hm
      rcases List.mem_append.mp hm with hfirst | hlater
      · exact ⟨l, List.mem_cons_self, Or.inl hfirst⟩
      · obtain ⟨part, hpart, hmem⟩ := ih (List.cons_ne_nil k ls) hlater
        exact ⟨part, List.mem_cons_of_mem l hpart, hmem⟩

/-! ## Runs of a class of characters -/

theorem dropWhile_eq {p : Char → Bool} {run rest : Text} (hrun : ∀ c ∈ run, p c = true)
    (hrest : ∀ c, rest.head? = some c → p c = false) : (run ++ rest).dropWhile p = rest := by
  rw [List.dropWhile_append_of_pos hrun]
  cases rest with
  | nil => rfl
  | cons c rest => rw [List.dropWhile_cons_of_neg (Bool.eq_false_iff.mp (hrest c rfl))]

theorem takeWhile_eq {p : Char → Bool} {run rest : Text} (hrun : ∀ c ∈ run, p c = true)
    (hrest : ∀ c, rest.head? = some c → p c = false) : (run ++ rest).takeWhile p = run := by
  rw [List.takeWhile_append_of_pos hrun]
  cases rest with
  | nil => exact List.append_nil run
  | cons c rest =>
    rw [List.takeWhile_cons_of_neg (Bool.eq_false_iff.mp (hrest c rfl)), List.append_nil]

theorem dropWhile_cancel {p : Char → Bool} {s t u : Text}
    (h : (s ++ t).dropWhile p = (s ++ u).dropWhile p) : t.dropWhile p = u.dropWhile p := by
  rw [List.dropWhile_append, List.dropWhile_append] at h
  split at h
  · exact h
  · rw [List.append_cancel_left h]

theorem dropEnd_append {p : Char → Bool} {t run : Text} (hrun : ∀ c ∈ run, p c = true) :
    dropEnd p (t ++ run) = dropEnd p t := by
  rw [dropEnd, List.reverse_append,
    List.dropWhile_append_of_pos fun c hc => hrun c (List.mem_reverse.mp hc), dropEnd]

theorem exists_dropEnd (t : Text) :
    ∃ blanks, t = dropEnd isBlank t ++ blanks ∧ ∀ c ∈ blanks, isBlank c = true := by
  refine ⟨(t.reverse.takeWhile isBlank).reverse, ?_, fun c hc => ?_⟩
  · rw [dropEnd, ← List.reverse_append, List.takeWhile_append_dropWhile, List.reverse_reverse]
  · exact List.mem_takeWhile_imp (List.mem_reverse.mp hc)

theorem exists_dropStart (t : Text) :
    ∃ blanks, t = blanks ++ dropStart isBlank t ∧ ∀ c ∈ blanks, isBlank c = true :=
  ⟨t.takeWhile isBlank, List.takeWhile_append_dropWhile.symm, fun _ hc => List.mem_takeWhile_imp hc⟩

theorem length_dropEnd_le (p : Char → Bool) (t : Text) : (dropEnd p t).length ≤ t.length := by
  have hle := (List.dropWhile_suffix p (l := t.reverse)).length_le
  rw [List.length_reverse] at hle
  rwa [dropEnd, List.length_reverse]

theorem dropEnd_dropEnd (p : Char → Bool) (t : Text) : dropEnd p (dropEnd p t) = dropEnd p t := by
  rw [dropEnd, dropEnd, List.reverse_reverse, List.dropWhile_idempotent]

theorem trim_append {t blanks : Text} (hblanks : ∀ c ∈ blanks, isBlank c = true) :
    trim (t ++ blanks) = trim t := by
  rw [trim, trim, trimBy, trimBy, dropStart, dropStart, List.dropWhile_append]
  split
  · next h =>
    rw [List.dropWhile_eq_nil_iff.mpr hblanks, List.isEmpty_iff.mp h]
  · exact dropEnd_append hblanks

/-- Spaces and tabs only. -/
def InlineBlanks (t : Text) : Prop := ∀ c ∈ t, isInlineBlank c = true

theorem inlineBlanks_nil : InlineBlanks [] := List.forall_mem_nil _

theorem exists_inlineBlanks (t : Text) :
    ∃ blanks, t = blanks ++ t.dropWhile isInlineBlank ∧ InlineBlanks blanks :=
  ⟨t.takeWhile isInlineBlank, List.takeWhile_append_dropWhile.symm,
    fun _ hc => List.mem_takeWhile_imp hc⟩

theorem isBlank_of_isInlineBlank {c : Char} (h : isInlineBlank c = true) : isBlank c = true := by
  simp only [isInlineBlank, Bool.or_eq_true, decide_eq_true_eq] at h
  rcases h with rfl | rfl <;> decide

instance (t : Text) : Decidable (InlineBlanks t) := List.decidableBAll _ t

theorem InlineBlanks.notMem {t : Text} (h : InlineBlanks t) {c : Char}
    (hc : isInlineBlank c = false) : c ∉ t := by
  intro hm
  rw [h c hm] at hc
  cases hc

/-! ## Reading a line -/

/-- Nothing is left of the line. -/
def AtLineEnd (t : Text) : Prop := ∀ c, t.head? = some c → c = '\n'

theorem atLineEnd_nil : AtLineEnd [] := by
  intro c hc
  cases hc

theorem atLineEnd_lineFeed (t : Text) : AtLineEnd ('\n' :: t) := by
  intro c hc
  exact (Option.some.inj hc).symm

theorem atLineEnd_continued (later : List Text) : AtLineEnd (continued later) := by
  cases later with
  | nil => exact atLineEnd_nil
  | cons l later => exact atLineEnd_lineFeed (l ++ continued later)

theorem dropWhile_inlineBlanks {blanks rest : Text} (hb : InlineBlanks blanks)
    (hr : AtLineEnd rest) : (blanks ++ rest).dropWhile isInlineBlank = rest := by
  refine dropWhile_eq hb fun c hc => ?_
  rw [hr c hc]
  rfl

/-- A part without line feed, at the start of a line, lies inside the line. -/
theorem append_eq_line_iff {u r l : Text} {later : List Text} (hu : '\n' ∉ u) :
    l ++ continued later = u ++ r ↔ ∃ r', l = u ++ r' ∧ r = r' ++ continued later := by
  constructor
  · intro h
    rcases List.append_eq_append_iff.mp h with ⟨v, rfl, hv⟩ | ⟨r', rfl, rfl⟩
    · -- The part that would reach beyond the line would begin with its line feed.
      cases v with
      | nil => exact ⟨[], by simp, hv.symm⟩
      | cons c v =>
        have hc := atLineEnd_continued later c (by rw [hv]; rfl)
        exact absurd (by simp [hc]) hu
    · exact ⟨r', rfl, rfl⟩
  · rintro ⟨r', rfl, rfl⟩
    rw [List.append_assoc]

/-- A part without line feed that ends at a line end is all of the line. -/
theorem eq_line {u r l : Text} {later : List Text} (hu : '\n' ∉ u) (hl : '\n' ∉ l)
    (hr : AtLineEnd r) (h : l ++ continued later = u ++ r) : l = u ∧ r = continued later := by
  obtain ⟨r', rfl, rfl⟩ := (append_eq_line_iff hu).mp h
  cases r' with
  | nil => exact ⟨List.append_nil u, rfl⟩
  | cons c r' =>
    have hc := hr c rfl
    exact absurd (by simp [hc]) hl

/-! ## The first line that is accepted -/

section Recogniser

variable {α : Type} {accepts : Text → Option α}

theorem cutAtLine?_true (t : Text) :
    cutAtLine? accepts true t =
      ((accepts t).map fun a => ([], a)).or (cutAtLine? accepts false t) := by
  cases h : accepts t with
  | some a => cases t <;> simp only [cutAtLine?, if_true, h, Option.map_some, Option.some_or]
  | none =>
    cases t <;> simp only [cutAtLine?, if_true, h, Bool.false_eq_true, if_false, Option.map_none,
      Option.none_or]

theorem cutAtLine?_false_cons (c : Char) (t : Text) :
    cutAtLine? accepts false (c :: t) =
      (cutAtLine? accepts (c = '\n') t).map fun r => (c :: r.1, r.2) := by
  rw [cutAtLine?, if_neg Bool.false_ne_true]

theorem cutAtLine?_false_of_notMem {l : Text} (h : '\n' ∉ l) :
    cutAtLine? accepts false l = none := by
  induction l with
  | nil => rfl
  | cons c l ih =>
    rw [List.mem_cons, not_or] at h
    rw [cutAtLine?_false_cons, decide_eq_false (Ne.symm h.1), ih h.2, Option.map_none]

theorem cutAtLine?_false_append {l : Text} (h : '\n' ∉ l) (t : Text) :
    cutAtLine? accepts false (l ++ '\n' :: t) =
      (splitAtLine? accepts t).map fun r => (l ++ '\n' :: r.1, r.2) := by
  induction l with
  | nil => rw [List.nil_append, cutAtLine?_false_cons]; rfl
  | cons c l ih =>
    rw [List.mem_cons, not_or] at h
    rw [List.cons_append, cutAtLine?_false_cons, decide_eq_false (Ne.symm h.1), ih h.2,
      Option.map_map]
    rfl

/-- A text without line feed is a line itself. -/
theorem splitAtLine?_of_notMem {l u : Text} {a : α} (h : '\n' ∉ l) :
    splitAtLine? accepts l = some (u, a) ↔ u = [] ∧ accepts l = some a := by
  rw [splitAtLine?, cutAtLine?_true, cutAtLine?_false_of_notMem h, Option.or_none,
    Option.map_eq_some_iff]
  constructor
  · rintro ⟨b, hb, he⟩
    cases he
    exact ⟨rfl, hb⟩
  · rintro ⟨rfl, ha⟩
    exact ⟨a, ha, rfl⟩

/-- The split is at the first line, or the first line is refused and goes in front of the split
of the text behind it. -/
theorem splitAtLine?_append {l t u : Text} {a : α} (h : '\n' ∉ l) :
    splitAtLine? accepts (l ++ '\n' :: t) = some (u, a) ↔
      u = [] ∧ accepts (l ++ '\n' :: t) = some a ∨
      accepts (l ++ '\n' :: t) = none ∧
        ∃ v, u = l ++ '\n' :: v ∧ splitAtLine? accepts t = some (v, a) := by
  rw [splitAtLine?, cutAtLine?_true, cutAtLine?_false_append h, Option.or_eq_some_iff,
    Option.map_eq_some_iff, Option.map_eq_none_iff, Option.map_eq_some_iff]
  constructor
  · rintro (⟨b, hb, he⟩ | ⟨hn, ⟨v, b⟩, hs, he⟩)
    · cases he
      exact Or.inl ⟨rfl, hb⟩
    · cases he
      exact Or.inr ⟨hn, v, rfl, hs⟩
  · rintro (⟨rfl, ha⟩ | ⟨hn, v, rfl, hs⟩)
    · exact Or.inl ⟨a, ha, rfl⟩
    · exact Or.inr ⟨hn, (v, a), hs, rfl⟩

variable {P : Text → Prop}

/-- A recogniser that looks at one line splits a text before the first line that it accepts. -/
theorem splitAtLine?_eq_some_iff
    (hP : ∀ l later, '\n' ∉ l → (accepts (l ++ continued later) = none ↔ ¬ P l))
    {t u : Text} {a : α} :
    splitAtLine? accepts t = some (u, a) ↔
      ∃ body l after, lines t = body ++ l :: after ∧ (∀ m ∈ body, ¬ P m) ∧
        u = terminated body ∧ accepts (l ++ continued after) = some a := by
  induction t using line_induction generalizing u with
  | last l hl =>
    rw [splitAtLine?_of_notMem hl, lines_of_notMem hl]
    constructor
    · rintro ⟨rfl, ha⟩
      exact ⟨[], l, [], rfl, by simp, rfl, by simpa using ha⟩
    · rintro ⟨body, m, after, he, -, rfl, ha⟩
      obtain ⟨rfl, he⟩ : body = [] ∧ [l] = m :: after := by
        cases body with
        | nil => exact ⟨rfl, he⟩
        | cons => simp at he
      cases he
      rw [continued_nil, List.append_nil] at ha
      exact ⟨rfl, ha⟩
  | more l t hl ih =>
    have hline : accepts (l ++ '\n' :: t) = none ↔ ¬ P l := by
      rw [← continued_lines]
      exact hP l (lines t) hl
    rw [splitAtLine?_append hl, lines_append hl]
    constructor
    · rintro (⟨rfl, ha⟩ | ⟨hn, v, rfl, hs⟩)
      · exact ⟨[], l, lines t, rfl, by simp, rfl, by rwa [continued_lines]⟩
      · obtain ⟨body, m, after, ht, hbody, rfl, ha⟩ := ih.mp hs
        refine ⟨l :: body, m, after, by rw [ht]; rfl, ?_, by rw [terminated_cons], ha⟩
        exact List.forall_mem_cons.mpr ⟨hline.mp hn, hbody⟩
    · rintro ⟨body, m, after, he, hbody, rfl, ha⟩
      cases body with
      | nil =>
        cases he
        rw [continued_lines] at ha
        exact Or.inl ⟨rfl, ha⟩
      | cons k body =>
        obtain ⟨rfl, ht⟩ := List.cons.inj he
        obtain ⟨hl', hlater⟩ := List.forall_mem_cons.mp hbody
        have hrest := ih.mpr ⟨body, m, after, ht, hlater, rfl, ha⟩
        exact Or.inr ⟨hline.mpr hl', terminated body, terminated_cons l body, hrest⟩

end Recogniser

end PageQueries.Text
