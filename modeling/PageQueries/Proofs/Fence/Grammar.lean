import PageQueries.Fence
import PageQueries.Proofs.Text.Line

/-!
# The lines of a fenced block

`IsOpening` and `IsClosing` say of a single line that it opens or closes a
block. The readers of `Fence` work on the text from the start of a line on, and
look for the language at every place behind the fence that only inline blanks
precede. Both agree: the name that an opening line gives is the same wherever
the language is found (`Names.unique`), and a reader never looks beyond the line
as long as the language has no line feed.

Results:
* `isOpening_append`: blanks at the end of an opening line do not matter.
* `opening?_line`, `closing?_line`: the readers accept the lines of the grammar,
  and an opening line only if a line follows.
-/
namespace PageQueries.Fence

open Text

/-- `id` is the longest run of name characters before `rest`, and not void. -/
structure IsName (id rest : Text) : Prop where
  chars : ∀ c ∈ id, isNameChar c = true
  ne_nil : id ≠ []
  longest : ∀ c, rest.head? = some c → isNameChar c = false

/-- Inline blanks, the language, at least one inline blank, and the name `id`. -/
def Names (language t id rest : Text) : Prop :=
  ∃ blanks gap, t = blanks ++ (language ++ (gap ++ (id ++ rest))) ∧
    InlineBlanks blanks ∧ InlineBlanks gap ∧ gap ≠ [] ∧ IsName id rest

/-- A line that opens a block with the name `id`. -/
def IsOpening (language : Text) (fence : Fence) (id line : Text) : Prop :=
  ∃ t rest, line = fence.mark ++ t ∧ Names language t id rest

/-- A line that closes a block. -/
def IsClosing (fence : Fence) (line : Text) : Prop :=
  ∃ blanks, line = fence.mark ++ blanks ∧ InlineBlanks blanks

variable {fence : Fence} {language t id rest l : Text} {later : List Text}

theorem notMem_mark : '\n' ∉ fence.mark := by
  cases fence <;> decide

theorem mark_injective {fence' : Fence} {u : Text} (h : fence.mark ++ t = fence'.mark ++ u) :
    fence = fence' ∧ t = u := by
  cases fence <;> cases fence' <;> simp_all [mark]

theorem not_isNameChar_of_isInlineBlank {c : Char} (h : isInlineBlank c = true) :
    isNameChar c = false := by
  simp only [isInlineBlank, Bool.or_eq_true, decide_eq_true_eq] at h
  rcases h with rfl | rfl <;> decide

namespace IsName

theorem notMem (h : IsName id rest) : '\n' ∉ id := by
  intro hm
  exact absurd (h.chars _ hm) (by decide)

theorem takeWhile (h : IsName id rest) : (id ++ rest).takeWhile isNameChar = id :=
  takeWhile_eq h.chars h.longest

theorem dropWhile (h : IsName id rest) : (id ++ rest).dropWhile isNameChar = rest :=
  dropWhile_eq h.chars h.longest

/-- A name begins with no inline blank. -/
theorem dropWhile_blanks (h : IsName id rest) {blanks : Text} (hb : InlineBlanks blanks) :
    (blanks ++ (id ++ rest)).dropWhile isInlineBlank = id ++ rest := by
  refine dropWhile_eq hb fun c hc => ?_
  cases id with
  | nil => exact absurd rfl h.ne_nil
  | cons d id =>
    obtain rfl := Option.some.inj hc
    have hname := h.chars d List.mem_cons_self
    cases hblank : isInlineBlank d with
    | false => rfl
    | true =>
      rw [not_isNameChar_of_isInlineBlank hblank] at hname
      cases hname

/-- At a line end a name is as long as it is on its line. -/
theorem line_iff : IsName id (rest ++ continued later) ↔ IsName id rest := by
  constructor
  · rintro ⟨hchars, hne, hlong⟩
    refine ⟨hchars, hne, fun c hc => hlong c ?_⟩
    cases rest with
    | nil => cases hc
    | cons d rest => exact hc
  · rintro ⟨hchars, hne, hlong⟩
    refine ⟨hchars, hne, fun c hc => ?_⟩
    cases rest with
    | nil =>
      rw [atLineEnd_continued later c hc]
      decide
    | cons d rest => exact hlong c hc

end IsName

/-! ## The name behind the fence -/

theorem Names.unique {id' rest' : Text} (h : Names language t id rest)
    (h' : Names language t id' rest') : id = id' ∧ rest = rest' := by
  obtain ⟨blanks, gap, rfl, hblanks, hgap, -, hid⟩ := h
  obtain ⟨blanks', gap', he, hblanks', hgap', -, hid'⟩ := h'
  -- Without the blanks in front, both sides have the language at the same place, or it is blank.
  have hdrop := congrArg (List.dropWhile isInlineBlank) he
  rw [List.dropWhile_append_of_pos hblanks, List.dropWhile_append_of_pos hblanks'] at hdrop
  have hnames : id ++ rest = id' ++ rest' := by
    rw [← hid.dropWhile_blanks hgap, ← hid'.dropWhile_blanks hgap']
    exact dropWhile_cancel hdrop
  have htake := congrArg (List.takeWhile isNameChar) hnames
  rw [hid.takeWhile, hid'.takeWhile] at htake
  subst htake
  exact ⟨rfl, List.append_cancel_left hnames⟩

theorem Names.notMem_rest (h : Names language t id rest) {c : Char} (hc : c ∉ t) : c ∉ rest := by
  obtain ⟨blanks, gap, rfl, -⟩ := h
  intro hm
  exact hc (by simp [hm])

theorem nameAt?_append {gap : Text} (hgap : InlineBlanks gap) (hne : gap ≠ [])
    (hid : IsName id rest) :
    nameAt? language (language ++ (gap ++ (id ++ rest))) = some (id, rest) := by
  cases gap with
  | nil => exact absurd rfl hne
  | cons c gap =>
    obtain ⟨hc, hgap⟩ := List.forall_mem_cons.mp hgap
    have hempty : id.isEmpty = false := List.isEmpty_eq_false_iff.mpr hid.ne_nil
    rw [nameAt?, after?_append, List.cons_append]
    simp only [hid.dropWhile_blanks hgap, hid.takeWhile, hid.dropWhile, hc, hempty]
    rfl

theorem names_of_nameAt? (h : nameAt? language t = some (id, rest)) :
    Names language t id rest := by
  unfold nameAt? at h
  split at h
  · next c u hu =>
    rw [after?_eq_some_iff] at hu
    simp only at h
    split at h
    · next hif =>
      rw [Bool.and_eq_true, Bool.not_eq_true', List.isEmpty_eq_false_iff] at hif
      obtain ⟨rfl, rfl⟩ := Prod.mk.inj (Option.some.inj h)
      refine ⟨[], c :: u.takeWhile isInlineBlank, ?_, inlineBlanks_nil, ?_, by simp, ?_⟩
      · rw [List.takeWhile_append_dropWhile, List.cons_append, List.takeWhile_append_dropWhile, hu]
        rfl
      · exact List.forall_mem_cons.mpr ⟨hif.1, fun d hd => List.mem_takeWhile_imp hd⟩
      · refine ⟨fun d hd => List.mem_takeWhile_imp hd, hif.2, fun d hd => ?_⟩
        have hnot := List.head?_dropWhile_not isNameChar (u.dropWhile isInlineBlank)
        rw [hd] at hnot
        exact hnot
    · cases h
  · cases h

theorem name?_eq_some_iff : name? language t = some (id, rest) ↔ Names language t id rest := by
  constructor
  · intro h
    induction t with
    | nil => cases h
    | cons c t ih =>
      rw [name?] at h
      split at h
      · next r hr =>
        cases h
        exact names_of_nameAt? hr
      · split at h
        · next hc =>
          obtain ⟨blanks, gap, rfl, hblanks, hgap⟩ := ih h
          exact ⟨c :: blanks, gap, rfl, List.forall_mem_cons.mpr ⟨hc, hblanks⟩, hgap⟩
        · cases h
  · intro h
    -- Where the reader finds the language earlier, it reads the same name.
    have hearlier : ∀ r, nameAt? language t = some r → r = (id, rest) := by
      intro r hr
      obtain ⟨hid, hrest⟩ := (names_of_nameAt? hr).unique h
      exact Prod.ext hid hrest
    obtain ⟨blanks, gap, rfl, hblanks, hgap, hne, hid⟩ := h
    induction blanks with
    | nil =>
      have hread : nameAt? language (language ++ (gap ++ (id ++ rest))) = some (id, rest) :=
        nameAt?_append hgap hne hid
      obtain ⟨c, u, hu⟩ : ∃ c u, language ++ (gap ++ (id ++ rest)) = c :: u :=
        List.exists_cons_of_ne_nil (by simp [hne])
      rw [List.nil_append, hu, name?, ← hu, hread]
    | cons c blanks ih =>
      obtain ⟨hc, hblanks⟩ := List.forall_mem_cons.mp hblanks
      rw [List.cons_append, name?]
      split
      · next r hr => rw [hearlier r hr]
      · rw [if_pos hc]
        refine ih (fun r hr => ?_) hblanks
        have hnames : Names language (blanks ++ (language ++ (gap ++ (id ++ rest)))) id rest :=
          ⟨blanks, gap, rfl, hblanks, hgap, hne, hid⟩
        obtain ⟨hid', hrest⟩ := (names_of_nameAt? hr).unique hnames
        exact Prod.ext hid' hrest

/-- On a line, the language and the name end before the line does. -/
theorem names_line (hl : '\n' ∉ language) :
    Names language (t ++ continued later) id rest ↔
      ∃ rest', Names language t id rest' ∧ rest = rest' ++ continued later := by
  constructor
  · rintro ⟨blanks, gap, he, hblanks, hgap, hne, hid⟩
    have hfeed : '\n' ∉ blanks ++ (language ++ (gap ++ id)) := by
      simp [hblanks.notMem, hgap.notMem, hid.notMem, hl, isInlineBlank]
    have hsplit : blanks ++ (language ++ (gap ++ (id ++ rest)))
        = blanks ++ (language ++ (gap ++ id)) ++ rest := by
      simp only [List.append_assoc]
    obtain ⟨rest', rfl, rfl⟩ := (append_eq_line_iff hfeed).mp (he.trans hsplit)
    refine ⟨rest', ⟨blanks, gap, ?_, hblanks, hgap, hne, IsName.line_iff.mp hid⟩, rfl⟩
    simp only [List.append_assoc]
  · rintro ⟨rest', ⟨blanks, gap, rfl, hblanks, hgap, hne, hid⟩, rfl⟩
    refine ⟨blanks, gap, ?_, hblanks, hgap, hne, IsName.line_iff.mpr hid⟩
    simp only [List.append_assoc]

/-- A name ends at a blank. -/
theorem IsName.concat_iff {c : Char} (hc : isBlank c = true) :
    IsName id (rest ++ [c]) ↔ IsName id rest := by
  have hnot : isNameChar c = false := by simp [isNameChar, hc]
  constructor
  · intro h
    refine ⟨h.chars, h.ne_nil, fun d hd => h.longest d ?_⟩
    rw [List.head?_append, hd]
    rfl
  · intro h
    refine ⟨h.chars, h.ne_nil, fun d hd => ?_⟩
    cases rest with
    | nil => exact Option.some.inj hd ▸ hnot
    | cons e rest => exact h.longest d hd

/-- A blank behind the name is never part of what the line says. -/
theorem names_concat {c : Char} (hc : isBlank c = true) :
    Names language (t ++ [c]) id rest ↔
      ∃ rest', Names language t id rest' ∧ rest = rest' ++ [c] := by
  constructor
  · intro h
    obtain ⟨blanks, gap, he, hblanks, hgap, hne, hid⟩ := h
    rcases List.eq_nil_or_concat rest with rfl | ⟨rest', d, rfl⟩
    · -- The text would end with the name.
      have hlast := congrArg List.getLast? he
      rw [List.getLast?_append_cons, List.append_nil, ← List.append_assoc, ← List.append_assoc,
        List.getLast?_append_of_ne_nil _ hid.ne_nil] at hlast
      have hname := hid.chars c (List.mem_of_getLast? hlast.symm)
      simp [isNameChar, hc] at hname
    · rw [List.concat_eq_append] at he hid ⊢
      have hsplit : t ++ [c] = blanks ++ (language ++ (gap ++ (id ++ rest'))) ++ [d] := by
        rw [he]
        simp only [List.append_assoc]
      obtain ⟨ht, rfl⟩ := List.append_singleton_inj.mp hsplit
      exact ⟨rest', ⟨blanks, gap, ht, hblanks, hgap, hne, (IsName.concat_iff hc).mp hid⟩, rfl⟩
  · intro h
    obtain ⟨rest', ⟨blanks, gap, rfl, hblanks, hgap, hne, hid⟩, rfl⟩ := h
    refine ⟨blanks, gap, ?_, hblanks, hgap, hne, (IsName.concat_iff hc).mpr hid⟩
    simp only [List.append_assoc]

/-! ## Blanks behind a line -/

theorem Names.ne_nil (h : Names language t id rest) : t ≠ [] := by
  obtain ⟨blanks, gap, rfl, -, -, hne, -⟩ := h
  simp [hne]

/-- An opening line may have blanks at its end. -/
theorem isOpening_append {blanks : Text} (hblanks : ∀ c ∈ blanks, isBlank c = true) :
    IsOpening language fence id (l ++ blanks) ↔ IsOpening language fence id l := by
  induction blanks generalizing l with
  | nil => rw [List.append_nil]
  | cons c blanks ih =>
    obtain ⟨hc, hblanks⟩ := List.forall_mem_cons.mp hblanks
    rw [List.append_cons, ih hblanks]
    constructor
    · intro h
      obtain ⟨t, rest, ht, hnames⟩ := h
      obtain ⟨u, d, rfl⟩ := (List.eq_nil_or_concat t).resolve_left hnames.ne_nil
      rw [List.concat_eq_append, ← List.append_assoc] at ht
      obtain ⟨rfl, rfl⟩ := List.append_singleton_inj.mp ht
      rw [List.concat_eq_append] at hnames
      obtain ⟨rest', hnames, -⟩ := (names_concat hc).mp hnames
      exact ⟨u, rest', rfl, hnames⟩
    · intro h
      obtain ⟨t, rest, rfl, hnames⟩ := h
      exact ⟨t ++ [c], rest ++ [c], List.append_assoc .., (names_concat hc).mpr ⟨rest, hnames, rfl⟩⟩

theorem isClosing_mark : IsClosing fence fence.mark :=
  ⟨[], (List.append_nil _).symm, inlineBlanks_nil⟩

/-- A line that opens a block closes none: behind its fence there is a name. -/
theorem not_isClosing_of_isOpening {fence' : Fence} (h : IsOpening language fence id l) :
    ¬ IsClosing fence' l := by
  intro hcloses
  obtain ⟨t, rest, rfl, hnames⟩ := h
  obtain ⟨blanks, he, hblanks⟩ := hcloses
  obtain ⟨-, rfl⟩ := mark_injective he
  obtain ⟨front, gap, rfl, -, -, -, hid⟩ := hnames
  obtain ⟨c, hc⟩ := List.exists_mem_of_ne_nil id hid.ne_nil
  have hname := hid.chars c hc
  rw [not_isNameChar_of_isInlineBlank (hblanks c (by simp [hc]))] at hname
  cases hname

/-! ## Lines that say nothing -/

/-- A line that neither opens nor closes a block. -/
structure Inert (language line : Text) : Prop where
  opens : ∀ fence id, ¬ IsOpening language fence id line
  closes : ∀ fence, ¬ IsClosing fence line

/-- Some name stands behind the language exactly if a character of names does. -/
theorem exists_isOpening_iff : (∃ id, IsOpening language fence id l) ↔
    ∃ blanks gap c u, l = fence.mark ++ (blanks ++ (language ++ gap)) ++ c :: u ∧
      InlineBlanks blanks ∧ InlineBlanks gap ∧ gap ≠ [] ∧ isNameChar c = true := by
  constructor
  · intro h
    obtain ⟨id, t, rest, rfl, blanks, gap, rfl, hblanks, hgap, hne, hid⟩ := h
    obtain ⟨c, u, rfl⟩ := List.exists_cons_of_ne_nil hid.ne_nil
    refine ⟨blanks, gap, c, u ++ rest, ?_, hblanks, hgap, hne, hid.chars c List.mem_cons_self⟩
    simp only [List.append_assoc, List.cons_append]
  · intro h
    obtain ⟨blanks, gap, c, u, rfl, hblanks, hgap, hne, hc⟩ := h
    refine ⟨(c :: u).takeWhile isNameChar, _, (c :: u).dropWhile isNameChar, List.append_assoc ..,
      blanks, gap, ?_, hblanks, hgap, hne, ?_⟩
    · rw [List.takeWhile_append_dropWhile]
      simp only [List.append_assoc]
    · refine ⟨fun d hd => List.mem_takeWhile_imp hd, ?_, fun d hd => ?_⟩
      · rw [List.takeWhile_cons_of_pos hc]
        exact List.cons_ne_nil c _
      · have hnot := List.head?_dropWhile_not isNameChar (c :: u)
        rw [hd] at hnot
        exact hnot

/-- A line whose first character is in neither mark. -/
theorem inert_cons {c : Char} (hback : c ≠ '\x60') (htilde : c ≠ '~') (t : Text) :
    Inert language (c :: t) := by
  have hmark (fence : Fence) (u : Text) : c :: t ≠ fence.mark ++ u := by
    intro h
    cases fence with
    | backticks => exact hback (List.cons.inj h).1
    | tildes => exact htilde (List.cons.inj h).1
  refine ⟨fun fence id h => ?_, fun fence h => ?_⟩
  · obtain ⟨u, rest, he, -⟩ := h
    exact hmark fence u he
  · obtain ⟨blanks, he, -⟩ := h
    exact hmark fence blanks he

theorem inert_nil : Inert language [] := by
  have hmark (fence : Fence) (u : Text) : [] ≠ fence.mark ++ u := by
    cases fence <;> exact (List.cons_ne_nil _ _).symm
  refine ⟨fun fence id h => ?_, fun fence h => ?_⟩
  · obtain ⟨u, rest, he, -⟩ := h
    exact hmark fence u he
  · obtain ⟨blanks, he, -⟩ := h
    exact hmark fence blanks he

/-- A line that is void or begins with a blank. -/
theorem inert_of_blank (h : ∀ c, l.head? = some c → isBlank c = true) :
    Inert language l := by
  cases l with
  | nil => exact inert_nil
  | cons c l =>
    have hblank := h c rfl
    refine inert_cons ?_ ?_ l
    · intro hc
      rw [hc] at hblank
      exact absurd hblank (by decide)
    · intro hc
      rw [hc] at hblank
      exact absurd hblank (by decide)

/-! ## Whole lines -/

theorem nextLine?_line (h : '\n' ∉ t) {body : Text} :
    nextLine? (t ++ continued later) = some body ↔
      ∃ next after, later = next :: after ∧ body = next ++ continued after := by
  have hdrop : (t ++ continued later).dropWhile (· != '\n') = continued later := by
    refine dropWhile_eq (fun c hc => ?_) fun c hc => ?_
    · exact bne_iff_ne.mpr fun he => h (he ▸ hc)
    · rw [atLineEnd_continued later c hc]
      rfl
  rw [nextLine?, hdrop]
  cases later with
  | nil => simp
  | cons next after =>
    constructor
    · intro h
      exact ⟨next, after, rfl, (Option.some.inj h).symm⟩
    · rintro ⟨next', after', he, rfl⟩
      cases he
      rfl

theorem openingOf?_line (hlang : '\n' ∉ language) (hl : '\n' ∉ l) {o : Opening} {body : Text} :
    openingOf? language fence (l ++ continued later) = some (o, body) ↔
      o.fence = fence ∧ IsOpening language fence o.id l ∧
        ∃ next after, later = next :: after ∧ body = next ++ continued after := by
  simp only [openingOf?, Option.bind_eq_bind, Option.bind_eq_some_iff, after?_eq_some_iff,
    append_eq_line_iff (notMem_mark : '\n' ∉ fence.mark), Option.some.injEq, Prod.mk.injEq]
  constructor
  · rintro ⟨u, ⟨t, rfl, rfl⟩, ⟨id, r⟩, hname, body, hbody, rfl, rfl⟩
    obtain ⟨rest, hnames, rfl⟩ := (names_line hlang).mp (name?_eq_some_iff.mp hname)
    rw [List.mem_append, not_or] at hl
    exact ⟨rfl, ⟨t, rest, rfl, hnames⟩, (nextLine?_line (hnames.notMem_rest hl.2)).mp hbody⟩
  · rintro ⟨rfl, ⟨t, rest, rfl, hnames⟩, hnext⟩
    rw [List.mem_append, not_or] at hl
    refine ⟨_, ⟨t, rfl, rfl⟩, (o.id, rest ++ continued later), ?_, body, ?_, rfl, rfl⟩
    · exact name?_eq_some_iff.mpr ((names_line hlang).mpr ⟨rest, hnames, rfl⟩)
    · exact (nextLine?_line (hnames.notMem_rest hl.2)).mpr hnext

theorem opening?_line (hlang : '\n' ∉ language) (hl : '\n' ∉ l) {o : Opening} {body : Text} :
    opening? language (l ++ continued later) = some (o, body) ↔
      IsOpening language o.fence o.id l ∧
        ∃ next after, later = next :: after ∧ body = next ++ continued after := by
  rw [opening?, Option.or_eq_some_iff, openingOf?_line hlang hl, openingOf?_line hlang hl]
  constructor
  · rintro (⟨hf, h⟩ | ⟨-, hf, h⟩) <;> exact hf ▸ h
  · intro h
    cases hf : o.fence with
    | backticks => exact Or.inl ⟨rfl, hf ▸ h⟩
    | tildes =>
      refine Or.inr ⟨?_, rfl, hf ▸ h⟩
      -- A line of tildes is no line of backticks.
      refine Option.eq_none_iff_forall_ne_some.mpr fun r hr => ?_
      obtain ⟨-, ⟨t, rest, ht, -⟩, -⟩ := (openingOf?_line hlang hl).mp hr
      obtain ⟨⟨u, rest', hu, -⟩, -⟩ := h
      have hmark := (mark_injective (ht.symm.trans hu)).1
      rw [hf] at hmark
      cases hmark

theorem closing?_eq_some_iff {r : Text} :
    closing? fence t = some r ↔
      ∃ blanks, t = fence.mark ++ blanks ++ r ∧ InlineBlanks blanks ∧ AtLineEnd r := by
  simp only [closing?, Option.bind_eq_bind, Option.bind_eq_some_iff, after?_eq_some_iff]
  constructor
  · rintro ⟨u, rfl, h⟩
    have hend : u.dropWhile isInlineBlank = r ∧ AtLineEnd r := by
      split at h
      · next hd =>
        cases h
        exact ⟨hd, atLineEnd_nil⟩
      · next v hd =>
        cases h
        exact ⟨hd, atLineEnd_lineFeed v⟩
      · cases h
    obtain ⟨blanks, hu, hblanks⟩ := exists_inlineBlanks u
    rw [hend.1] at hu
    exact ⟨blanks, by rw [hu, List.append_assoc], hblanks, hend.2⟩
  · rintro ⟨blanks, rfl, hblanks, hr⟩
    refine ⟨blanks ++ r, List.append_assoc .., ?_⟩
    rw [dropWhile_inlineBlanks hblanks hr]
    cases r with
    | nil => rfl
    | cons c r =>
      rw [hr c rfl]
      rfl

theorem closing?_line (hl : '\n' ∉ l) {r : Text} :
    closing? fence (l ++ continued later) = some r ↔ IsClosing fence l ∧ r = continued later := by
  rw [closing?_eq_some_iff]
  constructor
  · rintro ⟨blanks, he, hblanks, hr⟩
    have hfeed : '\n' ∉ fence.mark ++ blanks := by
      rw [List.mem_append, not_or]
      exact ⟨notMem_mark, hblanks.notMem rfl⟩
    obtain ⟨rfl, rfl⟩ := eq_line hfeed hl hr he
    exact ⟨⟨blanks, rfl, hblanks⟩, rfl⟩
  · rintro ⟨⟨blanks, rfl, hblanks⟩, rfl⟩
    exact ⟨blanks, rfl, hblanks, atLineEnd_continued later⟩

end PageQueries.Fence
