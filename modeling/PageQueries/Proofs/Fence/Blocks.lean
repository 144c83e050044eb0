import PageQueries.Proofs.Fence.Grammar

/-!
# The blocks of a page

The queries of a page, told by its lines alone: the first line that opens a
block which some later line closes begins a block, the first such later line
ends it, and the search goes on with the line behind (`Blocks`). Every line
before, between and behind the blocks is `Plain`: it opens nothing that is ever
closed.

`extract` works through the characters of the page. At the start of a line it
is at `extractLines` of the lines that are left; the step lemmas
`extractLines_plain` and `extractLines_block` are those of `Blocks`, so the two
agree by induction on the lines.

Results:
* `extract_iff_blocks`: the queries of a page are those of its blocks.
-/
namespace PageQueries.Fence

open Text

/-- The first of the lines opens a block that a later one closes. -/
def Begins (language : Text) (ls : List Text) : Prop :=
  ∃ fence id opening later, ls = opening :: later ∧ IsOpening language fence id opening ∧
    ∃ l ∈ later, IsClosing fence l

/-- None of the lines `before` begins a block when the lines `rest` come behind them. -/
def Plain (language : Text) (before rest : List Text) : Prop :=
  ∀ late, late <:+ before → late ≠ [] → ¬ Begins language (late ++ rest)

/-- The queries of the blocks among some lines, in order. -/
inductive Blocks (language : Text) : List Text → List Record → Prop
  | none {ls : List Text} (plain : Plain language ls []) : Blocks language ls []
  | block {before body after : List Text} {opening closing id : Text} {fence : Fence}
      {records : List Record}
      (plain : Plain language before (opening :: (body ++ closing :: after)))
      (opens : IsOpening language fence id opening)
      (inside : ∀ l ∈ body, ¬ IsClosing fence l)
      (closes : IsClosing fence closing)
      (rest : Blocks language after records) :
      Blocks language (before ++ opening :: (body ++ closing :: after))
        (⟨id, trim (join ['\n'] body), false, []⟩ :: records)

variable {language l : Text} {later before rest : List Text}

theorem plain_nil : Plain language [] rest := by
  intro late hs hne
  exact absurd (List.suffix_nil.mp hs) hne

theorem plain_cons : Plain language (l :: before) rest ↔
    ¬ Begins language (l :: (before ++ rest)) ∧ Plain language before rest := by
  constructor
  · intro h
    refine ⟨h (l :: before) (List.suffix_refl _) (List.cons_ne_nil l before), ?_⟩
    exact fun late hs hne => h late (hs.trans (List.suffix_cons l before)) hne
  · rintro ⟨hl, hbefore⟩ late hs hne
    rcases List.suffix_cons_iff.mp hs with rfl | hs
    · exact hl
    · exact hbefore late hs hne

theorem plain_append {middle : List Text} :
    Plain language (before ++ middle) rest ↔
      Plain language before (middle ++ rest) ∧ Plain language middle rest := by
  induction before with
  | nil => simp [plain_nil]
  | cons l before ih =>
    rw [List.cons_append, plain_cons, plain_cons, ih, List.append_assoc, and_assoc]

theorem Inert.not_begins (h : Inert language l) : ¬ Begins language (l :: later) := by
  intro hbegins
  obtain ⟨fence, id, opening, later, he, hopens, -⟩ := hbegins
  cases he
  exact h.opens fence id hopens

theorem plain_of_inert (h : ∀ m ∈ before, Inert language m) : Plain language before rest := by
  induction before with
  | nil => exact plain_nil
  | cons m before ih =>
    obtain ⟨hm, hbefore⟩ := List.forall_mem_cons.mp h
    exact plain_cons.mpr ⟨hm.not_begins, ih hbefore⟩

/-- A plain line opens nothing that is closed behind it. -/
theorem Plain.not_isClosing {fence : Fence} {id m : Text} (h : Plain language before rest)
    (hl : l ∈ before) (hopens : IsOpening language fence id l) (hm : m ∈ rest) :
    ¬ IsClosing fence m := by
  intro hcloses
  obtain ⟨front, late, rfl⟩ := List.append_of_mem hl
  obtain ⟨hbegins, -⟩ := plain_cons.mp (plain_append.mp h).2
  exact hbegins ⟨fence, id, l, late ++ rest, rfl, hopens, m, List.mem_append_right late hm, hcloses⟩

/-- A plain line in front changes nothing. -/
theorem Blocks.cons {records : List Record} (hl : ¬ Begins language (l :: later))
    (h : Blocks language later records) : Blocks language (l :: later) records := by
  cases h with
  | none plain =>
    refine .none (plain_cons.mpr ⟨?_, plain⟩)
    rwa [List.append_nil]
  | block plain opens inside closes rest =>
    exact .block (plain_cons.mpr ⟨hl, plain⟩) opens inside closes rest

theorem Blocks.append {records : List Record} (hbefore : Plain language before later)
    (h : Blocks language later records) : Blocks language (before ++ later) records := by
  induction before with
  | nil => exact h
  | cons l before ih =>
    obtain ⟨hl, hbefore⟩ := plain_cons.mp hbefore
    exact (ih hbefore).cons hl

theorem Blocks.eq_nil {records : List Record} (h : Blocks language [] records) : records = [] := by
  generalize hls : ([] : List Text) = ls at h
  cases h with
  | none => rfl
  | block => simp at hls

theorem Blocks.plain {ls : List Text} (h : Blocks language ls []) : Plain language ls [] := by
  cases h with
  | none plain => exact plain

/-- The first of the queries comes from the first block. -/
theorem Blocks.exists_block {ls : List Text} {r : Record} {records : List Record}
    (h : Blocks language ls (r :: records)) :
    ∃ before opening body closing after fence,
      ls = before ++ opening :: (body ++ closing :: after) ∧
      Plain language before (opening :: (body ++ closing :: after)) ∧
      IsOpening language fence r.id opening ∧ (∀ l ∈ body, ¬ IsClosing fence l) ∧
      IsClosing fence closing ∧ r.text = trim (join ['\n'] body) ∧
      Blocks language after records := by
  cases h with
  | block plain opens inside closes rest =>
    exact ⟨_, _, _, _, _, _, rfl, plain, opens, inside, closes, rfl, rest⟩

/-- What an extracted query looks like, whatever the page. -/
theorem Blocks.shape {ls : List Text} {records : List Record}
    (h : Blocks language ls records) :
    ∀ r ∈ records, r.inline = false ∧ dropEnd isBlank r.text = r.text ∧ '\n' ∉ r.id := by
  induction h with
  | none => exact List.forall_mem_nil _
  | block _ opens _ _ _ ih =>
    obtain ⟨t, rest, -, blanks, gap, -, -, -, -, hid⟩ := opens
    exact List.forall_mem_cons.mpr ⟨⟨rfl, dropEnd_dropEnd isBlank _, hid.notMem⟩, ih⟩

/-! ## One block -/

theorem trim_terminated (body : List Text) : trim (terminated body) = trim (join ['\n'] body) := by
  by_cases h : body = []
  · rw [h]
    rfl
  · rw [terminated_eq_join h]
    refine trim_append fun c hc => ?_
    rw [List.mem_singleton.mp hc]
    decide

theorem splitAtLine?_closing {fence : Fence} {t u r : Text} :
    splitAtLine? (closing? fence) t = some (u, r) ↔
      ∃ body closing after, lines t = body ++ closing :: after ∧
        (∀ m ∈ body, ¬ IsClosing fence m) ∧ u = terminated body ∧
        IsClosing fence closing ∧ r = continued after := by
  have hline (l : Text) (later : List Text) (hl : '\n' ∉ l) :
      closing? fence (l ++ continued later) = none ↔ ¬ IsClosing fence l := by
    rw [Option.eq_none_iff_forall_ne_some]
    constructor
    · exact fun h hc => h _ ((closing?_line hl).mpr ⟨hc, rfl⟩)
    · exact fun h r hr => h ((closing?_line hl).mp hr).1
  rw [splitAtLine?_eq_some_iff hline]
  constructor
  · rintro ⟨body, closing, after, ht, hbody, hu, hc⟩
    exact ⟨body, closing, after, ht, hbody, hu, (closing?_line (notMem_of_lines_eq ht)).mp hc⟩
  · rintro ⟨body, closing, after, ht, hbody, hu, hc⟩
    exact ⟨body, closing, after, ht, hbody, hu, (closing?_line (notMem_of_lines_eq ht)).mpr hc⟩

/-- The block that a line opens, as it is read. -/
theorem block?_line (hlang : '\n' ∉ language) (hlines : ∀ m ∈ l :: later, '\n' ∉ m)
    {r : Record × Text} :
    block? language (l ++ continued later) = some r ↔
      ∃ fence id body closing after, later = body ++ closing :: after ∧
        IsOpening language fence id l ∧ (∀ m ∈ body, ¬ IsClosing fence m) ∧
        IsClosing fence closing ∧
        r = (⟨id, trim (join ['\n'] body), false, []⟩, continued after) := by
  obtain ⟨hl, hlater⟩ := List.forall_mem_cons.mp hlines
  simp only [block?, Option.bind_eq_bind, Option.bind_eq_some_iff, Option.some.injEq]
  constructor
  · rintro ⟨⟨o, text⟩, ho, ⟨u, r⟩, hs, rfl⟩
    obtain ⟨hopens, next, behind, rfl, rfl⟩ := (opening?_line hlang hl).mp ho
    obtain ⟨body, closing, after, he, hbody, rfl, hcloses, rfl⟩ := splitAtLine?_closing.mp hs
    obtain ⟨hnext, hbehind⟩ := List.forall_mem_cons.mp hlater
    rw [lines_append_continued hnext hbehind] at he
    exact ⟨o.fence, o.id, body, closing, after, he, hopens, hbody, hcloses,
      by rw [trim_terminated]⟩
  · rintro ⟨fence, id, body, closing, after, he, hopens, hbody, hcloses, rfl⟩
    obtain ⟨next, behind, rfl⟩ : ∃ next behind, later = next :: behind :=
      List.exists_cons_of_ne_nil (by simp [he])
    obtain ⟨hnext, hbehind⟩ := List.forall_mem_cons.mp hlater
    refine ⟨(⟨fence, id⟩, next ++ continued behind), ?_, (terminated body, continued after), ?_, ?_⟩
    · exact (opening?_line hlang hl).mpr ⟨hopens, next, behind, rfl, rfl⟩
    · refine splitAtLine?_closing.mpr ⟨body, closing, after, ?_, hbody, rfl, hcloses, rfl⟩
      rw [lines_append_continued hnext hbehind, he]
    · rw [trim_terminated]

theorem begins_iff (hlang : '\n' ∉ language) (hlines : ∀ m ∈ l :: later, '\n' ∉ m) :
    Begins language (l :: later) ↔ ∃ r, block? language (l ++ continued later) = some r := by
  constructor
  · rintro ⟨fence, id, opening, later', he, hopens, hcloses⟩
    cases he
    obtain ⟨body, closing, after, he, hbody, hclosing⟩ := exists_first hcloses
    exact ⟨_, (block?_line hlang hlines).mpr
      ⟨fence, id, body, closing, after, he, hopens, hbody, hclosing, rfl⟩⟩
  · rintro ⟨r, hr⟩
    obtain ⟨fence, id, body, closing, after, rfl, hopens, -, hcloses, -⟩ :=
      (block?_line hlang hlines).mp hr
    exact ⟨fence, id, l, _, rfl, hopens, closing, by simp, hcloses⟩

/-! ## Line by line -/

theorem extractFrom_false_nil : extractFrom language false [] = [] := by
  rw [extractFrom]
  rfl

theorem extractFrom_false_cons (c : Char) (t : Text) :
    extractFrom language false (c :: t) = extractFrom language (c == '\n') t := by
  rw [extractFrom]
  rfl

theorem extractFrom_true (t : Text) :
    extractFrom language true t =
      match block? language t with
      | some (record, rest) => record :: extractFrom language false rest
      | none => extractFrom language false t := by
  rw [extractFrom]
  split
  · next record rest h =>
    rw [if_pos rfl] at h
    rw [h]
  · next h =>
    rw [if_pos rfl] at h
    cases t with
    | nil =>
      rw [extractFrom_false_nil]
      simp only [h]
    | cons c t =>
      rw [extractFrom_false_cons]
      simp only [h]

/-- The queries from the first of some lines on. -/
def extractLines (language : Text) (ls : List Text) : List Record :=
  extractFrom language false (continued ls)

theorem extractLines_nil : extractLines language [] = [] := extractFrom_false_nil

theorem extractFrom_false_line (hl : '\n' ∉ l) :
    extractFrom language false (l ++ continued later) = extractLines language later := by
  induction l with
  | nil => rfl
  | cons c l ih =>
    rw [List.mem_cons, not_or] at hl
    rw [List.cons_append, extractFrom_false_cons, beq_false_of_ne (Ne.symm hl.1), ih hl.2]

theorem extractLines_cons (hl : '\n' ∉ l) :
    extractLines language (l :: later) =
      match block? language (l ++ continued later) with
      | some (record, rest) => record :: extractFrom language false rest
      | none => extractLines language later := by
  rw [extractLines, continued_cons, extractFrom_false_cons, beq_self_eq_true, extractFrom_true,
    extractFrom_false_line hl]

theorem extractLines_of_not_begins (hlang : '\n' ∉ language)
    (hlines : ∀ m ∈ l :: later, '\n' ∉ m) (h : ¬ Begins language (l :: later)) :
    extractLines language (l :: later) = extractLines language later := by
  have hnone : block? language (l ++ continued later) = none := by
    rw [Option.eq_none_iff_forall_ne_some]
    exact fun r hr => h ((begins_iff hlang hlines).mpr ⟨r, hr⟩)
  rw [extractLines_cons (hlines l List.mem_cons_self), hnone]

theorem extractLines_plain (hlang : '\n' ∉ language) (hlines : ∀ m ∈ before ++ rest, '\n' ∉ m)
    (h : Plain language before rest) :
    extractLines language (before ++ rest) = extractLines language rest := by
  induction before with
  | nil => rfl
  | cons l before ih =>
    obtain ⟨hl, hbefore⟩ := plain_cons.mp h
    rw [List.cons_append] at hlines ⊢
    have htail := (List.forall_mem_cons.mp hlines).2
    rw [extractLines_of_not_begins hlang hlines hl, ih htail hbefore]

theorem extractLines_block (hlang : '\n' ∉ language) {fence : Fence} {id opening closing : Text}
    {body after : List Text} (hlines : ∀ m ∈ opening :: (body ++ closing :: after), '\n' ∉ m)
    (hopens : IsOpening language fence id opening) (hbody : ∀ m ∈ body, ¬ IsClosing fence m)
    (hcloses : IsClosing fence closing) :
    extractLines language (opening :: (body ++ closing :: after))
      = ⟨id, trim (join ['\n'] body), false, []⟩ :: extractLines language after := by
  have hblock := (block?_line hlang hlines).mpr
    ⟨fence, id, body, closing, after, rfl, hopens, hbody, hcloses, rfl⟩
  rw [extractLines_cons (hlines opening List.mem_cons_self), hblock]
  rfl

/-- The reader finds the blocks that there are. -/
theorem extractLines_eq_of_blocks (hlang : '\n' ∉ language) {ls : List Text}
    {records : List Record} (h : Blocks language ls records) (hlines : ∀ m ∈ ls, '\n' ∉ m) :
    extractLines language ls = records := by
  induction h with
  | @none ls plain =>
    have hend : extractLines language (ls ++ []) = extractLines language [] :=
      extractLines_plain hlang (by rwa [List.append_nil]) plain
    rwa [List.append_nil, extractLines_nil] at hend
  | block plain opens inside closes _ ih =>
    have hblock := fun m hm => hlines m (List.mem_append_right _ hm)
    have hafter := fun m hm =>
      hblock m (List.mem_cons_of_mem _ (List.mem_append_right _ (List.mem_cons_of_mem _ hm)))
    rw [extractLines_plain hlang hlines plain,
      extractLines_block hlang hblock opens inside closes, ih hafter]

/-- What the reader finds are blocks. Induction on the number of lines, since behind a block the
search goes on with fewer of them. -/
theorem blocks_extractLines (hlang : '\n' ∉ language) (ls : List Text)
    (hlines : ∀ m ∈ ls, '\n' ∉ m) : Blocks language ls (extractLines language ls) := by
  induction hn : ls.length using Nat.strongRecOn generalizing ls with
  | ind n ih =>
    cases ls with
    | nil =>
      rw [extractLines_nil]
      exact .none plain_nil
    | cons l later =>
      rw [List.length_cons] at hn
      by_cases hbegins : Begins language (l :: later)
      · obtain ⟨fence, id, opening, later', he, hopens, hcloses⟩ := hbegins
        cases he
        obtain ⟨body, closing, after, rfl, hbody, hclosing⟩ := exists_first hcloses
        have hafter : ∀ m ∈ after, '\n' ∉ m := fun m hm => hlines m (by simp [hm])
        have hlen : after.length < n := by
          rw [List.length_append, List.length_cons] at hn
          omega
        rw [extractLines_block hlang hlines hopens hbody hclosing]
        have hrest := ih after.length hlen after hafter rfl
        exact Blocks.block plain_nil hopens hbody hclosing hrest
      · rw [extractLines_of_not_begins hlang hlines hbegins]
        have hlater := (List.forall_mem_cons.mp hlines).2
        exact (ih later.length (by omega) later hlater rfl).cons hbegins

theorem extract_eq_extractLines (language content : Text) :
    extract language content = extractLines language (lines content) := by
  rw [extractLines, continued_lines, extractFrom_false_cons, beq_self_eq_true, extract]

/-- **The queries of a page are those of its blocks**, for every language without line feed. -/
theorem extract_iff_blocks (hlang : '\n' ∉ language) (content : Text) (records : List Record) :
    extract language content = records ↔ Blocks language (lines content) records := by
  have hlines : ∀ m ∈ lines content, '\n' ∉ m := fun m hm => notMem_of_mem_lines hm
  rw [extract_eq_extractLines]
  constructor
  · rintro rfl
    exact blocks_extractLines hlang (lines content) hlines
  · exact fun h => extractLines_eq_of_blocks hlang h hlines

/-- A page with an opening that is never closed, one inside a block, and a block at its end. -/
def mixedPage : Text :=
  "~~~c++ never\n```c++\tx-1 tail\n~~~c++ inner\n``` \n```cxx other\n```c++ last\n```".toList

theorem extract_iff_blocks_mixedPage :
    '\n' ∉ "c++".toList ∧ Blocks "c++".toList (lines mixedPage)
      [⟨"x-1".toList, "~~~c++ inner".toList, false, []⟩, ⟨"last".toList, [], false, []⟩] :=
  ⟨by decide, (extract_iff_blocks (by decide) mixedPage _).mp (by cbv)⟩

end PageQueries.Fence
