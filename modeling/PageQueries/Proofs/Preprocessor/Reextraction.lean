import PageQueries.Proofs.Fence.Inserted
import PageQueries.Proofs.Markup
import PageQueries.Proofs.Preprocessor.Insertion

/-!
# Extracting the queries of a processed page

The page that the markup phase gives holds the views of its queries, and its
queries can be extracted again. The views come into one line of the page: the
first, which then goes on behind the last view, or the line that ends the
frontmatter. They are lines of their own or parts of such, and open and close
no blocks as long as the texts of the queries do not, from their second lines
on.

Then the same queries are found exactly if no block reaches over that line and
none begins with it (`Outside`). So a page that begins with a block loses it: no
line end separates its opening line from the views in front.

Results:
* `lines_withViews`: the lines of the page with the views.
* `reextraction_iff`: when the page with the views has the same queries.
-/
namespace PageQueries

open Text Fence

/-- No block of the text reaches over the line that the offset lies in, and none begins with it. -/
def Fence.Outside (language content : Text) (offset : Nat) : Prop :=
  ∃ before start rest after records, lines content = before ++ (start ++ rest) :: after ∧
    offset = (terminated before ++ start).length ∧
    Ended language ((start ++ rest) :: after) before records ∧
    ¬ Begins language ((start ++ rest) :: after)

namespace Preprocessor

variable {h : Hooks} {content start rest : Text} {before after : List Text} {records : List Record}

/-! ## The page with the views -/

/-- The views without the line feeds in front. -/
def viewText (h : Hooks) (records : List Record) : Text :=
  join ['\n'] ((records.filter (!·.inline)).map fun r => h.highlight r.text (lower r.id))

/-- The lines in front of a place in a line. -/
theorem lines_front (hlines : lines content = before ++ (start ++ rest) :: after) :
    lines (terminated before ++ start) = before ++ [start] := by
  obtain ⟨-, hfeed⟩ := lines_eq_append_iff.mp hlines
  refine lines_eq_append_iff.mpr ⟨by simp, fun m hm => ?_⟩
  rcases List.mem_append.mp hm with hbefore | hstart
  · exact hfeed m (List.mem_append_left _ hbefore)
  · rw [List.mem_singleton.mp hstart]
    have hline := hfeed (start ++ rest) (by simp)
    exact fun hc => hline (List.mem_append_left rest hc)

theorem eq_append_of_lines (hlines : lines content = before ++ (start ++ rest) :: after) :
    content = (terminated before ++ start) ++ (rest ++ continued after) := by
  rw [(lines_eq_append_iff.mp hlines).1]
  simp only [List.append_assoc]

/-- An offset determines the place that it is. -/
theorem place_unique {before' after' : List Text} {start' rest' : Text}
    (hlines : lines content = before ++ (start ++ rest) :: after)
    (hlines' : lines content = before' ++ (start' ++ rest') :: after')
    (hoffset : (terminated before ++ start).length = (terminated before' ++ start').length) :
    before = before' ∧ start = start' ∧ rest = rest' ∧ after = after' := by
  obtain ⟨hfront, -⟩ := List.append_inj
    ((eq_append_of_lines hlines).symm.trans (eq_append_of_lines hlines')) hoffset
  have hsame := congrArg lines hfront
  rw [lines_front hlines, lines_front hlines'] at hsame
  obtain ⟨rfl, rfl⟩ := List.append_singleton_inj.mp hsame
  rw [hlines] at hlines'
  obtain ⟨hline, rfl⟩ := List.cons.inj (List.append_cancel_left hlines')
  exact ⟨rfl, rfl, List.append_cancel_left hline, rfl⟩

theorem lines_withViews (hlines : lines content = before ++ (start ++ rest) :: after)
    (hoffset : insertionOffset h content = (terminated before ++ start).length) :
    lines (withViews h content records)
      = before ++ ((start :: [] :: [] :: lines (viewText h records ++ rest)) ++ after) := by
  have hcontent := eq_append_of_lines hlines
  have htake : content.take (insertionOffset h content) = terminated before ++ start := by
    rw [hoffset]
    exact (congrArg (List.take _) hcontent).trans List.take_left
  have hdrop : content.drop (insertionOffset h content) = rest ++ continued after := by
    rw [hoffset]
    exact (congrArg (List.drop _) hcontent).trans List.drop_left
  have htext : withViews h content records = (terminated before ++ start) ++
      '\n' :: ([] ++ '\n' :: ([] ++ '\n' ::
        (viewText h records ++ rest ++ continued after))) := by
    unfold withViews
    simp only [htake, hdrop]
    simp [views, viewText]
  have hafter : ∀ m ∈ after, '\n' ∉ m :=
    fun m hm => (lines_eq_append_iff.mp hlines).2 m (by simp [hm])
  rw [htext, lines_append_lineFeed, lines_front hlines, lines_append List.not_mem_nil,
    lines_append List.not_mem_nil, lines_append_later _ hafter]
  simp only [List.append_assoc, List.nil_append, List.cons_append]

/-- The line that the views come into, and where: the first line, or the line that ends the
frontmatter. -/
theorem exists_place (content : Text) :
    ∃ before start rest after, lines content = before ++ (start ++ rest) :: after ∧
      insertionOffset .default content = (terminated before ++ start).length ∧
      (before = [] ∧ start = [] ∨
        start = Frontmatter.delimiter ∧ ∀ c, rest.head? = some c → isBlank c = true) := by
  cases hf : Frontmatter.find? content with
  | none =>
    have hnone : Frontmatter.inner? content = none := by
      rw [Frontmatter.inner?, hf]
      rfl
    have hdetected : Hooks.default.frontmatter content = none := hnone
    have hstart : insertionOffset .default content = 0 := by
      rw [insertionOffset, hdetected]
      rfl
    obtain ⟨l, later, hlines⟩ := exists_lines_eq_cons content
    exact ⟨[], [], l, later, hlines, hstart, Or.inl ⟨rfl, rfl⟩⟩
  | some f =>
    obtain ⟨L, hL, -⟩ := Frontmatter.find?_eq_some_iff.mp hf
    refine ⟨L.opening :: L.inside, Frontmatter.delimiter, L.blanks ++ L.carriage, L.after, ?_,
      insertionOffset_of_layout rfl hL, Or.inr ⟨rfl, fun c hc => ?_⟩⟩
    · rw [hL, Frontmatter.Layout.lines, Frontmatter.Layout.closing, List.append_assoc]
      rfl
    · have hblank : ∀ c ∈ L.blanks ++ L.carriage, isBlank c = true := by
        intro c hc
        rcases List.mem_append.mp hc with hc | hc
        · exact isBlank_of_isInlineBlank (L.inlineBlanks c hc)
        · rcases L.isCarriage with hnil | hreturn
          · rw [hnil] at hc
            exact absurd hc List.not_mem_nil
          · rw [hreturn] at hc
            exact List.mem_singleton.mp hc ▸ by decide
      exact hblank c (List.mem_of_head? hc)

/-! ## The lines of the views -/

theorem viewText_default (hshape : ∀ r ∈ records, r.inline = false) : viewText .default records
    = join ['\n'] (records.map fun r => Markup.highlight r.text (lower r.id)) := by
  have hall : records.filter (!·.inline) = records :=
    List.filter_eq_self.mpr fun r hr => by rw [hshape r hr]; rfl
  rw [viewText, hall]
  rfl

/-- The views are as quiet as the texts that they show, whatever goes on behind the last one. -/
theorem inert_of_mem_viewText (hne : records ≠ [])
    (hshape : ∀ r ∈ records, r.inline = false ∧ dropEnd isBlank r.text = r.text ∧ '\n' ∉ r.id)
    (hquiet : ∀ r ∈ records, ∀ l ∈ (lines r.text).tail, Inert defaultLanguage l)
    (hrest : '\n' ∉ rest) :
    ∀ m ∈ lines (viewText .default records ++ rest), Inert defaultLanguage m := by
  intro m hm
  rw [viewText_default fun r hr => (hshape r hr).1] at hm
  obtain ⟨part, hpart, hline⟩ := exists_of_mem_lines_join (by simpa using hne) hm
  obtain ⟨r, hr, rfl⟩ := List.mem_map.mp hpart
  obtain ⟨-, htext, hid⟩ := hshape r hr
  have hinert (u : Text) (hu : '\n' ∉ u)
      (hmem : m ∈ lines (Markup.highlight r.text (lower r.id) ++ u)) : Inert defaultLanguage m :=
    Markup.inert_of_mem_lines_highlight (by decide) (by decide) htext (hquiet r hr)
      (Markup.notMem_lower hid) hu hmem
  rcases hline with hline | hline
  · exact hinert [] List.not_mem_nil (by rwa [List.append_nil])
  · exact hinert rest hrest hline

theorem solid_viewText_ne_nil (hne : records ≠ []) (hshape : ∀ r ∈ records, r.inline = false) :
    solid (lines (viewText .default records ++ rest)) ≠ [] := by
  obtain ⟨r, later, rfl⟩ := List.exists_cons_of_ne_nil hne
  obtain ⟨t, ht⟩ := Markup.exists_viewStart_eq_cons (lower r.id)
  have htag : '<' ∈ Markup.highlight r.text (lower r.id) := by
    have hview := Markup.highlight_append r.text (lower r.id) []
    rw [List.append_nil, ht] at hview
    rw [hview]
    exact List.mem_cons_self
  have hmem : '<' ∈ viewText .default (r :: later) ++ rest := by
    rw [viewText_default hshape]
    exact List.mem_append_left rest (mem_join List.mem_cons_self htag)
  obtain ⟨l, hl, hcl⟩ := exists_mem_lines hmem (by decide)
  exact solid_ne_nil hl hcl (by decide)

/-! ## The queries of the page with the views -/

/-- What the markup phase puts between the lines, with the parts of the line that it takes apart. -/
def insertedLines (records : List Record) (start rest : Text) : List Text :=
  start :: [] :: [] :: lines (viewText .default records ++ rest)

/-- The views have more solid lines than the line that ends the frontmatter. -/
theorem length_solid_lt_inserted (hne : records ≠ []) (hinline : ∀ r ∈ records, r.inline = false)
    (hstart : start = Frontmatter.delimiter) (rest : Text) :
    (solid [start ++ rest]).length < (solid (insertedLines records start rest)).length := by
  have hviews : 0 < (solid (lines (viewText .default records ++ rest))).length :=
    List.length_pos_iff.mpr (solid_viewText_ne_nil hne hinline)
  have hone : (solid [start ++ rest]).length ≤ 1 := by
    rw [solid_singleton]
    split <;> simp
  have hdelimiter : solid (insertedLines records start rest)
      = Frontmatter.delimiter :: solid (lines (viewText .default records ++ rest)) := by
    rw [insertedLines, hstart]
    rfl
  rw [hdelimiter, List.length_cons]
  omega

theorem outside_iff {language : Text}
    (hlines : lines content = before ++ (start ++ rest) :: after) :
    Outside language content (terminated before ++ start).length ↔
      (∃ records, Ended language ((start ++ rest) :: after) before records) ∧
        ¬ Begins language ((start ++ rest) :: after) := by
  constructor
  · intro h
    obtain ⟨before', start', rest', after', records, hlines', hoffset, hended, hbegins⟩ := h
    obtain ⟨rfl, rfl, rfl, rfl⟩ := place_unique hlines hlines' hoffset
    exact ⟨⟨records, hended⟩, hbegins⟩
  · intro h
    obtain ⟨⟨records, hended⟩, hbegins⟩ := h
    exact ⟨before, start, rest, after, records, hlines, rfl, hended, hbegins⟩

theorem notMem_defaultLanguage : '\n' ∉ defaultLanguage := by decide

theorem viewText_nil (h : Hooks) : viewText h [] = [] := rfl

theorem extract_eq_of_lines (hlines : lines content = before ++ (start ++ rest) :: after) :
    extract defaultLanguage content
      = extractLines defaultLanguage (before ++ (start ++ rest) :: after) := by
  rw [extract_eq_extractLines, hlines]

/-- Lines without queries are plain. -/
theorem plain_of_extract_eq_nil (hlines : lines content = before ++ (start ++ rest) :: after)
    (h : extract defaultLanguage content = []) :
    Plain defaultLanguage before ((start ++ rest) :: after) ∧
      ¬ Begins defaultLanguage ((start ++ rest) :: after) := by
  have hplain := ((extract_iff_blocks notMem_defaultLanguage content []).mp h).plain
  rw [hlines] at hplain
  obtain ⟨hbefore, hbehind⟩ := plain_append.mp hplain
  have hbegins := (plain_cons.mp hbehind).1
  rw [List.append_nil] at hbefore hbegins
  exact ⟨hbefore, hbegins⟩

section Insert

variable (hlines : lines content = before ++ (start ++ rest) :: after)

include hlines

theorem notMem_inserted (records : List Record) : ∀ m ∈ before ++ (start ++ rest)
    :: (insertedLines records start rest ++ after), '\n' ∉ m := by
  have hfeed := (lines_eq_append_iff.mp hlines).2
  have hline : '\n' ∉ start ++ rest := hfeed (start ++ rest) (by simp)
  rw [List.mem_append, not_or] at hline
  have hinserted : ∀ m ∈ insertedLines records start rest, '\n' ∉ m := by
    intro m hm
    simp only [insertedLines, List.mem_cons] at hm
    rcases hm with rfl | rfl | rfl | hm
    · exact hline.1
    · exact List.not_mem_nil
    · exact List.not_mem_nil
    · exact notMem_of_mem_lines hm
  intro m hm
  simp only [List.mem_append, List.mem_cons] at hm
  rcases hm with hm | rfl | hm | hm
  · exact hfeed m (by simp [hm])
  · exact hfeed _ (by simp)
  · exact hinserted m hm
  · exact hfeed m (by simp [hm])

/-- Without queries, the views are three line feeds. -/
theorem insertedLines_nil : insertedLines [] start rest = [start, [], [], rest] := by
  have hline := (lines_eq_append_iff.mp hlines).2 (start ++ rest) (by simp)
  have hrest : lines rest = [rest] :=
    lines_of_notMem fun hc => hline (List.mem_append_right start hc)
  rw [insertedLines, viewText_nil, List.nil_append, hrest]

variable (hquiet : ∀ r ∈ extract defaultLanguage content, ∀ l ∈ (lines r.text).tail,
  Inert defaultLanguage l)

include hquiet

theorem inert_of_mem_inserted (hne : extract defaultLanguage content ≠ [])
    (hstart : Inert defaultLanguage start) :
    ∀ m ∈ insertedLines (extract defaultLanguage content) start rest, Inert defaultLanguage m := by
  have hshape := ((extract_iff_blocks notMem_defaultLanguage content _).mp rfl).shape
  have hline := (lines_eq_append_iff.mp hlines).2 (start ++ rest) (by simp)
  have hviews := inert_of_mem_viewText hne hshape hquiet
    fun hc => hline (List.mem_append_right start hc)
  intro m hm
  simp only [insertedLines, List.mem_cons] at hm
  rcases hm with rfl | rfl | rfl | hm
  · exact hstart
  · exact inert_nil
  · exact inert_nil
  · exact hviews m hm

/-- Behind frontmatter, the line neither opens nor closes a block, nor do its parts. -/
theorem insert_iff_of_delimiter (hstart : start = Frontmatter.delimiter)
    (hrest : ∀ c, rest.head? = some c → isBlank c = true) :
    extractLines defaultLanguage
        (before ++ (insertedLines (extract defaultLanguage content) start rest ++ after))
      = extract defaultLanguage content ↔
      (∃ records, Ended defaultLanguage ((start ++ rest) :: after) before records) ∧
        ¬ Begins defaultLanguage ((start ++ rest) :: after) := by
  have hfeed := notMem_inserted hlines (extract defaultLanguage content)
  have hdashes (u : Text) : Inert defaultLanguage (Frontmatter.delimiter ++ u) :=
    inert_cons (by decide) (by decide) (['-', '-'] ++ u)
  have hline : Inert defaultLanguage (start ++ rest) := hstart ▸ hdashes rest
  have hstart' : Inert defaultLanguage start := by
    have hdelimiter := hdashes []
    rwa [List.append_nil, ← hstart] at hdelimiter
  by_cases hne : extract defaultLanguage content = []
  · obtain ⟨hplain, hbegins⟩ := plain_of_extract_eq_nil hlines hne
    have hinert : ∀ m ∈ insertedLines [] start rest, Inert defaultLanguage m := by
      intro m hm
      rw [insertedLines_nil hlines] at hm
      simp only [List.mem_cons, List.not_mem_nil, or_false] at hm
      rcases hm with rfl | rfl | rfl | rfl
      · exact hstart'
      · exact inert_nil
      · exact inert_nil
      · exact inert_of_blank hrest
    have hsame := extractLines_insert notMem_defaultLanguage hinert (notMem_inserted hlines [])
      (.none hplain) hbegins
    rw [hne]
    refine iff_of_true (hsame.trans ?_) ⟨⟨[], .none hplain⟩, hbegins⟩
    rw [← extract_eq_of_lines hlines, hne]
  · have hinert := inert_of_mem_inserted hlines hquiet hne hstart'
    have hinline : ∀ r ∈ extract defaultLanguage content, r.inline = false := fun r hr =>
      (((extract_iff_blocks notMem_defaultLanguage content _).mp rfl).shape r hr).1
    have hsolid := length_solid_lt_inserted hne hinline hstart rest
    rw [extract_eq_of_lines hlines] at hinert hfeed hsolid ⊢
    constructor
    · intro h
      refine ⟨(ended_or_reaches _ _ _).resolve_right fun hreaches => ?_, hline.not_begins⟩
      exact extractLines_ne_of_reaches notMem_defaultLanguage hinert hline hfeed hsolid hreaches h
    · intro h
      obtain ⟨⟨records, hended⟩, hbegins⟩ := h
      exact extractLines_insert notMem_defaultLanguage hinert hfeed hended hbegins

/-- At the start of a page, no block reaches over the line. -/
theorem insert_iff_of_first (hbefore : before = []) (hstart : start = []) :
    extractLines defaultLanguage
        (before ++ (insertedLines (extract defaultLanguage content) start rest ++ after))
      = extract defaultLanguage content ↔
      (∃ records, Ended defaultLanguage ((start ++ rest) :: after) before records) ∧
        ¬ Begins defaultLanguage ((start ++ rest) :: after) := by
  subst hbefore hstart
  have hcontent := extract_eq_of_lines hlines
  have hfeed := notMem_inserted hlines (extract defaultLanguage content)
  have hended : Ended defaultLanguage (([] ++ rest) :: after) [] [] := .none plain_nil
  by_cases hne : extract defaultLanguage content = []
  · obtain ⟨-, hbegins⟩ := plain_of_extract_eq_nil hlines hne
    have hvoid : ∀ m ∈ [[], [], []], Inert defaultLanguage m := by
      intro m hm
      simp only [List.mem_cons, List.not_mem_nil, or_false, or_self] at hm
      exact hm ▸ inert_nil
    have hlater : ∀ m ∈ [[], [], []] ++ rest :: after, '\n' ∉ m := by
      intro m hm
      exact notMem_inserted hlines [] m (by rw [insertedLines_nil hlines]; grind)
    refine iff_of_true ?_ ⟨⟨[], hended⟩, hbegins⟩
    rw [hne, insertedLines_nil hlines, ← hne, hcontent]
    exact extractLines_inert notMem_defaultLanguage hvoid hlater
  · have hinert := inert_of_mem_inserted hlines hquiet hne inert_nil
    constructor
    · intro h
      refine ⟨⟨[], hended⟩, fun hbegins => ?_⟩
      have hsame : extractLines defaultLanguage
          (insertedLines (extract defaultLanguage content) [] rest ++ after)
            = extractLines defaultLanguage after :=
        extractLines_inert notMem_defaultLanguage hinert fun m hm => hfeed m (by grind)
      rw [hcontent] at hquiet
      exact extractLines_ne_of_begins notMem_defaultLanguage (fun m hm => hfeed m (by grind))
        hbegins hquiet (hsame.symm.trans (h.trans hcontent))
    · intro h
      obtain ⟨⟨records, hended⟩, hbegins⟩ := h
      rw [hcontent] at hinert hfeed ⊢
      exact extractLines_insert notMem_defaultLanguage hinert hfeed hended hbegins

end Insert

theorem markup_default {p : Preprocessor} {filename : Text} (hm : p.handles filename = true) :
    (p.markup .default content filename).answer
      = .ok (some (withViews .default content (extract defaultLanguage content))) := by
  rw [markup_ok hm (records_default content filename)]

/-- **The page with the views has the same queries exactly if the views stand outside its
blocks.** -/
theorem reextraction_iff {p : Preprocessor} {filename : Text} (hm : p.handles filename = true)
    (hquiet : ∀ r ∈ extract defaultLanguage content, ∀ l ∈ (lines r.text).tail,
      Inert defaultLanguage l) :
    ∃ code, (p.markup .default content filename).answer = .ok (some code) ∧
      (extract defaultLanguage code = extract defaultLanguage content ↔
        Outside defaultLanguage content (insertionOffset .default content)) := by
  refine ⟨withViews .default content (extract defaultLanguage content), markup_default hm, ?_⟩
  obtain ⟨before, start, rest, after, hlines, hoffset, hplace⟩ := exists_place content
  rw [extract_eq_extractLines defaultLanguage (withViews _ _ _), lines_withViews hlines hoffset,
    hoffset, outside_iff hlines]
  rcases hplace with ⟨hbefore, hstart⟩ | ⟨hstart, hrest⟩
  · exact insert_iff_of_first hlines hquiet hbefore hstart
  · exact insert_iff_of_delimiter hlines hquiet hstart hrest

/-- A page with a block inside its frontmatter and one behind it. -/
def twoBlocks : Text := "---\n```sql a\n1\n```\n---\r\n~~~sql B x\nselect *\n from t \n~~~\n".toList

theorem outside_twoBlocks :
    Outside defaultLanguage twoBlocks (insertionOffset .default twoBlocks) := by
  let before : List Text := ["---", "```sql a", "1", "```"].map String.toList
  let after : List Text := ["~~~sql B x", "select *", " from t ", "~~~", ""].map String.toList
  have hopens : IsOpening defaultLanguage .backticks ['a'] "```sql a".toList :=
    ⟨"sql a".toList, [], by decide, [], [' '], by decide, by decide, by decide, by decide,
      ⟨List.forall_mem_singleton.mpr rfl, List.cons_ne_nil _ _, fun _ hc => nomatch hc⟩⟩
  have hplain : Plain defaultLanguage ["---".toList]
      ("```sql a".toList :: (["1".toList] ++ "```".toList :: ([] ++ "---\r".toList :: after))) :=
    plain_cons.mpr ⟨(inert_cons (by decide) (by decide) _).not_begins, plain_nil⟩
  have hinside : ∀ l ∈ ["1".toList], ¬ IsClosing .backticks l := by
    intro l hl
    have hline : Inert defaultLanguage "1".toList := inert_cons (by decide) (by decide) _
    exact List.mem_singleton.mp hl ▸ hline.closes .backticks
  have hended :
      Ended defaultLanguage ("---\r".toList :: after) before [⟨['a'], ['1'], false, []⟩] :=
    .block hplain hopens hinside isClosing_mark (.none plain_nil)
  exact ⟨before, "---".toList, ['\r'], after, _, by decide, by cbv, hended,
    (inert_cons (by decide) (by decide) _).not_begins⟩

theorem reextraction_iff_twoBlocks :
    plainSetup.handles "a.md".toList = true ∧
      (∀ r ∈ extract defaultLanguage twoBlocks, ∀ l ∈ (lines r.text).tail,
        Inert defaultLanguage l) ∧
      ∃ code, (plainSetup.markup .default twoBlocks "a.md".toList).answer = .ok (some code) ∧
        extract defaultLanguage code = extract defaultLanguage twoBlocks := by
  have hm : plainSetup.handles "a.md".toList = true := by decide +kernel
  have hquiet : ∀ r ∈ extract defaultLanguage twoBlocks, ∀ l ∈ (lines r.text).tail,
      Inert defaultLanguage l := by
    have hrecords : extract defaultLanguage twoBlocks
        = [⟨['a'], ['1'], false, []⟩, ⟨['B'], "select *\n from t".toList, false, []⟩] := by cbv
    rw [hrecords]
    intro r hr l hl
    rcases List.mem_pair.mp hr with rfl | rfl
    · have hnone : l ∈ [] := hl
      exact absurd hnone List.not_mem_nil
    · have hline : l ∈ [" from t".toList] := hl
      rw [List.mem_singleton.mp hline]
      exact inert_cons (by decide) (by decide) _
  obtain ⟨code, hanswer, hiff⟩ := reextraction_iff hm hquiet
  exact ⟨hm, hquiet, code, hanswer, hiff.mpr outside_twoBlocks⟩

theorem markup_of_first {p : Preprocessor} {filename : Text} (hm : p.handles filename = true)
    (hrecords : extract defaultLanguage content = records)
    (hstart : insertionOffset .default content = 0) :
    (p.markup .default content filename).answer
      = .ok (some (views .default records ++ content)) := by
  rw [markup_default hm, hrecords, withViews, hstart]
  rfl

/-- A page that begins with a block. -/
def blockFirst : Text := "```sql a\nselect 1\n```\n".toList

def blockFirstViews : Text :=
  "\n\n\n<pre class=\"language-sql\" data-query=\"a\"><code>select 1</code></pre>".toList

/-- A page with a query whose text holds fences of the other kind. -/
def fencesInside : Text := "\n```sql a\n1\n~~~sql b\n2\n~~~\n3\n```\n".toList

def fencesInsideViews : Text := "\n\n\n<pre class=\"language-sql\" data-query=\"a\"><code>1".toList
  ++ "\n~~~sql b\n2\n~~~\n3</code></pre>".toList

/-- The opening line of a first block is no line of its own behind the last view, and the fences in
a text make a block of its view. -/
theorem not_reextracted :
    ((plainSetup.markup .default blockFirst "a.md".toList).answer
        = .ok (some (blockFirstViews ++ blockFirst)) ∧
      extract defaultLanguage blockFirst = [⟨['a'], "select 1".toList, false, []⟩] ∧
      extract defaultLanguage (blockFirstViews ++ blockFirst) = []) ∧
    ((plainSetup.markup .default fencesInside "a.md".toList).answer
        = .ok (some (fencesInsideViews ++ fencesInside)) ∧
      extract defaultLanguage fencesInside
        = [⟨['a'], "1\n~~~sql b\n2\n~~~\n3".toList, false, []⟩] ∧
      extract defaultLanguage (fencesInsideViews ++ fencesInside)
        = [⟨['b'], ['2'], false, []⟩, ⟨['a'], "1\n~~~sql b\n2\n~~~\n3".toList, false, []⟩]) := by
  have hm : plainSetup.handles "a.md".toList = true := by decide +kernel
  have hfirst : extract defaultLanguage blockFirst
      = [⟨['a'], "select 1".toList, false, []⟩] := by cbv
  have hfences : extract defaultLanguage fencesInside
      = [⟨['a'], "1\n~~~sql b\n2\n~~~\n3".toList, false, []⟩] := by cbv
  have hviews : views .default [⟨['a'], "select 1".toList, false, []⟩] = blockFirstViews := by
    decide +kernel
  have hviews' : views .default [⟨['a'], "1\n~~~sql b\n2\n~~~\n3".toList, false, []⟩]
      = fencesInsideViews := by decide +kernel
  refine ⟨⟨?_, hfirst, by cbv⟩, ⟨?_, hfences, by cbv⟩⟩
  · rw [markup_of_first hm hfirst (by cbv), hviews]
  · rw [markup_of_first hm hfences (by cbv), hviews']

end Preprocessor

end PageQueries
