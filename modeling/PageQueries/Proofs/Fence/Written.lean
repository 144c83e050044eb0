import PageQueries.Proofs.Fence.Blocks
import PageQueries.Proofs.Text.Trim

/-!
# Writing a page

A page that is put together from prose and named blocks gives its blocks back,
and nothing else. The prose must not look like a fence, and a block must be one
that the grammar can say: its name is of name characters, its text has no
blanks at its ends and no line that would close the block. Anything else may be
in a text, the opening lines of other blocks among it: the search goes on only
behind the closing line.

Written out, an item is some lines with their line feeds (`Item.lines`), so the
lines of a page are those of its items, and its blocks are found item by item
with the constructors of `Blocks`.

Results:
* `blocks_page`: the blocks among the lines of a page are its block items.
* `extract_written`: extraction undoes writing.
-/
namespace PageQueries.Fence

open Text

/-- A part of a page: some lines of prose, or a named block. -/
inductive Item where
  | prose (ls : List Text)
  | block (fence : Fence) (id text : Text)

namespace Item

/-- An item as it stands on a page. -/
def write (language : Text) : Item → Text
  | prose ls => ls.flatMap (· ++ ['\n'])
  | block fence id text =>
    fence.mark ++ language ++ [' '] ++ id ++ ['\n'] ++ text ++ ['\n'] ++ fence.mark ++ ['\n']

/-- The query of an item: the text of a block under its name, and none for prose. -/
def record? : Item → Option Record
  | prose _ => none
  | block _ id text => some ⟨id, text, false, []⟩

/-- Prose looks like no fence. A block has a name without blanks and characters of the marks, and a
text without blanks at its ends that does not close the block. -/
def Proper : Item → Prop
  | prose ls => ∀ l ∈ ls, '\n' ∉ l ∧ ¬ backticks.mark <+: l ∧ ¬ tildes.mark <+: l
  | block fence id text =>
    id ≠ [] ∧ (∀ c ∈ id, isBlank c = false ∧ c ≠ '\x60' ∧ c ≠ '~') ∧
      Trimmed text ∧ ∀ l ∈ Text.lines text, ¬ IsClosing fence l

/-- The lines of an item. -/
def lines (language : Text) : Item → List Text
  | prose ls => ls
  | block fence id text =>
    (fence.mark ++ (language ++ ' ' :: id)) :: (Text.lines text ++ [fence.mark])

end Item

/-- The items of a page, one behind the other. -/
def writePage (language : Text) (page : List Item) : Text := page.flatMap (Item.write language)

/-- What may be on a page can be told by looking at it. -/
instance (fence : Fence) (line : Text) : Decidable (IsClosing fence line) :=
  decidable_of_iff (fence.mark <+: line ∧ InlineBlanks (line.drop fence.mark.length)) <| by
    constructor
    · intro h
      obtain ⟨⟨blanks, rfl⟩, hblanks⟩ := h
      rw [List.drop_left] at hblanks
      exact ⟨blanks, rfl, hblanks⟩
    · intro h
      obtain ⟨blanks, rfl, hblanks⟩ := h
      refine ⟨List.prefix_append _ _, ?_⟩
      rwa [List.drop_left]

instance : (item : Item) → Decidable item.Proper
  | .prose ls => List.decidableBAll _ ls
  | .block fence id text =>
    have := List.decidableBAll (fun c => isBlank c = false ∧ c ≠ '\x60' ∧ c ≠ '~') id
    have := List.decidableBAll (fun l => ¬ IsClosing fence l) (Text.lines text)
    inferInstanceAs (Decidable (_ ∧ _))

variable {language l id : Text} {fence : Fence} {page : List Item}

/-! ## The lines of an item -/

theorem inert_of_no_mark (h : ∀ fence : Fence, ¬ fence.mark <+: l) : Inert language l := by
  refine ⟨fun fence id hopens => ?_, fun fence hcloses => ?_⟩
  · obtain ⟨t, rest, rfl, -⟩ := hopens
    exact h fence (List.prefix_append _ _)
  · obtain ⟨blanks, rfl, -⟩ := hcloses
    exact h fence (List.prefix_append _ _)

theorem isName_of_chars (hne : id ≠ []) (h : ∀ c ∈ id, isBlank c = false ∧ c ≠ '\x60' ∧ c ≠ '~') :
    IsName id [] := by
  refine ⟨fun c hc => ?_, hne, fun c hc => absurd hc (by simp)⟩
  obtain ⟨hblank, hback, htilde⟩ := h c hc
  simp [isNameChar, hblank, hback, htilde]

theorem isOpening_of_isName (h : IsName id []) :
    IsOpening language fence id (fence.mark ++ (language ++ ' ' :: id)) := by
  have hgap : InlineBlanks [' '] := by decide
  refine ⟨_, [], rfl, [], [' '], ?_, inlineBlanks_nil, hgap, List.cons_ne_nil _ _, h⟩
  simp

namespace Item

theorem write_eq_terminated (item : Item) :
    item.write language = terminated (item.lines language) := by
  cases item with
  | prose ls => rfl
  | block fence id text =>
    simp [write, lines, terminated_append, terminated_lines]

theorem notMem_lines (hlang : '\n' ∉ language) {item : Item} (h : item.Proper) :
    ∀ l ∈ item.lines language, '\n' ∉ l := by
  cases item with
  | prose ls => exact fun l hl => (h l hl).1
  | block fence id text =>
    obtain ⟨hne, hchars, -, -⟩ := h
    have hname := (isName_of_chars hne hchars).notMem
    intro l hl
    simp only [lines, List.mem_cons, List.mem_append, List.not_mem_nil, or_false] at hl
    rcases hl with rfl | htext | rfl
    · simp [notMem_mark, hlang, hname]
    · exact notMem_of_mem_lines htext
    · exact notMem_mark

end Item

/-! ## The lines of a page -/

theorem lines_writePage (hlang : '\n' ∉ language) (h : ∀ item ∈ page, item.Proper) :
    lines (writePage language page) = page.flatMap (Item.lines language) ++ [[]] := by
  have htext : writePage language page = terminated (page.flatMap (Item.lines language)) := by
    rw [terminated, List.flatMap_assoc]
    exact List.flatMap_congr fun item _ => item.write_eq_terminated
  refine lines_eq_append_iff.mpr ⟨by simp [htext], fun l hl => ?_⟩
  rcases List.mem_append.mp hl with hitem | hlast
  · obtain ⟨item, hmem, hline⟩ := List.mem_flatMap.mp hitem
    exact Item.notMem_lines hlang (h item hmem) l hline
  · rw [List.mem_singleton.mp hlast]
    exact List.not_mem_nil

/-- Item by item: prose is plain whatever comes behind it, and a block ends with its own closing
line, where the next item begins. -/
theorem blocks_page (h : ∀ item ∈ page, item.Proper) :
    Blocks language (page.flatMap (Item.lines language) ++ [[]]) (page.filterMap Item.record?) := by
  induction page with
  | nil =>
    refine .none (plain_of_inert fun m hm => ?_)
    rw [List.mem_singleton.mp hm]
    exact inert_nil
  | cons item page ih =>
    obtain ⟨hitem, hpage⟩ := List.forall_mem_cons.mp h
    have hrest := ih hpage
    cases item with
    | prose ls =>
      have hplain : ∀ m ∈ ls, Inert language m := by
        intro m hm
        obtain ⟨-, hback, htilde⟩ := hitem m hm
        exact inert_of_no_mark fun fence => by cases fence <;> assumption
      rw [List.flatMap_cons, List.append_assoc, List.filterMap_cons_none rfl]
      exact Blocks.append (plain_of_inert hplain) hrest
    | block fence id text =>
      obtain ⟨hne, hchars, htext, hinside⟩ := hitem
      have hopens : IsOpening language fence id (fence.mark ++ (language ++ ' ' :: id)) :=
        isOpening_of_isName (isName_of_chars hne hchars)
      have hblock := Blocks.block plain_nil hopens hinside isClosing_mark hrest
      rw [join_lines, trim_eq_self_iff.mpr htext] at hblock
      simpa [Item.lines, Item.record?] using hblock

theorem extract_writePage (hlang : '\n' ∉ language) (h : ∀ item ∈ page, item.Proper) :
    extract language (writePage language page) = page.filterMap Item.record? := by
  refine (extract_iff_blocks hlang _ _).mpr ?_
  rw [lines_writePage hlang h]
  exact blocks_page h

/-- **Extraction undoes writing**: the queries of a page are those of its blocks, in order, each
with its name and its text. -/
theorem extract_written (page : List Item) (h : ∀ item ∈ page, item.Proper) :
    extract defaultLanguage (writePage defaultLanguage page) = page.filterMap Item.record? :=
  extract_writePage (by decide) h

/-- A text with the opening and the closing line of a block with the other fence, the opening line
of one with its own, and its own fence with a word behind it. -/
def nestedText : Text :=
  ("select 1\n\x60\x60\x60sql inner\nselect 2\n\x60\x60\x60\n" ++
    "~~~sql same\n~~~ not the end").toList

/-- The second block is void. -/
def nestedPage : List Item :=
  [.prose ["# Orders".toList, [], " \x60\x60\x60sql indented".toList],
    .block .tildes "orders_by-month".toList nestedText, .block .backticks "none".toList [],
    .prose ["the end".toList]]

theorem extract_written_nestedPage :
    (∀ item ∈ nestedPage, item.Proper) ∧
      extract defaultLanguage (writePage defaultLanguage nestedPage) =
        [⟨"orders_by-month".toList, nestedText, false, []⟩, ⟨"none".toList, [], false, []⟩] :=
  ⟨by decide, extract_written nestedPage (by decide)⟩

end PageQueries.Fence
