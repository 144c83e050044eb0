import PageQueries.Proofs.Frontmatter.EndOffset
import PageQueries.Proofs.Preprocessor.Phases

/-!
# What the markup phase does to a page

The markup phase puts the views of the queries into the page, in one place: at
its start, or directly behind dashes that a detector of frontmatter leads to.
Whatever the detector says, nothing else of the page changes.

With the detector of frontmatter the place is behind the dashes of the line that
ends the block. The views begin with a line feed, so these dashes still make up
a line that ends the block, and the lines before it stay as they are. On a page
without frontmatter the views come first, and a page that begins with a line
feed has none.

Results:
* `insertionOffset_spec`: where the views may be put.
* `inner?_insertAt`: the inner text of the frontmatter outlives the insertion.
* `markup_inserts`: both, for the page that the markup phase gives.
-/
namespace PageQueries

open Text

/-- A text with a part put in at an offset. -/
def Text.insertAt (offset : Nat) (part t : Text) : Text := t.take offset ++ part ++ t.drop offset

namespace Frontmatter

theorem inner?_lineFeed (t : Text) : inner? ('\n' :: t) = none := rfl

/-- The block may end with any line of three dashes, and what is behind it does not matter. -/
def Layout.reclosed (L : Layout) (after : List Text) : Layout :=
  { L with
    blanks := []
    carriage := []
    after := after
    inlineBlanks := inlineBlanks_nil
    isCarriage := carriage_nil }

theorem Layout.inner?_eq {L : Layout} {content : Text} (h : Text.lines content = L.lines) :
    inner? content = some (dropFinalLineEnd (terminated L.inside)) := by
  rw [inner?, find?_of_layout h]
  rfl

/-- Behind the closing dashes, a line feed and any text leave the inner text as it is. -/
theorem Layout.inner?_reclosed {L : Layout} {content : Text} (h : Text.lines content = L.lines)
    (t : Text) : inner? (L.head ++ delimiter ++ '\n' :: t) = inner? content := by
  have hlines : Text.lines (L.head ++ delimiter ++ '\n' :: t)
      = (L.opening :: L.inside) ++ delimiter :: Text.lines t := by
    refine lines_eq_append_iff.mpr ⟨?_, fun m hm => ?_⟩
    · rw [head, continued_lines, List.append_assoc]
    · rcases List.mem_append.mp hm with hbefore | hbehind
      · have hmem : m ∈ Text.lines content := by
          rw [h]
          exact List.mem_append_left (L.closing :: L.after) hbefore
        exact notMem_of_mem_lines hmem
      · rcases List.mem_cons.mp hbehind with rfl | hmem
        · exact notMem_delimiter
        · exact notMem_of_mem_lines hmem
  have hreclosed : Text.lines (L.head ++ delimiter ++ '\n' :: t)
      = (L.reclosed (Text.lines t)).lines := hlines
  rw [inner?_eq hreclosed, inner?_eq h]
  rfl

end Frontmatter

namespace Preprocessor

variable {h : Hooks} {p : Preprocessor} {content filename : Text}

/-- The views stand at the start of the page, or directly behind dashes, not the first three. -/
theorem insertionOffset_spec (h : Hooks) (content : Text) :
    insertionOffset h content ≤ content.length ∧
      (0 < insertionOffset h content →
        ∃ offset, 3 ≤ offset ∧ insertionOffset h content = offset + 3 ∧
          Frontmatter.delimiter <+: content.drop offset) := by
  rw [insertionOffset]
  cases he : (h.frontmatter content).bind (Frontmatter.endOffset? · content) with
  | none => exact ⟨Nat.zero_le _, fun hpos => absurd hpos (Nat.lt_irrefl 0)⟩
  | some e =>
    obtain ⟨inner, -, hinner⟩ := Option.bind_eq_some_iff.mp he
    obtain ⟨hle, hbehind⟩ := Frontmatter.endOffset?_eq_some hinner
    exact ⟨hle, fun _ => hbehind⟩

/-- With the detector of frontmatter, the views stand behind the dashes that end the block. -/
theorem insertionOffset_of_layout (hd : h.frontmatter = Frontmatter.inner?)
    {L : Frontmatter.Layout} (hL : lines content = L.lines) :
    insertionOffset h content = (L.head ++ Frontmatter.delimiter).length := by
  rw [insertionOffset, hd, Frontmatter.Layout.inner?_eq hL, List.length_append]
  exact congrArg (Option.getD · 0) (L.endOffset?_inner hL)

/-- Anything that begins with a line feed leaves the inner text as it is where it is put in. -/
theorem inner?_insertAt (hd : h.frontmatter = Frontmatter.inner?) (t : Text) :
    Frontmatter.inner? (insertAt (insertionOffset h content) ('\n' :: t) content)
      = Frontmatter.inner? content := by
  cases hf : Frontmatter.find? content with
  | none =>
    have hnone : Frontmatter.inner? content = none := by
      rw [Frontmatter.inner?, hf]
      rfl
    have hstart : insertionOffset h content = 0 := by
      rw [insertionOffset, hd, hnone]
      rfl
    rw [hstart, hnone]
    exact Frontmatter.inner?_lineFeed (t ++ content)
  | some f =>
    obtain ⟨L, hL, -⟩ := Frontmatter.find?_eq_some_iff.mp hf
    have hcontent : content
        = L.head ++ Frontmatter.delimiter ++ (L.blanks ++ (L.carriage ++ continued L.after)) := by
      refine (L.eq_append hL).trans ?_
      rw [L.cut_append, Frontmatter.Layout.closing]
      simp only [List.append_assoc]
    have htake : content.take (insertionOffset h content) = L.head ++ Frontmatter.delimiter := by
      rw [insertionOffset_of_layout hd hL]
      exact (congrArg (List.take _) hcontent).trans List.take_left
    rw [insertAt, htake, List.append_assoc]
    exact L.inner?_reclosed hL _

/-- **The markup phase only inserts, and keeps the frontmatter.** The page that it gives is the
page with the views put in at one place, which is its start or directly behind dashes. With the
detector of frontmatter, the inner text of the frontmatter is that of the page. -/
theorem markup_inserts (hm : p.handles filename = true) {rs : List Record}
    (hr : records h content filename = .ok rs) :
    ∃ e code, (p.markup h content filename).answer = .ok (some code) ∧
      code = insertAt e ("\n\n\n".toList ++ Text.join ['\n']
        ((rs.filter (!·.inline)).map fun r => h.highlight r.text (Text.lower r.id))) content ∧
      e ≤ content.length ∧
      (0 < e → ∃ offset, 3 ≤ offset ∧ e = offset + 3 ∧
        Frontmatter.delimiter <+: content.drop offset) ∧
      (h.frontmatter = Hooks.default.frontmatter →
        Frontmatter.inner? code = Frontmatter.inner? content) := by
  obtain ⟨hle, hbehind⟩ := insertionOffset_spec h content
  rw [markup_ok hm hr]
  exact ⟨insertionOffset h content, withViews h content rs, rfl, rfl, hle, hbehind,
    fun hd => inner?_insertAt hd _⟩

/-- A page with dashes inside its frontmatter, and a query behind it. -/
def dashedPage : Text := "---\r\na: --- b\r\n--- \r\n```sql Q\nselect 1\n```".toList

/-- A preprocessor as it is set up without any choices. -/
def plainSetup : Preprocessor := ⟨.default, .memory .new⟩

theorem markup_inserts_dashedPage :
    plainSetup.handles "a.md".toList = true ∧
    records Hooks.default dashedPage "a.md".toList
      = .ok [⟨['Q'], "select 1".toList, false, []⟩] ∧
    ∃ e code, (plainSetup.markup Hooks.default dashedPage "a.md".toList).answer = .ok (some code) ∧
      code = insertAt e ("\n\n\n".toList ++ Markup.highlight "select 1".toList ['q']) dashedPage ∧
      Frontmatter.inner? code = Frontmatter.inner? dashedPage := by
  have hm : plainSetup.handles "a.md".toList = true := by decide +kernel
  have hr : records Hooks.default dashedPage "a.md".toList
      = .ok [⟨['Q'], "select 1".toList, false, []⟩] := by cbv
  obtain ⟨e, code, hanswer, hcode, -, -, hinner⟩ := markup_inserts hm hr
  have hlower : Text.lower ['Q'] = ['q'] := by decide +kernel
  refine ⟨hm, hr, e, code, hanswer, ?_, hinner rfl⟩
  rw [hcode, ← hlower]
  rfl

end Preprocessor

end PageQueries
