import PageQueries.Proofs.Fence.Bodies
import PageQueries.Proofs.Text.Crlf

/-!
# Blocks and line ends

A page may end its lines with `\r\n`. An opening line may have anything behind
its name, and a line end at either end of a query's text is trimmed with the
other blanks. But behind the fence of a closing line only inline blanks may
stand, and a carriage return is none. So only the last line of such a page,
which has no line end, closes a block.

A page and its `\r\n` form have the same queries exactly if the page has no
block, or just one, which its last line closes (`ClosedLast`). The hard part is
that the queries differ otherwise: then the block of the `\r\n` form has a
closing line of the page inside, and its text would have to be that of a block
without one. The lines that trimming leaves tell the two apart.

Results:
* `closes_last_of_carried`: only the last line of the `\r\n` form closes a block.
* `extract_toCrlf_iff`: which pages have the same queries in both forms.
-/
namespace PageQueries.Fence

open Text

/-- The page has no block, or just one, which its last line closes. -/
inductive ClosedLast (language : Text) : List Text → Prop
  | none {ls : List Text} (plain : Plain language ls []) : ClosedLast language ls
  | block {before body : List Text} {opening closing id : Text} {fence : Fence}
      (plain : Plain language before (opening :: (body ++ [closing])))
      (opens : IsOpening language fence id opening)
      (inside : ∀ l ∈ body, ¬ IsClosing fence l)
      (closes : IsClosing fence closing) :
      ClosedLast language (before ++ opening :: (body ++ [closing]))

/-- The same names in the same order, and the same texts up to line ends. -/
def SameQueries (records crlf : List Record) : Prop :=
  List.Forall₂ (fun r r' => r'.id = r.id ∧ ofCrlf r'.text = r.text) records crlf

variable {language l last : Text} {before init rest : List Text} {fence : Fence} {id : Text}

/-! ## Lines with a carriage return -/

theorem isOpening_carried :
    IsOpening language fence id (l ++ ['\r']) ↔ IsOpening language fence id l :=
  isOpening_append (List.forall_mem_singleton.mpr rfl)

theorem not_isClosing_carried : ¬ IsClosing fence (l ++ ['\r']) := by
  intro h
  obtain ⟨blanks, he, hblanks⟩ := h
  have hmem : '\r' ∈ fence.mark ++ blanks := by
    rw [← he]
    exact List.mem_append_right l List.mem_cons_self
  rcases List.mem_append.mp hmem with hmark | hblank
  · cases fence <;> exact absurd hmark (by decide)
  · exact hblanks.notMem rfl hblank

theorem not_isClosing_of_mem_carried {ls : List Text} (h : l ∈ carried ls) :
    ¬ IsClosing fence l := by
  obtain ⟨m, -, rfl⟩ := List.mem_map.mp h
  exact not_isClosing_carried

/-- What begins a block of the `\r\n` form begins one of the page. -/
theorem begins_of_carried {ls : List Text}
    (h : Begins language ((l ++ ['\r']) :: (carried ls ++ [last]))) :
    Begins language (l :: (ls ++ [last])) := by
  obtain ⟨fence, id, opening, later, he, hopens, m, hm, hcloses⟩ := h
  cases he
  refine ⟨fence, id, l, ls ++ [last], rfl, isOpening_carried.mp hopens, m, ?_, hcloses⟩
  rcases List.mem_append.mp hm with hcarried | hlast
  · exact absurd hcloses (not_isClosing_of_mem_carried hcarried)
  · exact List.mem_append_right ls hlast

theorem plain_carried (h : Plain language before (rest ++ [last])) :
    Plain language (carried before) (carried rest ++ [last]) := by
  induction before with
  | nil => exact plain_nil
  | cons l before ih =>
    obtain ⟨hl, hbefore⟩ := plain_cons.mp h
    refine plain_cons.mpr ⟨fun hbegins => hl ?_, ih hbefore⟩
    have hlines : carried before ++ (carried rest ++ [last])
        = carried (before ++ rest) ++ [last] := by
      simp [carried]
    rw [← carried, hlines] at hbegins
    rw [← List.append_assoc]
    exact begins_of_carried hbegins

/-- A closing line of the `\r\n` form is the last line. -/
theorem closes_last_of_carried {opening closing : Text} {body after : List Text}
    (h : carried init ++ [last] = before ++ opening :: (body ++ closing :: after))
    (hcloses : IsClosing fence closing) :
    after = [] ∧ closing = last ∧ ∃ before' opening' body', before = carried before' ∧
      opening = opening' ++ ['\r'] ∧ body = carried body' ∧
      init = before' ++ opening' :: body' := by
  rw [← List.cons_append, ← List.append_assoc] at h
  rcases append_eq_append_cons_iff.mp h with ⟨late, hinit, -⟩ | ⟨early, hlast, hinit⟩
  · exact absurd hcloses (not_isClosing_of_mem_carried (by rw [hinit]; simp))
  · obtain ⟨rfl, rfl, rfl⟩ : early = [] ∧ closing = last ∧ after = [] := by
      cases early with
      | nil => simpa [eq_comm] using hlast
      | cons m early => simp at hlast
    rw [List.append_nil] at hinit
    obtain ⟨before', late, rfl, rfl, hlate⟩ := List.map_eq_append_iff.mp hinit.symm
    obtain ⟨opening', body', rfl, rfl, rfl⟩ := List.map_eq_cons_iff.mp hlate
    exact ⟨rfl, rfl, before', opening', body', rfl, rfl, rfl, rfl⟩

/-! ## The text of a block -/

theorem trim_join_carried {body : List Text} (h : ∀ l ∈ body, '\n' ∉ l) :
    trim (join ['\n'] (carried body)) = toCrlf (trim (join ['\n'] body)) := by
  rw [← trim_terminated, terminated_carried h, trim_toCrlf, trim_terminated]

/-- No carriage return comes into the text of a block. -/
theorem notMem_trim_join {c : Char} {body : List Text} (hc : c ≠ '\n') (h : ∀ l ∈ body, c ∉ l) :
    c ∉ trim (join ['\n'] body) := by
  intro hm
  rw [← trim_terminated, trim, trimBy, dropEnd, List.mem_reverse] at hm
  have hstart := List.mem_reverse.mp ((List.dropWhile_suffix isBlank).subset hm)
  obtain ⟨l, hl, hmem⟩ := List.mem_flatMap.mp ((List.dropWhile_suffix isBlank).subset hstart)
  rcases List.mem_append.mp hmem with hline | hfeed
  · exact h l hl hline
  · exact hc (List.mem_singleton.mp hfeed)

theorem ofCrlf_trim_join_carried {body : List Text} (hfeed : ∀ l ∈ body, '\n' ∉ l)
    (hreturn : ∀ l ∈ body, '\r' ∉ l) :
    ofCrlf (trim (join ['\n'] (carried body))) = trim (join ['\n'] body) := by
  rw [trim_join_carried hfeed, ofCrlf_toCrlf (notMem_trim_join (by decide) hreturn)]

/-! ## The queries of both forms -/

theorem blocks_carried (hfeed : ∀ m ∈ init ++ [last], '\n' ∉ m)
    (hreturn : ∀ m ∈ init ++ [last], '\r' ∉ m) (h : ClosedLast language (init ++ [last])) :
    ∃ records crlf, Blocks language (init ++ [last]) records ∧
      Blocks language (carried init ++ [last]) crlf ∧ SameQueries records crlf := by
  generalize hls : init ++ [last] = ls at h
  cases h with
  | none plain =>
    rw [← hls] at plain
    obtain ⟨hinit, hlast⟩ := plain_append.mp plain
    have hcarried : Plain language (carried init) (carried [] ++ [last]) := plain_carried hinit
    refine ⟨[], [], .none (hls ▸ plain), .none ?_, .nil⟩
    exact plain_append.mpr ⟨hcarried, hlast⟩
  | @block before body opening closing id fence plain opens inside closes =>
    have hsplit : init ++ [last] = (before ++ opening :: body) ++ [closing] := by
      rw [hls]
      simp
    obtain ⟨rfl, rfl⟩ := List.append_singleton_inj.mp hsplit
    have hbody : ∀ m ∈ body, '\n' ∉ m := fun m hm => hfeed m (by simp [hm])
    have hbody' : ∀ m ∈ body, '\r' ∉ m := fun m hm => hreturn m (by simp [hm])
    have hcarried : carried (before ++ opening :: body) ++ [last]
        = carried before ++ (opening ++ ['\r']) :: (carried body ++ last :: []) := by
      simp [carried]
    have hfront : Plain language before ((opening :: body) ++ [last]) := plain
    have hplain : Plain language (carried before)
        ((opening ++ ['\r']) :: (carried body ++ last :: [])) := plain_carried hfront
    have hblock := Blocks.block hplain (isOpening_carried.mpr opens)
      (fun m hm => not_isClosing_of_mem_carried hm) closes (.none plain_nil)
    rw [← hcarried] at hblock
    refine ⟨_, _, .block plain opens inside closes (.none plain_nil), hblock, .cons ⟨rfl, ?_⟩ .nil⟩
    exact ofCrlf_trim_join_carried hbody hbody'

/-- The text of the block of the `\r\n` form is not the one of the first block of the page if lines
stand behind that block. The opening line `o` of the former is the first that the last line closes,
and none of the lines behind the first block is one. -/
theorem trim_join_ne_of_blocks {body after early late : List Text} {opening closing o : Text}
    {fence' : Fence} {id' : Text} (hfeed : ∀ m ∈ init, '\n' ∉ m)
    (hinit : init = before ++ opening :: (body ++ closing :: after))
    (hinit' : init = early ++ o :: late)
    (plain : Plain language before (opening :: (body ++ closing :: (after ++ [last]))))
    (closes : IsClosing fence closing) (plainAfter : Plain language (after ++ [last]) [])
    (opens' : IsOpening language fence' id' o) (closes' : IsClosing fence' last) :
    trim (join ['\n'] body) ≠ trim (join ['\n'] late) := by
  have hbehind : ∀ m ∈ after, ∀ i, ¬ IsOpening language fence' i m := by
    intro m hm i hi
    exact (plain_append.mp plainAfter).1.not_isClosing hm hi (by simp) closes'
  rcases append_eq_append_cons_iff.mp (hinit.symm.trans hinit')
    with ⟨front, hbefore, -⟩ | ⟨front, hblock, -⟩
  · exact absurd closes' (plain.not_isClosing (by simp [hbefore]) opens' (by simp))
  have hmem : ∀ m ∈ opening :: (body ++ closing :: after), '\n' ∉ m :=
    fun m hm => hfeed m (hinit ▸ List.mem_append_right before hm)
  have hbody : ∀ m ∈ body, '\n' ∉ m := fun m hm => hmem m (by simp [hm])
  cases front with
  | nil =>
    obtain ⟨rfl, rfl⟩ := List.cons.inj hblock
    exact trim_join_ne_append hbody (fun m hm => hmem m (List.mem_cons_of_mem _ hm)) closes
  | cons m front =>
    obtain ⟨rfl, hlines⟩ := List.cons.inj hblock
    rcases append_eq_append_cons_iff.mp hlines with ⟨behind, rfl, rfl⟩ | ⟨behind, hclosing, rfl⟩
    · have hlate : ∀ m ∈ behind ++ closing :: after, '\n' ∉ m :=
        fun m hm => hmem m (by rw [hlines]; simp [hm])
      exact trim_join_ne hbody hlate opens' closes hbehind
    · cases behind with
      | nil =>
        obtain ⟨rfl, -⟩ := List.cons.inj hclosing
        exact absurd closes (not_isClosing_of_isOpening opens')
      | cons k behind =>
        obtain ⟨rfl, rfl⟩ := List.cons.inj hclosing
        exact absurd opens' (hbehind o (by simp) id')

/-- Where both forms have the same queries, no line of the page stands behind a block. -/
theorem closedLast_of_sameQueries (hfeed : ∀ m ∈ init, '\n' ∉ m) (hreturn : ∀ m ∈ init, '\r' ∉ m)
    {records crlf : List Record} (h : Blocks language (init ++ [last]) records)
    (hcrlf : Blocks language (carried init ++ [last]) crlf) (hsame : SameQueries records crlf) :
    ClosedLast language (init ++ [last]) := by
  generalize hls : init ++ [last] = ls at h
  generalize hls' : carried init ++ [last] = ls' at hcrlf
  cases h with
  | none plain => exact .none plain
  | @block before body after opening closing id fence records plain opens inside closes rest =>
    rcases List.eq_nil_or_concat after with rfl | ⟨after, final, rfl⟩
    · exact .block plain opens inside closes
    · exfalso
      rw [List.concat_eq_append] at hls plain rest
      have hsplit : init ++ [last]
          = (before ++ opening :: (body ++ closing :: after)) ++ [final] := by
        rw [hls]
        simp
      obtain ⟨hinit, rfl⟩ := List.append_singleton_inj.mp hsplit
      cases hsame with
      | @cons _ r' _ crlf hr hmore =>
      obtain ⟨-, htext⟩ := hr
      cases hcrlf with
      | @block before' body' after' opening' closing' id' fence' _ plain' opens' _ closes' rest' =>
      obtain ⟨rfl, rfl, early, o, late, rfl, rfl, rfl, hinit'⟩ :=
        closes_last_of_carried hls' closes'
      obtain rfl := rest'.eq_nil
      cases hmore
      have hlate : ∀ m ∈ late, m ∈ init := fun m hm => by rw [hinit']; simp [hm]
      refine trim_join_ne_of_blocks hfeed hinit hinit' plain closes rest.plain
        (isOpening_carried.mp opens') closes' ?_
      rw [← ofCrlf_trim_join_carried (fun m hm => hfeed m (hlate m hm))
        fun m hm => hreturn m (hlate m hm)]
      exact htext.symm

/-- **A page and its `\r\n` form have the same queries exactly if its last line closes the only
block, or it has none.** -/
theorem extract_toCrlf_iff (hlang : '\n' ∉ language) {content : Text} (hcontent : '\r' ∉ content) :
    SameQueries (extract language content) (extract language (toCrlf content)) ↔
      ClosedLast language (lines content) := by
  obtain ⟨init, last, hlines, hcarried⟩ := lines_toCrlf content
  have hfeed : ∀ m ∈ init ++ [last], '\n' ∉ m := fun m hm => notMem_of_mem_lines (hlines ▸ hm)
  have hreturn : ∀ m ∈ init ++ [last], '\r' ∉ m :=
    fun m hm hc => hcontent (mem_of_mem_lines (hlines ▸ hm) hc)
  rw [hlines]
  constructor
  · intro h
    have hblocks := (extract_iff_blocks hlang content _).mp rfl
    have hcrlf := (extract_iff_blocks hlang (toCrlf content) _).mp rfl
    rw [hlines] at hblocks
    rw [hcarried] at hcrlf
    exact closedLast_of_sameQueries (fun m hm => hfeed m (by simp [hm]))
      (fun m hm => hreturn m (by simp [hm])) hblocks hcrlf h
  · intro h
    obtain ⟨records, crlf, hblocks, hcrlf, hsame⟩ := blocks_carried hfeed hreturn h
    rw [← hlines] at hblocks
    rw [← hcarried] at hcrlf
    rwa [(extract_iff_blocks hlang content _).mpr hblocks,
      (extract_iff_blocks hlang (toCrlf content) _).mpr hcrlf]

/-- A page whose last line closes its block, with other fences before it and inside. -/
def closedAtEnd : Text := "~~~sql never\n\n```sql orders\n\n select\n~~~sql a\n1 \n\n``` \t".toList

theorem extract_toCrlf_iff_closedAtEnd :
    '\n' ∉ defaultLanguage ∧ '\r' ∉ closedAtEnd ∧
      SameQueries (extract defaultLanguage closedAtEnd)
        (extract defaultLanguage (toCrlf closedAtEnd)) ∧
      ClosedLast defaultLanguage (lines closedAtEnd) := by
  have hlang : '\n' ∉ defaultLanguage := by decide
  have hcontent : '\r' ∉ closedAtEnd := by decide
  have hrecords : extract defaultLanguage closedAtEnd
      = [⟨"orders".toList, "select\n~~~sql a\n1".toList, false, []⟩] := by cbv
  have hcrlf : extract defaultLanguage (toCrlf closedAtEnd)
      = [⟨"orders".toList, "select\r\n~~~sql a\r\n1".toList, false, []⟩] := by cbv
  have hsame : SameQueries (extract defaultLanguage closedAtEnd)
      (extract defaultLanguage (toCrlf closedAtEnd)) := by
    rw [hrecords, hcrlf]
    exact .cons ⟨rfl, by decide⟩ .nil
  exact ⟨hlang, hcontent, hsame, (extract_toCrlf_iff hlang hcontent).mp hsame⟩

/-- With `\r\n`, no line closes a block that a line end follows. -/
theorem not_sameQueries_lineBehind :
    '\r' ∉ "```sql a\nselect 1\n```\n".toList ∧
      ¬ SameQueries (extract defaultLanguage "```sql a\nselect 1\n```\n".toList)
        (extract defaultLanguage (toCrlf "```sql a\nselect 1\n```\n".toList)) := by
  have hrecords : extract defaultLanguage "```sql a\nselect 1\n```\n".toList
      = [⟨['a'], "select 1".toList, false, []⟩] := by cbv
  have hcrlf : extract defaultLanguage (toCrlf "```sql a\nselect 1\n```\n".toList) = [] := by cbv
  refine ⟨by decide, fun h => ?_⟩
  rw [hrecords, hcrlf] at h
  cases h

end PageQueries.Fence
