import PageQueries.Proofs.Text.Line

/-!
# The lines that trimming leaves

The text of a query is trimmed, so two queries may have the same text although
the lines between their fences differ. What they share are the solid lines:
those that are not blank, without the blanks at their ends. Trimming a text
changes only the first of them, which loses the blanks at its start. So texts
that are equal when trimmed have the same solid lines from the second on, and
the same ones altogether when the blanks at their starts are left out too
(`bare`).

Results:
* `tail_solid_eq`, `bare_eq`, `length_solid_eq`: what the lines of two texts
  share that are equal when trimmed.
-/
namespace PageQueries.Text

/-- The lines that are not blank, without the blanks at their ends. -/
def solid (ls : List Text) : List Text := (ls.map (dropEnd isBlank)).filter (!·.isEmpty)

/-- The lines that are not blank, without the blanks around them. -/
def bare (ls : List Text) : List Text := (solid ls).map (dropStart isBlank)

theorem solid_append (ls ms : List Text) : solid (ls ++ ms) = solid ls ++ solid ms := by
  simp [solid]

theorem solid_singleton (l : Text) :
    solid [l] = if dropEnd isBlank l = [] then [] else [dropEnd isBlank l] := by
  by_cases h : dropEnd isBlank l = []
  · simp [solid, h]
  · simp [solid, h]

theorem solid_cons (l : Text) (ls : List Text) : solid (l :: ls) = solid [l] ++ solid ls :=
  solid_append [l] ls

theorem bare_append (ls ms : List Text) : bare (ls ++ ms) = bare ls ++ bare ms := by
  simp [bare, solid_append]

theorem bare_cons (l : Text) (ls : List Text) : bare (l :: ls) = bare [l] ++ bare ls :=
  bare_append [l] ls

theorem length_bare (ls : List Text) : (bare ls).length = (solid ls).length := by
  simp [bare]

theorem solid_ne_nil {ls : List Text} {l : Text} (hl : l ∈ ls) {c : Char} (hc : c ∈ l)
    (hblank : isBlank c = false) : solid ls ≠ [] := by
  intro hvoid
  have hdrop : dropEnd isBlank l ≠ [] := by
    intro h
    have hall := List.dropWhile_eq_nil_iff.mp (List.reverse_eq_nil_iff.mp h)
    rw [hall c (List.mem_reverse.mpr hc)] at hblank
    cases hblank
  have hmem : dropEnd isBlank l ∈ solid ls :=
    List.mem_filter.mpr ⟨List.mem_map_of_mem hl, by simp [hdrop]⟩
  rw [hvoid] at hmem
  exact absurd hmem List.not_mem_nil

/-- The solid lines from the second on come from the lines from the second on. -/
theorem exists_of_mem_tail_solid {ls : List Text} {m : Text} (h : m ∈ (solid ls).tail) :
    ∃ l ∈ ls.tail, m = dropEnd isBlank l := by
  cases ls with
  | nil => exact absurd h List.not_mem_nil
  | cons l ls =>
    have hmem : m ∈ solid ls := by
      rw [solid_cons, solid_singleton] at h
      split at h
      · exact List.mem_of_mem_tail h
      · exact h
    obtain ⟨k, hk, rfl⟩ := List.mem_map.mp (List.mem_of_mem_filter hmem)
    exact ⟨k, hk, rfl⟩

/-! ## Blanks in front of a text and behind it -/

/-- A blank behind a text is at the end of its last line, or makes one more that is void. -/
theorem solid_lines_concat (t : Text) {c : Char} (hc : isBlank c = true) :
    solid (lines (t ++ [c])) = solid (lines t) := by
  by_cases hfeed : c = '\n'
  · rw [hfeed, lines_append_lineFeed, solid_append]
    exact List.append_nil _
  · obtain ⟨init, last, ht, htc⟩ := lines_append_notMem (u := [c]) (by simp [Ne.symm hfeed]) t
    have hdrop : dropEnd isBlank (last ++ [c]) = dropEnd isBlank last :=
      dropEnd_append fun d hd => (List.mem_singleton.mp hd) ▸ hc
    rw [ht, htc, solid_append, solid_append, solid_singleton, solid_singleton, hdrop]

theorem solid_lines_append (t : Text) {blanks : Text} (h : ∀ c ∈ blanks, isBlank c = true) :
    solid (lines (t ++ blanks)) = solid (lines t) := by
  induction blanks generalizing t with
  | nil => rw [List.append_nil]
  | cons c blanks ih =>
    obtain ⟨hc, hblanks⟩ := List.forall_mem_cons.mp h
    rw [List.append_cons, ih _ hblanks, solid_lines_concat t hc]

/-- A blank in front of a text only ever joins what is left of it. -/
theorem dropEnd_cons {c : Char} (hc : isBlank c = true) (t : Text) :
    dropEnd isBlank (c :: t) = if dropEnd isBlank t = [] then [] else c :: dropEnd isBlank t := by
  rw [dropEnd, dropEnd, List.reverse_cons, List.dropWhile_append]
  cases h : t.reverse.dropWhile isBlank with
  | nil => simp [hc]
  | cons d u => simp

/-- A blank in front of a text is at the start of its first line, or makes one more that is void. -/
theorem solid_lines_cons (t : Text) {c : Char} (hc : isBlank c = true) :
    (solid (lines (c :: t))).tail = (solid (lines t)).tail ∧
      bare (lines (c :: t)) = bare (lines t) := by
  by_cases hfeed : c = '\n'
  · have hlines : lines (c :: t) = [] :: lines t := by
      rw [hfeed]
      exact lines_append List.not_mem_nil t
    have hsolid : solid (lines (c :: t)) = solid (lines t) := by
      rw [hlines, solid_cons]
      rfl
    rw [bare, hsolid]
    exact ⟨rfl, rfl⟩
  · obtain ⟨l, later, ht, hct⟩ := lines_notMem_append (u := [c]) (by simp [Ne.symm hfeed]) t
    rw [List.singleton_append] at hct
    rw [hct, ht, bare, bare, solid_cons, solid_cons l, solid_singleton, solid_singleton,
      List.singleton_append, dropEnd_cons hc]
    by_cases hvoid : dropEnd isBlank l = []
    · simp [hvoid]
    · simp [hvoid, dropStart, hc]

theorem solid_lines_prepend (t : Text) {blanks : Text} (h : ∀ c ∈ blanks, isBlank c = true) :
    (solid (lines (blanks ++ t))).tail = (solid (lines t)).tail ∧
      bare (lines (blanks ++ t)) = bare (lines t) := by
  induction blanks with
  | nil => exact ⟨rfl, rfl⟩
  | cons c blanks ih =>
    obtain ⟨hc, hblanks⟩ := List.forall_mem_cons.mp h
    obtain ⟨htail, hbare⟩ := solid_lines_cons (blanks ++ t) hc
    rw [List.cons_append, htail, hbare]
    exact ih hblanks

theorem solid_lines_trim (t : Text) :
    (solid (lines (trim t))).tail = (solid (lines t)).tail ∧
      bare (lines (trim t)) = bare (lines t) := by
  obtain ⟨front, hfront, hblank⟩ := exists_dropStart t
  obtain ⟨behind, hbehind, hblank'⟩ := exists_dropEnd (dropStart isBlank t)
  have hsolid : solid (lines (dropStart isBlank t)) = solid (lines (trim t)) := by
    refine (congrArg (solid ∘ lines) hbehind).trans ?_
    exact solid_lines_append _ hblank'
  obtain ⟨htail, hbare⟩ := solid_lines_prepend (dropStart isBlank t) hblank
  rw [← hfront] at htail hbare
  rw [htail, hbare, bare, bare, hsolid]
  exact ⟨rfl, rfl⟩

/-! ## Lines whose joined text is trimmed -/

theorem solid_lines_join {ls : List Text} (h : ∀ l ∈ ls, '\n' ∉ l) :
    solid (lines (join ['\n'] ls)) = solid ls := by
  by_cases hvoid : ls = []
  · rw [hvoid]
    rfl
  · rw [lines_join hvoid h]

variable {ls ms : List Text}

theorem tail_solid_eq (hls : ∀ l ∈ ls, '\n' ∉ l) (hms : ∀ l ∈ ms, '\n' ∉ l)
    (h : trim (join ['\n'] ls) = trim (join ['\n'] ms)) : (solid ls).tail = (solid ms).tail := by
  rw [← solid_lines_join hls, ← solid_lines_join hms, ← (solid_lines_trim (join ['\n'] ls)).1, h,
    (solid_lines_trim (join ['\n'] ms)).1]

theorem bare_eq (hls : ∀ l ∈ ls, '\n' ∉ l) (hms : ∀ l ∈ ms, '\n' ∉ l)
    (h : trim (join ['\n'] ls) = trim (join ['\n'] ms)) : bare ls = bare ms := by
  have hjoin (ks : List Text) (hks : ∀ l ∈ ks, '\n' ∉ l) :
      bare ks = bare (lines (join ['\n'] ks)) := by
    rw [bare, bare, solid_lines_join hks]
  rw [hjoin ls hls, hjoin ms hms, ← (solid_lines_trim (join ['\n'] ls)).2, h,
    (solid_lines_trim (join ['\n'] ms)).2]

theorem length_solid_eq (hls : ∀ l ∈ ls, '\n' ∉ l) (hms : ∀ l ∈ ms, '\n' ∉ l)
    (h : trim (join ['\n'] ls) = trim (join ['\n'] ms)) :
    (solid ls).length = (solid ms).length := by
  rw [← length_bare, ← length_bare, bare_eq hls hms h]

end PageQueries.Text
