import PageQueries.Proofs.Markup

/-!
# Shown texts can be read back

In a view, a query's text and its label stand between tags, written with
entities. `unescape` is the reader of such a text: one pass from left to right
that takes an entity for its character and every other character for itself.
An ampersand of the text is written as an entity too, so a text that already
looks like an entity is not taken for one.

Results:
* `notMem_escape_of_mem`: the characters of markup do not occur in what is
  written, except for the ampersands that begin its entities
  (`exists_entity_of_escape`).
* `escape_eq_foldl`: writing entities in one pass is replacing one character
  after another, the ampersand first.
* `unescape_escape`: what is read is what was written.
* `highlight_inj`: a view tells its text and its label.
* `escape_faithful`: all of it.
-/
namespace PageQueries.Markup

open Text

/-- The entities, each with the character that it stands for. -/
def entities : List (Text × Char) :=
  [("&amp;".toList, '&'), ("&lt;".toList, '<'), ("&gt;".toList, '>'), ("&quot;".toList, '"'),
    ("&#x27;".toList, '\''), ("&#123;".toList, '\x7b'), ("&#125;".toList, '\x7d')]

/-- The entity that a text begins with. -/
def entityAt? (t : Text) : Option (Text × Char) := entities.find? fun e => e.1.isPrefixOf t

/-- Reads a text from left to right: an entity as its character, and any other character as
itself. -/
def unescape : Text → Text
  | [] => []
  | c :: t =>
    match entityAt? (c :: t) with
    | some e => e.2 :: unescape (t.drop (e.1.length - 1))
    | none => c :: unescape t
termination_by t => t.length
decreasing_by
  · rw [List.length_drop, List.length_cons]
    omega
  · exact Nat.lt_succ_self _

variable {t : Text} {c : Char} {e : Text × Char}

/-! ## Entities -/

theorem forall_entityChars {P : Char → Prop} :
    (∀ c ∈ entityChars, P c) ↔
      P '&' ∧ P '<' ∧ P '>' ∧ P '"' ∧ P '\'' ∧ P '\x7b' ∧ P '\x7d' := by
  simp only [entityChars, List.mem_cons, List.not_mem_nil, or_false, forall_eq_or_imp, forall_eq]

theorem escapeChar_of_entity (he : e ∈ entities) : escapeChar e.2 = e.1 := by
  revert e
  decide

theorem exists_entity (hc : c ∈ entityChars) : ∃ e ∈ entities, e.2 = c :=
  List.mem_map.mp hc

/-- An entity begins with an ampersand, has no other, and has none of the characters that are
written as entities. -/
theorem entity_eq_cons (he : e ∈ entities) : ∃ u, e.1 = '&' :: u ∧ ∀ c ∈ entityChars, c ∉ u := by
  simp only [entities, List.mem_cons, List.not_mem_nil, or_false] at he
  rcases he with rfl | rfl | rfl | rfl | rfl | rfl | rfl <;>
    exact ⟨_, rfl, forall_entityChars.mpr (by decide)⟩

/-- No entity is the beginning of another. -/
theorem entityAt?_append (he : e ∈ entities) (t : Text) : entityAt? (e.1 ++ t) = some e := by
  simp only [entities, List.mem_cons, List.not_mem_nil, or_false] at he
  rcases he with rfl | rfl | rfl | rfl | rfl | rfl | rfl <;> rfl

theorem entityAt?_cons_of_ne (hc : c ≠ '&') (t : Text) : entityAt? (c :: t) = none := by
  refine List.find?_eq_none.mpr fun e he hp => ?_
  obtain ⟨u, hu, -⟩ := entity_eq_cons he
  rw [hu, List.isPrefixOf_iff_prefix, List.cons_prefix_cons] at hp
  exact hc hp.1.symm

/-! ## Reading back -/

theorem unescape_entity (he : e ∈ entities) (t : Text) :
    unescape (e.1 ++ t) = e.2 :: unescape t := by
  have hat := entityAt?_append he t
  obtain ⟨u, hu, -⟩ := entity_eq_cons he
  rw [hu, List.cons_append] at hat ⊢
  rw [unescape, hat]
  simp [hu]

theorem unescape_cons (hc : c ≠ '&') (t : Text) : unescape (c :: t) = c :: unescape t := by
  rw [unescape, entityAt?_cons_of_ne hc]

/-- What is read is what was written. -/
theorem unescape_escape (t : Text) : unescape (escape t) = t := by
  induction t with
  | nil => rw [escape, List.flatMap_nil, unescape]
  | cons c t ih =>
    rw [escape_cons]
    by_cases hc : c ∈ entityChars
    · obtain ⟨e, he, rfl⟩ := exists_entity hc
      rw [escapeChar_of_entity he, unescape_entity he, ih]
    · have hamp : c ≠ '&' := fun h => hc (h ▸ List.mem_cons_self)
      rw [escapeChar_of_notMem hc, List.singleton_append, unescape_cons hamp, ih]

/-! ## What is written -/

/-- Of the characters of markup, only ampersands are left. -/
theorem notMem_escape_of_mem (hc : c ∈ entityChars) (hamp : c ≠ '&') (t : Text) :
    c ∉ escape t := by
  intro h
  obtain ⟨d, -, hmem⟩ := List.mem_flatMap.mp h
  by_cases hd : d ∈ entityChars
  · obtain ⟨e, he, rfl⟩ := exists_entity hd
    obtain ⟨u, hu, hnot⟩ := entity_eq_cons he
    rw [escapeChar_of_entity he, hu] at hmem
    exact (List.mem_cons.mp hmem).elim hamp (hnot c hc)
  · rw [escapeChar_of_notMem hd, List.mem_singleton] at hmem
    exact hd (hmem ▸ hc)

/-- Every ampersand begins an entity. -/
theorem exists_entity_of_escape {before after : Text} (h : escape t = before ++ '&' :: after) :
    ∃ e ∈ entities, e.1 <+: '&' :: after := by
  induction t generalizing before with
  | nil => simp [escape] at h
  | cons c t ih =>
    rw [escape_cons] at h
    rcases append_eq_append_cons_iff.mp h with ⟨late, hchar, rfl⟩ | ⟨early, hrest, -⟩
    · have hc : c ∈ entityChars := by
        by_contra hc
        have hamp : '&' ∈ escapeChar c := by rw [hchar]; simp
        rw [escapeChar_of_notMem hc, List.mem_singleton] at hamp
        exact hc (hamp ▸ List.mem_cons_self)
      obtain ⟨e, he, rfl⟩ := exists_entity hc
      obtain ⟨u, hu, hnot⟩ := entity_eq_cons he
      rw [escapeChar_of_entity he] at hchar
      refine ⟨e, he, ?_⟩
      rcases List.cons_eq_append_iff.mp (hu.symm.trans hchar) with ⟨rfl, hlate⟩ | ⟨early, -, rfl⟩
      · rw [hu, ← hlate, ← List.cons_append]
        exact List.prefix_append _ _
      · exact absurd (List.mem_append_right early List.mem_cons_self)
          (hnot '&' List.mem_cons_self)
    · exact ih hrest

/-- A text with each occurrence of a character replaced by its entity. -/
def replaceChar (t : Text) (e : Text × Char) : Text :=
  t.flatMap fun c => if c = e.2 then e.1 else [c]

theorem foldl_replaceChar_append (es : List (Text × Char)) (t u : Text) :
    es.foldl replaceChar (t ++ u) = es.foldl replaceChar t ++ es.foldl replaceChar u := by
  induction es generalizing t u with
  | nil => rfl
  | cons e es ih => rw [List.foldl_cons, replaceChar, List.flatMap_append, ih]; rfl

/-- Replacing one character after another writes the same, since the ampersand comes first: what
is put in for it later has no ampersand replaced. -/
theorem escape_eq_foldl (t : Text) : escape t = entities.foldl replaceChar t := by
  induction t with
  | nil => rfl
  | cons c t ih =>
    have hchar : entities.foldl replaceChar [c] = escapeChar c := by
      by_cases hc : c ∈ entityChars
      · revert c
        exact forall_entityChars.mpr (by decide)
      · rw [escapeChar_of_notMem hc]
        simp only [entityChars, List.mem_cons, List.not_mem_nil, or_false, not_or] at hc
        simp [entities, replaceChar, hc]
    rw [escape_cons, ih, ← hchar, ← foldl_replaceChar_append, List.singleton_append]

/-! ## Views -/

theorem escape_inj {u : Text} (h : escape t = escape u) : t = u := by
  rw [← unescape_escape t, h, unescape_escape]

/-- A view tells its text and its label. -/
theorem highlight_inj {text label text' label' : Text} :
    highlight text label = highlight text' label' ↔ text = text' ∧ label = label' := by
  refine ⟨fun h => ?_, fun ⟨ht, hl⟩ => ht ▸ hl ▸ rfl⟩
  have hquote (l : Text) : '"' ∉ escape l := notMem_escape_of_mem (by decide) (by decide) l
  unfold highlight at h
  simp only [List.append_assoc, List.append_cancel_left_eq] at h
  obtain ⟨hlabel, hrest⟩ := append_cons_inj (hquote label) (hquote label') h
  have htext := List.append_cancel_right (List.append_cancel_left hrest)
  exact ⟨escape_inj htext, escape_inj hlabel⟩

/-- **Shown texts can be read back.** What is written of a text has none of the characters of
markup but ampersands that begin entities, and one pass over its entities gives the text back; so a
view tells its text and its label. -/
theorem escape_faithful (t : Text) :
    (∀ c ∈ ['<', '>', '"', '\'', '\x7b', '\x7d'], c ∉ escape t) ∧
    (∀ before after, escape t = before ++ '&' :: after → ∃ e ∈ entities, e.1 <+: '&' :: after) ∧
    unescape (escape t) = t ∧
    ∀ label text' label', highlight t label = highlight text' label' ↔
      t = text' ∧ label = label' := by
  refine ⟨fun c hc => ?_, fun _ _ => exists_entity_of_escape, unescape_escape t,
    fun _ _ _ => highlight_inj⟩
  have hmarkup : c ∈ entityChars ∧ c ≠ '&' := by
    simp only [List.mem_cons, List.not_mem_nil, or_false] at hc
    rcases hc with rfl | rfl | rfl | rfl | rfl | rfl <;> decide
  exact notMem_escape_of_mem hmarkup.1 hmarkup.2 t

/-- A text that looks like an entity between two characters of markup. -/
def lookalike : Text := "<&amp;\x7d".toList

theorem escape_faithful_lookalike :
    escape lookalike = "&lt;&amp;amp;&#125;".toList ∧
      (∃ e ∈ entities, e.1 <+: "&amp;amp;&#125;".toList) ∧
      unescape "&lt;&amp;amp;&#125;".toList = lookalike := by
  have hescape : escape lookalike = "&lt;&amp;amp;&#125;".toList := by decide
  have hamp : "&lt;&amp;amp;&#125;".toList = "&lt;".toList ++ '&' :: "amp;amp;&#125;".toList := by
    decide
  obtain ⟨-, hbegins, hread, -⟩ := escape_faithful lookalike
  exact ⟨hescape, hbegins _ _ (hescape.trans hamp), hescape ▸ hread⟩

end PageQueries.Markup
