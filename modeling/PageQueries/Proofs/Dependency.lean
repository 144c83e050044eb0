import PageQueries.Dependency
import PageQueries.Proofs.Text.Line

/-!
# Markers are found wherever they stand

`isReactive` and `readsInputs` try one place of a text after another. What
begins like a marker and fails, such as `${ inputs ` without a point behind it,
must not keep them from a marker that stands later, or inside. Here both are
described by how a text can be divided. `marker inner` is a whole marker, and a
marker reads inputs if `inner` begins with `inputs` and a point, with any blanks
in front of either; so such a marker is a marker.

Results:
* `isReactive_iff`, `readsInputs_iff`: a text has a marker, or one that reads
  inputs, if and only if it can be divided around one.
* `isReactive_of_readsInputs`, `ofText_eq_inputReactive_iff`: the order in which
  `ofText` asks does not matter.
* `markers_found`: all of it, and that more text on either side hides nothing.
-/
namespace PageQueries.Dependency

open Text

/-- A marker around what the page evaluates. -/
def marker (inner : Text) : Text := markerStart ++ inner ++ ['\x7d']

/-- What is evaluated begins with a member of `inputs`. -/
def ReadsMember (inner : Text) : Prop :=
  ∃ gap gap' member : Text, (∀ c ∈ gap, isBlank c = true) ∧ (∀ c ∈ gap', isBlank c = true) ∧
    inner = gap ++ "inputs".toList ++ gap' ++ '.' :: member

variable {t rest : Text}

/-! ## At one place -/

/-- Dropping blanks leaves a text that begins with none, exactly if only blanks are in front. -/
theorem dropWhile_isBlank_eq_iff (h : ∀ c, rest.head? = some c → isBlank c = false) :
    t.dropWhile isBlank = rest ↔ ∃ gap, (∀ c ∈ gap, isBlank c = true) ∧ t = gap ++ rest := by
  constructor
  · rintro rfl
    obtain ⟨gap, ht, hgap⟩ := exists_dropStart t
    exact ⟨gap, hgap, ht⟩
  · rintro ⟨gap, hgap, rfl⟩
    exact dropWhile_eq hgap h

theorem beginsMarker_iff :
    beginsMarker t = true ↔ ∃ inner after, t = marker inner ++ after := by
  unfold beginsMarker marker
  constructor
  · intro h
    split at h
    · next r hr =>
      obtain ⟨inner, after, rfl⟩ := List.append_of_mem (List.contains_iff_mem.mp h)
      refine ⟨inner, after, ?_⟩
      rw [after?_eq_some_iff.mp hr, List.append_assoc, List.append_assoc, List.singleton_append]
    · cases h
  · rintro ⟨inner, after, rfl⟩
    rw [List.append_assoc, List.append_assoc, after?_append]
    simp

theorem head_inputs {c : Char} (h : ("inputs".toList ++ rest).head? = some c) :
    isBlank c = false := by
  obtain rfl : 'i' = c := Option.some.inj h
  decide

theorem head_point {c : Char} (h : ('.' :: rest).head? = some c) : isBlank c = false := by
  obtain rfl : '.' = c := Option.some.inj h
  decide

theorem beginsInputMarker_iff :
    beginsInputMarker t = true ↔
      ∃ inner after, ReadsMember inner ∧ t = marker inner ++ after := by
  unfold beginsInputMarker
  constructor
  · intro h
    split at h
    · next r hr =>
      obtain ⟨s, hs, hinputs⟩ := Option.bind_eq_some_iff.mp hr
      obtain ⟨gap, hgap, rfl⟩ :=
        (dropWhile_isBlank_eq_iff fun _ => head_inputs).mp (after?_eq_some_iff.mp hinputs)
      split at h
      · next u hu =>
        obtain ⟨gap', hgap', rfl⟩ := (dropWhile_isBlank_eq_iff fun _ => head_point).mp hu
        obtain ⟨member, after, rfl⟩ := List.append_of_mem (List.contains_iff_mem.mp h)
        refine ⟨_, after, ⟨gap, gap', member, hgap, hgap', rfl⟩, ?_⟩
        rw [after?_eq_some_iff.mp hs, marker]
        simp only [List.append_assoc, List.cons_append, List.nil_append]
      · cases h
    · cases h
  · rintro ⟨inner, after, ⟨gap, gap', member, hgap, hgap', rfl⟩, rfl⟩
    have hstart : marker (gap ++ "inputs".toList ++ gap' ++ '.' :: member) ++ after
        = markerStart ++
          (gap ++ ("inputs".toList ++ (gap' ++ '.' :: (member ++ '\x7d' :: after)))) := by
      simp only [marker, List.append_assoc, List.cons_append, List.nil_append]
    rw [hstart, after?_append, Option.bind_some, dropWhile_eq hgap fun _ => head_inputs,
      after?_append]
    simp only [dropWhile_eq hgap' fun _ => head_point]
    simp

/-! ## At all places -/

/-- A search that tries one place after another succeeds if there is a place where it does. -/
theorem search_iff {begins search : Text → Bool} (hvoid : begins [] = false)
    (hnil : search [] = false) (hcons : ∀ c t, search (c :: t) = (begins (c :: t) || search t)) :
    search t = true ↔ ∃ before after, t = before ++ after ∧ begins after = true := by
  induction t with
  | nil =>
    rw [hnil]
    refine iff_of_false Bool.false_ne_true ?_
    rintro ⟨before, after, he, h⟩
    obtain ⟨rfl, rfl⟩ := List.append_eq_nil_iff.mp he.symm
    exact Bool.false_ne_true (hvoid.symm.trans h)
  | cons c t ih =>
    rw [hcons, Bool.or_eq_true, ih]
    constructor
    · rintro (h | ⟨before, after, rfl, h⟩)
      · exact ⟨[], c :: t, rfl, h⟩
      · exact ⟨c :: before, after, rfl, h⟩
    · rintro ⟨before, after, he, h⟩
      rcases List.cons_eq_append_iff.mp he with ⟨rfl, rfl⟩ | ⟨before, rfl, rfl⟩
      · exact Or.inl h
      · exact Or.inr ⟨before, after, rfl, h⟩

theorem isReactive_iff :
    isReactive t = true ↔ ∃ before inner after, t = before ++ marker inner ++ after := by
  rw [search_iff rfl rfl fun _ _ => rfl]
  constructor
  · rintro ⟨before, rest, rfl, h⟩
    obtain ⟨inner, after, rfl⟩ := beginsMarker_iff.mp h
    exact ⟨before, inner, after, (List.append_assoc ..).symm⟩
  · rintro ⟨before, inner, after, rfl⟩
    exact ⟨before, marker inner ++ after, List.append_assoc .., beginsMarker_iff.mpr ⟨_, _, rfl⟩⟩

theorem readsInputs_iff :
    readsInputs t = true ↔
      ∃ before inner after, ReadsMember inner ∧ t = before ++ marker inner ++ after := by
  rw [search_iff rfl rfl fun _ _ => rfl]
  constructor
  · rintro ⟨before, rest, rfl, h⟩
    obtain ⟨inner, after, hinner, rfl⟩ := beginsInputMarker_iff.mp h
    exact ⟨before, inner, after, hinner, (List.append_assoc ..).symm⟩
  · rintro ⟨before, inner, after, hinner, rfl⟩
    exact ⟨before, marker inner ++ after, List.append_assoc ..,
      beginsInputMarker_iff.mpr ⟨_, _, hinner, rfl⟩⟩

/-! ## The classes -/

theorem isReactive_of_readsInputs (h : readsInputs t = true) : isReactive t = true := by
  obtain ⟨before, inner, after, -, ht⟩ := readsInputs_iff.mp h
  exact isReactive_iff.mpr ⟨before, inner, after, ht⟩

theorem ofText_eq_static_iff : ofText t = static ↔ isReactive t = false := by
  unfold ofText
  cases isReactive t <;> cases readsInputs t <;> simp

theorem ofText_eq_inputReactive_iff : ofText t = inputReactive ↔ readsInputs t = true := by
  unfold ofText
  cases hi : readsInputs t with
  | false => cases isReactive t <;> simp
  | true => simp [isReactive_of_readsInputs hi]

/-- More text on either side hides no marker. -/
theorem isReactive_append (u v : Text) (h : isReactive t = true) :
    isReactive (u ++ t ++ v) = true := by
  obtain ⟨before, inner, after, rfl⟩ := isReactive_iff.mp h
  exact isReactive_iff.mpr ⟨u ++ before, inner, after ++ v, by simp only [List.append_assoc]⟩

@[inherit_doc isReactive_append]
theorem readsInputs_append (u v : Text) (h : readsInputs t = true) :
    readsInputs (u ++ t ++ v) = true := by
  obtain ⟨before, inner, after, hinner, rfl⟩ := readsInputs_iff.mp h
  exact readsInputs_iff.mpr
    ⟨u ++ before, inner, after ++ v, hinner, by simp only [List.append_assoc]⟩

/-- **Markers are found wherever they stand.** A text has a marker, or one that reads inputs, if
and only if it can be divided around one; the latter makes its class, and what stands on either
side of a text does not matter to what is found in it. -/
theorem markers_found (t : Text) :
    (isReactive t = true ↔ ∃ before inner after, t = before ++ marker inner ++ after) ∧
    (readsInputs t = true ↔
      ∃ before inner after, ReadsMember inner ∧ t = before ++ marker inner ++ after) ∧
    (readsInputs t = true → isReactive t = true) ∧
    (ofText t = inputReactive ↔ readsInputs t = true) ∧
    ∀ u v, (isReactive t = true → isReactive (u ++ t ++ v) = true) ∧
      (readsInputs t = true → readsInputs (u ++ t ++ v) = true) :=
  ⟨isReactive_iff, readsInputs_iff, isReactive_of_readsInputs, ofText_eq_inputReactive_iff,
    fun u v => ⟨isReactive_append u v, readsInputs_append u v⟩⟩

/-- A text with two beginnings of markers that fail, and in the second one that reads inputs. -/
def nestedMarkers : Text := "$\x7b inputs $$\x7b a $\x7b\u2003inputs\n.x\x7d".toList

theorem markers_found_nestedMarkers :
    readsInputs nestedMarkers = true ∧ isReactive nestedMarkers = true ∧
      ofText nestedMarkers = inputReactive ∧
      readsInputs ("$\x7b".toList ++ nestedMarkers ++ ['\x7d']) = true := by
  obtain ⟨-, -, himp, hclass, hmore⟩ := markers_found nestedMarkers
  have h : readsInputs nestedMarkers = true := by decide
  exact ⟨h, himp h, hclass.mpr h, (hmore _ _).2 h⟩

end PageQueries.Dependency
