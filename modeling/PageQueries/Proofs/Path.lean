import PageQueries.Path
import PageQueries.Proofs.Text.Line

/-!
# Paths and their written forms

A path that was read has one of three roots, and its parts are neither void nor
hold a separator (`Normal`). Such a path is what its written form is read as
(`ofText_text`), so a path may pass through a text on its way.
-/
namespace PageQueries

namespace Text

/-- Parts without the separator are what their joined text is split into. -/
theorem splitOn_join {separator : Char} {parts : List Text} (hne : parts ≠ [])
    (h : ∀ part ∈ parts, separator ∉ part) :
    splitOn separator (join [separator] parts) = parts := by
  rw [splitOn_eq, join, List.splitOn_intercalate _ h hne]

theorem join_concat (separator : Text) {parts : List Text} (hne : parts ≠ []) (part : Text) :
    join separator (parts ++ [part]) = join separator parts ++ separator ++ part := by
  induction parts with
  | nil => exact absurd rfl hne
  | cons p ps ih =>
    cases ps with
    | nil => simp [join, List.intercalate]
    | cons q qs => simpa [join, List.intercalate] using ih (by simp)

end Text

namespace Path

theorem parent_child (p : Path) (name : Text) : (p.child name).parent = p := by
  simp [parent, child]

/-- A path as it is read. -/
structure Normal (p : Path) : Prop where
  root : p.root = [] ∨ p.root = ['/'] ∨ p.root = ['/', '/']
  parts : ∀ part ∈ p.parts, isVoid part = false ∧ '/' ∉ part

theorem normal_ofText (t : Text) : Normal (ofText t) := by
  constructor
  · show rootOf t = _ ∨ rootOf t = _ ∨ rootOf t = _
    unfold rootOf
    split <;> simp
  · intro part h
    obtain ⟨hsplit, hvoid⟩ := List.mem_filter.mp h
    exact ⟨by simpa using hvoid, Text.notMem_of_mem_splitOn hsplit⟩

theorem Normal.filter_parts {p : Path} (h : Normal p) : p.parts.filter (!isVoid ·) = p.parts :=
  List.filter_eq_self.mpr fun part hp => by simp [(h.parts part hp).1]

/-- The parts of a written path begin with no separator. -/
theorem Normal.exists_join {p : Path} (h : Normal p) (hne : p.parts ≠ []) :
    ∃ c t, Text.join ['/'] p.parts = c :: t ∧ c ≠ '/' := by
  obtain ⟨part, parts, hp⟩ := List.exists_cons_of_ne_nil hne
  obtain ⟨hvoid, hsep⟩ := h.parts part (by simp [hp])
  cases part with
  | nil => simp [isVoid] at hvoid
  | cons c part =>
    have hc : c ≠ '/' := fun e => hsep (by simp [e])
    rw [hp]
    cases parts with
    | nil => exact ⟨c, part, by simp [Text.join], hc⟩
    | cons q qs => exact ⟨c, part ++ '/' :: Text.join ['/'] (q :: qs), by simp [Text.join], hc⟩

/-- Reading the written form of a path gives the path back. -/
theorem ofText_text {p : Path} (h : Normal p) : ofText p.text = p := by
  by_cases hne : p.parts = []
  · obtain ⟨root, parts⟩ := p
    subst hne
    rcases h.root with hr | hr | hr <;> subst hr <;> decide
  · obtain ⟨c, t, hjoin, hc⟩ := h.exists_join hne
    have hsplit := Text.splitOn_join hne fun part hp => (h.parts part hp).2
    have htext : p.text = p.root ++ Text.join ['/'] p.parts := by
      rw [text, if_neg (by simpa using hne)]
    have hroot : rootOf (p.root ++ Text.join ['/'] p.parts) = p.root := by
      rw [hjoin]
      rcases h.root with hr | hr | hr <;> simp [rootOf, hr, hc]
    have hparts : (Text.splitOn '/' (p.root ++ Text.join ['/'] p.parts)).filter (!isVoid ·)
        = p.parts := by
      -- each separator of the root adds a void part
      rcases h.root with hr | hr | hr
      · rw [hr, List.nil_append, hsplit, h.filter_parts]
      · rw [hr]
        show ([] :: Text.splitOn '/' (Text.join ['/'] p.parts)).filter _ = _
        rw [hsplit]
        exact h.filter_parts
      · rw [hr]
        show ([] :: [] :: Text.splitOn '/' (Text.join ['/'] p.parts)).filter _ = _
        rw [hsplit]
        exact h.filter_parts
    rw [ofText, htext, hroot, hparts]

/-- Every character of a path's parent but a single dot is one of the path. -/
theorem mem_text_of_mem_parent {p : Path} {c : Char} (h : c ∈ p.parent.text) (hc : c ≠ '.') :
    c ∈ p.text := by
  rcases List.eq_nil_or_concat p.parts with hp | ⟨parts, part, hp⟩
  · have hsame : p.parent = p := by
      obtain ⟨root, parts⟩ := p
      subst hp
      rfl
    rwa [hsame] at h
  · obtain ⟨root, ps⟩ := p
    obtain rfl : ps = parts ++ [part] := by simpa using hp
    have hparent : parent ⟨root, parts ++ [part]⟩ = ⟨root, parts⟩ := by simp [parent]
    have htext : text ⟨root, parts ++ [part]⟩ = root ++ Text.join ['/'] (parts ++ [part]) := by
      simp [text]
    rw [hparent, text] at h
    rw [htext]
    by_cases hne : parts = []
    · subst hne
      simp only [List.isEmpty_nil, if_true] at h
      split at h
      · exact absurd (List.mem_singleton.mp h) hc
      · exact List.mem_append_left _ h
    · rw [if_neg (by simpa using hne)] at h
      rw [Text.join_concat _ hne, ← List.append_assoc, ← List.append_assoc]
      exact List.mem_append_left _ (List.mem_append_left _ h)

end Path

end PageQueries
