import PageQueries.Proofs.Text.Line

/-!
# Texts with `\r\n`

A text whose lines end with `\r\n` has the same lines as one whose lines end
with a line feed, but each of them ends with a carriage return, except for the
last one, which has no line end. Trimming takes no half of a line end: both of
its characters are blanks.

Results:
* `ofCrlf_toCrlf`: the line feeds come back.
* `unifyLineEnds_eq_self_iff`: reading line ends of any kind as line feeds
  changes a text exactly if it has a carriage return.
* `trim_toCrlf`, `lines_toCrlf`: the trimmed text and the lines of the `\r\n`
  form.
-/
namespace PageQueries.Text

/-- A text with its line feeds written as `\r\n`. -/
def toCrlf (t : Text) : Text := t.flatMap fun c => if c = '\n' then ['\r', '\n'] else [c]

/-- A text with each `\r\n` written as a line feed. -/
def ofCrlf : Text → Text
  | [] => []
  | '\r' :: '\n' :: t => '\n' :: ofCrlf t
  | c :: t => c :: ofCrlf t

@[simp] theorem toCrlf_nil : toCrlf [] = [] := rfl

theorem toCrlf_cons (c : Char) (t : Text) :
    toCrlf (c :: t) = (if c = '\n' then ['\r', '\n'] else [c]) ++ toCrlf t := rfl

theorem toCrlf_append (t u : Text) : toCrlf (t ++ u) = toCrlf t ++ toCrlf u :=
  List.flatMap_append

theorem toCrlf_of_notMem {l : Text} (h : '\n' ∉ l) : toCrlf l = l := by
  induction l with
  | nil => rfl
  | cons c l ih =>
    rw [List.mem_cons, not_or] at h
    rw [toCrlf_cons, if_neg (Ne.symm h.1), ih h.2]
    rfl

theorem ofCrlf_cons {c : Char} (hc : c ≠ '\r') (t : Text) : ofCrlf (c :: t) = c :: ofCrlf t := by
  rw [ofCrlf]
  intro u hu
  exact absurd hu hc

theorem ofCrlf_toCrlf {t : Text} (h : '\r' ∉ t) : ofCrlf (toCrlf t) = t := by
  induction t with
  | nil => rfl
  | cons c t ih =>
    rw [List.mem_cons, not_or] at h
    by_cases hc : c = '\n'
    · rw [toCrlf_cons, if_pos hc, hc, List.cons_append, List.cons_append, List.nil_append, ofCrlf,
        ih h.2]
    · rw [toCrlf_cons, if_neg hc, List.singleton_append, ofCrlf_cons (Ne.symm h.1), ih h.2]

theorem notMem_unifyLineEnds (t : Text) : '\r' ∉ unifyLineEnds t := by
  fun_induction unifyLineEnds t with
  | case1 => exact List.not_mem_nil
  | case2 t ih => simpa using ih
  | case3 c t hne ih =>
    rw [List.mem_cons, not_or]
    refine ⟨?_, ih⟩
    split
    · decide
    · rename_i hc
      exact Ne.symm hc

/-- A text whose line ends are line feeds is read as it is, and no other. -/
theorem unifyLineEnds_eq_self_iff {t : Text} : unifyLineEnds t = t ↔ '\r' ∉ t := by
  constructor
  · intro h
    rw [← h]
    exact notMem_unifyLineEnds t
  · intro h
    induction t with
    | nil => rfl
    | cons c t ih =>
      rw [List.mem_cons, not_or] at h
      have hc : c ≠ '\r' := Ne.symm h.1
      rw [unifyLineEnds, if_neg hc, ih h.2]
      exact fun u hu => absurd hu hc

/-! ## Trimming -/

theorem dropWhile_flatMap {p : Char → Bool} {f : Char → Text}
    (hrun : ∀ c, p c = true → ∀ d ∈ f c, p d = true)
    (hstop : ∀ c, p c = false → ∃ d u, f c = d :: u ∧ p d = false) (t : Text) :
    (t.flatMap f).dropWhile p = (t.dropWhile p).flatMap f := by
  induction t with
  | nil => rfl
  | cons c t ih =>
    rw [List.flatMap_cons]
    cases hc : p c with
    | true => rw [List.dropWhile_append_of_pos (hrun c hc), ih, List.dropWhile_cons_of_pos hc]
    | false =>
      obtain ⟨d, u, hf, hd⟩ := hstop c hc
      rw [List.dropWhile_cons_of_neg (Bool.eq_false_iff.mp hc), List.flatMap_cons, hf,
        List.cons_append, List.dropWhile_cons_of_neg (Bool.eq_false_iff.mp hd)]

theorem trim_toCrlf (t : Text) : trim (toCrlf t) = toCrlf (trim t) := by
  have hrun (c : Char) (hc : isBlank c = true) :
      ∀ d ∈ (if c = '\n' then ['\r', '\n'] else [c]), isBlank d = true := by
    intro d hd
    split at hd
    · rcases List.mem_pair.mp hd with rfl | rfl <;> decide
    · exact List.mem_singleton.mp hd ▸ hc
  have hstop (c : Char) (hc : isBlank c = false) :
      (if c = '\n' then ['\r', '\n'] else [c]) = [c] := by
    refine if_neg fun he => ?_
    rw [he] at hc
    exact absurd hc (by decide)
  rw [trim, trimBy, dropStart, toCrlf, dropWhile_flatMap hrun fun c hc => ⟨c, [], hstop c hc, hc⟩,
    dropEnd, List.reverse_flatMap, dropWhile_flatMap, List.reverse_flatMap]
  · simp [trim, trimBy, dropEnd, dropStart, toCrlf, Function.comp_def]
  · exact fun c hc d hd => hrun c hc d (List.mem_reverse.mp hd)
  · exact fun c hc => ⟨c, [], by rw [Function.comp, hstop c hc]; rfl, hc⟩

/-! ## Lines -/

/-- Lines that end with a carriage return. -/
def carried (ls : List Text) : List Text := ls.map (· ++ ['\r'])

theorem terminated_carried {ls : List Text} (h : ∀ l ∈ ls, '\n' ∉ l) :
    terminated (carried ls) = toCrlf (terminated ls) := by
  induction ls with
  | nil => rfl
  | cons l ls ih =>
    obtain ⟨hl, hls⟩ := List.forall_mem_cons.mp h
    rw [terminated_cons, toCrlf_append, toCrlf_of_notMem hl, toCrlf_cons, if_pos rfl, ← ih hls,
      carried, List.map_cons, terminated_cons, carried]
    simp

/-- The lines of the `\r\n` form end with a carriage return, but for the last one. -/
theorem lines_toCrlf (t : Text) :
    ∃ init last, lines t = init ++ [last] ∧ lines (toCrlf t) = carried init ++ [last] := by
  induction t using line_induction with
  | last l hl =>
    refine ⟨[], l, lines_of_notMem hl, ?_⟩
    rw [toCrlf_of_notMem hl, lines_of_notMem hl]
    rfl
  | more l t hl ih =>
    obtain ⟨init, last, ht, hcrlf⟩ := ih
    have hcarried : '\n' ∉ l ++ ['\r'] := by simp [hl]
    have htext : toCrlf (l ++ '\n' :: t) = (l ++ ['\r']) ++ '\n' :: toCrlf t := by
      rw [toCrlf_append, toCrlf_of_notMem hl, toCrlf_cons, if_pos rfl]
      simp
    refine ⟨l :: init, last, by rw [lines_append hl, ht]; rfl, ?_⟩
    rw [htext, lines_append hcarried, hcrlf]
    rfl

end PageQueries.Text
