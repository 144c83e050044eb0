import PageQueries.Proofs.Fence.Bodies

/-!
# Lines put between the lines of a page

Some lines come between the lines `before` and `after` of a page, in the place
of one line `l` that they take apart. None of them opens or closes a block
(`Inert`). They are harmless where no block reaches over `l` and none begins
with it: the blocks in front are `Ended` there, and the search for the blocks
behind starts with the first line that may begin one.

Otherwise a block is changed or lost. One that reaches over `l` has the new
lines in its text. One that begins with `l` is gone, and then the queries are
others too, although a block that begins later may have the same name and the
same text.

Results:
* `ended_or_reaches`: the blocks that begin among some lines end there, or the
  last of them does not.
* `extractLines_of_ended`: the queries in front of a line, and behind it.
-/
namespace PageQueries.Fence

open Text

/-- The blocks that begin among some lines, in order, if they end there as well; the lines `rest`
come behind. -/
inductive Ended (language : Text) (rest : List Text) : List Text → List Record → Prop
  | none {ls : List Text} (plain : Plain language ls rest) : Ended language rest ls []
  | block {before body after : List Text} {opening closing id : Text} {fence : Fence}
      {records : List Record}
      (plain : Plain language before (opening :: (body ++ closing :: (after ++ rest))))
      (opens : IsOpening language fence id opening)
      (inside : ∀ l ∈ body, ¬ IsClosing fence l)
      (closes : IsClosing fence closing)
      (later : Ended language rest after records) :
      Ended language rest (before ++ opening :: (body ++ closing :: after))
        (⟨id, trim (join ['\n'] body), false, []⟩ :: records)

/-- Every fence that one of the second lines closes is closed by one of the first. -/
def Covers (rest rest' : List Text) : Prop :=
  ∀ fence, (∃ l ∈ rest', IsClosing fence l) → ∃ l ∈ rest, IsClosing fence l

variable {language l : Text} {before middle after rest rest' : List Text} {records : List Record}

/-! ## What comes behind -/

theorem Covers.append (h : Covers rest rest') (ls : List Text) :
    Covers (ls ++ rest) (ls ++ rest') := by
  intro fence hcloses
  obtain ⟨m, hm, hclosing⟩ := hcloses
  rcases List.mem_append.mp hm with hfront | hrest
  · exact ⟨m, List.mem_append_left rest hfront, hclosing⟩
  · obtain ⟨k, hk, hkclosing⟩ := h fence ⟨m, hrest, hclosing⟩
    exact ⟨k, List.mem_append_right ls hk, hkclosing⟩

theorem covers_of_inert (h : ∀ m ∈ middle, Inert language m) :
    Covers (l :: after) (middle ++ after) := by
  intro fence hcloses
  obtain ⟨m, hm, hclosing⟩ := hcloses
  rcases List.mem_append.mp hm with hmiddle | hafter
  · exact absurd hclosing ((h m hmiddle).closes fence)
  · exact ⟨m, List.mem_cons_of_mem l hafter, hclosing⟩

theorem Plain.of_covers (hrest : Covers rest rest') (h : Plain language before rest) :
    Plain language before rest' := by
  induction before with
  | nil => exact plain_nil
  | cons l before ih =>
    obtain ⟨hl, hbefore⟩ := plain_cons.mp h
    refine plain_cons.mpr ⟨fun hbegins => hl ?_, ih hbefore⟩
    obtain ⟨fence, id, opening, later, he, hopens, hcloses⟩ := hbegins
    cases he
    exact ⟨fence, id, l, before ++ rest, rfl, hopens, hrest.append before fence hcloses⟩

theorem Ended.of_covers (hrest : Covers rest rest') {ls : List Text}
    (h : Ended language rest ls records) : Ended language rest' ls records := by
  induction h with
  | none plain => exact .none (plain.of_covers hrest)
  | @block before body after opening closing id fence records plain opens inside closes _ ih =>
    have hcovers := hrest.append (opening :: (body ++ closing :: after))
    simp only [List.cons_append, List.append_assoc] at hcovers
    exact .block (plain.of_covers hcovers) opens inside closes ih

theorem Ended.cons {ls : List Text} (hl : ¬ Begins language (l :: (ls ++ rest)))
    (h : Ended language rest ls records) : Ended language rest (l :: ls) records := by
  cases h with
  | none plain => exact .none (plain_cons.mpr ⟨hl, plain⟩)
  | block plain opens inside closes later =>
    simp only [List.append_assoc, List.cons_append] at hl
    exact .block (plain_cons.mpr ⟨hl, plain⟩) opens inside closes later

/-- A block that begins among some lines does not end there, but with one of the lines `rest`. -/
inductive Reaches (language : Text) (rest : List Text) : List Text → Prop
  | intro {early body : List Text} {opening id : Text} {fence : Fence} {records : List Record}
      (ended : Ended language (opening :: (body ++ rest)) early records)
      (opens : IsOpening language fence id opening)
      (inside : ∀ l ∈ body, ¬ IsClosing fence l)
      (closes : ∃ l ∈ rest, IsClosing fence l) :
      Reaches language rest (early ++ opening :: body)

/-- Induction on the number of lines, since behind a block the search goes on with fewer. -/
theorem ended_or_reaches (language : Text) (rest ls : List Text) :
    (∃ records, Ended language rest ls records) ∨ Reaches language rest ls := by
  induction hn : ls.length using Nat.strongRecOn generalizing ls with
  | ind n ih =>
    cases ls with
    | nil => exact Or.inl ⟨[], .none plain_nil⟩
    | cons l later =>
      rw [List.length_cons] at hn
      by_cases hbegins : Begins language (l :: (later ++ rest))
      · obtain ⟨fence, id, opening, later', he, hopens, m, hm, hcloses⟩ := hbegins
        cases he
        by_cases hends : ∃ k ∈ later, IsClosing fence k
        · obtain ⟨body, closing, after, rfl, hbody, hclosing⟩ := exists_first hends
          have hlength : after.length < n := by
            rw [List.length_append, List.length_cons] at hn
            omega
          rcases ih after.length hlength after rfl with ⟨records, hended⟩ | hreaches
          · exact Or.inl ⟨_, .block plain_nil hopens hbody hclosing hended⟩
          · cases hreaches with
            | @intro early body' opening' id' fence' records' ended opens inside closes =>
            have hblock := Ended.block plain_nil hopens hbody hclosing ended
            have hlines : l :: (body ++ closing :: (early ++ opening' :: body'))
                = [] ++ l :: (body ++ closing :: early) ++ opening' :: body' := by
              simp
            rw [hlines]
            exact Or.inr ⟨hblock, opens, inside, closes⟩
        · have hrest : m ∈ rest :=
            (List.mem_append.mp hm).resolve_left fun hlater => hends ⟨m, hlater, hcloses⟩
          have hinside : ∀ k ∈ later, ¬ IsClosing fence k := fun k hk hc => hends ⟨k, hk, hc⟩
          exact Or.inr (.intro (.none plain_nil) hopens hinside ⟨m, hrest, hcloses⟩)
      · rcases ih later.length (by omega) later rfl with ⟨records, hended⟩ | hreaches
        · exact Or.inl ⟨records, hended.cons hbegins⟩
        · cases hreaches with
          | @intro early body opening id fence records ended opens inside closes =>
          rw [List.append_assoc] at hbegins
          exact Or.inr (.intro (ended.cons hbegins) opens inside closes)

/-! ## The queries, line by line -/

theorem extractLines_inert (hlang : '\n' ∉ language) (hinert : ∀ m ∈ middle, Inert language m)
    (hlines : ∀ m ∈ middle ++ after, '\n' ∉ m) :
    extractLines language (middle ++ after) = extractLines language after :=
  extractLines_plain hlang hlines (plain_of_inert hinert)

theorem extractLines_of_ended (hlang : '\n' ∉ language) {ls : List Text}
    (hlines : ∀ m ∈ ls ++ rest, '\n' ∉ m) (h : Ended language rest ls records) :
    extractLines language (ls ++ rest) = records ++ extractLines language rest := by
  induction h with
  | none plain => exact extractLines_plain hlang hlines plain
  | @block before body after opening closing id fence records plain opens inside closes _ ih =>
    simp only [List.append_assoc, List.cons_append] at hlines ⊢
    have hblock := fun m hm => hlines m (List.mem_append_right before hm)
    have hafter : ∀ m ∈ after ++ rest, '\n' ∉ m := fun m hm => hblock m (by grind)
    rw [extractLines_plain hlang hlines plain,
      extractLines_block hlang hblock opens inside closes, ih hafter]

/-- Between the blocks, lines that neither open nor close blocks change nothing. -/
theorem extractLines_insert (hlang : '\n' ∉ language) (hinert : ∀ m ∈ middle, Inert language m)
    (hfeed : ∀ m ∈ before ++ l :: (middle ++ after), '\n' ∉ m)
    (hended : Ended language (l :: after) before records) (hl : ¬ Begins language (l :: after)) :
    extractLines language (before ++ (middle ++ after))
      = extractLines language (before ++ l :: after) := by
  have hinserted : ∀ m ∈ before ++ (middle ++ after), '\n' ∉ m := fun m hm => hfeed m (by grind)
  have hlines : ∀ m ∈ before ++ l :: after, '\n' ∉ m := fun m hm => hfeed m (by grind)
  have hbehind : ∀ m ∈ middle ++ after, '\n' ∉ m := fun m hm => hfeed m (by grind)
  rw [extractLines_of_ended hlang hlines hended,
    extractLines_of_ended hlang hinserted (hended.of_covers (covers_of_inert hinert)),
    extractLines_of_not_begins hlang (fun m hm => hlines m (List.mem_append_right before hm)) hl,
    extractLines_inert hlang hinert hbehind]

theorem extractLines_ended_block (hlang : '\n' ∉ language) {body : List Text}
    {opening closing id : Text} {fence : Fence}
    (hlines : ∀ m ∈ before ++ opening :: (body ++ closing :: after), '\n' ∉ m)
    (hended : Ended language (opening :: (body ++ closing :: after)) before records)
    (hopens : IsOpening language fence id opening) (hbody : ∀ m ∈ body, ¬ IsClosing fence m)
    (hcloses : IsClosing fence closing) :
    extractLines language (before ++ opening :: (body ++ closing :: after))
      = records ++ ⟨id, trim (join ['\n'] body), false, []⟩ :: extractLines language after := by
  rw [extractLines_of_ended hlang hlines hended, extractLines_block hlang
    (fun m hm => hlines m (List.mem_append_right before hm)) hopens hbody hcloses]

/-- A block that reaches over the line has the new lines in its text. -/
theorem extractLines_ne_of_reaches (hlang : '\n' ∉ language)
    (hinert : ∀ m ∈ middle, Inert language m) (hl : Inert language l)
    (hfeed : ∀ m ∈ before ++ l :: (middle ++ after), '\n' ∉ m)
    (hsolid : (solid [l]).length < (solid middle).length)
    (h : Reaches language (l :: after) before) :
    extractLines language (before ++ (middle ++ after))
      ≠ extractLines language (before ++ l :: after) := by
  cases h with
  | @intro early body opening id fence records ended opens inside closes =>
  obtain ⟨first, closing, last, hafter, hfirst, hcloses⟩ := exists_first closes
  cases first with
  | nil =>
    obtain ⟨rfl, -⟩ := List.cons.inj hafter
    exact absurd hcloses (hl.closes fence)
  | cons m first =>
    rw [List.cons_append] at hafter
    obtain ⟨rfl, rfl⟩ := List.cons.inj hafter
    have hopen : ∀ m ∈ body ++ l :: first, ¬ IsClosing fence m := by
      intro m hm
      exact (List.mem_append.mp hm).elim (inside m) (hfirst m)
    have hopen' : ∀ m ∈ body ++ (middle ++ first), ¬ IsClosing fence m := by
      intro m hm
      rcases List.mem_append.mp hm with hbody | hlater
      · exact inside m hbody
      · exact (List.mem_append.mp hlater).elim (fun hmiddle => (hinert m hmiddle).closes fence)
          fun hm => hfirst m (List.mem_cons_of_mem l hm)
    have ended' := ended.of_covers ((covers_of_inert hinert).append (opening :: body))
    have hlines : ∀ m ∈ early ++ opening :: (body ++ l :: first ++ closing :: last), '\n' ∉ m :=
      fun m hm => hfeed m (by grind)
    have hlines' : ∀ m ∈ early ++ opening :: (body ++ (middle ++ first) ++ closing :: last),
        '\n' ∉ m := fun m hm => hfeed m (by grind)
    have hqueries :=
      extractLines_ended_block hlang hlines (by simpa using ended) opens hopen hcloses
    have hqueries' :=
      extractLines_ended_block hlang hlines' (by simpa using ended') opens hopen' hcloses
    have hsplit : early ++ opening :: body ++ l :: (first ++ closing :: last)
        = early ++ opening :: (body ++ l :: first ++ closing :: last) := by simp
    have hsplit' : early ++ opening :: body ++ (middle ++ (first ++ closing :: last))
        = early ++ opening :: (body ++ (middle ++ first) ++ closing :: last) := by simp
    intro h
    rw [hsplit, hsplit', hqueries, hqueries', List.append_cancel_left_eq, List.cons.injEq,
      Record.mk.injEq] at h
    have hlength := length_solid_eq (fun m hm => hlines' m (by grind))
      (fun m hm => hlines m (by grind)) h.1.2.1
    rw [solid_append, solid_append, solid_append, solid_cons l] at hlength
    simp only [List.length_append] at hlength
    omega

/-- The same queries without the first of two blocks would be those of a later block whose lines go
beyond the closing line of the first, and its text would have a line that opens a block. -/
theorem extractLines_ne_of_begins (hlang : '\n' ∉ language) (hfeed : ∀ m ∈ l :: after, '\n' ∉ m)
    (hbegins : Begins language (l :: after))
    (hquiet : ∀ r ∈ extractLines language (l :: after), ∀ m ∈ (lines r.text).tail,
      Inert language m) :
    extractLines language after ≠ extractLines language (l :: after) := by
  obtain ⟨fence, id, opening, later, he, hopens, hcloses⟩ := hbegins
  cases he
  obtain ⟨body, closing, last, rfl, hbody, hclosing⟩ := exists_first hcloses
  have hlater : ∀ m ∈ body ++ closing :: last, '\n' ∉ m := fun m hm => hfeed m (by grind)
  intro h
  rw [extractLines_block hlang hfeed hopens hbody hclosing] at h hquiet
  have hblocks := blocks_extractLines hlang _ hlater
  rw [h] at hblocks
  obtain ⟨early, o, inner, final, behind, fence', hlines, hplain, ho, hinside, hfinal, htext,
    hrest⟩ := hblocks.exists_block
  rcases append_eq_append_cons_iff.mp hlines with ⟨late, rfl, hlate⟩ | ⟨early', hlast, rfl⟩
  · have hbodyFeed : ∀ m ∈ early ++ o :: late, '\n' ∉ m := fun m hm => hlater m (by grind)
    rcases append_eq_append_cons_iff.mp hlate.symm with ⟨more, rfl, -⟩ | ⟨more, hmore, rfl⟩
    · exact trim_join_ne_prepend hbodyFeed ho htext
    · cases more with
      | nil =>
        rw [List.append_nil] at htext
        have hbodyFeed' : ∀ m ∈ early ++ o :: (late ++ []), '\n' ∉ m := by simpa using hbodyFeed
        exact trim_join_ne_prepend hbodyFeed' ho (by simpa using htext)
      | cons m more =>
        obtain ⟨rfl, -⟩ := List.cons.inj hmore
        have hinner : ∀ m ∈ late ++ closing :: more, '\n' ∉ m := fun m hm => hlater m (by grind)
        have hfirst := hquiet _ List.mem_cons_self
        exact solid_ne_nil_of_trim_eq hbodyFeed hinner ho hclosing htext
          (solid_eq_nil_of_quiet hbodyFeed ho rfl fun m hm => (hfirst m hm).opens fence')
  · cases early' with
    | nil =>
      obtain ⟨rfl, -⟩ := List.cons.inj hlast
      exact absurd hclosing (not_isClosing_of_isOpening ho)
    | cons m early' =>
      -- The later block would be found again behind itself.
      obtain ⟨rfl, rfl⟩ := List.cons.inj hlast
      have hlastFeed : ∀ m ∈ early' ++ o :: (inner ++ final :: behind), '\n' ∉ m :=
        fun m hm => hlater m (by grind)
      have hrest' := extractLines_eq_of_blocks hlang hrest fun m hm => hlastFeed m (by grind)
      obtain ⟨-, hplain'⟩ := plain_append.mp hplain
      have hagain := extractLines_plain hlang hlastFeed (plain_cons.mp hplain').2
      rw [extractLines_block hlang (fun m hm => hlastFeed m (by grind)) ho hinside hfinal] at hagain
      have hlength := congrArg List.length (hrest'.trans hagain)
      simp at hlength

end PageQueries.Fence
