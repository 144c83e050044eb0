import Mathlib.Data.List.Induction
import PageQueries.Dependency
import PageQueries.Proofs.Script.Code

/-!
# Query texts inside their literals

A query's text is written between backticks, with a backslash put before each
backtick of the text. In the script's language a backslash makes the reader skip
the character behind it, whatever it is. A backslash of the text that stands
before a backtick, or at the end, therefore takes part in the reading: two of
them are a pair that skips nothing else, a single one skips the backslash that
was put there, or the backtick that should close the literal.

`closing?` is the reader, from behind the opening backtick to behind the closing
one. `EvenBackslashes t` says that directly before each backtick of `t` and at
its end there is an even number of backslashes.

Results:
* `closes_iff`: the literal of a text ends with its own closing backtick exactly
  if the text has `EvenBackslashes`.
* `literal_closes_iff`: the same in the blocks that hold a query's text.
-/
namespace PageQueries.Script

/-- Reads a literal up to the first backtick that is not skipped, and gives what follows it. -/
def closing? : (skip : Bool) → Text → Option Text
  | _, [] => none
  | true, _ :: t => closing? false t
  | false, c :: t => if c = '\x60' then some t else closing? (c = '\\') t

/-- The literal of a text ends where it should: with `rest` behind it, `rest` is left. -/
def Closes (t rest : Text) : Prop := closing? false (escapeLiteral t ++ '\x60' :: rest) = some rest

instance (t rest : Text) : Decidable (Closes t rest) :=
  inferInstanceAs (Decidable (closing? false _ = _))

/-- The number of backslashes at the end of a text. -/
def backslashesAtEnd (t : Text) : Nat := (t.reverse.takeWhile (· = '\\')).length

/-- Before each backtick and at the end of a text the number of backslashes is even. -/
def EvenBackslashes (t : Text) : Prop :=
  ∀ before after : Text, t = before ++ after → (after = [] ∨ after.head? = some '\x60') →
    backslashesAtEnd before % 2 = 0

/-! ## Reading an escaped text -/

/-- Whether a reader of the text skips the character behind it. -/
def pending (skip : Bool) (t : Text) : Bool := t.foldl (fun skip c => c = '\\' && !skip) skip

/-- The reader is nowhere about to skip a backtick of the text, nor what follows the text. -/
def Unskipped (skip : Bool) (t : Text) : Prop :=
  ∀ before after : Text, t = before ++ after → (after = [] ∨ after.head? = some '\x60') →
    pending skip before = false

theorem unskipped_nil (skip : Bool) : Unskipped skip [] ↔ skip = false := by
  constructor
  · exact fun h => h [] [] rfl (Or.inl rfl)
  · intro h before after he _
    obtain ⟨rfl, rfl⟩ := List.append_eq_nil_iff.mp he.symm
    exact h

theorem unskipped_cons (skip : Bool) (c : Char) (t : Text) :
    Unskipped skip (c :: t) ↔
      (c = '\x60' → skip = false) ∧ Unskipped (c = '\\' && !skip) t := by
  constructor
  · intro h
    refine ⟨fun hc => h [] (c :: t) rfl (Or.inr (by simp [hc])), ?_⟩
    exact fun before after he ha => h (c :: before) after (by rw [he, List.cons_append]) ha
  · rintro ⟨hc, ht⟩ before after he ha
    cases before with
    | nil =>
      rw [List.nil_append] at he
      subst he
      rcases ha with ha | ha
      · cases ha
      · exact hc (Option.some.inj ha)
    | cons d before =>
      rw [List.cons_append, List.cons.injEq] at he
      obtain ⟨rfl, he⟩ := he
      exact ht before after he ha

theorem length_lt_of_closing? {skip : Bool} {t rest : Text} (h : closing? skip t = some rest) :
    rest.length < t.length := by
  induction t generalizing skip with
  | nil => cases skip <;> cases h
  | cons c t ih =>
    rw [List.length_cons]
    cases skip with
    | true => exact Nat.lt_succ_of_lt (ih h)
    | false =>
      rw [closing?] at h
      split at h
      · cases h
        exact Nat.lt_succ_self _
      · exact Nat.lt_succ_of_lt (ih h)

theorem escapeLiteral_cons (c : Char) (t : Text) :
    escapeLiteral (c :: t) = (if c = '\x60' then ['\\', c] else [c]) ++ escapeLiteral t := rfl

/-- The reader ends at the closing backtick exactly if it has skipped no other backtick's escape
and does not skip this one. -/
theorem closing?_escapeLiteral (skip : Bool) (t rest : Text) :
    closing? skip (escapeLiteral t ++ '\x60' :: rest) = some rest ↔ Unskipped skip t := by
  induction t generalizing skip with
  | nil =>
    rw [unskipped_nil]
    cases skip with
    | false => exact iff_of_true rfl rfl
    | true =>
      -- The closing backtick is skipped, so less than `rest` can be left.
      refine iff_of_false (fun h => ?_) (by simp)
      exact absurd (@length_lt_of_closing? false _ _ h) (Nat.lt_irrefl _)
  | cons c t ih =>
    rw [unskipped_cons, escapeLiteral_cons]
    by_cases hq : c = '\x60'
    · subst hq
      rw [if_pos rfl]
      cases skip with
      | false =>
        have hread : closing? false (['\\', '\x60'] ++ escapeLiteral t ++ '\x60' :: rest)
            = closing? false (escapeLiteral t ++ '\x60' :: rest) := rfl
        rw [hread, ih]
        simp
      | true =>
        -- The backslash that was put there is skipped, so the literal ends too early.
        have hread : closing? true (['\\', '\x60'] ++ escapeLiteral t ++ '\x60' :: rest)
            = some (escapeLiteral t ++ '\x60' :: rest) := rfl
        rw [hread]
        refine iff_of_false (fun h => ?_) (by simp)
        have hlen := congrArg List.length (Option.some.inj h)
        rw [List.length_append, List.length_cons] at hlen
        omega
    · rw [if_neg hq]
      cases skip with
      | false =>
        have hread : closing? false ([c] ++ escapeLiteral t ++ '\x60' :: rest)
            = closing? (c = '\\') (escapeLiteral t ++ '\x60' :: rest) := by
          rw [List.singleton_append, List.cons_append, closing?, if_neg hq]
        rw [hread, ih]
        simp [hq]
      | true =>
        have hread : closing? true ([c] ++ escapeLiteral t ++ '\x60' :: rest)
            = closing? false (escapeLiteral t ++ '\x60' :: rest) := rfl
        rw [hread, ih]
        simp [hq]

/-! ## Counting backslashes -/

theorem backslashesAtEnd_snoc (t : Text) (c : Char) :
    backslashesAtEnd (t ++ [c]) = if c = '\\' then backslashesAtEnd t + 1 else 0 := by
  rw [backslashesAtEnd, List.reverse_append, List.reverse_singleton, List.singleton_append,
    List.takeWhile_cons]
  by_cases h : c = '\\'
  · simp [h, backslashesAtEnd]
  · simp [h]

theorem pending_snoc (skip : Bool) (t : Text) (c : Char) :
    pending skip (t ++ [c]) = (decide (c = '\\') && !pending skip t) := by
  rw [pending, List.foldl_append]
  rfl

/-- A reader skips what follows an odd number of backslashes. -/
theorem pending_eq (t : Text) : pending false t = decide (backslashesAtEnd t % 2 = 1) := by
  induction t using List.reverseRecOn with
  | nil => rfl
  | append_singleton t c ih =>
    rw [pending_snoc, backslashesAtEnd_snoc, ih]
    by_cases h : c = '\\'
    · simp only [h, decide_true, Bool.true_and, if_true]
      rw [← decide_not]
      exact decide_eq_decide.mpr (by omega)
    · simp [h]

theorem unskipped_iff (t : Text) : Unskipped false t ↔ EvenBackslashes t := by
  have hcount (before : Text) : pending false before = false ↔ backslashesAtEnd before % 2 = 0 := by
    rw [pending_eq, decide_eq_false_iff_not]
    omega
  simp only [Unskipped, EvenBackslashes, hcount]

/-- A literal ends with its own backtick exactly if its text has even backslashes. -/
theorem closes_iff (t rest : Text) : Closes t rest ↔ EvenBackslashes t :=
  (closing?_escapeLiteral false t rest).trans (unskipped_iff t)

/-! ## Literals inside the blocks -/

/-- The block of a query's text holds its literal. -/
theorem text_queryString (id t : Text) :
    (Block.queryString id t).text
      = ("$: ".toList ++ queryStringName id ++ " = ".toList) ++ templateLiteral t
        ++ (";\nlet ".toList ++ id ++ " = ".toList ++ storedResult id ++ ";".toList) := by
  simp only [Block.text, Block.code, Code.render_append, Code.render, Code.lit, List.append_assoc]

/-- The lines around the statements that run queries when inputs change. -/
def subscriptionHead : Text :=
  "if (!browser) \x7b\n\tonDestroy(inputs_store.subscribe((inputs) => \x7b\n".toList

@[inherit_doc subscriptionHead]
def subscriptionTail : Text := "\t\x7d));\n\x7d".toList

/-- The statement that runs a query when inputs change. -/
def inputStatement (q : Text × Text) : Text :=
  "\t\t".toList ++ q.1 ++ " = ".toList ++ executorName q.1 ++ '(' :: templateLiteral q.2
    ++ ')' :: ";\n".toList

theorem text_inputSubscription (queries : List (Text × Text)) :
    (Block.inputSubscription queries).text
      = subscriptionHead ++ queries.flatMap inputStatement ++ subscriptionTail := by
  have hbody : (Code.concat (queries.map fun q =>
      .lit "\t\t"
        ++ .assign q.1 (executorName q.1 ++ '(' :: templateLiteral q.2 ++ [')'])
        ++ .lit ";\n")).render = queries.flatMap inputStatement := by
    rw [Code.render_concat, List.flatMap_map]
    congr 1
    funext q
    simp only [inputStatement, Code.render_append, Code.render, Code.lit, List.append_assoc,
      List.cons_append, List.nil_append]
  simp only [Block.text, Block.code, Code.arrow, Code.render_append, Code.render, hbody]
  have hhead : subscriptionHead
      = "if (!browser) \x7b\n\tonDestroy(inputs_store.subscribe(".toList
        ++ ('(' :: "inputs".toList ++ ')' :: (" => ".toList ++ "\x7b\n".toList)) := by decide
  have htail : subscriptionTail = "\t\x7d".toList ++ "));\n\x7d".toList := by decide
  rw [hhead, htail]
  simp only [Code.render, Code.lit, List.append_assoc, List.cons_append]

/-- What stands before the literal of a query in the block of input subscriptions. -/
def subscriptionStart (earlier : List (Text × Text)) (id : Text) : Text :=
  subscriptionHead ++ earlier.flatMap inputStatement ++ "\t\t".toList ++ id ++ " = ".toList
    ++ executorName id ++ ['(']

/-- Behind `before`, the code has the literal of `t`, which ends where it should. -/
def Encloses (code before t : Text) : Prop :=
  ∃ after, code = before ++ templateLiteral t ++ after ∧ Closes t after

theorem encloses_iff {code before t after : Text}
    (h : code = before ++ templateLiteral t ++ after) :
    Encloses code before t ↔ EvenBackslashes t := by
  constructor
  · rintro ⟨after', -, hc⟩
    exact (closes_iff t after').mp hc
  · exact fun he => ⟨after, h, (closes_iff t after).mpr he⟩

/-- **When a query's text stays inside its literal.** Exactly if it has an even number of
backslashes before each backtick and at its end; alone, and in each block that holds it. -/
theorem literal_closes_iff (t : Text) :
    (Closes t [] ↔ EvenBackslashes t) ∧
    (∀ id, Encloses (Block.queryString id t).text
      ("$: ".toList ++ queryStringName id ++ " = ".toList) t ↔ EvenBackslashes t) ∧
    (∀ id earlier later, Encloses (Block.inputSubscription (earlier ++ (id, t) :: later)).text
      (subscriptionStart earlier id) t ↔ EvenBackslashes t) := by
  refine ⟨closes_iff t [], fun id => encloses_iff (text_queryString id t), ?_⟩
  intro id earlier later
  have htext : (Block.inputSubscription (earlier ++ (id, t) :: later)).text
      = subscriptionStart earlier id ++ templateLiteral t
        ++ (')' :: ";\n".toList ++ later.flatMap inputStatement ++ subscriptionTail) := by
    simp only [text_inputSubscription, subscriptionStart, List.flatMap_append,
      List.flatMap_cons, List.append_assoc]
    simp only [inputStatement, List.append_assoc, List.cons_append, List.nil_append]
  exact encloses_iff htext

/-- A single backslash keeps its literal open, although it holds no marker. -/
theorem not_closes_backslash :
    Text.indexOf? Dependency.markerStart ['\\'] = none ∧ ¬ Closes ['\\'] [] := by
  decide

end PageQueries.Script
