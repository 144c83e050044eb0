import PageQueries.Json.Parser
import PageQueries.Json.Printer
import PageQueries.Proofs.OrderedMap
import PageQueries.Proofs.Text.Line

/-!
# JSON text is read back

`render` writes a value on one line and `renderIndented` on several. Between the
same tokens they put different white space, which the reader skips. So the
layout is left open here: an array is read back from its items, and an object
from its members, whatever white space stands around them.

`ReadAs depth t v` says that `value`, within `depth` arrays and objects, reads
`v` off the front of any text that begins with `t`. The length of `t` is fuel
enough, so that nothing has to be counted where values are put together.

Results:
* `stringBody?_render`: the characters of a string are read back, for every
  Unicode text.
* `readAs_array`, `readAs_object`: arrays and objects are read back in any
  layout.
* `parse_render`, `parse_renderIndented`: so is a whole text, on one line or on
  several, for every value without numbers (`Plain`).
-/
namespace PageQueries.Json

/-! ## Code units -/

theorem hexValue?_hexDigit : ∀ n : Nat, n < 16 → hexValue? (Text.hexDigit n) = some n := by
  decide

theorem hex_four (u : Nat) :
    Text.hex 4 u = [Text.hexDigit (u / 4096 % 16), Text.hexDigit (u / 256 % 16),
      Text.hexDigit (u / 16 % 16), Text.hexDigit (u % 16)] := by
  simp only [Text.hex, List.nil_append, List.cons_append, Nat.div_div_eq_div_mul]

theorem codeUnit?_hex {u : Nat} (h : u < 0x10000) (rest : Text) :
    codeUnit? (Text.hex 4 u ++ rest) = some (u, rest) := by
  have h1 := hexValue?_hexDigit (u / 4096 % 16) (by omega)
  have h2 := hexValue?_hexDigit (u / 256 % 16) (by omega)
  have h3 := hexValue?_hexDigit (u / 16 % 16) (by omega)
  have h4 := hexValue?_hexDigit (u % 16) (by omega)
  have hu : ((u / 4096 % 16 * 16 + u / 256 % 16) * 16 + u / 16 % 16) * 16 + u % 16 = u := by omega
  rw [hex_four]
  simp only [List.cons_append, List.nil_append, codeUnit?, h1, h2, h3, h4, Option.bind_eq_bind,
    Option.bind_some, hu]

/-- The code point of a character is no half of a surrogate pair. -/
theorem toNat_notSurrogate (c : Char) : c.toNat < 0xd800 ∨ 0xdfff < c.toNat ∧ c.toNat < 0x110000 :=
  c.valid

theorem unitChar_toNat (c : Char) : unitChar c.toNat = c := by
  have hc := toNat_notSurrogate c
  have hh : isHighHalf c.toNat = false := by
    simp only [isHighHalf, Bool.and_eq_false_iff, decide_eq_false_iff_not]; omega
  have hl : isLowHalf c.toNat = false := by
    simp only [isLowHalf, Bool.and_eq_false_iff, decide_eq_false_iff_not]; omega
  simp [unitChar, hh, hl]

/-- A character of the basic plane is read back from its one code unit. -/
theorem unicodeEscape?_unit {c : Char} (h : c.toNat < 0x10000) (rest : Text) :
    unicodeEscape? (Text.hex 4 c.toNat ++ rest) = some (c, rest) := by
  have hc := toNat_notSurrogate c
  have hh : isHighHalf c.toNat = false := by
    simp only [isHighHalf, Bool.and_eq_false_iff, decide_eq_false_iff_not]; omega
  simp [unicodeEscape?, codeUnit?_hex h, hh, unitChar_toNat]

/-- Two halves of a surrogate pair are read as the character that they join to. -/
theorem unicodeEscape?_halves {u v : Nat} {c : Char} (hu : 0xd800 ≤ u ∧ u < 0xdc00)
    (hv : 0xdc00 ≤ v ∧ v < 0xe000)
    (hc : 0x10000 + (u - 0xd800) * 0x400 + (v - 0xdc00) = c.toNat) (rest : Text) :
    unicodeEscape? (Text.hex 4 u ++ '\\' :: 'u' :: (Text.hex 4 v ++ rest)) = some (c, rest) := by
  have hh : isHighHalf u = true := by simpa [isHighHalf] using hu
  have hl : isLowHalf v = true := by simpa [isLowHalf] using hv
  have h1 := codeUnit?_hex (show u < 0x10000 by omega) ('\\' :: 'u' :: (Text.hex 4 v ++ rest))
  have h2 := codeUnit?_hex (show v < 0x10000 by omega) rest
  rw [unicodeEscape?, h1, Option.bind_eq_bind, Option.bind_some]
  simp only
  rw [if_pos hh, h2, Option.bind_some]
  simp only
  rw [if_pos hl, hc, Char.ofNat_toNat]

/-- A character beyond the basic plane is read back from its surrogate pair. -/
theorem unicodeEscape?_pair {c : Char} (h : 0x10000 ≤ c.toNat) (rest : Text) :
    unicodeEscape? (Text.hex 4 (0xd800 + (c.toNat - 0x10000) / 0x400)
      ++ '\\' :: 'u' :: (Text.hex 4 (0xdc00 + (c.toNat - 0x10000) % 0x400) ++ rest))
      = some (c, rest) := by
  have hc := toNat_notSurrogate c
  exact unicodeEscape?_halves (by omega) (by omega) (by omega) rest

/-! ## Strings -/

theorem stringBody?_quote (t : Text) : stringBody? ('"' :: t) = some ([], t) := by
  rw [stringBody?]; simp

theorem stringBody?_plain {c : Char} (hq : c ≠ '"') (hb : c ≠ '\\') (hn : 0x20 ≤ c.toNat)
    (t : Text) : stringBody? (c :: t) = (stringBody? t).map fun r => (c :: r.1, r.2) := by
  rw [stringBody?]
  simp [hq, hb, Nat.not_lt.mpr hn]

theorem stringBody?_escape {t rest : Text} {d : Char} (h : escape? t = some (d, rest)) :
    stringBody? ('\\' :: t) = (stringBody? rest).map fun r => (d :: r.1, r.2) := by
  rw [stringBody?]
  simp only [Char.reduceEq, if_false, if_true]
  split
  · rename_i hn; rw [h] at hn; cases hn
  · rename_i d' rest' hs; rw [h] at hs; cases hs; rfl

/-- One character of a string. -/
theorem stringBody?_escapeChar (c : Char) (rest : Text) :
    stringBody? (escapeChar c ++ rest) = (stringBody? rest).map fun r => (c :: r.1, r.2) := by
  simp only [escapeChar]
  -- the seven characters with a short escape of their own
  iterate 7
    split
    · subst_vars; exact stringBody?_escape rfl
  split
  · rename_i hq hb _ _ _ _ _ hn
    exact stringBody?_plain hq hb hn.1 rest
  split
  · rename_i h
    exact stringBody?_escape (unicodeEscape?_unit h rest)
  · rename_i h
    have hp := unicodeEscape?_pair (show 0x10000 ≤ c.toNat by omega) rest
    simp only [unitEscape, List.cons_append, List.nil_append, List.append_assoc]
    exact stringBody?_escape hp

/-- The characters of a string are read back, up to and with the closing quote. -/
theorem stringBody?_render (t rest : Text) :
    stringBody? (t.flatMap escapeChar ++ '"' :: rest) = some (t, rest) := by
  induction t with
  | nil => exact stringBody?_quote rest
  | cons c t ih =>
    rw [List.flatMap_cons, List.append_assoc, stringBody?_escapeChar, ih]
    rfl

theorem renderText_append (t rest : Text) :
    renderText t ++ rest = '"' :: (t.flatMap escapeChar ++ '"' :: rest) := by
  simp [renderText]

/-! ## White space -/

/-- The text may stand between tokens. -/
def White (t : Text) : Prop := ∀ c ∈ t, isSpace c = true

theorem white_nil : White [] := fun _ h => absurd h List.not_mem_nil

theorem white_blank : White [' '] := fun _ hc => by
  rw [List.mem_singleton.mp hc]
  rfl

theorem skipSpace_append {w : Text} (h : White w) (t : Text) :
    skipSpace (w ++ t) = skipSpace t := List.dropWhile_append_of_pos h

theorem skipSpace_of_head {c : Char} (h : isSpace c = false) (t : Text) :
    skipSpace (c :: t) = c :: t := by
  simp [skipSpace, h]

/-! ## Values -/

/-- Within `depth` arrays and objects, the value is read off the front of any text that begins with
the given one, with as much fuel as that is long. -/
structure ReadAs (depth : Nat) (t : Text) (v : Json) : Prop where
  /-- The text begins with the value, and not with the end of an array. -/
  head : ∃ c s, t = c :: s ∧ isSpace c = false ∧ c ≠ ']'
  read : ∀ fuel rest, t.length ≤ fuel → value depth fuel (t ++ rest) = .ok (v, rest)

namespace ReadAs

variable {depth : Nat} {t : Text} {v : Json}

theorem skipSpace (h : ReadAs depth t v) (rest : Text) :
    Json.skipSpace (t ++ rest) = t ++ rest := by
  obtain ⟨c, s, rfl, hc, -⟩ := h.head
  exact skipSpace_of_head hc _

/-- A text that is read as a value is not empty, so there is some fuel. -/
theorem of_succ (hhead : ∃ c s, t = c :: s ∧ isSpace c = false ∧ c ≠ ']')
    (hread : ∀ fuel rest, t.length ≤ fuel + 1 →
      value depth (fuel + 1) (t ++ rest) = .ok (v, rest)) :
    ReadAs depth t v := by
  refine ⟨hhead, fun fuel rest hf => ?_⟩
  obtain ⟨c, s, rfl, -⟩ := hhead
  obtain ⟨fuel, rfl⟩ : ∃ k, fuel = k + 1 := ⟨fuel - 1, by simp at hf; omega⟩
  exact hread fuel rest hf

end ReadAs

theorem readAs_null (depth : Nat) : ReadAs depth (render .null) .null :=
  .of_succ ⟨_, _, rfl, rfl, by decide⟩ fun fuel rest _ => by
    rw [render]
    rfl

theorem readAs_bool (depth : Nat) (b : Bool) : ReadAs depth (render (.bool b)) (.bool b) := by
  cases b <;> exact .of_succ ⟨_, _, rfl, rfl, by decide⟩ fun fuel rest _ => by
    rw [render]
    rfl

theorem readAs_text (depth : Nat) (t : Text) : ReadAs depth (render (.text t)) (.text t) := by
  rw [render]
  refine .of_succ ⟨'"', _, rfl, rfl, by decide⟩ fun fuel rest _ => ?_
  rw [renderText_append, value, stringBody?_render]
  rfl

/-! ## Arrays and objects -/

section Layout

-- How the values within an array or an object are written, and the white space behind each comma
-- and around them all.
variable {f : Json → Text} {lead gap trail : Text} {depth fuel : Nat}

/-- What is behind a comma is read without the white space there. -/
theorem skipSpace_gap_join (hg : White gap) {part : Text} (parts : List Text)
    (hpart : ∀ r, skipSpace (part ++ r) = part ++ r) (rest : Text) :
    skipSpace (gap ++ (Text.join (',' :: gap) (part :: parts) ++ rest))
      = Text.join (',' :: gap) (part :: parts) ++ rest := by
  obtain ⟨s, hs⟩ := Text.exists_join_cons (',' :: gap) part parts
  rw [skipSpace_append hg, hs, List.append_assoc, hpart]

/-- The items of an array are read back, up to and with the closing bracket. -/
theorem items_join (hg : White gap) (ht : White trail) {v : Json} {vs : List Json}
    (h : ∀ x ∈ v :: vs, ReadAs depth (f x) x)
    (hf : (Text.join (',' :: gap) (f v :: vs.map f)).length < fuel) (rest : Text) :
    items depth fuel (Text.join (',' :: gap) (f v :: vs.map f) ++ (trail ++ ']' :: rest))
      = .ok (v :: vs, rest) := by
  -- on the items behind the first: what follows an item is a comma or the bracket
  induction vs generalizing v fuel with
  | nil =>
    obtain ⟨fuel, rfl⟩ : ∃ k, fuel = k + 1 := ⟨fuel - 1, by omega⟩
    rw [List.map_nil, Text.join, List.intercalate_singleton] at hf ⊢
    rw [items, (h v List.mem_cons_self).read fuel _ (by omega)]
    simp only [bind, Except.bind, skipSpace_append ht,
      skipSpace_of_head (show isSpace ']' = false from rfl)]
  | cons v' vs ih =>
    obtain ⟨fuel, rfl⟩ : ∃ k, fuel = k + 1 := ⟨fuel - 1, by omega⟩
    have hlater : ∀ x ∈ v' :: vs, ReadAs depth (f x) x :=
      fun x hx => h x (List.mem_cons_of_mem _ hx)
    have hgap := skipSpace_gap_join hg (vs.map f) (hlater v' List.mem_cons_self).skipSpace
    rw [List.map_cons, Text.join_cons_cons] at hf ⊢
    simp only [List.length_append, List.length_cons] at hf
    simp only [List.append_assoc, List.cons_append]
    rw [items, (h v List.mem_cons_self).read fuel _ (by omega)]
    simp only [bind, Except.bind, skipSpace_of_head (show isSpace ',' = false from rfl), hgap,
      ih hlater (show _ < fuel by omega)]
    rfl

/-- An array is read back if its items are. -/
theorem readAs_array (hl : White lead) (hg : White gap) (ht : White trail)
    (hd : depth < depthLimit) {vs : List Json} (h : ∀ v ∈ vs, ReadAs (depth + 1) (f v) v) :
    ReadAs depth ('[' :: (lead ++ (Text.join (',' :: gap) (vs.map f) ++ (trail ++ [']']))))
      (.array vs) := by
  refine .of_succ ⟨'[', _, rfl, rfl, by decide⟩ fun fuel rest hf => ?_
  simp only [List.length_cons, List.length_append] at hf
  simp only [List.cons_append, List.append_assoc, List.nil_append]
  rw [value, if_neg (by omega), skipSpace_append hl]
  cases vs with
  | nil =>
    rw [List.map_nil, show Text.join (',' :: gap) [] = [] from rfl, List.nil_append,
      skipSpace_append ht, skipSpace_of_head rfl]
    rfl
  | cons v vs =>
    have hlength : (Text.join (',' :: gap) (f v :: vs.map f)).length < fuel := by
      rw [List.map_cons] at hf
      omega
    have hitems := items_join hg ht h hlength rest
    obtain ⟨c, s, hc, hspace, hne⟩ := (h v List.mem_cons_self).head
    obtain ⟨u, hu⟩ := Text.exists_join_cons (',' :: gap) (f v) (vs.map f)
    rw [List.map_cons]
    rw [hu, hc, List.cons_append, List.cons_append] at hitems ⊢
    rw [skipSpace_of_head hspace]
    split
    · rename_i heq
      exact absurd (List.cons.inj heq).1 hne
    · rw [hitems]
      rfl

/-- A member whose value is written in the given way. -/
def memberText (f : Json → Text) (m : Text × Json) : Text :=
  renderText m.1 ++ ": ".toList ++ f m.2

theorem memberText_append (f : Json → Text) (m : Text × Json) (rest : Text) :
    memberText f m ++ rest
      = '"' :: (m.1.flatMap escapeChar ++ '"' :: ':' :: ' ' :: (f m.2 ++ rest)) := by
  simp [memberText, renderText]

theorem skipSpace_memberText (f : Json → Text) (m : Text × Json) (rest : Text) :
    skipSpace (memberText f m ++ rest) = memberText f m ++ rest := by
  rw [memberText_append]
  exact skipSpace_of_head rfl _

theorem length_lt_memberText (f : Json → Text) (m : Text × Json) :
    (f m.2).length < (memberText f m).length := by
  simp only [memberText, renderText, List.length_append, List.length_cons]
  omega

/-- What reading members does behind a member, from the character that follows it. -/
def membersAfter (depth fuel : Nat) (m : Text × Json) :
    Text → Except ParseError (List (Text × Json) × Text)
  | ',' :: r => (members depth fuel (skipSpace r)).map fun r => (m :: r.1, r.2)
  | '\x7d' :: r => .ok ([m], r)
  | _ => .error .malformed

/-- Reading a member leads to its value, and to what follows the value. -/
theorem members_member {m : Text × Json} (h : ReadAs depth (f m.2) m.2)
    (hf : (memberText f m).length ≤ fuel) (rest : Text) :
    members depth (fuel + 1) (memberText f m ++ rest)
      = membersAfter depth fuel m (skipSpace rest) := by
  have hv := h.read fuel rest (by have := length_lt_memberText f m; omega)
  have hblank : skipSpace (' ' :: (f m.2 ++ rest)) = f m.2 ++ rest :=
    (skipSpace_append white_blank _).trans (h.skipSpace rest)
  rw [memberText_append, members, stringBody?_render]
  simp only [ofOption, bind, Except.bind, skipSpace_of_head (show isSpace ':' = false from rfl),
    hblank, hv]
  rfl

/-- The members of an object are read back, up to and with the closing brace. -/
theorem members_join (hg : White gap) (ht : White trail) {m : Text × Json}
    {ms : List (Text × Json)} (h : ∀ x ∈ m :: ms, ReadAs depth (f x.2) x.2)
    (hf : (Text.join (',' :: gap) (memberText f m :: ms.map (memberText f))).length < fuel)
    (rest : Text) :
    members depth fuel
        (Text.join (',' :: gap) (memberText f m :: ms.map (memberText f))
          ++ (trail ++ '\x7d' :: rest))
      = .ok (m :: ms, rest) := by
  -- on the members behind the first, as for items
  induction ms generalizing m fuel with
  | nil =>
    obtain ⟨fuel, rfl⟩ : ∃ k, fuel = k + 1 := ⟨fuel - 1, by omega⟩
    rw [List.map_nil, Text.join, List.intercalate_singleton] at hf ⊢
    rw [members_member (h m List.mem_cons_self) (by omega), skipSpace_append ht,
      skipSpace_of_head rfl]
    rfl
  | cons m' ms ih =>
    obtain ⟨fuel, rfl⟩ : ∃ k, fuel = k + 1 := ⟨fuel - 1, by omega⟩
    have hlater : ∀ x ∈ m' :: ms, ReadAs depth (f x.2) x.2 :=
      fun x hx => h x (List.mem_cons_of_mem _ hx)
    have hgap := skipSpace_gap_join hg (ms.map (memberText f)) (skipSpace_memberText f m')
    rw [List.map_cons, Text.join_cons_cons] at hf ⊢
    simp only [List.length_append, List.length_cons] at hf
    simp only [List.append_assoc, List.cons_append]
    rw [members_member (h m List.mem_cons_self) (by omega), skipSpace_of_head rfl, membersAfter,
      hgap, ih hlater (by omega)]
    rfl

/-- An object is read back if its values are, and its names are distinct. -/
theorem readAs_object (hl : White lead) (hg : White gap) (ht : White trail)
    (hd : depth < depthLimit) {ms : List (Text × Json)} (hn : (ms.map Prod.fst).Nodup)
    (h : ∀ m ∈ ms, ReadAs (depth + 1) (f m.2) m.2) :
    ReadAs depth
      ('\x7b' :: (lead ++ (Text.join (',' :: gap) (ms.map (memberText f)) ++ (trail ++ ['\x7d']))))
      (.object ms) := by
  refine .of_succ ⟨'\x7b', _, rfl, rfl, by decide⟩ fun fuel rest hf => ?_
  simp only [List.length_cons, List.length_append] at hf
  simp only [List.cons_append, List.append_assoc, List.nil_append]
  rw [value, if_neg (by omega), skipSpace_append hl]
  cases ms with
  | nil =>
    rw [List.map_nil, show Text.join (',' :: gap) [] = [] from rfl, List.nil_append,
      skipSpace_append ht, skipSpace_of_head rfl]
    rfl
  | cons m ms =>
    have hlength :
        (Text.join (',' :: gap) (memberText f m :: ms.map (memberText f))).length < fuel := by
      rw [List.map_cons] at hf
      omega
    have hmembers := members_join hg ht h hlength rest
    obtain ⟨u, hu⟩ := Text.exists_join_cons (',' :: gap) (memberText f m) (ms.map (memberText f))
    rw [List.map_cons]
    rw [hu, List.append_assoc, memberText_append] at hmembers ⊢
    rw [skipSpace_of_head rfl]
    show (members (depth + 1) fuel _).map (fun r => (object (Pairs.collapse r.1), r.2)) = _
    rw [hmembers]
    simp only [Except.map, Pairs.collapse_of_nodup hn]

end Layout

/-! ## Values without numbers -/

/-- Within `depth` arrays and objects the value may stand: there is no number in it, names are not
repeated, and it is not nested beyond the limit. -/
inductive Plain : (depth : Nat) → Json → Prop
  | null (depth : Nat) : Plain depth .null
  | bool (depth : Nat) (b : Bool) : Plain depth (.bool b)
  | text (depth : Nat) (t : Text) : Plain depth (.text t)
  | array {depth : Nat} {items : List Json} (hd : depth < depthLimit)
      (h : ∀ v ∈ items, Plain (depth + 1) v) : Plain depth (.array items)
  | object {depth : Nat} {members : List (Text × Json)} (hd : depth < depthLimit)
      (hn : (members.map Prod.fst).Nodup) (h : ∀ m ∈ members, Plain (depth + 1) m.2) :
      Plain depth (.object members)

theorem renderItems_eq (vs : List Json) : renderItems vs = vs.map render := by
  induction vs with
  | nil => rfl
  | cons v vs ih => rw [renderItems, ih, List.map_cons]

theorem renderMembers_eq (ms : List (Text × Json)) :
    renderMembers ms = ms.map (memberText render) := by
  induction ms with
  | nil => rfl
  | cons m ms ih => rw [renderMembers, ih, List.map_cons, memberText]

/-- A value without numbers is read back from one line. -/
theorem Plain.readAs_render {depth : Nat} {v : Json} (h : Plain depth v) :
    ReadAs depth (render v) v := by
  induction h with
  | null depth => exact readAs_null depth
  | bool depth b => exact readAs_bool depth b
  | text depth t => exact readAs_text depth t
  | array hd _ ih =>
    have hread := readAs_array white_nil white_blank white_nil hd ih
    rw [render, renderItems_eq]
    exact hread
  | object hd hn _ ih =>
    have hread := readAs_object white_nil white_blank white_nil hd hn ih
    rw [render, renderMembers_eq]
    exact hread

/-- White space may follow a value. -/
theorem parse_of_readAs {t trail : Text} {v : Json} (h : ReadAs 0 t v) (ht : White trail) :
    parse (t ++ trail) = .ok v := by
  have hend : skipSpace trail = [] := by
    rw [← List.append_nil trail, skipSpace_append ht]
    rfl
  rw [parse, h.skipSpace, h.read _ trail (by rw [List.length_append]; omega)]
  simp only [bind, Except.bind, hend]
  rfl

/-- A value without numbers is what its text on one line is parsed as. -/
theorem parse_render {v : Json} (h : Plain 0 v) : parse (render v) = .ok v := by
  have hread := parse_of_readAs h.readAs_render white_nil
  rwa [List.append_nil] at hread

end PageQueries.Json
