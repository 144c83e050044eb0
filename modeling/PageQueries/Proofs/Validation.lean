import PageQueries.Proofs.Except
import PageQueries.Proofs.OrderedMap
import PageQueries.Validation

/-!
# What is accepted

A model is accepted if and only if each of its fields is, and a field if its
value is or, where it is missing, if it has a default (`Checked.ap_eq_ok_iff`,
`checkField_eq_ok_iff`).

A list of texts and a map of texts pass the checks of their fields as they are.
What the program makes itself is made of texts, so no check changes it or
refuses it. A list that is not made of texts never passes
(`checkTexts_eq_ok_iff`).
-/
namespace PageQueries

/-! ## Models and fields -/

theorem Checked.ap_eq_ok_iff {α β : Type} {f : Checked (α → β)} {a : Checked α} {b : β} :
    ap f a = .ok b ↔ ∃ g x, f = .ok g ∧ a = .ok x ∧ g x = b := by
  cases f <;> cases a <;> simp [ap]

theorem checkAt_eq_ok_iff {α : Type} {location : List Text} {accept : Json → Except Fault α}
    {v : Json} {a : α} : checkAt location accept v = .ok a ↔ accept v = .ok a :=
  mapError_eq_ok_iff

theorem checkField_eq_ok_iff {α : Type} {members : List (Text × Json)} {name : Text}
    {default : Option α} {check : Json → Checked α} {a : α} :
    checkField members name default check = .ok a ↔
      (∃ v, members.lookup name = some v ∧ check v = .ok a) ∨
        members.lookup name = none ∧ default = some a := by
  unfold checkField
  split
  · next v hv => simp [hv]
  · next a' hv => simp [hv]
  · next hv => simp [hv]

theorem acceptText_eq_ok_iff {v : Json} {t : Text} : acceptText v = .ok t ↔ v = .text t := by
  cases v <;> simp [acceptText]

theorem acceptObject_eq_ok_iff {v : Json} {members : List (Text × Json)} :
    acceptObject v = .ok members ↔ v = .object members := by
  cases v <;> simp [acceptObject]

/-! ## Texts -/

/-- A check that accepts every member of a list accepts the list. -/
theorem Checked.all_map {α β γ : Type} {check : α → Checked β} {f : γ → α} {g : γ → β}
    (h : ∀ c, check (f c) = .ok (g c)) (cs : List γ) : all check (cs.map f) = .ok (cs.map g) := by
  induction cs with
  | nil => rfl
  | cons c cs ih =>
    rw [List.map_cons, all, h, ih]
    rfl

/-- What an accepting check says of each member and its value it says of the two lists. -/
theorem Checked.map_eq_of_all {α β γ : Type} {check : α → Checked β} {f : α → γ} {g : β → γ}
    (h : ∀ a b, check a = .ok b → f a = g b) {as : List α} {bs : List β}
    (hall : all check as = .ok bs) : as.map f = bs.map g := by
  induction as generalizing bs with
  | nil =>
    cases hall
    rfl
  | cons a as ih =>
    obtain ⟨cons, rest, hhead, hrest, rfl⟩ := ap_eq_ok_iff.mp hall
    obtain ⟨b, hb, rfl⟩ := map_eq_ok_iff.mp hhead
    rw [List.map_cons, List.map_cons, h a b hb, ih hrest]

/-- A map of texts is accepted as it is. -/
theorem checkTextMap_texts (location : List Text) (m : OrderedMap Text Text) :
    checkTextMap location (.object (m.map .text).toList) = .ok m := by
  have hall : Checked.all
      (fun q : Text × Json => (checkAt (location ++ [q.1]) acceptText q.2).map (q.1, ·))
      (m.map Json.text).toList = .ok (m.toList.map id) :=
    Checked.all_map (f := fun q : Text × Text => (q.1, Json.text q.2)) (by intro q; rfl) m.toList
  rw [checkTextMap, hall, List.map_id]
  exact congrArg Except.ok (OrderedMap.ofList_toList m)

/-- A list of texts is accepted as it is. -/
theorem checkTexts_texts (location : List Text) (ts : List Text) :
    checkTexts location (.array (ts.map .text)) = .ok ts := by
  have hall : Checked.all
      (fun p : Json × Nat => checkAt (location ++ [Text.ofNat p.2]) acceptText p.1)
      (ts.zipIdx.map fun p => (Json.text p.1, p.2)) = .ok (ts.zipIdx.map Prod.fst) :=
    Checked.all_map (by intro p; rfl) ts.zipIdx
  rw [checkTexts, List.zipIdx_map]
  rw [List.zipIdx_map_fst] at hall
  exact hall

/-- Nothing but lists of texts is accepted as a list of texts. -/
theorem checkTexts_eq_ok_iff {location : List Text} {v : Json} {ts : List Text} :
    checkTexts location v = .ok ts ↔ v = .array (ts.map .text) := by
  constructor
  · intro h
    unfold checkTexts at h
    split at h
    · rename_i items
      have hitems := Checked.map_eq_of_all (f := Prod.fst) (g := Json.text)
        (fun p t ht => acceptText_eq_ok_iff.mp (checkAt_eq_ok_iff.mp ht)) h
      rw [List.zipIdx_map_fst] at hitems
      rw [hitems]
    · cases h
  · intro h
    rw [h, checkTexts_texts]

end PageQueries
