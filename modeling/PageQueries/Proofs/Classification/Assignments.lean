import PageQueries.Proofs.Classification.Unique
import PageQueries.Proofs.Validation

/-!
# Lists stay without repetitions

A classification may be read from JSON and then assigned to, field by field.
The reader and the assignments check a list in the same way: it must be made of
texts, and repetitions are dropped from it. So each list is at all times what is
left of the value that was last accepted for it (`LastGiven`), and it does not
matter what was tried in between.

Results:
* `assign_cases`: what an accepted assignment does.
* `SameBut`, `sameBut_assign`: it changes one field at most.
* `get_assigned`: what any assignment does to a list.
* `lists_assignAll`: all of this after any assignments.
-/
namespace PageQueries.Classification

/-- The classification after an assignment, accepted or refused. -/
def assigned (c : Classification) (name : Text) (v : Json) : Classification :=
  match c.assign name v with
  | .ok c' => c'
  | .error _ => c

/-- The classification after some assignments, one after another. -/
def assignAll (c : Classification) (assignments : List (Text × Json)) : Classification :=
  assignments.foldl (fun c a => c.assigned a.1 a.2) c

/-- The texts were given for a list by the last value that was accepted for it: by an assignment, or
by the members that the classification was read from. -/
inductive LastGiven (members : List (Text × Json)) (f : ListField) :
    List (Text × Json) → List Text → Prop
  | missing (h : members.lookup f.name = none) : LastGiven members f [] []
  | member {ids : List Text} (h : members.lookup f.name = some (.array (ids.map .text))) :
    LastGiven members f [] ids
  | assigned {earlier : List (Text × Json)} {ids : List Text} :
    LastGiven members f (earlier ++ [(f.name, .array (ids.map .text))]) ids
  | left {earlier : List (Text × Json)} {ids : List Text} {name : Text} {v : Json}
    (h : name = f.name → ∀ ids' : List Text, v ≠ .array (ids'.map .text))
    (hl : LastGiven members f earlier ids) :
    LastGiven members f (earlier ++ [(name, v)]) ids

/-- The second classification differs from the first in the field of the given name at most. -/
structure SameBut (name : Text) (c c' : Classification) : Prop where
  metadata : name ≠ metadataName → c'.metadata = c.metadata
  queries : name ≠ queriesName → c'.queries = c.queries
  get : ∀ f : ListField, name ≠ f.name → c'.get f = c.get f

variable {c c' : Classification} {members : List (Text × Json)} {name : Text} {v : Json}

/-! ## Names of fields -/

theorem ListField.name_inj {f g : ListField} : f.name = g.name ↔ f = g := by
  cases f <;> cases g <;> decide

theorem get_set (c : Classification) (f g : ListField) (ids : List Text) :
    (c.set f ids).get g = if g = f then ids else c.get g := by
  cases f <;> cases g <;> rfl

/-- The name of a list means that list when it is assigned to. -/
theorem assign_list (c : Classification) (f : ListField) (v : Json) :
    c.assign f.name v = ((checkIds f v).map (c.set f)).mapError .invalid := by
  cases f <;> rfl

/-! ## Checks of lists -/

theorem checkIds_eq_ok_iff {f : ListField} {ids : List Text} :
    checkIds f v = .ok ids ↔ ∃ given, v = .array (given.map .text) ∧ unique given = ids := by
  unfold checkIds
  simp only [map_eq_ok_iff, checkTexts_eq_ok_iff]

/-- A value is accepted for a list if and only if it is a list of texts. -/
theorem assign_list_eq_ok_iff {f : ListField} :
    c.assign f.name v = .ok c' ↔
      ∃ given, v = .array (given.map .text) ∧ c' = c.set f (unique given) := by
  rw [assign_list, mapError_eq_ok_iff, map_eq_ok_iff]
  simp only [checkIds_eq_ok_iff]
  constructor
  · rintro ⟨_, ⟨given, hv, rfl⟩, rfl⟩
    exact ⟨given, hv, rfl⟩
  · rintro ⟨given, hv, rfl⟩
    exact ⟨_, ⟨given, hv, rfl⟩, rfl⟩

theorem field_of_ofMembers (h : ofMembers members = .ok c) (f : ListField) :
    checkField members f.name (some []) (checkIds f) = .ok (c.get f) := by
  unfold ofMembers at h
  obtain ⟨_, rejected, h₆, hrejected, rfl⟩ := Checked.ap_eq_ok_iff.mp h
  obtain ⟨_, input, h₅, hinput, rfl⟩ := Checked.ap_eq_ok_iff.mp h₆
  obtain ⟨_, static, h₄, hstatic, rfl⟩ := Checked.ap_eq_ok_iff.mp h₅
  obtain ⟨_, reactive, h₃, hreactive, rfl⟩ := Checked.ap_eq_ok_iff.mp h₄
  obtain ⟨_, valid, h₂, hvalid, rfl⟩ := Checked.ap_eq_ok_iff.mp h₃
  obtain ⟨_, queries, h₁, -, rfl⟩ := Checked.ap_eq_ok_iff.mp h₂
  obtain ⟨metadata, -, rfl⟩ := map_eq_ok_iff.mp h₁
  cases f with
  | valid => exact hvalid
  | reactive => exact hreactive
  | static => exact hstatic
  | input => exact hinput
  | rejected => exact hrejected

/-! ## One assignment -/

/-- What an accepted assignment does: nothing to a private name, else it replaces one field. -/
theorem assign_cases (h : c.assign name v = .ok c') :
    isPrivateName name = true ∧ c' = c ∨
      name = metadataName ∧ (∃ metadata, c' = { c with metadata }) ∨
      name = queriesName ∧ (∃ queries, c' = { c with queries }) ∨
      ∃ f : ListField, f.name = name ∧ ∃ ids, c' = c.set f ids := by
  unfold assign at h
  split at h
  · rename_i hprivate
    cases h
    exact Or.inl ⟨hprivate, rfl⟩
  split at h
  · cases h
  split at h
  · rename_i hname
    obtain ⟨metadata, -, rfl⟩ := map_eq_ok_iff.mp (mapError_eq_ok_iff.mp h)
    exact Or.inr (Or.inl ⟨hname, metadata, rfl⟩)
  split at h
  · rename_i hname
    obtain ⟨queries, -, rfl⟩ := map_eq_ok_iff.mp (mapError_eq_ok_iff.mp h)
    exact Or.inr (Or.inr (Or.inl ⟨hname, queries, rfl⟩))
  split at h
  · rename_i f hf
    obtain ⟨ids, -, rfl⟩ := map_eq_ok_iff.mp (mapError_eq_ok_iff.mp h)
    exact Or.inr (Or.inr (Or.inr ⟨f, by simpa using List.find?_some hf, ids, rfl⟩))
  · cases h

theorem sameBut_set (c : Classification) (f : ListField) (ids : List Text) :
    SameBut f.name c (c.set f ids) := by
  refine ⟨fun _ => ?_, fun _ => ?_, fun g hg => ?_⟩
  · cases f <;> rfl
  · cases f <;> rfl
  · rw [get_set, if_neg]
    intro e
    exact hg (ListField.name_inj.mpr e.symm)

/-- An accepted assignment changes no other field. -/
theorem sameBut_assign (h : c.assign name v = .ok c') : SameBut name c c' := by
  obtain ⟨-, rfl⟩ | ⟨rfl, metadata, rfl⟩ | ⟨rfl, queries, rfl⟩ | ⟨f, rfl, ids, rfl⟩ :=
    assign_cases h
  · exact ⟨fun _ => rfl, fun _ => rfl, fun _ _ => rfl⟩
  · exact ⟨fun hne => absurd rfl hne, fun _ => rfl, fun f _ => by cases f <;> rfl⟩
  · exact ⟨fun _ => rfl, fun hne => absurd rfl hne, fun f _ => by cases f <;> rfl⟩
  · exact sameBut_set c f ids

theorem assigned_of_ok (h : c.assign name v = .ok c') : c.assigned name v = c' := by
  rw [assigned, h]

theorem assigned_of_error {refusal : AssignmentRefusal} (h : c.assign name v = .error refusal) :
    c.assigned name v = c := by
  rw [assigned, h]

/-- What an assignment does to a list: it puts in the first occurrences of the texts that it gives,
or, if it gives no texts for this list, nothing. -/
theorem get_assigned (c : Classification) (name : Text) (v : Json) (f : ListField) :
    (∃ ids, name = f.name ∧ v = .array (ids.map .text) ∧ (c.assigned name v).get f = unique ids) ∨
      (name = f.name → ∀ ids : List Text, v ≠ .array (ids.map .text)) ∧
        (c.assigned name v).get f = c.get f := by
  by_cases hname : name = f.name
  · subst hname
    by_cases hv : ∃ ids : List Text, v = .array (ids.map .text)
    · obtain ⟨ids, hv⟩ := hv
      have hassign : c.assign f.name v = .ok (c.set f (unique ids)) :=
        assign_list_eq_ok_iff.mpr ⟨ids, hv, rfl⟩
      refine Or.inl ⟨ids, rfl, hv, ?_⟩
      rw [assigned_of_ok hassign, get_set, if_pos rfl]
    · refine Or.inr ⟨fun _ ids hids => hv ⟨ids, hids⟩, ?_⟩
      cases h : c.assign f.name v with
      | ok c' =>
        obtain ⟨ids, hids, -⟩ := assign_list_eq_ok_iff.mp h
        exact absurd ⟨ids, hids⟩ hv
      | error refusal => rw [assigned_of_error h]
  · refine Or.inr ⟨fun e => absurd e hname, ?_⟩
    cases h : c.assign name v with
    | ok c' => rw [assigned_of_ok h, (sameBut_assign h).get f hname]
    | error refusal => rw [assigned_of_error h]

/-! ## Histories -/

theorem assignAll_append (c : Classification) (first later : List (Text × Json)) :
    c.assignAll (first ++ later) = (c.assignAll first).assignAll later :=
  List.foldl_append

theorem exists_lastGiven (h : ofMembers members = .ok c) (f : ListField) :
    ∃ ids, LastGiven members f [] ids ∧ c.get f = unique ids := by
  rcases checkField_eq_ok_iff.mp (field_of_ofMembers h f) with
    ⟨v, hv, haccepted⟩ | ⟨hmissing, hempty⟩
  · obtain ⟨ids, rfl, hids⟩ := checkIds_eq_ok_iff.mp haccepted
    exact ⟨ids, .member hv, hids.symm⟩
  · exact ⟨[], .missing hmissing, (Option.some.inj hempty).symm⟩

/-- A list is at all times what is left of the value that was last accepted for it. -/
theorem get_assignAll (h : ofMembers members = .ok c) (f : ListField)
    (assignments : List (Text × Json)) :
    ∃ ids, LastGiven members f assignments ids ∧ (c.assignAll assignments).get f = unique ids := by
  induction assignments using List.reverseRecOn with
  | nil => exact exists_lastGiven h f
  | append_singleton earlier a ih =>
    obtain ⟨name, v⟩ := a
    obtain ⟨ids, hlast, hget⟩ := ih
    have hstep : c.assignAll (earlier ++ [(name, v)]) = (c.assignAll earlier).assigned name v :=
      assignAll_append c earlier _
    rw [hstep]
    rcases get_assigned (c.assignAll earlier) name v f with ⟨ids', rfl, rfl, hnew⟩ | ⟨hother, hsame⟩
    · exact ⟨ids', .assigned, hnew⟩
    · exact ⟨ids, .left hother hlast, hsame.trans hget⟩

/-- **Lists stay without repetitions.** After any assignments, accepted or refused, each list is the
value that was last accepted for it with exactly the first occurrence of each name kept; what is
accepted for a list is any list of texts; a refused assignment leaves no trace, and an accepted one
changes no other field. -/
theorem lists_assignAll (h : ofMembers members = .ok c) (assignments : List (Text × Json)) :
    (∀ f : ListField, ∃ ids, LastGiven members f assignments ids ∧
      Firsts ids ((c.assignAll assignments).get f) ∧
      ((c.assignAll assignments).get f).Nodup ∧
      (∀ id, id ∈ (c.assignAll assignments).get f ↔ id ∈ ids) ∧
      ((c.assignAll assignments).get f).Sublist ids ∧
      (ids.Nodup → (c.assignAll assignments).get f = ids)) ∧
    (∀ (f : ListField) v, (∃ c', (c.assignAll assignments).assign f.name v = .ok c') ↔
      ∃ ids : List Text, v = .array (ids.map .text)) ∧
    (∀ name v refusal, (c.assignAll assignments).assign name v = .error refusal →
      (c.assignAll assignments).assigned name v = c.assignAll assignments ∧
      ∀ later, c.assignAll (assignments ++ (name, v) :: later)
        = c.assignAll (assignments ++ later)) ∧
    ∀ name v c', (c.assignAll assignments).assign name v = .ok c' →
      c.assignAll (assignments ++ [(name, v)]) = c' ∧
        SameBut name (c.assignAll assignments) c' := by
  refine ⟨fun f => ?_, fun f v => ?_, fun name v refusal hrefused => ?_, fun name v c' hok => ?_⟩
  · obtain ⟨ids, hlast, hget⟩ := get_assignAll h f assignments
    have hfirsts := hget ▸ firsts_unique ids
    exact ⟨ids, hlast, hfirsts, hfirsts.nodup, fun _ => hfirsts.mem_iff, hfirsts.sublist,
      hfirsts.eq_of_nodup⟩
  · simp only [assign_list_eq_ok_iff]
    exact ⟨fun ⟨_, ids, hv, _⟩ => ⟨ids, hv⟩, fun ⟨ids, hv⟩ => ⟨_, ids, hv, rfl⟩⟩
  · have hsame := assigned_of_error hrefused
    refine ⟨hsame, fun later => ?_⟩
    rw [assignAll_append, assignAll_append, assignAll, List.foldl_cons, hsame]
    rfl
  · refine ⟨?_, sameBut_assign hok⟩
    rw [assignAll_append]
    exact assigned_of_ok hok

/-- A list that names a query twice. -/
def repeated : List (Text × Json) :=
  [("valid_ids".toList, .array (["b", "a", "b"].map fun id => .text id.toList))]

/-- What is kept of it. -/
def kept : Classification := ⟨.empty, ["b".toList, "a".toList], [], [], [], [], []⟩

def otherList : Text × Json :=
  ("static_ids".toList, .array (["x", "y", "y", "x"].map fun id => .text id.toList))

def noTexts : Text × Json := ("valid_ids".toList, .array [.text "c".toList, .int 1])

/-- The second of the two assignments is refused. -/
theorem lists_assignAll_repeated :
    ofMembers repeated = .ok kept ∧
    (∃ ids, LastGiven repeated .valid [otherList, noTexts] ids ∧
      Firsts ids ["b".toList, "a".toList]) ∧
    (∃ ids, LastGiven repeated .static [otherList, noTexts] ids ∧
      Firsts ids ["x".toList, "y".toList]) ∧
    kept.assignAll [otherList, noTexts] = kept.assignAll [otherList] ∧
    SameBut otherList.1 kept (kept.assignAll [otherList]) := by
  have hkept : ofMembers repeated = .ok kept := rfl
  obtain ⟨hlists, -, -, -⟩ := lists_assignAll hkept [otherList, noTexts]
  obtain ⟨valid, hvalid, hfirsts, -⟩ := hlists .valid
  obtain ⟨static, hstatic, hfirsts', -⟩ := hlists .static
  obtain ⟨-, -, hrefused, -⟩ := lists_assignAll hkept [otherList]
  obtain ⟨-, htrace⟩ := hrefused noTexts.1 noTexts.2 _ rfl
  obtain ⟨-, -, -, hchanged⟩ := lists_assignAll hkept []
  obtain ⟨-, hsame⟩ := hchanged otherList.1 otherList.2 _ rfl
  exact ⟨hkept, ⟨valid, hvalid, hfirsts⟩, ⟨static, hstatic, hfirsts'⟩, htrace [], hsame⟩

end PageQueries.Classification
