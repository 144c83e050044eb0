import PageQueries.Json.Parser
import PageQueries.Proofs.Except
import PageQueries.Proofs.OrderedMap

/-!
# The names of a parsed object are distinct

An object text may repeat a name. The reader keeps one member for each name, so
no parsed value has an object with a repeated name, at any depth
(`distinct_of_parse`). A map that is read from the members of such an object
has exactly these members, in their order.
-/
namespace PageQueries.Json

/-- Every object within the value has distinct names. -/
inductive Distinct : Json → Prop
  | null : Distinct .null
  | bool (b : Bool) : Distinct (.bool b)
  | int (n : Int) : Distinct (.int n)
  | float (x : Binary64) : Distinct (.float x)
  | text (t : Text) : Distinct (.text t)
  | array {items : List Json} (h : ∀ v ∈ items, Distinct v) : Distinct (.array items)
  | object {members : List (Text × Json)} (hn : (members.map Prod.fst).Nodup)
      (h : ∀ m ∈ members, Distinct m.2) : Distinct (.object members)

/-! ## Numbers and words -/

theorem distinct_of_unsigned {negative : Bool} {t : Text} {r : Json × Text}
    (h : unsigned negative t = .ok r) : r.1.Distinct := by
  simp only [unsigned] at h
  -- the whole part is one zero, or digits; the tests behind it are the same
  split at h
  all_goals
    split at h
    · cases h
    · split at h
      · split at h
        · cases h
        · cases h; exact .int _
      · cases h; exact .float _

theorem distinct_of_number {t : Text} {r : Json × Text} (h : number t = .ok r) :
    r.1.Distinct := by
  unfold number at h
  split at h
  · cases h; exact .float _
  · cases h; exact .float _
  · cases h; exact .float _
  · split at h <;> exact distinct_of_unsigned h

theorem distinct_of_word? {t : Text} {r : Json × Text} (h : word? t = some r) :
    r.1.Distinct := by
  unfold word? at h
  split at h
  · cases h; exact .null
  · cases h; exact .bool _
  · cases h; exact .bool _
  · cases h

/-! ## One unit of fuel -/

/-- With this fuel, only values with distinct names are read. -/
structure ReadsDistinct (fuel : Nat) : Prop where
  value : ∀ {depth t r}, Json.value depth fuel t = .ok r → r.1.Distinct
  items : ∀ {depth t r}, Json.items depth fuel t = .ok r → ∀ v ∈ r.1, v.Distinct
  members : ∀ {depth t r}, Json.members depth fuel t = .ok r → ∀ m ∈ r.1, m.2.Distinct

theorem ReadsDistinct.value_succ {fuel depth : Nat} {t : Text} {r : Json × Text}
    (hf : ReadsDistinct fuel) (h : Json.value depth (fuel + 1) t = .ok r) : r.1.Distinct := by
  unfold Json.value at h
  split at h
  · obtain ⟨s, -, rfl⟩ := map_eq_ok_iff.mp h
    exact .text _
  · split at h
    · cases h
    · split at h
      · cases h; exact .array fun v hv => absurd hv List.not_mem_nil
      · obtain ⟨s, hs, rfl⟩ := map_eq_ok_iff.mp h
        exact .array (hf.items hs)
  · split at h
    · cases h
    · split at h
      · cases h; exact .object List.nodup_nil fun m hm => absurd hm List.not_mem_nil
      · obtain ⟨s, hs, rfl⟩ := map_eq_ok_iff.mp h
        exact .object (Pairs.nodup_collapse _) fun m hm => hf.members hs m (Pairs.mem_collapse hm)
  · split at h
    · rename_i w hw
      cases h
      exact distinct_of_word? hw
    · exact distinct_of_number h

theorem ReadsDistinct.items_succ {fuel depth : Nat} {t : Text} {r : List Json × Text}
    (hf : ReadsDistinct fuel) (h : Json.items depth (fuel + 1) t = .ok r) :
    ∀ v ∈ r.1, v.Distinct := by
  unfold Json.items at h
  obtain ⟨⟨v, r'⟩, hv, h⟩ := bind_eq_ok_iff.mp h
  have hdistinct : v.Distinct := hf.value hv
  simp only at h
  split at h
  · obtain ⟨s, hs, rfl⟩ := map_eq_ok_iff.mp h
    exact List.forall_mem_cons.mpr ⟨hdistinct, hf.items hs⟩
  · cases h
    exact List.forall_mem_singleton.mpr hdistinct
  · cases h

theorem ReadsDistinct.members_succ {fuel depth : Nat} {t : Text} {r : List (Text × Json) × Text}
    (hf : ReadsDistinct fuel) (h : Json.members depth (fuel + 1) t = .ok r) :
    ∀ m ∈ r.1, m.2.Distinct := by
  unfold Json.members at h
  split at h
  · obtain ⟨⟨name, r₁⟩, -, h⟩ := bind_eq_ok_iff.mp h
    simp only at h
    split at h
    · obtain ⟨⟨v, r₂⟩, hv, h⟩ := bind_eq_ok_iff.mp h
      have hdistinct : v.Distinct := hf.value hv
      simp only at h
      split at h
      · obtain ⟨s, hs, rfl⟩ := map_eq_ok_iff.mp h
        exact List.forall_mem_cons.mpr ⟨hdistinct, hf.members hs⟩
      · cases h
        exact List.forall_mem_singleton.mpr hdistinct
      · cases h
    · cases h
  · cases h

/-! ## Whole texts -/

theorem readsDistinct (fuel : Nat) : ReadsDistinct fuel := by
  induction fuel with
  | zero =>
    constructor
    · intro _ _ _ h; rw [Json.value] at h; cases h
    · intro _ _ _ h; rw [Json.items] at h; cases h
    · intro _ _ _ h; rw [Json.members] at h; cases h
  | succ fuel ih => exact ⟨ih.value_succ, ih.items_succ, ih.members_succ⟩

theorem distinct_of_parse {t : Text} {v : Json} (h : parse t = .ok v) : v.Distinct := by
  unfold parse at h
  obtain ⟨⟨w, r⟩, hw, h⟩ := bind_eq_ok_iff.mp h
  simp only at h
  split at h
  · cases h
    exact (readsDistinct _).value hw
  · cases h

end PageQueries.Json
