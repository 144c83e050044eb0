import Mathlib.Data.List.Forall2
import PageQueries.Proofs.Digest
import PageQueries.Proofs.Text.Trim
import PageQueries.RouteKey

/-!
# Route keys and the style of separators

A page has the same key on every system, and in every checkout of its project:
separators of both styles count as one, and the root of the project is taken
off. It is taken off as a folder: a path is `Beneath` a root if a separator
follows the root's name, so a page beside a folder of a longer name keeps all
of its path.

A root and a path come in only with their separators unified, and a root only
without those at its end (its `trunk`). So all that is said here comes down to
the one equation `normalize_some` and to `beneath_iff`.

Results:
* `normalize_of_beneath`, `normalize_of_not_beneath`: the normal form of a path,
  in both cases.
* `generate_eq_iff`: two pages have one key exactly if they have one normal form.
* `routeKey_laws`: what separators and roots mean for a key.
-/
namespace PageQueries.RouteKey

open Text

/-- A separator of either style. -/
def isSeparator (c : Char) : Bool := c = '/' || c = '\\'

/-- The same path, up to the style of its separators. -/
def SameStyle (s t : Text) : Prop :=
  List.Forall₂ (fun c d => c = d ∨ isSeparator c = true ∧ isSeparator d = true) s t

/-- A root without the separators at its end. -/
def trunk (root : Text) : Text := dropEnd isSeparator root

/-- The path begins with the root, without the separators at its end, and a separator. -/
def Beneath (root path : Text) : Prop :=
  ∃ base separator rest, path = base ++ separator :: rest ∧ SameStyle base (trunk root) ∧
    isSeparator separator = true

variable {root root' path path' s t : Text} {c d : Char}

/-! ## Unified separators -/

theorem unifySeparators_append (s t : Text) :
    unifySeparators (s ++ t) = unifySeparators s ++ unifySeparators t := List.map_append

theorem unifySeparators_cons (c : Char) (t : Text) :
    unifySeparators (c :: t) = (if c = '\\' then '/' else c) :: unifySeparators t := rfl

theorem unify_eq_slash_iff : (if c = '\\' then '/' else c) = '/' ↔ isSeparator c = true := by
  simp only [isSeparator, Bool.or_eq_true, decide_eq_true_eq]
  split <;> simp_all

theorem unify_eq_iff : (if c = '\\' then '/' else c) = (if d = '\\' then '/' else d) ↔
    c = d ∨ isSeparator c = true ∧ isSeparator d = true := by
  simp only [isSeparator, Bool.or_eq_true, decide_eq_true_eq]
  grind

theorem sameStyle_iff : SameStyle s t ↔ unifySeparators s = unifySeparators t := by
  rw [unifySeparators, unifySeparators, ← List.forall₂_eq_eq_eq, List.forall₂_map_left_iff,
    List.forall₂_map_right_iff, SameStyle]
  simp only [unify_eq_iff]

instance (s t : Text) : Decidable (SameStyle s t) := decidable_of_iff _ sameStyle_iff.symm

theorem dropSeparators_unifySeparators (root : Text) :
    dropSeparators (unifySeparators root) = unifySeparators (trunk root) := by
  have hclass : (fun c : Char => decide (c = '/')) ∘ (fun c => if c = '\\' then '/' else c)
      = isSeparator := by
    funext c
    rw [Bool.eq_iff_iff, ← unify_eq_slash_iff, Function.comp_apply, decide_eq_true_eq]
  rw [dropSeparators, unifySeparators, ← List.map_reverse, List.dropWhile_map, hclass,
    ← List.map_reverse, unifySeparators, trunk, dropEnd]

theorem trunk_append {separators : Text} (h : ∀ c ∈ separators, isSeparator c = true) :
    trunk (root ++ separators) = trunk root := dropEnd_append h

theorem trunk_eq_self (h : ∀ c, root.getLast? = some c → isSeparator c = false) :
    trunk root = root := dropEnd_eq_self h

/-! ## Paths beneath a root -/

theorem beneath_iff :
    Beneath root path ↔
      ∃ rest, unifySeparators path = unifySeparators (trunk root) ++ '/' :: rest := by
  constructor
  · intro h
    obtain ⟨base, separator, rest, rfl, hbase, hseparator⟩ := h
    refine ⟨unifySeparators rest, ?_⟩
    rw [unifySeparators_append, sameStyle_iff.mp hbase, unifySeparators_cons,
      unify_eq_slash_iff.mpr hseparator]
  · intro h
    obtain ⟨rest, hrest⟩ := h
    obtain ⟨base, behind, rfl, hbase, hbehind⟩ := List.map_eq_append_iff.mp hrest
    obtain ⟨separator, rest, rfl, hseparator, -⟩ := List.map_eq_cons_iff.mp hbehind
    exact ⟨base, separator, rest, rfl, sameStyle_iff.mpr hbase,
      unify_eq_slash_iff.mp hseparator⟩

theorem after?_trunk_eq_some_iff {rest : Text} :
    after? (unifySeparators (trunk root) ++ ['/']) (unifySeparators path) = some rest ↔
      unifySeparators path = unifySeparators (trunk root) ++ '/' :: rest := by
  rw [after?_eq_some_iff, List.append_assoc, List.singleton_append]

instance (root path : Text) : Decidable (Beneath root path) :=
  decidable_of_iff
    (after? (unifySeparators (trunk root) ++ ['/']) (unifySeparators path)).isSome <| by
      simp only [beneath_iff, Option.isSome_iff_exists, after?_trunk_eq_some_iff]

theorem normalize_none (path : Text) : normalize none path = unifySeparators path := rfl

theorem normalize_nil (path : Text) : normalize (some []) path = unifySeparators path := rfl

theorem normalize_some (hroot : root ≠ []) (path : Text) :
    normalize (some root) path =
      (after? (unifySeparators (trunk root) ++ ['/']) (unifySeparators path)).getD
        (unifySeparators path) := by
  obtain ⟨c, root, rfl⟩ := List.exists_cons_of_ne_nil hroot
  rw [← dropSeparators_unifySeparators]
  rfl

theorem normalize_of_beneath (hroot : root ≠ []) {rest : Text}
    (h : unifySeparators path = unifySeparators (trunk root) ++ '/' :: rest) :
    normalize (some root) path = rest := by
  rw [normalize_some hroot, after?_trunk_eq_some_iff.mpr h, Option.getD_some]

theorem normalize_of_not_beneath (h : ¬ Beneath root path) :
    normalize (some root) path = unifySeparators path := by
  by_cases hroot : root = []
  · rw [hroot, normalize_nil]
  · have hafter : after? (unifySeparators (trunk root) ++ ['/']) (unifySeparators path) = none := by
      refine Option.eq_none_iff_forall_ne_some.mpr fun rest hrest => h (beneath_iff.mpr ⟨rest, ?_⟩)
      exact after?_trunk_eq_some_iff.mp hrest
    rw [normalize_some hroot, hafter, Option.getD_none]

theorem normalize_append (hroot : root ≠ [])
    (h : ∀ c, root.getLast? = some c → isSeparator c = false) (rest : Text) :
    normalize (some root) (root ++ '/' :: rest) = unifySeparators rest := by
  refine normalize_of_beneath hroot ?_
  rw [trunk_eq_self h, unifySeparators_append]
  rfl

/-- The root is the same for both, so what is left of them is all that they can differ in. -/
theorem sameStyle_of_normalize_eq (hroot : root ≠ []) (hp : Beneath root path)
    (hq : Beneath root path') (h : normalize (some root) path = normalize (some root) path') :
    SameStyle path path' := by
  obtain ⟨rest, hrest⟩ := beneath_iff.mp hp
  obtain ⟨rest', hrest'⟩ := beneath_iff.mp hq
  rw [normalize_of_beneath hroot hrest, normalize_of_beneath hroot hrest'] at h
  rw [sameStyle_iff, hrest, hrest', h]

/-! ## Roots and paths that mean the same -/

theorem normalize_congr (hroot : SameStyle root root') (hpath : SameStyle path path') :
    normalize (some root') path' = normalize (some root) path := by
  rw [sameStyle_iff] at hroot hpath
  rw [normalize, normalize, Option.map_some, Option.map_some, hroot, hpath]

theorem normalize_root_append (hroot : root ≠ []) {separators : Text}
    (h : ∀ c ∈ separators, isSeparator c = true) (path : Text) :
    normalize (some (root ++ separators)) path = normalize (some root) path := by
  have hne : root ++ separators ≠ [] := List.append_ne_nil_of_left_ne_nil hroot separators
  rw [normalize_some hne, normalize_some hroot, trunk_append h]

theorem generate_eq_iff {root : Option Text}
    (h : Set.InjOn Digest.sha256
      {Utf8.encode (normalize root path), Utf8.encode (normalize root path')}) :
    generate root path = generate root path' ↔ normalize root path = normalize root path' :=
  Digest.ofText_inj_of_injOn h

/-- **Keys do not depend on the style of separators, and a root is taken off as a folder.** In
order: the style of root and path does not matter; nor do separators at the end of the root; what
follows the root and a separator is the normal form; any other path is its own normal form; beneath
the root, different pages have different normal forms; as far as SHA-256 tells the normal forms
apart, keys do; and without a root, nothing is taken off. -/
theorem routeKey_laws (root : Text) (hroot : root ≠ []) (p q : Text) :
    (∀ root' p', SameStyle root root' → SameStyle p p' →
      normalize (some root') p' = normalize (some root) p ∧
        generate (some root') p' = generate (some root) p) ∧
    (∀ separators : Text, (∀ c ∈ separators, isSeparator c = true) →
      normalize (some (root ++ separators)) p = normalize (some root) p ∧
        generate (some (root ++ separators)) p = generate (some root) p) ∧
    ((∀ c, root.getLast? = some c → isSeparator c = false) →
      ∀ rest, normalize (some root) (root ++ '/' :: rest) = unifySeparators rest) ∧
    (¬ Beneath root p → normalize (some root) p = unifySeparators p) ∧
    (Beneath root p → Beneath root q →
      normalize (some root) p = normalize (some root) q → SameStyle p q) ∧
    (∀ root? : Option Text,
      Set.InjOn Digest.sha256 {Utf8.encode (normalize root? p), Utf8.encode (normalize root? q)} →
        (generate root? p = generate root? q ↔ normalize root? p = normalize root? q)) ∧
    normalize none p = unifySeparators p ∧ normalize (some []) p = unifySeparators p := by
  refine ⟨fun root' p' hr hp => ?_, fun separators hs => ?_, normalize_append hroot,
    normalize_of_not_beneath, sameStyle_of_normalize_eq hroot, fun root? => generate_eq_iff,
    normalize_none p, normalize_nil p⟩
  · have hnormal := normalize_congr hr hp
    exact ⟨hnormal, congrArg Digest.ofText hnormal⟩
  · have hnormal := normalize_root_append hroot hs p
    exact ⟨hnormal, congrArg Digest.ofText hnormal⟩

/-- A page under the root `docs`, and the page of the same name in the folder beside it. -/
theorem routeKey_laws_docs :
    "docs".toList ≠ [] ∧
      normalize (some "docs/\\".toList) "docs-old\\a.md".toList = "docs-old/a.md".toList ∧
      normalize (some "docs".toList) "docs/a.md".toList = "a.md".toList ∧
      SameStyle "docs\\a.md".toList "docs/a.md".toList ∧
      generate (some "docs".toList) "docs-old\\a.md".toList ≠
        generate (some "docs".toList) "docs\\a.md".toList := by
  have hbeside := routeKey_laws "docs".toList (by decide) "docs-old\\a.md".toList
    "docs\\a.md".toList
  have hbelow := routeKey_laws "docs".toList (by decide) "docs\\a.md".toList "docs/a.md".toList
  obtain ⟨-, hend, hfollows, hunchanged, -, hkeys, -⟩ := hbeside
  obtain ⟨hstyle, -, -, -, hsame, -⟩ := hbelow
  have hseparators : ∀ c ∈ "/\\".toList, isSeparator c = true := List.all_eq_true.mp rfl
  have hlast : ∀ c, "docs".toList.getLast? = some c → isSeparator c = false := by
    intro c hc
    obtain rfl := Option.some.inj hc
    rfl
  have hsha : Set.InjOn Digest.sha256
      {Utf8.encode (normalize (some "docs".toList) "docs-old\\a.md".toList),
        Utf8.encode (normalize (some "docs".toList) "docs\\a.md".toList)} :=
    Set.injOn_pair.mpr fun h => absurd h (by decide +kernel)
  refine ⟨by decide, ?_, hfollows hlast "a.md".toList, ?_, ?_⟩
  · exact (hend _ hseparators).1.trans (hunchanged (by decide))
  · exact hsame (by decide) (by decide) (hstyle _ _ (by decide) (by decide)).1.symm
  · intro h
    exact absurd ((hkeys _ hsha).mp h) (by decide)

end PageQueries.RouteKey
