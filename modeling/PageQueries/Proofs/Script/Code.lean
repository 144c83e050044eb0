import PageQueries.Proofs.Script.Build

/-!
# A page's script as code

`Script.build` joins rendered blocks as text, so what a script binds has to be
read off before rendering. `Script.whole` keeps the whole script as code: it
renders to the script (`build_eq_render_whole`), and what holds of every block
holds of the script (`bound_whole`).
-/
namespace PageQueries.Script

namespace Code

theorem render_append (c d : Code) : (c ++ d).render = c.render ++ d.render := rfl

theorem bound_append (c d : Code) : (c ++ d).bound = c.bound ++ d.bound := rfl

theorem render_concat (cs : List Code) : (concat cs).render = cs.flatMap render := by
  induction cs with
  | nil => rfl
  | cons c cs ih => rw [List.flatMap_cons, ← ih]; rfl

theorem bound_concat (cs : List Code) : (concat cs).bound = cs.flatMap bound := by
  induction cs with
  | nil => rfl
  | cons c cs ih => rw [List.flatMap_cons, ← ih]; rfl

theorem bound_concat_eq_nil {α : Type} {f : α → Code} (h : ∀ a, (f a).bound = []) (as : List α) :
    (concat (as.map f)).bound = [] := by
  rw [bound_concat, List.flatMap_eq_nil_iff]
  intro c hc
  obtain ⟨a, -, rfl⟩ := List.mem_map.mp hc
  exact h a

/-- Pieces with an empty line between neighbours. -/
def paragraphs : List Code → Code
  | [] => text []
  | [c] => c
  | c :: cs => c ++ text "\n\n".toList ++ paragraphs cs

theorem render_paragraphs (cs : List Code) :
    (paragraphs cs).render = Text.join "\n\n".toList (cs.map render) := by
  induction cs with
  | nil => rfl
  | cons c cs ih =>
    cases cs with
    | nil => rw [List.map_singleton, Text.join, List.intercalate_singleton]; rfl
    | cons d cs =>
      have hsplit : (paragraphs (c :: d :: cs)).render
          = c.render ++ "\n\n".toList ++ (paragraphs (d :: cs)).render := rfl
      rw [hsplit, ih]
      exact (List.intercalate_cons_cons).symm

theorem bound_paragraphs (cs : List Code) : (paragraphs cs).bound = cs.flatMap bound := by
  induction cs with
  | nil => rfl
  | cons c cs ih =>
    cases cs with
    | nil => simp [paragraphs]
    | cons d cs =>
      have hsplit : (paragraphs (c :: d :: cs)).bound
          = c.bound ++ [] ++ (paragraphs (d :: cs)).bound := rfl
      rw [hsplit, ih, List.append_nil]
      exact List.flatMap_cons.symm

theorem render_paragraphs_ne_nil {c : Code} (h : c.render ≠ []) (cs : List Code) :
    (paragraphs (c :: cs)).render ≠ [] := by
  cases cs with
  | nil => exact h
  | cons d cs =>
    have hsplit : (paragraphs (c :: d :: cs)).render
        = c.render ++ "\n\n".toList ++ (paragraphs (d :: cs)).render := rfl
    rw [hsplit, List.append_assoc]
    exact List.append_ne_nil_of_left_ne_nil h _

end Code

/-- A block is never empty. -/
theorem Block.text_ne_nil (b : Block) : b.text ≠ [] := by
  cases b <;> exact List.cons_ne_nil _ _

/-- None of the blocks is left out where they are joined. -/
theorem joinBlocks_eq (bs : List Block) :
    joinBlocks (bs.map Block.text) = Text.join "\n\n".toList (bs.map Block.text) := by
  rw [joinBlocks, List.filter_eq_self.mpr]
  intro t ht
  obtain ⟨b, -, rfl⟩ := List.mem_map.mp ht
  simp [b.text_ne_nil]

theorem joinBlocks_text (bs : List Block) :
    joinBlocks (bs.map Block.text) = (Code.paragraphs (bs.map Block.code)).render := by
  rw [joinBlocks_eq, Code.render_paragraphs, List.map_map]
  rfl

/-- The bindings of a page as code, ended by an empty line if there are any. -/
def bindingsCode (queries : Queries) (options : Options) : Code :=
  match bindings queries options with
  | [] => .text []
  | bs => .paragraphs (bs.map Block.code) ++ .text "\n\n".toList

/-- The script of a page as code. -/
def whole (routeKey : Text) (queries : Queries) (options : Options) : Code :=
  scaffold routeKey options.package ++ bindingsCode queries options

theorem render_bindingsCode (queries : Queries) (options : Options) :
    (bindingsCode queries options).render
      = (let bound := joinBlocks ((bindings queries options).map Block.text)
        if bound.isEmpty then [] else bound ++ "\n\n".toList) := by
  unfold bindingsCode
  split
  · rename_i hb
    rw [hb]
    rfl
  · rename_i hb
    cases hbs : bindings queries options with
    | nil => exact absurd hbs hb
    | cons b bs =>
      have hne : joinBlocks ((b :: bs).map Block.text) ≠ [] := by
        rw [joinBlocks_text]
        exact Code.render_paragraphs_ne_nil b.text_ne_nil _
      simp only [List.isEmpty_iff, hne, if_false]
      rw [Code.render_append, joinBlocks_text]
      rfl

/-- The script of a page is the text of its code. -/
theorem build_eq_render_whole (routeKey : Text) (queries : Queries) (options : Options) :
    build routeKey queries options = .ok (whole routeKey queries options).render := by
  rw [build_eq, whole, Code.render_append, render_bindingsCode]
  rfl

/-- The names that a script binds: those of the scaffold, then those of each block. -/
theorem bound_whole (routeKey : Text) (queries : Queries) (options : Options) :
    (whole routeKey queries options).bound
      = (scaffold routeKey options.package).bound
        ++ (bindings queries options).flatMap fun b => b.code.bound := by
  rw [whole, Code.bound_append, bindingsCode]
  congr 1
  split
  · rename_i hb
    rw [hb]
    rfl
  · rw [Code.bound_append, Code.bound_paragraphs, List.flatMap_map]
    exact List.append_nil _

end PageQueries.Script
