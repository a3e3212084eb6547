import Mathlib.Data.List.Basic
import Mathlib.Tactic.Common
import TarRecipe.Tree.View

/-! All that lies below an entry, an entry before what it holds. -/

namespace TarRecipe

@[elab_as_elim]
theorem Entry.induction_on {P : Entry → Prop} (file : ∀ a origin, P (.file a origin))
    (dir : ∀ a l cs, (∀ c ∈ cs, P c.2) → P (.dir a l cs)) : ∀ e, P e
  | .file a origin => file a origin
  | .dir a l cs => dir a l cs fun c _ => Entry.induction_on file dir c.2
termination_by e => sizeOf e
decreasing_by
  rename_i hc
  have hs := List.sizeOf_lt_of_mem hc
  obtain ⟨name, e⟩ := c
  simp only [Entry.dir.sizeOf_spec, Prod.mk.sizeOf_spec] at *
  omega

mutual

def Entry.descendants : Entry → List (Path × Entry)
  | .file .. => []
  | .dir _ _ cs => descendantsOf cs
termination_by structural e => e

def descendantsOf : List (String × Entry) → List (Path × Entry)
  | [] => []
  | (name, e) :: cs =>
    ([name], e) :: e.descendants.map (fun x => (name :: x.1, x.2)) ++ descendantsOf cs
termination_by structural cs => cs

end

def Dir.descendants (d : Dir) : List (Path × Entry) := descendantsOf d.children

lemma mem_descendantsOf_iff {cs : List (String × Entry)} {p : Path} {x : Entry} :
    (p, x) ∈ descendantsOf cs ↔
      ∃ name e q, (name, e) ∈ cs ∧ p = name :: q ∧ (q = [] ∧ x = e ∨ (q, x) ∈ e.descendants) := by
  induction cs with
  | nil => simp [descendantsOf]
  | cons c cs ih =>
    obtain ⟨n, e⟩ := c
    rw [descendantsOf, List.cons_append, List.mem_cons, List.mem_append, ih]
    constructor
    · rintro (h | h | ⟨name, e', q, hm, h⟩)
      · obtain ⟨rfl, rfl⟩ := Prod.mk.inj h
        exact ⟨n, x, [], List.mem_cons_self, rfl, .inl ⟨rfl, rfl⟩⟩
      · obtain ⟨⟨q, y⟩, hy, h⟩ := List.mem_map.mp h
        obtain ⟨rfl, rfl⟩ := Prod.mk.inj h
        exact ⟨n, e, q, List.mem_cons_self, rfl, .inr hy⟩
      · exact ⟨name, e', q, List.mem_cons_of_mem _ hm, h⟩
    · rintro ⟨name, e', q, hm, rfl, h⟩
      rcases List.mem_cons.mp hm with hm | hm
      · obtain ⟨rfl, rfl⟩ := Prod.mk.inj hm
        rcases h with ⟨rfl, rfl⟩ | h
        · exact .inl rfl
        · exact .inr (.inl (List.mem_map.mpr ⟨_, h, rfl⟩))
      · exact .inr (.inr ⟨name, e', q, hm, rfl, h⟩)

lemma ne_nil_of_mem_descendantsOf {cs : List (String × Entry)} {x : Path × Entry}
    (h : x ∈ descendantsOf cs) : x.1 ≠ [] := by
  obtain ⟨p, e⟩ := x
  obtain ⟨name, _, q, _, rfl, _⟩ := mem_descendantsOf_iff.mp h
  exact List.cons_ne_nil name q

lemma Entry.ne_nil_of_mem_descendants {e : Entry} {x : Path × Entry} (h : x ∈ e.descendants) :
    x.1 ≠ [] := by
  cases e with
  | file a origin => simp [descendants] at h
  | dir a l cs => exact ne_nil_of_mem_descendantsOf h

end TarRecipe
