import Mathlib.Data.List.Basic
import Mathlib.Logic.Basic
import Mathlib.Tactic.Common
import TarRecipe.Disk.Basic
import TarRecipe.Proofs.Tree.Children

/-! The nodes of a disk, each under its name once, and what is at a place below a node. -/

namespace TarRecipe.Disk

open Children (Ascending)

structure IsEntryName (name : Bytes) : Prop where
  ne_nil : name ≠ []
  ne_dot : name ≠ [Pathname.dot]
  ne_dots : name ≠ [Pathname.dot, Pathname.dot]
  no_slash : Pathname.slash ∉ name

instance (name : Bytes) : Decidable (IsEntryName name) :=
  decidable_of_iff (name ≠ [] ∧ name ≠ [Pathname.dot] ∧ name ≠ [Pathname.dot, Pathname.dot] ∧
    Pathname.slash ∉ name)
    ⟨fun h => ⟨h.1, h.2.1, h.2.2.1, h.2.2.2⟩, fun h => ⟨h.1, h.2, h.3, h.4⟩⟩

/-! ## Entries -/

section Entries

variable {α : Type} {entries : List (Bytes × α)}

-- lists have a test of equality of their own
lemma lookup_eq (name : Bytes) (entries : List (Bytes × α)) :
    entries.lookup name = @List.lookup Bytes α instBEqOfDecidableEq name entries := by
  rw [lawful_beq_subsingleton List.instBEq (instBEqOfDecidableEq : BEq Bytes)]

lemma mem_iff_lookup (h : Ascending entries) {name : Bytes} {x : α} :
    (name, x) ∈ entries ↔ entries.lookup name = some x := by
  rw [lookup_eq]
  exact h.mem_iff_lookup

lemma lookup_insert (name n : Bytes) (x : α) (entries : List (Bytes × α)) :
    (Children.insert name x entries).lookup n = if n = name then some x else entries.lookup n := by
  rw [lookup_eq, lookup_eq]
  exact Children.lookup_insert name n x entries

lemma lookup_erase (name n : Bytes) (entries : List (Bytes × α)) :
    (Children.erase name entries).lookup n = if n = name then none else entries.lookup n := by
  rw [lookup_eq, lookup_eq]
  exact Children.lookup_erase name n entries

end Entries

namespace Node

def children : Node → List (Bytes × Node)
  | .directory _ entries => entries
  | _ => []

inductive WellFormed : Node → Prop
  | intro {node : Node} (ascending : Ascending node.children)
    (named : ∀ c ∈ node.children, IsEntryName c.1)
      (below : ∀ c ∈ node.children, c.2.WellFormed) : WellFormed node

@[elab_as_elim]
theorem induction_on {P : Node → Prop} (h : ∀ node, (∀ c ∈ node.children, P c.2) → P node) :
    ∀ node, P node
  | .directory perm entries => h (.directory perm entries) fun c _ => induction_on h c.2
  | .file perm data => h (.file perm data) (List.forall_mem_nil _)
  | .link target => h (.link target) (List.forall_mem_nil _)
  | .special opened => h (.special opened) (List.forall_mem_nil _)
termination_by node => sizeOf node
decreasing_by
  rename_i hc
  change c ∈ entries at hc
  have hs := List.sizeOf_lt_of_mem hc
  obtain ⟨name, node⟩ := c
  simp only [Node.directory.sizeOf_spec, Prod.mk.sizeOf_spec] at *
  omega

variable {node n : Node} {place rest : Place} {name : Bytes}

@[simp] lemma at?_nil (node : Node) : node.at? [] = some node := by
  cases node <;> rfl

lemma at?_cons (node : Node) (name : Bytes) (place : Place) :
    node.at? (name :: place) = (node.children.lookup name).bind (·.at? place) := by
  cases node with
  | directory perm entries =>
    rw [at?, children]
    cases entries.lookup name <;> rfl
  | file => rfl
  | link => rfl
  | special => rfl

lemma at?_append (node : Node) (place rest : Place) :
    node.at? (place ++ rest) = (node.at? place).bind (·.at? rest) := by
  induction place generalizing node with
  | nil => rw [List.nil_append, at?_nil, Option.bind_some]
  | cons name place ih =>
    rw [List.cons_append, at?_cons, at?_cons, Option.bind_assoc]
    exact congrArg _ (funext ih)

lemma at?_cons_eq_some (h : Ascending node.children) :
    node.at? (name :: place) = some n ↔ ∃ m, (name, m) ∈ node.children ∧ m.at? place = some n := by
  simp only [at?_cons, Option.bind_eq_some_iff, mem_iff_lookup h]

lemma WellFormed.ascending (h : node.WellFormed) : Ascending node.children := by
  cases h; assumption

lemma WellFormed.named (h : node.WellFormed) : ∀ c ∈ node.children, IsEntryName c.1 := by
  cases h; assumption

lemma WellFormed.of_mem (h : node.WellFormed) : ∀ c ∈ node.children, c.2.WellFormed := by
  cases h; assumption

lemma WellFormed.of_children_eq_nil (h : node.children = []) : node.WellFormed := by
  refine .intro ?_ ?_ ?_ <;> rw [h]
  · exact .nil
  · exact List.forall_mem_nil _
  · exact List.forall_mem_nil _

end Node

end TarRecipe.Disk
