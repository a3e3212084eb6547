import Mathlib
import TarRecipe.Proofs.Effect
import TarRecipe.Proofs.Tree.PathMap

/-! Trees that are filled one insertion after the other, in any order. -/

namespace TarRecipe

open Binding (uniform_eq)

inductive Insertion where
  | file (text : String) (origin : Bytes) (perm : UInt32)
  | directory (text : String) (perm : UInt32)

namespace Insertion

def path : Insertion → Path
  | file text _ _ => Path.parse text
  | directory text _ => Path.parse text

def binding : Insertion → Binding
  | file _ origin perm => .file { Attrs.ofFile with perm := perm } origin
  | directory _ perm => .dir { Attrs.ofDir with perm := perm }

def run : Insertion → Dir → Outcome Unit
  | file text origin perm, d => (d.addFile text origin fun a => { a with perm := perm }).void
  | directory text perm, d => (d.mkdirAll text fun a => { a with perm := perm }).void

def runAll : List Insertion → Dir → Outcome Unit := Outcome.forEach run

/-- Insertions that can be made side by side: each has a path of its own, which is not that of the
root, and none goes below a file. -/
structure Compatible (xs : List Insertion) : Prop where
  ne_root : ∀ x ∈ xs, x.path ≠ []
  distinct : (xs.map path).Nodup
  clear : ∀ x ∈ xs, x.binding.kind = .file → ∀ y ∈ xs, x.path <+: y.path → x.path = y.path

end Insertion

structure Dir.Holds (d : Dir) (xs : List Insertion) : Prop where
  wellFormed : d.WellFormed
  inserted : ∀ x ∈ xs, d.at? x.path = some x.binding
  above : ∀ q, (∀ x ∈ xs, x.path ≠ q) → (q = [] ∨ ∃ x ∈ xs, q <+: x.path) →
    d.at? q = some (.dir .ofDir)
  unbound : ∀ q, q ≠ [] → (∀ x ∈ xs, ¬ q <+: x.path) → d.at? q = none

namespace Insertion

variable {xs ys : List Insertion} {x : Insertion} {d t : Dir} {p q : Path}

lemma Compatible.perm (h : Compatible xs) (hp : xs.Perm ys) : Compatible ys where
  ne_root y hy := h.ne_root y (hp.mem_iff.mpr hy)
  distinct := (hp.map path).nodup_iff.mp h.distinct
  clear y hy hk z hz := h.clear y (hp.mem_iff.mpr hy) hk z (hp.mem_iff.mpr hz)

lemma Compatible.of_append (h : Compatible (xs ++ ys)) : Compatible xs where
  ne_root x hx := h.ne_root x (List.mem_append_left ys hx)
  distinct := (List.map_append .. ▸ h.distinct).of_append_left
  clear x hx hk y hy := h.clear x (List.mem_append_left ys hx) hk y (List.mem_append_left ys hy)

lemma Compatible.ne_path (h : Compatible (xs ++ [x])) : ∀ y ∈ xs, y.path ≠ x.path := by
  intro y hy he
  have hn := h.distinct
  rw [List.map_append, List.map_singleton, List.nodup_append_comm, List.singleton_append,
    List.nodup_cons] at hn
  exact hn.1 (he ▸ List.mem_map_of_mem hy)

end Insertion

namespace Dir

open Insertion (Compatible)

variable {xs ys : List Insertion} {x : Insertion} {d t : Dir} {p q : Path}

lemma empty_holds : empty.Holds [] where
  wellFormed := .empty
  inserted := List.forall_mem_nil _
  above q _ hq := by
    obtain rfl : q = [] := hq.resolve_right (by simp)
    exact at?_nil empty
  unbound q hq _ := at?_empty_of_ne hq

lemma Holds.perm (h : d.Holds xs) (hp : xs.Perm ys) : d.Holds ys where
  wellFormed := h.wellFormed
  inserted y hy := h.inserted y (hp.mem_iff.mpr hy)
  above q hq hy := by
    refine h.above q (fun x hx => hq x (hp.mem_iff.mp hx)) (hy.imp_right ?_)
    rintro ⟨y, hy, hpre⟩
    exact ⟨y, hp.mem_iff.mpr hy, hpre⟩
  unbound q hq hy := h.unbound q hq fun x hx => hy x (hp.mem_iff.mp hx)

lemma Holds.at?_unique (h : d.Holds xs) (h' : t.Holds xs) (q : Path) : d.at? q = t.at? q := by
  by_cases hx : ∃ x ∈ xs, x.path = q
  · obtain ⟨x, hx, rfl⟩ := hx
    rw [h.inserted x hx, h'.inserted x hx]
  · simp only [not_exists, not_and] at hx
    by_cases hq : q = [] ∨ ∃ x ∈ xs, q <+: x.path
    · rw [h.above q hx hq, h'.above q hx hq]
    · simp only [not_or, not_exists, not_and] at hq
      rw [h.unbound q hq.1 hq.2, h'.unbound q hq.1 hq.2]

lemma Holds.relist (h : d.Holds xs) : d.relist.Holds xs where
  wellFormed := Entry.WellFormed.relist h.wellFormed
  inserted x hx := (at?_relist d _).trans (h.inserted x hx)
  above q hx hq := (at?_relist d q).trans (h.above q hx hq)
  unbound q hq hx := (at?_relist d q).trans (h.unbound q hq hx)

lemma Holds.relist_eq (h : d.Holds xs) (h' : t.Holds xs) : d.relist = t.relist :=
  eq_of_relist h.relist.wellFormed h'.relist.wellFormed (relist_relist d) (relist_relist t)
    (h.relist.at?_unique h'.relist)

/-! ## One more insertion -/

lemma filled_parent (hq : q ≠ p) : d.filled p.parent q = d.filled p q := by
  have hpre : q <+: p.parent ↔ q <+: p := by
    by_cases hp : p = []
    · rw [hp]
      rfl
    · constructor
      · exact fun h => h.trans (List.dropLast_prefix p)
      · intro h
        by_cases hn : q = []
        · exact hn ▸ List.nil_prefix
        · exact ((Path.above_iff hp).mp ⟨hn, h, hq⟩).2
  simp only [filled, hpre]

lemma Holds.eq_of_file {a : Attrs} {origin : Bytes} (h : d.Holds xs)
    (hb : d.at? q = some (.file a origin)) :
    ∃ x ∈ xs, x.binding.kind = .file ∧ x.path = q := by
  by_cases hx : ∃ x ∈ xs, x.path = q
  · obtain ⟨x, hm, rfl⟩ := hx
    have he := Option.some.inj ((h.inserted x hm).symm.trans hb)
    exact ⟨x, hm, by rw [he]; rfl, rfl⟩
  · simp only [not_exists, not_and] at hx
    by_cases hq : q = [] ∨ ∃ x ∈ xs, q <+: x.path
    · cases (h.above q hx hq).symm.trans hb
    · simp only [not_or, not_exists, not_and] at hq
      cases (h.unbound q hq.1 hq.2).symm.trans hb

lemma Holds.not_fileOn (h : d.Holds xs) (hc : Compatible (xs ++ [x])) : ¬ d.FileOn x.path := by
  rintro ⟨q, a, origin, hq, hb⟩
  obtain ⟨y, hy, hk, rfl⟩ := h.eq_of_file hb
  exact hc.ne_path y hy (hc.clear y (List.mem_append_left _ hy) hk x (by simp) hq)

lemma Holds.concat (h : d.Holds xs) (hc : Compatible (xs ++ [x])) (hw : t.WellFormed)
    (hx : t.at? x.path = some x.binding) (ho : ∀ q, q ≠ x.path → t.at? q = d.filled x.path q) :
    t.Holds (xs ++ [x]) where
  wellFormed := hw
  inserted := by
    refine List.forall_mem_append.mpr ⟨fun y hy => ?_, List.forall_mem_singleton.mpr hx⟩
    rw [ho _ (hc.ne_path y hy), filled, h.inserted y hy, if_neg (by simp)]
  above q hq hpre := by
    rw [List.forall_mem_append, List.forall_mem_singleton] at hq
    rw [ho q (Ne.symm hq.2), filled]
    by_cases hold : q = [] ∨ ∃ y ∈ xs, q <+: y.path
    · rw [h.above q hq.1 hold, if_neg (by simp)]
    · have hnew : q <+: x.path := by
        simp only [List.mem_append, List.mem_singleton, or_and_right, exists_or, exists_eq_left]
          at hpre
        exact (or_assoc.mpr hpre).resolve_left hold
      simp only [not_or, not_exists, not_and] at hold
      rw [if_pos ⟨hnew, h.unbound q hold.1 hold.2⟩]
  unbound q hq hpre := by
    rw [List.forall_mem_append, List.forall_mem_singleton] at hpre
    have hne : q ≠ x.path := fun he => hpre.2 (he ▸ List.prefix_rfl)
    rw [ho q hne, filled, if_neg fun hn => hpre.2 hn.1, h.unbound q hq hpre.1]

-- The directory may have been made before, on the way to another insertion.
lemma Holds.filled_self (h : d.Holds xs) (hp : p ≠ []) (hne : ∀ y ∈ xs, y.path ≠ p) :
    d.filled p p = some (.dir .ofDir) := by
  by_cases hx : ∃ x ∈ xs, p <+: x.path
  · rw [filled, h.above p hne (.inr hx), if_neg (by simp)]
  · simp only [not_exists, not_and] at hx
    rw [filled, if_pos ⟨List.prefix_rfl, h.unbound p hp hx⟩]

lemma Holds.run (h : d.Holds xs) (hc : Compatible (xs ++ [x])) :
    (x.run d).result = .ok () ∧ (x.run d).tree.Holds (xs ++ [x]) := by
  have hp : x.path ≠ [] := hc.ne_root x (by simp)
  have hf := h.not_fileOn hc
  cases x with
  | directory text perm =>
    obtain ⟨⟨_, hr⟩, ht⟩ := mkdirAll_of_not_fileOn hf fun a => { a with perm := perm }
    refine ⟨congrArg (Except.map _) hr, h.concat hc ?_ ?_ fun q hq => (ht q).trans (if_neg hq)⟩
    · exact (mkdirAll_related uniform_eq text trivial (related_eq_iff.mpr h.wellFormed)).tree.left
    · refine (ht _).trans ((if_pos rfl).trans ?_)
      exact congrArg (Option.map _) (h.filled_self hp hc.ne_path)
  | file text origin perm =>
    have hfp : ¬ d.FileOn (Path.parse text).parent := by
      rintro ⟨q, a, origin, hq, hb⟩
      exact hf ⟨q, a, origin, hq.trans (List.dropLast_prefix _), hb⟩
    have hn : d.at? (Path.parse text) = none := by
      refine h.unbound _ hp fun y hy hpre => hc.ne_path y hy ?_
      exact (hc.clear (.file text origin perm) (by simp) rfl y
        (List.mem_append_left _ hy) hpre).symm
    obtain ⟨hr, ht⟩ := addFile_of_unbound hp hfp hn origin fun a => { a with perm := perm }
    refine ⟨congrArg (Except.map _) hr, h.concat hc ?_ ((ht _).trans (if_pos rfl)) fun q hq => ?_⟩
    · exact (addFile_related uniform_eq text rfl (related_eq_iff.mpr h.wellFormed)).tree.left
    · exact (ht q).trans ((if_neg hq).trans (filled_parent hq))

end Dir

namespace Insertion

variable {xs ys : List Insertion}

lemma runAll_holds (h : Compatible xs) :
    (runAll xs .empty).result = .ok () ∧ (runAll xs .empty).tree.Holds xs := by
  induction xs using List.reverseRecOn with
  | nil => exact ⟨rfl, Dir.empty_holds⟩
  | append_singleton xs x ih =>
    obtain ⟨hr, ht⟩ := ih h.of_append
    rw [runAll] at hr ht ⊢
    rw [Outcome.forEach_append, Outcome.andThen, hr]
    dsimp only
    rw [Outcome.forEach_singleton]
    exact ht.run h

theorem runAll_perm (h : Compatible xs) (hp : xs.Perm ys) :
    (runAll ys .empty).result = .ok () ∧
      (runAll ys .empty).tree.relist = (runAll xs .empty).tree.relist ∧
      (runAll ys .empty).tree.relist.Holds xs := by
  obtain ⟨_, hx⟩ := runAll_holds h
  obtain ⟨hr, hy⟩ := runAll_holds (h.perm hp)
  have hy := hy.perm hp.symm
  exact ⟨hr, hy.relist_eq hx, hy.relist⟩

/-! A file may come before the directories above it, and they in any order. -/

def nested : List Insertion :=
  [.directory "a" 0o700, .directory "a/b" 0o711, .file "a/b/c" [0x63] 0o600,
    .file "d/e" [0x65] 0o640]

lemma compatible_nested : Compatible nested :=
  ⟨by decide, by decide, by decide⟩

theorem runAll_perm_nested :
    (runAll nested.reverse .empty).result = .ok () ∧
      (runAll nested.reverse .empty).tree.relist = (runAll nested .empty).tree.relist ∧
      (runAll nested.reverse .empty).tree.relist.Holds nested :=
  runAll_perm compatible_nested (List.reverse_perm nested).symm

end Insertion

end TarRecipe
