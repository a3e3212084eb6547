import Mathlib
import TarRecipe.Proofs.Effect
import TarRecipe.Proofs.Tree.PathMap

/-! Operations that fail leave a tree that nobody can tell from the one before. -/

namespace TarRecipe

open Outcome
open Binding (uniform_eq)

variable {α β : Type} {d t : Dir}

namespace Outcome

def Restores (d : Dir) (o : Outcome α) : Prop := ∀ e, o.result = .error e → d.Moves (· = ·) o.tree

lemma restores_ok (x : α) (t : Dir) : Restores d ⟨.ok x, t⟩ := fun _ h => by cases h

lemma restores_error (e : Error) (h : d.Moves (· = ·) t) : Restores d (⟨.error e, t⟩ : Outcome α) :=
  fun _ _ => h

lemma Restores.andThen_ok {o : Outcome α} (h : Restores d o) (y : β) :
    Restores d (o.andThen fun _ t => ⟨.ok y, t⟩) := by
  obtain ⟨r, t⟩ := o
  cases r with
  | ok x => exact restores_ok y t
  | error e => exact restores_error e (h e rfl)

end Outcome

namespace Dir

/-! ## Edits in a directory at a path -/

lemma within_empty_result (full : Path) (edit : Dir → Outcome α) (p : Path) :
    (within true full edit p empty).result = (edit empty.touch).result := by
  rw [(within_grafted full edit (not_fileOn_empty p) (.inl rfl)).1, dirAt_empty]

lemma within_restores {make : Bool} (full : Path) {edit : Dir → Outcome α}
    (he : ∀ d, (edit d).Restores d) (hnew : make = true → ∃ x, (edit empty.touch).result = .ok x)
    (p : Path) (d : Dir) :
    (within make full edit p d).Restores d := by
  induction p generalizing d with
  | nil => exact fun e h => (touch_moves d).trans (he d.touch e h)
  | cons name p ih =>
    rw [within]
    cases hc : d.child name with
    | none =>
      dsimp only
      split
      · -- everything from here on is new, so that the edit is made in an empty directory
        rename_i hmake
        subst make
        obtain ⟨x, hx⟩ := hnew rfl
        intro e h
        cases ((within_empty_result full edit p).trans hx).symm.trans h
      · exact restores_error _ (touch_moves d)
    | some x =>
      cases x with
      | file a origin => exact restores_error _ (touch_moves d)
      | dir a l cs =>
        intro e h
        refine put_moves fun q => ?_
        rw [at?_cons, hc]
        exact ih ⟨a, l, cs⟩ e h q

lemma create_restores (p : Path) (e : Entry) (d : Dir) : (create p e d).Restores d := by
  rw [create]
  split
  · exact restores_error _ (.refl d)
  · exact restores_ok _ _

lemma merge_file_restores (p : Path) (name : String) (a : Attrs) (origin : Bytes) (d : Dir) :
    (merge p name (.file a origin) d).Restores d := by
  rw [merge]
  split
  · exact restores_error _ (.refl d)
  · exact restores_ok _ _

/-! ## Operations -/

lemma mkdir_restores (text : String) (f : Attrs → Attrs) (d : Dir) :
    (d.mkdir text f).Restores d := by
  rw [mkdir]
  split
  · exact restores_error _ (.refl d)
  · apply Restores.andThen_ok
    apply within_restores _ (create_restores _ _)
    exact fun h => absurd h Bool.false_ne_true

lemma mkdirAll_restores (text : String) (f : Attrs → Attrs) (d : Dir) :
    (d.mkdirAll text f).Restores d :=
  within_restores _ (fun _ => restores_ok _ _) (fun _ => ⟨_, rfl⟩) _ d

lemma addFile_restores (text : String) (origin : Bytes) (f : Attrs → Attrs) (d : Dir) :
    (d.addFile text origin f).Restores d := by
  rw [addFile]
  split
  · exact restores_error _ (.refl d)
  · apply Restores.andThen_ok
    exact within_restores _ (create_restores _ _) (fun _ => ⟨(), rfl⟩) _ d

lemma remove_restores (text : String) (d : Dir) : (d.remove text).Restores d := by
  rw [remove]
  split
  · exact restores_error _ (.refl d)
  · refine within_restores _ (fun d => ?_) (fun h => absurd h Bool.false_ne_true) _ d
    split
    · exact restores_ok _ _
    · exact restores_error _ (.refl d)

lemma add_file_restores (text : String) (a : Attrs) (origin : Bytes) (d : Dir) :
    (d.add text (.file a origin)).Restores d := by
  rw [add.eq_def]
  by_cases hp : Path.parse text = []
  · rw [if_pos hp]
    exact restores_error _ (.refl d)
  · rw [if_neg hp]
    exact within_restores _ (merge_file_restores _ _ a origin) (fun _ => ⟨(), rfl⟩) _ d

/-! ## What can be seen -/

def Unchanged (d t : Dir) : Prop :=
  ∀ p, t.at? p = d.at? p ∧ (t.find? p).map Entry.listed = (d.find? p).map Entry.listed

-- Listings that are given up on the way to an error are made anew as they were.
lemma WellFormed.unchanged (h : d.WellFormed) (ht : t.WellFormed) (hm : d.Moves (· = ·) t) :
    d.Unchanged t := by
  intro p
  refine ⟨(hm p).symm, ?_⟩
  have hp := hm p
  cases hx : d.find? p with
  | none =>
    rw [at?_eq_none_iff.mpr hx] at hp
    rw [at?_eq_none_iff.mp hp.symm]
  | some x =>
    cases hy : t.find? p with
    | none =>
      rw [at?_eq_none_iff.mpr hy, at?_eq_none_iff, hx] at hp
      cases hp
    | some y =>
      have hr : Entry.Related (· = ·) y x := by
        refine ⟨Entry.WellFormed.find? ht hy, Entry.WellFormed.find? h hx, fun q => ?_⟩
        have hq := hm (p ++ q)
        rw [at?_append, at?_append, hx, hy] at hq
        change x.at? q = y.at? q at hq
        rw [hq]
        exact (Entry.related_eq_iff.mpr (Entry.WellFormed.find? ht hy)).at? q
      rw [Option.map_some, Option.map_some, hr.listed]

end Dir

def Outcome.Atomic (d : Dir) (o : Outcome α) : Prop := ∀ e, o.result = .error e → d.Unchanged o.tree

lemma Outcome.Restores.atomic {o : Outcome α} (h : Restores d o) (hd : d.WellFormed)
    (ht : o.tree.WellFormed) :
    Atomic d o := fun e he => hd.unchanged ht (h e he)

namespace Dir

theorem failed_operations_atomic (h : d.WellFormed) (text : String) (f : Attrs → Attrs) (a : Attrs)
    (origin : Bytes) :
    (d.mkdir text f).Atomic d ∧ (d.mkdirAll text f).Atomic d ∧ (d.addFile text origin f).Atomic d ∧
      (d.remove text).Atomic d ∧ (d.add text (.file a origin)).Atomic d := by
  have hr := related_eq_iff.mpr h
  refine ⟨?_, ?_, ?_, ?_, ?_⟩
  · exact (mkdir_restores text f d).atomic h (mkdir_related uniform_eq text trivial hr).tree.left
  · exact (mkdirAll_restores text f d).atomic h
      (mkdirAll_related uniform_eq text trivial hr).tree.left
  · exact (addFile_restores text origin f d).atomic h
      (addFile_related uniform_eq text rfl hr).tree.left
  · exact (remove_restores text d).atomic h (remove_related uniform_eq text hr).tree.left
  · exact (add_file_restores text a origin d).atomic h
      (add_related uniform_eq text (.file rfl) hr).tree.left

/-! A file is met on the way down, or a directory where a file is to go. -/

theorem failed_operations_atomic_stored :
    (stored.mkdirAll "etc/hosts/x/y" id).result =
      .error (.typeMismatch ["etc", "hosts", "x", "y"] .directory .file) ∧
      stored.Unchanged (stored.mkdirAll "etc/hosts/x/y" id).tree ∧
      (stored.add "etc" (.file .ofFile [7])).result =
        .error (.typeMismatch ["etc"] .directory .file) ∧
      stored.Unchanged (stored.add "etc" (.file .ofFile [7])).tree := by
  obtain ⟨_, hmake, _⟩ := failed_operations_atomic stored_wellFormed "etc/hosts/x/y" id .ofFile []
  obtain ⟨_, _, _, _, hadd⟩ := failed_operations_atomic stored_wellFormed "etc" id .ofFile [7]
  have hm : (stored.mkdirAll "etc/hosts/x/y" id).result =
      .error (.typeMismatch ["etc", "hosts", "x", "y"] .directory .file) := by cbv
  have ha : (stored.add "etc" (.file .ofFile [7])).result =
      .error (.typeMismatch ["etc"] .directory .file) := by cbv
  exact ⟨hm, hmake _ hm, ha, hadd _ ha⟩

end Dir

end TarRecipe
