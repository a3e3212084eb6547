import Mathlib.Data.List.Basic
import Mathlib.Tactic.Common
import TarRecipe.Proofs.Agreement
import TarRecipe.Proofs.Path
import TarRecipe.Tree.View

/-! Lookups of entries by paths: an entry is found exactly where the tree binds one. -/

namespace TarRecipe

lemma Entry.find?_append (e : Entry) (p q : Path) :
    e.find? (p ++ q) = (e.find? p).bind (·.find? q) := by
  induction p generalizing e with
  | nil => rw [List.nil_append, find?_nil, Option.bind_some]
  | cons name p ih =>
    cases e with
    | file a origin => rfl
    | dir a l cs =>
      rw [List.cons_append, find?, find?]
      cases cs.lookup name with
      | none => rfl
      | some e => exact ih e

namespace Dir

lemma find?_append (d : Dir) (p q : Path) : d.find? (p ++ q) = (d.find? p).bind (·.find? q) :=
  Entry.find?_append d.toEntry p q

lemma find?_singleton (d : Dir) (name : String) : d.find? [name] = d.child name := by
  rw [find?_cons]
  cases d.child name with
  | none => rfl
  | some e => exact Entry.find?_nil e

lemma entryAt_eq {d : Dir} {path : Path} (hp : path ≠ []) :
    d.entryAt path = d.walk path path.parent >>= fun above =>
      match above.child path.name with
      | some e => .ok e
      | none => .error (.notFound path) := by
  rw [entryAt, if_neg hp]
  rfl

lemma child_eq_some_of_entryAt {d : Dir} {path : Path} {e : Entry} (h : d.entryAt path = .ok e) :
    path ≠ [] ∧ ∃ above, d.walk path path.parent = .ok above ∧ above.child path.name = some e := by
  by_cases hp : path = []
  · subst path
    cases h
  · refine ⟨hp, ?_⟩
    rw [entryAt_eq hp] at h
    obtain ⟨above, hw, h⟩ := bind_eq_ok_iff.mp h
    cases hc : above.child path.name with
    | none =>
      rw [hc] at h
      cases h
    | some x =>
      rw [hc] at h
      exact ⟨above, hw, hc.trans (congrArg some (Except.ok.inj h))⟩

lemma entryAt_eq_ok_iff {d : Dir} {path : Path} {e : Entry} :
    d.entryAt path = .ok e ↔ path ≠ [] ∧ d.find? path = some e := by
  constructor
  · intro h
    obtain ⟨hp, above, hw, hc⟩ := child_eq_some_of_entryAt h
    refine ⟨hp, ?_⟩
    rw [← Path.parent_append_name hp, find?_append, (walk_eq_ok_iff _ _ _ _).mp hw,
      Option.bind_some]
    exact (find?_singleton above path.name).trans hc
  · rintro ⟨hp, h⟩
    rw [← Path.parent_append_name hp, find?_append, Option.bind_eq_some_iff] at h
    obtain ⟨x, hx, h⟩ := h
    cases x with
    | file a origin => cases h
    | dir a l cs =>
      have hw := (walk_eq_ok_iff path d ⟨a, l, cs⟩ path.parent).mpr hx
      have hc : (Dir.mk a l cs).child path.name = some e := (find?_singleton _ _).symm.trans h
      rw [entryAt_eq hp, hw]
      change (match (Dir.mk a l cs).child path.name with | some e => _ | none => _) = _
      rw [hc]

lemma getEntry_eq_ok_iff {d : Dir} {text : String} {e : Entry} :
    d.getEntry text = .ok e ↔ Path.parse text ≠ [] ∧ d.find? (Path.parse text) = some e :=
  entryAt_eq_ok_iff

end Dir

end TarRecipe
