import Mathlib.Tactic.Common
import TarRecipe.Execute
import TarRecipe.Proofs.Tree.Operations

/-! Directives on related trees, copying from related sources, and whole recipes. -/

namespace TarRecipe

open Outcome

variable {B : Binding → Binding → Prop} {F : (Attrs → Attrs) → Prop} {s₁ s₂ d₁ d₂ : Dir}

namespace Directive

structure Changes (F : (Attrs → Attrs) → Prop) : Prop where
  id : F id
  mode {text : String} {change : ModeChange} : ModeChange.parse? text = some change →
    F fun a => { a with perm := change.apply a.perm }
  own (user group : String) : F (Attrs.own user group)

lemma changes_true : Changes fun _ => True := ⟨trivial, fun _ => trivial, fun _ _ => trivial⟩

lemma relist_alike (h : d₁.Related B d₂) : Alike (· = ·) B (relist d₁) (relist d₂) :=
  related_ok trivial h.relist

lemma runMkdir_alike (hB : Binding.Uniform B F) (hF : Changes F) (args : List String)
    (h : d₁.Related B d₂) : Alike (· = ·) B (runMkdir args d₁) (runMkdir args d₂) := by
  rw [runMkdir, runMkdir]
  split
  · exact related_error rfl h
  · refine Related.andThen (forEach_alike_same args ?_ h) fun _ _ _ _ _ => relist_alike
    exact fun path _ _ hd => (Dir.mkdirAll_related hB path hF.id hd).void

lemma copyOne_alike (hB : Binding.Uniform B F) (hs : s₁.Related B s₂) (dest path : String)
    (h : d₁.Related B d₂) :
    Alike (· = ·) B (copyOne s₁ dest path d₁) (copyOne s₂ dest path d₂) := by
  have he : Agree (· = ·) (Entry.Related B) (s₁.getEntry path) (s₂.getEntry path) :=
    Dir.entryAt_related hB (Path.parse path) hs
  rw [copyOne, copyOne]
  generalize s₁.getEntry path = g₁ at he
  generalize s₂.getEntry path = g₂ at he
  cases he with
  | error he => exact related_error he h
  | ok he => exact Dir.add_related hB _ he h

lemma runCopy_alike (hB : Binding.Uniform B F) (hs : s₁.Related B s₂) (args : List String)
    (h : d₁.Related B d₂) : Alike (· = ·) B (runCopy s₁ args d₁) (runCopy s₂ args d₂) := by
  rw [runCopy, runCopy, hs.listed]
  split
  · split
    · exact related_error rfl h
    · split
      · exact related_ok trivial h
      · refine Related.andThen (forEach_alike_same _ ?_ h) fun _ _ _ _ _ => relist_alike
        exact fun path _ _ hd => copyOne_alike hB hs _ path hd
  · exact related_error rfl h

lemma changeMatches_alike (hB : Binding.Uniform B F) {f : Attrs → Attrs} (hf : F f) (all : Bool)
    (patterns : List String) (h : d₁.Related B d₂) :
    Alike (· = ·) B (changeMatches f all patterns d₁) (changeMatches f all patterns d₂) := by
  rw [changeMatches, changeMatches, h.listed]
  split
  · exact related_error rfl h
  · refine Related.andThen (forEach_alike_same _ ?_ h) fun _ _ _ _ _ => relist_alike
    exact fun path _ _ hd => Dir.update_related hB path (fun _ _ he => he.change hB hf all) hd

lemma runChmod_alike (hB : Binding.Uniform B F) (hF : Changes F) (args : List String)
    (h : d₁.Related B d₂) : Alike (· = ·) B (runChmod args d₁) (runChmod args d₂) := by
  rw [runChmod, runChmod]
  split
  · split
    · exact related_error rfl h
    · rename_i hm
      exact changeMatches_alike hB (hF.mode hm) _ _ h
  · exact related_error rfl h

lemma runChown_alike (hB : Binding.Uniform B F) (hF : Changes F) (args : List String)
    (h : d₁.Related B d₂) : Alike (· = ·) B (runChown args d₁) (runChown args d₂) := by
  rw [runChown, runChown]
  split
  · exact changeMatches_alike hB (hF.own _ _) _ _ h
  · exact related_error rfl h

lemma run_alike (hB : Binding.Uniform B F) (hF : Changes F) (hs : s₁.Related B s₂)
    (directive : Directive) (args : List String) (h : d₁.Related B d₂) :
    Alike (· = ·) B (directive.run s₁ args d₁) (directive.run s₂ args d₂) := by
  cases directive with
  | mkdir => exact runMkdir_alike hB hF args h
  | copy => exact runCopy_alike hB hs args h
  | chmod => exact runChmod_alike hB hF args h
  | chown => exact runChown_alike hB hF args h

end Directive

lemma Recipe.run_related (hB : Binding.Uniform B F) (hF : Directive.Changes F) (r : Recipe)
    (hs : s₁.Related B s₂) : Agree (· = ·) (Dir.Related B) (r.run s₁) (r.run s₂) := by
  rw [Recipe.run, Recipe.run]
  cases r.check.steps with
  | error e => exact .error rfl
  | ok steps =>
    refine Related.tree_left (forEach_alike_same steps ?_ (.empty hB))
    exact fun step _ _ hd => Directive.run_alike hB hF hs step.1 step.2 hd

end TarRecipe
