import Mathlib
import TarRecipe.Execute
import TarRecipe.Proofs.Agreement
import TarRecipe.Proofs.Glob
import TarRecipe.Proofs.Tree.Coherence
import TarRecipe.Proofs.Tree.Within

/-! What globs select from a tree, each entry once and in the order of its listing. -/

namespace TarRecipe

namespace Glob

def Readable (pattern : String) : Prop := ∃ glob, compile pattern = .ok glob

def Matches (pattern : String) (p : Path) : Prop :=
  ∃ glob, compile pattern = .ok glob ∧ glob.isMatch p.render = true

variable {patterns : List String} {globs : List Glob}

lemma matches_iff {pattern : String} {glob : Glob} (h : compile pattern = .ok glob) {p : Path} :
    Matches pattern p ↔ glob.isMatch p.render = true := by
  constructor
  · rintro ⟨glob', h', hm⟩
    cases h.symm.trans h'
    exact hm
  · exact fun hm => ⟨glob, h, hm⟩

lemma matches_plain {pattern : String} (h : Plain pattern.toList) {p : Path} :
    Matches pattern p ↔ p.render = pattern := by
  rw [matches_iff (compile_plain h), isMatch_iff, mem_language_literals, String.toList_inj]

lemma compileAll_eq_ok_iff :
    compileAll patterns = .ok globs ↔
      List.Forall₂ (fun pattern glob => compile pattern = .ok glob) patterns globs := by
  rw [compileAll, mapM_eq_ok_iff]
  simp only [compileOne, mapError_eq_ok_iff]

lemma exists_compileAll (h : ∀ pattern ∈ patterns, Readable pattern) :
    ∃ globs, compileAll patterns = .ok globs := by
  simp only [compileAll_eq_ok_iff]
  induction patterns with
  | nil => exact ⟨[], .nil⟩
  | cons pattern patterns ih =>
    rw [List.forall_mem_cons] at h
    obtain ⟨⟨glob, hg⟩, hr⟩ := h
    obtain ⟨globs, hgs⟩ := ih hr
    exact ⟨glob :: globs, .cons hg hgs⟩

lemma readable_of_compileAll (h : compileAll patterns = .ok globs) :
    ∀ pattern ∈ patterns, Readable pattern := by
  rw [compileAll_eq_ok_iff] at h
  induction h with
  | nil => exact List.forall_mem_nil _
  | cons hg _ ih => exact List.forall_mem_cons.mpr ⟨⟨_, hg⟩, ih⟩

lemma any_isMatch_iff (h : compileAll patterns = .ok globs) (p : Path) :
    globs.any (·.isMatch p.render) = true ↔ ∃ pattern ∈ patterns, Matches pattern p := by
  rw [compileAll_eq_ok_iff] at h
  induction h with
  | nil => simp
  | cons hg _ ih =>
    rw [List.any_cons, Bool.or_eq_true, ih, List.exists_mem_cons_iff, matches_iff hg]

end Glob

namespace Dir

def Selects (d : Dir) (patterns : List String) (p : Path) : Prop :=
  p ≠ [] ∧ d.at? p ≠ none ∧ ∃ pattern ∈ patterns, Glob.Matches pattern p

variable {d : Dir} {patterns : List String} {globs : List Glob} {p : Path}

lemma Selects.clean (h : d.WellFormed) (hs : d.Selects patterns p) : p.Clean := by
  obtain ⟨x, hx⟩ := Option.ne_none_iff_exists'.mp (at?_eq_none_iff.not.mp hs.2.1)
  exact Entry.WellFormed.clean_of_find? h hx

lemma mem_select_listed_iff (h : d.WellFormed) (hg : Glob.compileAll patterns = .ok globs)
    {text : String} :
    text ∈ Glob.select globs d.listed ↔ ∃ p, d.Selects patterns p ∧ p.render = text := by
  rw [Glob.select, List.mem_filter, Dir.listed, Entry.WellFormed.mem_listed_iff h]
  constructor
  · rintro ⟨⟨p, x, hp, hx, rfl⟩, hm⟩
    have hb : d.at? p ≠ none := by simp [at?_of_find? (d := d) hx]
    exact ⟨p, ⟨hp, hb, (Glob.any_isMatch_iff hg p).mp hm⟩, rfl⟩
  · rintro ⟨p, ⟨hp, hb, hm⟩, rfl⟩
    obtain ⟨x, hx⟩ := Option.ne_none_iff_exists'.mp (at?_eq_none_iff.not.mp hb)
    exact ⟨⟨p, x, hp, hx, rfl⟩, (Glob.any_isMatch_iff hg p).mpr hm⟩

lemma exists_select_listed (h : d.WellFormed) (hg : Glob.compileAll patterns = .ok globs) :
    ∃ ps : List Path, Glob.select globs d.listed = ps.map Path.render ∧
      (∀ p, p ∈ ps ↔ d.Selects patterns p) ∧
      ps.Pairwise fun p q => p.render < q.render := by
  have hparse : ∀ text ∈ Glob.select globs d.listed, (Path.parse text).render = text := by
    intro text ht
    obtain ⟨p, hp, rfl⟩ := (mem_select_listed_iff h hg).mp ht
    rw [Path.parse_render (hp.clean h)]
  have hmap : ((Glob.select globs d.listed).map Path.parse).map Path.render =
      Glob.select globs d.listed := by
    rw [List.map_map]
    exact (List.map_congr_left hparse).trans (List.map_id _)
  refine ⟨(Glob.select globs d.listed).map Path.parse, hmap.symm, fun p => ?_, ?_⟩
  · rw [List.mem_map]
    constructor
    · rintro ⟨text, ht, rfl⟩
      obtain ⟨p, hp, rfl⟩ := (mem_select_listed_iff h hg).mp ht
      rwa [Path.parse_render (hp.clean h)]
    · intro hp
      exact ⟨p.render, (mem_select_listed_iff h hg).mpr ⟨p, hp, rfl⟩,
        Path.parse_render (hp.clean h)⟩
  · rw [← List.pairwise_map, hmap]
    exact (Entry.WellFormed.listed_pairwise h).filter _

end Dir

end TarRecipe
