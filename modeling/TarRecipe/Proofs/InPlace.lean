import Mathlib
import TarRecipe.Proofs.Copying

/-! Copies with one argument, which is the glob and the destination too. -/

namespace TarRecipe

open Outcome

namespace Recipe

def copying (pattern : String) : Recipe := [⟨"COPY", [pattern]⟩]

lemma run_copying (source : Dir) (pattern : String) :
    (copying pattern).run source =
      (Directive.copy.run source ([pattern] ++ [pattern]) .empty).result.map
      fun _ => (Directive.copy.run source ([pattern] ++ [pattern]) .empty).tree := by
  have hc : (copying pattern).check.steps = .ok [(.copy, [pattern] ++ [pattern])] := rfl
  have hone := forEach_singleton (fun (s : Directive × List String) => s.1.run source s.2)
    (.copy, [pattern] ++ [pattern])
    .empty
  rw [run, hc, ← hone]
  rfl

end Recipe

namespace Directive

variable {source d t : Dir} {patterns : List String} {pattern dest : String} {p q : Path}
  {b : Binding}

/-! ## Arrival -/

lemma Copied.arrives (h : Copied source patterns dest d t) (hk : Fits source patterns dest d)
    (hb : Provides source patterns dest p q b) : ∃ b', t.at? q = some b' ∧ b'.kind = b.kind := by
  cases b with
  | file a origin =>
    obtain ⟨p', a', origin', _, ht, _⟩ := h.file hb
    exact ⟨.file a' origin', ht, rfl⟩
  | dir a =>
    cases hd : d.at? q with
    | none =>
      obtain ⟨p', a', _, ht, _⟩ := h.made hb hd
      exact ⟨.dir a', ht, rfl⟩
    | some b' =>
      have hkind := hk.kinds q b' (.dir a) (.inl hd) (.inr ⟨p, hb⟩)
      cases b' with
      | file a' origin => cases hkind
      | dir a' => exact ⟨.dir a', h.kept hb hd, rfl⟩

lemma provides_destination (hp : source.Selects patterns p) (hb : source.at? p = some b)
    (dest : String) :
    Provides source patterns dest p (destination source patterns dest p) b :=
  ⟨hp, [], (List.append_nil _).symm, by rwa [List.append_nil]⟩

/-! ## Paths that are written out -/

lemma selects_plain (h : Glob.Plain pattern.toList) :
    source.Selects [pattern] p ↔ p ≠ [] ∧ source.at? p ≠ none ∧ p.render = pattern := by
  rw [Dir.Selects]
  simp only [List.mem_singleton, exists_eq_left, Glob.matches_plain h]

lemma selects_plain_unique (hs : source.WellFormed) (h : Glob.Plain pattern.toList)
    (hp : source.Selects [pattern] p) (hq : source.Selects [pattern] q) : p = q := by
  refine Path.render_injective (hp.clean hs) (hq.clean hs) ?_
  rw [((selects_plain h).mp hp).2.2, ((selects_plain h).mp hq).2.2]

lemma destination_plain (hs : source.WellFormed) (h : Glob.Plain pattern.toList)
    (hp : source.Selects [pattern] p) :
    destination source [pattern] pattern p = p := by
  have hc := hp.clean hs
  obtain ⟨hne, _, hr⟩ := (selects_plain h).mp hp
  rw [destination, if_neg, ← hr, Path.parse_render hc]
  rintro (hslash | ⟨q, q', hqq, hq, hq'⟩)
  · rw [← hr] at hslash
    exact Path.getLast?_render hc hne (by simpa [Path.endsInSlash] using hslash)
  · exact hqq (selects_plain_unique hs h hq hq')

lemma provides_plain_iff (hs : source.WellFormed) (h : Glob.Plain pattern.toList) {p' : Path} :
    Provides source [pattern] pattern p' q b ↔
      source.Selects [pattern] p' ∧ p' <+: q ∧ source.at? q = some b := by
  constructor
  · rintro ⟨hp, r, rfl, hb⟩
    rw [destination_plain hs h hp]
    exact ⟨hp, List.prefix_append p' r, hb⟩
  · rintro ⟨hp, ⟨r, rfl⟩, hb⟩
    exact ⟨hp, r, by rw [destination_plain hs h hp], hb⟩

lemma fits_plain (hs : source.WellFormed) (h : Glob.Plain pattern.toList) :
    Fits source [pattern] pattern .empty := by
  refine .of_kinds (fun p _ q hq a origin hat => ?_) fun q b b' hb hb' => ?_
  · rw [Dir.at?_empty_of_ne hq.1] at hat
    cases hat
  · have hbelow {p : Path} {b : Binding} (hb : Provides source [pattern] pattern p q b) :
        Dir.empty.at? q = none := by
      obtain ⟨hp, hpre, _⟩ := (provides_plain_iff hs h).mp hb
      exact Dir.at?_empty_of_ne fun hq => hp.1 (List.prefix_nil.mp (hq ▸ hpre))
    rcases hb with hb | ⟨p, hb⟩ <;> rcases hb' with hb' | ⟨p', hb'⟩
    · rw [Option.some_inj.mp (hb.symm.trans hb')]
    · cases hb.symm.trans (hbelow hb')
    · cases hb'.symm.trans (hbelow hb)
    · rw [Option.some_inj.mp
          (((provides_plain_iff hs h).mp hb).2.2.symm.trans ((provides_plain_iff hs h).mp hb').2.2)]

lemma Copied.in_place (hs : source.WellFormed) (h : Glob.Plain pattern.toList)
    (hc : Copied source [pattern] pattern .empty t) (hp : source.Selects [pattern] p) (r : Path) :
    t.at? (p ++ r) = source.at? (p ++ r) := by
  have hpre : p <+: p ++ r := List.prefix_append p r
  have hnew : Dir.empty.at? (p ++ r) = none :=
    Dir.at?_empty_of_ne (List.append_ne_nil_of_left_ne_nil hp.1 r)
  cases hb : source.at? (p ++ r) with
  | none =>
    rw [hc.same, hnew]
    · intro p' b hprov
      cases hb.symm.trans ((provides_plain_iff hs h).mp hprov).2.2
    · intro p' hp' habove
      rw [destination_plain hs h hp', selects_plain_unique hs h hp' hp] at habove
      exact absurd (habove.2.1.eq_of_length_le hpre.length_le) habove.2.2
  | some b =>
    have hprov := (provides_plain_iff hs h).mpr ⟨hp, hpre, hb⟩
    cases b with
    | file a origin =>
      obtain ⟨p', a', origin', hprov', ht, _⟩ := hc.file hprov
      rw [ht, ← hb, ((provides_plain_iff hs h).mp hprov').2.2]
    | dir a =>
      obtain ⟨p', a', hprov', ht, _⟩ := hc.made hprov hnew
      rw [ht, ← hb, ((provides_plain_iff hs h).mp hprov').2.2]

end Directive

namespace Recipe

open Directive

variable {source : Dir} {pattern : String}

/-- Copies with one argument bring what is selected to its destination. If the argument has no
wildcards they always succeed and the destination is the same path as in the source. -/
theorem copying_arrives (hs : source.WellFormed) (hr : Glob.Readable pattern) :
    (∀ t, (copying pattern).run source = .ok t →
      ∀ p b, source.Selects [pattern] p → source.at? p = some b →
      ∃ b', t.at? (destination source [pattern] pattern p) = some b' ∧ b'.kind = b.kind) ∧
    (Glob.Plain pattern.toList → ∃ t, (copying pattern).run source = .ok t ∧
      ∀ p, source.Selects [pattern] p → ∀ r, t.at? (p ++ r) = source.at? (p ++ r)) := by
  have hread : ∀ p ∈ [pattern], Glob.Readable p := List.forall_mem_singleton.mpr hr
  have hok := copy_ok_iff hs (List.cons_ne_nil _ _) hread pattern .empty
  have hcopied := copy_copied hs (List.cons_ne_nil _ _) hread pattern .empty
  rw [run_copying]
  generalize copy.run source ([pattern] ++ [pattern]) .empty = o at hok hcopied
  constructor
  · intro t ht p b hp hb
    obtain ⟨r, t'⟩ := o
    cases r with
    | error e => cases ht
    | ok _ =>
      cases ht
      have hfits := (hok.mp rfl).resolve_left fun hnone => hnone p hp
      exact (hcopied rfl).arrives hfits (provides_destination hp hb pattern)
  · intro h
    have hres := hok.mpr (.inr (fits_plain hs h))
    refine ⟨o.tree, by rw [hres]; rfl, fun p hp r => ?_⟩
    exact (hcopied hres).in_place hs h hp r

/-! A directory with what lies below it. -/

def nested : Dir := ⟨.ofDir, none, [("d", .dir .ofDir none
  [("e", .dir .ofDir none [("f", .file .ofFile [1])]), ("g", .file .ofFile [2])])]⟩

lemma nested_wellFormed : nested.WellFormed := by
  have he : Entry.WellFormed (.dir .ofDir none [("f", .file .ofFile [1])]) :=
    .dir (by simp [Children.Ascending]) (by decide) (by simp) (by simp [Entry.WellFormed.file])
  have hd : Entry.WellFormed (.dir .ofDir none
      [("e", .dir .ofDir none [("f", .file .ofFile [1])]), ("g", .file .ofFile [2])]) :=
    .dir (by decide) (by decide) (by simp) (by simp [he, Entry.WellFormed.file])
  exact .dir (by simp [nested, Children.Ascending]) (by decide) (by simp [nested])
    (by simp [nested, hd])

theorem copying_arrives_nested :
    ∃ t, (copying "d").run nested = .ok t ∧ (∃ b, t.at? ["d"] = some b ∧ b.kind = .directory) ∧
      t.at? ["d", "e", "f"] = some (.file .ofFile [1]) ∧
      t.at? ["d", "g"] = some (.file .ofFile [2]) := by
  have hplain : Glob.Plain "d".toList := by simp [Glob.Plain]
  obtain ⟨harrives, hsame⟩ := copying_arrives nested_wellFormed ⟨_, Glob.compile_plain hplain⟩
  obtain ⟨t, ht, hat⟩ := hsame hplain
  have hsel : nested.Selects ["d"] ["d"] := (selects_plain hplain).mpr (by decide)
  refine ⟨t, ht, ?_, hat ["d"] hsel ["e", "f"], hat ["d"] hsel ["g"]⟩
  have hdest : destination nested ["d"] "d" ["d"] = ["d"] :=
    destination_plain nested_wellFormed hplain hsel
  exact hdest ▸ harrives t ht ["d"] _ hsel rfl

/-! One file that a star matches, which goes to a path with a star. -/

def single : Dir := ⟨.ofDir, none, [("ab", .file .ofFile [1])]⟩

lemma single_wellFormed : single.WellFormed := by
  have hname : Path.IsName "ab" := by decide
  exact .dir (by simp [single, Children.Ascending]) (by simp [single, hname]) (by simp [single])
    (by simp [single, Entry.WellFormed.file])

theorem not_copied_in_place : ¬ ∀ (source : Dir) (pattern : String) (t : Dir), source.WellFormed →
    (copying pattern).run source = .ok t →
      ∀ p b, source.Selects [pattern] p → source.at? p = some b →
      ∃ b', t.at? p = some b' ∧ b'.kind = b.kind := by
  intro h
  have hglob : Glob.compile "a*" = .ok ⟨[.literal 'a', .star]⟩ := by cbv
  have hsel : single.Selects ["a*"] ["ab"] := by
    exact ⟨by decide, by decide, "a*", List.mem_cons_self, (Glob.matches_iff hglob).mpr (by cbv)⟩
  have hrun : ((copying "a*").run single).map (fun t => t.at? ["ab"]) = .ok none := by cbv
  cases ht : (copying "a*").run single with
  | error e =>
    rw [ht] at hrun
    cases hrun
  | ok t =>
    rw [ht] at hrun
    obtain ⟨b, hb, _⟩ := h single "a*" t single_wellFormed ht ["ab"] _ hsel rfl
    cases hb.symm.trans (Except.ok.inj hrun)

end Recipe

end TarRecipe
