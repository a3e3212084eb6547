import Mathlib
import TarRecipe.Proofs.Build.Reproducible

/-! Where the files of an assembled tree come from: nowhere but the files that pruning has left. -/

namespace TarRecipe

variable {source pruned d : Dir} {origins : Origins} {recipe : Recipe} {name : String}

def Dir.HasOrigin (d : Dir) (origin : Bytes) : Prop := ∃ p a, d.at? p = some (.file a origin)

def Dir.OriginsDistinct (d : Dir) : Prop :=
  ∀ p q a b origin, d.at? p = some (.file a origin) → d.at? q = some (.file b origin) → p = q

lemma Dir.WellFormed.related_self (h : d.WellFormed) :
    d.Related (Binding.Alike fun x y => x = y ∧ d.HasOrigin x) d := by
  refine (related_eq_iff.mpr h).mono fun p b₁ b₂ h₁ _ hb => ?_
  subst hb
  cases b₁ with
  | file a origin => exact .file ⟨rfl, p, a, h₁⟩
  | dir a => exact .dir

lemma Recipe.wellFormed_of_run (hw : source.WellFormed) (hr : recipe.run source = .ok d) :
    d.WellFormed := by
  have ha :=
    recipe.run_related Binding.uniform_eq Directive.changes_true (Dir.related_eq_iff.mpr hw)
  rw [hr] at ha
  cases ha with
  | ok hd => exact hd.left

lemma Recipe.hasOrigin_of_run (hw : source.WellFormed) (hr : recipe.run source = .ok d)
    {origin : Bytes} (ho : d.HasOrigin origin) : source.HasOrigin origin := by
  have ha := recipe.run_related (Binding.uniform_alike _) Directive.changes_true hw.related_self
  rw [hr] at ha
  obtain ⟨p, a, hp⟩ := ho
  cases ha with
  | ok hd =>
    have hb : Option.Rel _ (d.at? p) (d.at? p) := hd.at? p
    rw [hp] at hb
    cases hb with
    | some hb =>
      cases hb with
      | file hs => exact hs.2

lemma Archive.ofTree_congr (hw : d.WellFormed) {origins' : Origins}
    (h : ∀ origin, d.HasOrigin origin → origins origin = origins' origin) :
    ofTree origins d = ofTree origins' d := by
  refine (ofTree_agree hw.related_self ?_).eq
  rintro x _ ⟨rfl, hx⟩
  rw [Origins.read, Origins.read, h x hx]
  exact .same _

/-- If pruning and the run succeed, all origins of the assembled tree are origins that pruning
has left. What pruning took away comes from nowhere in it, and its bytes do not matter to the
archive. -/
theorem Build.origins_of_pruned (hw : source.WellFormed) (hd : source.OriginsDistinct)
    (hp : source.applyIgnore origins name = ⟨.ok (), pruned⟩) (hr : recipe.run pruned = .ok d) :
    (∀ origin, d.HasOrigin origin → pruned.HasOrigin origin) ∧
    ∀ p a origin, source.at? p = some (.file a origin) → pruned.at? p = none →
      ¬ d.HasOrigin origin ∧
      ∀ contents : Except Disk.Fault Bytes,
        Archive.ofTree (Function.update origins origin contents) d = Archive.ofTree origins d := by
  have hpw := Dir.applyIgnore_wellFormed hw origins name
  have hpart := Dir.applyIgnore_partOf origins name source
  rw [hp] at hpw hpart
  have ho (origin : Bytes) : d.HasOrigin origin → pruned.HasOrigin origin :=
    Recipe.hasOrigin_of_run hpw hr
  refine ⟨ho, fun p a origin hs hn => ?_⟩
  have hno : ¬ d.HasOrigin origin := by
    intro h
    obtain ⟨q, b, hq⟩ := ho origin h
    have hpq := hd p q a b origin hs (hpart.at? hq)
    rw [← hpq, hn] at hq
    cases hq
  refine ⟨hno, fun contents => Archive.ofTree_congr (Recipe.wellFormed_of_run hpw hr)
    fun x hx => ?_⟩
  have hne : x ≠ origin := fun he => hno (he ▸ hx)
  exact Function.update_of_ne hne contents origins

/-! A file that is kept and one that is ignored. -/

namespace Build

def scanned : Dir := ⟨.ofDir, some [".tarignore", "a", "b"],
  [(".tarignore", .file .ofFile [1]), ("a", .file .ofFile [2]), ("b", .file .ofFile [3])]⟩

def places : Origins := fun origin => if origin = [1] then .ok (textBytes "/b\n") else .ok origin

def kept : Dir := ⟨.ofDir, some [".tarignore", "a"],
  [(".tarignore", .file .ofFile [1]), ("a", .file .ofFile [2])]⟩

def output : Dir := ⟨.ofDir, some ["c", "c/a"],
  [("c", .dir .ofDir (some ["a"]) [("a", .file .ofFile [2])])]⟩

lemma scanned_wellFormed : scanned.WellFormed := by
  refine .dir (by decide) (by decide) (fun ps hps => ?_) (fun c hc => ?_)
  · rw [← Option.some_inj.mp hps]
    cbv
  · simp only [scanned, List.mem_cons, List.not_mem_nil, or_false] at hc
    rcases hc with rfl | rfl | rfl <;> exact .file

lemma scanned_originsDistinct : scanned.OriginsDistinct := by
  intro p q a b origin hp hq
  rw [scanned_wellFormed.at?_file_iff] at hp hq
  simp only [Dir.descendants, scanned, descendantsOf, Entry.descendants, List.map_nil,
    List.cons_append, List.nil_append, List.mem_cons, List.not_mem_nil, Prod.mk.injEq,
    Entry.file.injEq, or_false] at hp hq
  rcases hp with ⟨rfl, _, rfl⟩ | ⟨rfl, _, rfl⟩ | ⟨rfl, _, rfl⟩ <;> simp_all

lemma applyIgnore_scanned : scanned.applyIgnore places ".tarignore" = ⟨.ok (), kept⟩ := by
  have hr : scanned.ownRules places ".tarignore" = .ok (some [⟨[.literal 'b'], false, false⟩]) := by
    cbv
  have hs : scanned.swept [⟨[.literal 'b'], false, false⟩] = ⟨.ok (), kept.touch⟩ := rfl
  have hk : kept.touch.relist = kept := by cbv
  change (scanned.prune places ".tarignore").andThen _ = _
  rw [Dir.prune_eq _ _ scanned_wellFormed, hr]
  dsimp only
  rw [hs]
  change (⟨.ok (), kept.touch.relist⟩ : Outcome Unit) = _
  rw [hk]

theorem origins_of_pruned_scanned :
    ¬ output.HasOrigin [3] ∧ ∀ contents : Except Disk.Fault Bytes,
      Archive.ofTree (Function.update places [3] contents) output =
        Archive.ofTree places output := by
  have hr : Recipe.run [⟨"COPY", ["a", "c/"]⟩] kept = .ok output := by cbv
  have h := origins_of_pruned scanned_wellFormed scanned_originsDistinct applyIgnore_scanned hr
  exact h.2 ["b"] .ofFile [3] (by decide) (by decide)

end Build

end TarRecipe
