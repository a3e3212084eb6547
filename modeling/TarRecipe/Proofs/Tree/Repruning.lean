import Mathlib
import TarRecipe.Proofs.Tree.Survivors

/-! Pruning again changes nothing, even if ignore files have been pruned themselves. -/

namespace TarRecipe.Dir

def Opens (name : String) (d : Dir) (p : Path) : Prop :=
  ∀ q, q <+: p → ∃ a origin, d.at? (q ++ [name]) = some (.file a origin)

/-- Where ignore files lead to there are rules, and they ignore nothing. -/
def Pruned (origins : Origins) (name : String) (d : Dir) : Prop :=
  ∀ p, d.Opens name p → ∃ rules, d.HasRules origins name p rules ∧ ∀ s, s ≠ [] →
    ¬ d.Ignores origins name p s

variable {origins : Origins} {name n : String} {d t x : Dir} {p : Path} {rules : Ignore.Rules}
  {prune : Dir → Outcome Unit}

/-! ## Rules of a directory -/

lemma ownRules_of_no_file (h : ∀ a origin, d.at? [name] ≠ some (.file a origin)) :
    d.ownRules origins name = .ok none := by
  rw [ownRules]
  split
  · rename_i a origin hc
    exact absurd (by rw [at?_name, hc]; rfl) (h a origin)
  · rfl

lemma ownRules_of_hasRules (h : d.HasRules origins name [] rules) :
    d.ownRules origins name = .ok (some rules) := by
  obtain ⟨a, origin, data, hat, hread, hof⟩ := h
  rw [List.nil_append, at?_name] at hat
  obtain ⟨e, he, hb⟩ := Option.map_eq_some_iff.mp hat
  cases e with
  | dir _ _ _ => cases hb
  | file _ _ =>
    cases hb
    rw [ownRules, he]
    dsimp only
    rw [Origins.read, hread]
    simp only [Except.mapError, bind, Except.bind, hof]
    rfl

/-! ## Trees with nothing to prune -/

lemma Pruned.congr (h : d.Pruned origins name) (hat : ∀ q, t.at? q = d.at? q) :
    t.Pruned origins name := by
  simpa only [Pruned, Opens, HasRules, Ignores, hat] using h

lemma Pruned.child (h : d.Pruned origins name)
    (hown : ∃ a origin, d.at? [name] = some (.file a origin))
    (hx : d.child n = some x.toEntry) : x.Pruned origins name := by
  have hat (q : Path) : d.at? (n :: q) = x.at? q := by
    rw [at?_cons, hx]
    rfl
  intro p hp
  have hopens : d.Opens name (n :: p) := by
    rintro (_ | ⟨m, q⟩) hq
    · exact hown
    · obtain ⟨rfl, hqp⟩ := List.cons_prefix_cons.mp hq
      rw [List.cons_append, hat]
      exact hp q hqp
  simpa only [HasRules, Ignores, List.cons_append, hat] using h (n :: p) hopens

lemma pruneEach_of_forall {cs : List (String × Entry)}
    (h : ∀ n a l below, (n, Entry.dir a l below) ∈ cs → (prune ⟨a, l, below⟩).result = .ok ()) :
    (pruneEach prune cs).1 = .ok () := by
  induction cs with
  | nil => rfl
  | cons c cs ih =>
    obtain ⟨n, e⟩ := c
    have ih := ih fun n a l below hm => h n a l below (List.mem_cons_of_mem _ hm)
    cases e with
    | file a origin => exact ih
    | dir a l below =>
      rw [pruneEach, h n a l below List.mem_cons_self]
      exact ih

lemma pruneBelow_of_forall (hd : d.WellFormed) (h : ∀ n x, d.child n = some (Dir.toEntry x) →
      (prune x).result = .ok () ∧ ∀ q, (prune x).tree.at? q = x.at? q) :
    (pruneBelow prune d).result = .ok () ∧ ∀ q, (pruneBelow prune d).tree.at? q = d.at? q := by
  have hok : (pruneBelow prune d).result = .ok () := by
    apply pruneEach_of_forall
    intro n a l below hm
    exact (h n ⟨a, l, below⟩ (hd.ascending.mem_iff_lookup.mp hm)).1
  refine ⟨hok, fun q => ?_⟩
  cases q with
  | nil => rfl
  | cons n q =>
    by_cases hn : ∃ x : Dir, d.child n = some x.toEntry
    · obtain ⟨x, hx⟩ := hn
      rw [at?_pruneBelow_of_dir hok hx, (h n x hx).2, at?_cons, hx]
      rfl
    · exact at?_pruneBelow_of_other hok (not_exists.mp hn) q

lemma at?_swept_of_ignores_nothing (hd : d.WellFormed) (hr : d.HasRules origins name [] rules)
    (hi : ∀ s, s ≠ [] → ¬ d.Ignores origins name [] s) (q : Path) :
    (d.swept rules).tree.at? q = d.at? q := by
  have hno (s : Path) : ¬ Dropped rules d s := by
    rintro ⟨hs, b, hb, hig⟩
    exact hi s hs ⟨rules, b, hr, hb, hig⟩
  apply Option.ext
  intro b
  simp [(swept_without hd rules).2 q b, hno]

lemma prune_of_pruned (hd : d.WellFormed) (h : d.Pruned origins name) :
    (d.prune origins name).result = .ok () ∧ ∀ q, (d.prune origins name).tree.at? q = d.at? q := by
  induction hk : d.toEntry.height using Nat.strong_induction_on generalizing d with
  | _ k ih =>
    subst hk
    rw [prune_eq origins name hd]
    by_cases hown : ∃ a origin, d.at? [name] = some (.file a origin)
    · obtain ⟨rules, hr, hi⟩ := h [] (by simpa [Opens] using hown)
      have hw := swept_wellFormed hd rules
      have hat := at?_swept_of_ignores_nothing hd hr hi
      have hbelow : (pruneBelow (Dir.prune origins name) (d.swept rules).tree).result = .ok () ∧
          ∀ q, (pruneBelow (Dir.prune origins name) (d.swept rules).tree).tree.at? q =
            (d.swept rules).tree.at? q := by
        apply pruneBelow_of_forall hw
        intro n x hx
        have hm := hw.mem_of_child hx
        refine ih _ ?_ (hw.below _ hm) ?_ rfl
        · exact (height_lt_of_mem hm).trans_le ((swept_partOf rules d).height_le hd hw)
        · exact (h.congr hat).child (by simpa only [hat] using hown) hx
      rw [ownRules_of_hasRules hr]
      dsimp only
      rw [Outcome.andThen, (swept_without hd rules).1]
      exact ⟨hbelow.1, fun q => (hbelow.2 q).trans (hat q)⟩
    · rw [ownRules_of_no_file (by simpa using hown)]
      exact ⟨rfl, fun _ => rfl⟩

/-! ## Trees that have been pruned -/

-- The ignore files that are left were there, and their directories were active.
lemma Settles.pruned (h : d.Settles origins name [] t) : t.Pruned origins name := by
  obtain ⟨hat, hrules⟩ := h
  simp only [List.nil_append] at hat
  intro p hp
  have ha : d.Active origins name p := by
    rw [active_iff_forall]
    intro q hq
    obtain ⟨a, origin, ho⟩ := hp q hq
    obtain ⟨ho, hs⟩ := (hat _ _).mp ho
    exact ⟨⟨a, origin, ho⟩, hs.spared q⟩
  obtain ⟨rules, hr⟩ := hrules p List.nil_prefix ha
  refine ⟨rules, ?_, ?_⟩
  · obtain ⟨a, origin, ho⟩ := hp p List.prefix_rfl
    obtain ⟨a', origin', data, ho', h⟩ := hr
    cases ((hat _ _).mp ho).1.symm.trans ho'
    exact ⟨a, origin, data, ho, h⟩
  · rintro s hs ⟨rules, b, ⟨a, origin, data, ho, hown⟩, hb, hi⟩
    obtain ⟨hb, hsurvives⟩ := (hat _ _).mp hb
    have hr : d.HasRules origins name p rules := ⟨a, origin, data, ((hat _ _).mp ho).1, hown⟩
    have hne : p ≠ p ++ s := fun he => hs (List.self_eq_append_right.mp he)
    exact hsurvives p (List.prefix_append p s) hne ha s hs List.prefix_rfl ⟨rules, b, hr, hb, hi⟩

lemma prune_ok_of_applyIgnore (h : (d.applyIgnore origins name).result = .ok ()) :
    (d.prune origins name).result = .ok () := by
  change ((d.prune origins name).andThen fun _ d => ⟨.ok (), d.relist⟩).result = _ at h
  rw [Outcome.andThen] at h
  split at h
  · assumption
  · cases h

lemma applyIgnore_of_prune_ok (h : (d.prune origins name).result = .ok ()) :
    d.applyIgnore origins name = ⟨.ok (), (d.prune origins name).tree.relist⟩ := by
  change ((d.prune origins name).andThen fun _ d => ⟨.ok (), d.relist⟩) = _
  rw [Outcome.andThen, h]

theorem applyIgnore_idempotent (h : d.WellFormed)
    (hok : (d.applyIgnore origins name).result = .ok ()) :
    (d.applyIgnore origins name).tree.applyIgnore origins name =
      ⟨.ok (), (d.applyIgnore origins name).tree⟩ := by
  have hprune := prune_ok_of_applyIgnore hok
  have hw := applyIgnore_wellFormed h origins name
  rw [applyIgnore_of_prune_ok hprune] at hw ⊢
  dsimp only at hw ⊢
  have hp := (prune_settles (left_nil d) h hprune).pruned.congr (at?_relist _)
  obtain ⟨hprune', hat⟩ := prune_of_pruned hw hp
  have hw' := applyIgnore_wellFormed hw origins name
  rw [applyIgnore_of_prune_ok hprune'] at hw' ⊢
  congr 1
  apply eq_of_relist hw' hw (relist_relist _) (relist_relist _)
  exact fun q => (at?_relist _ q).trans (hat q)

/-! The rules at the root have taken away their own file, so that the second walk ends there. -/

theorem applyIgnore_idempotent_shielding :
    (shielding.applyIgnore ignoreFiles ".i").result = .ok () ∧
      (shielding.applyIgnore ignoreFiles ".i").tree.applyIgnore ignoreFiles ".i" =
        ⟨.ok (), (shielding.applyIgnore ignoreFiles ".i").tree⟩ :=
  ⟨applyIgnore_shielding, applyIgnore_idempotent shielding_wellFormed applyIgnore_shielding⟩

end TarRecipe.Dir
