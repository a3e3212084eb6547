import Mathlib
import TarRecipe.Proofs.Effect
import TarRecipe.Proofs.Tree.Listing

/-! Each directive that succeeds leaves a tree whose listings are up to date. -/

namespace TarRecipe

open Outcome

inductive Entry.UpToDate : Entry → Prop
  | file {a origin} : UpToDate (.file a origin)
  | dir {a cs} : (∀ c ∈ cs, c.2.UpToDate) → UpToDate (.dir a (some (freshListing cs)) cs)

namespace Entry

variable {e x : Entry} {p : Path} {cs : List (String × Entry)}

lemma UpToDate.listed (h : e.UpToDate) : e.listed = e.fresh := by
  cases h with
  | file => simp [Entry.listed, Entry.fresh, descendants]
  | dir => rfl

lemma mergeSort_gather (h : ∀ c ∈ cs, c.2.UpToDate) : (gather cs).mergeSort = freshListing cs :=
  mergeSort_eq_of_perm (gather_perm fun c hc => (h c hc).listed)

lemma upToDate_relist (e : Entry) : e.relist.UpToDate := by
  induction e using Entry.induction_on with
  | file a origin => exact .file
  | dir a l cs ih =>
    have hcs : ∀ c ∈ relistAll cs, c.2.UpToDate := by
      rw [relistAll_eq_map]
      exact List.forall_mem_map.mpr ih
    rw [relist, mergeSort_gather hcs]
    exact .dir hcs

lemma UpToDate.of_mem_descendants (h : e.UpToDate) (hx : (p, x) ∈ e.descendants) : x.UpToDate := by
  induction e using Entry.induction_on generalizing p with
  | file a origin => simp [descendants] at hx
  | dir a l cs ih =>
    cases h with
    | dir hcs =>
      obtain ⟨name, e, q, hm, -, hq⟩ := mem_descendantsOf_iff.mp hx
      rcases hq with ⟨-, rfl⟩ | hq
      · exact hcs _ hm
      · exact ih _ hm (hcs _ hm) hq

end Entry

namespace Dir

variable {d tree : Dir}

def UpToDate (d : Dir) : Prop := d.toEntry.UpToDate

def IsIn (d tree : Dir) : Prop := d = tree ∨ ∃ p, (p, d.toEntry) ∈ tree.descendants

/-- The listing that the directory holds is what its children list, which is all that lies
below it. -/
structure HoldsListing (d : Dir) : Prop where
  listing_eq : d.listing = some (gather d.children).mergeSort
  all_below : d.listing = some (freshListing d.children)

lemma UpToDate.holdsListing (h : d.UpToDate) : d.HoldsListing := by
  obtain ⟨a, l, cs⟩ := d
  have h : Entry.UpToDate (.dir a l cs) := h
  cases h with
  | dir hcs => exact ⟨congrArg some (Entry.mergeSort_gather hcs).symm, rfl⟩

lemma UpToDate.of_isIn (h : tree.UpToDate) (hd : d.IsIn tree) : d.UpToDate := by
  rcases hd with rfl | ⟨p, hp⟩
  · exact h
  · exact Entry.UpToDate.of_mem_descendants h hp

end Dir

lemma Outcome.forEach_keeps_of_ok {γ : Type} {P : Dir → Prop} {f : γ → Dir → Outcome Unit}
    {xs : List γ} {d : Dir} (hf : ∀ x d, P d → (f x d).result = .ok () → P (f x d).tree) (h : P d)
    (hok : (forEach f xs d).result = .ok ()) :
    P (forEach f xs d).tree := by
  induction xs generalizing d with
  | nil => exact h
  | cons x xs ih =>
    have hx := hf x d h
    rw [forEach, andThen] at hok ⊢
    cases hr : (f x d).result with
    | ok _ =>
      rw [hr] at hok
      exact ih (hx hr) hok
    | error e =>
      rw [hr] at hok
      cases hok

namespace Directive

variable {source d : Dir} {f : Attrs → Attrs} {all : Bool} {patterns args : List String}
  {o : Outcome Unit}

lemma upToDate_andThen_relist (h : (o.andThen fun _ d => relist d).result = .ok ()) :
    (o.andThen fun _ d => relist d).tree.UpToDate := by
  obtain ⟨r, t⟩ := o
  cases r with
  | ok _ => exact Entry.upToDate_relist t.toEntry
  | error e => cases h

lemma runMkdir_upToDate (h : (runMkdir args d).result = .ok ()) :
    (runMkdir args d).tree.UpToDate := by
  rw [runMkdir] at h ⊢
  split_ifs at h ⊢
  exact upToDate_andThen_relist h

lemma runCopy_upToDate (hd : d.UpToDate) (h : (runCopy source args d).result = .ok ()) :
    (runCopy source args d).tree.UpToDate := by
  rw [runCopy] at h ⊢
  split at h
  · split at h
    · cases h
    · split at h
      · exact hd
      · exact upToDate_andThen_relist h
  · cases h

lemma changeMatches_upToDate (h : (changeMatches f all patterns d).result = .ok ()) :
    (changeMatches f all patterns d).tree.UpToDate := by
  rw [changeMatches] at h ⊢
  split at h
  · cases h
  · exact upToDate_andThen_relist h

lemma run_upToDate (directive : Directive) (hd : d.UpToDate)
    (h : (directive.run source args d).result = .ok ()) :
    (directive.run source args d).tree.UpToDate := by
  cases directive with
  | mkdir => exact runMkdir_upToDate h
  | copy => exact runCopy_upToDate hd h
  | chmod =>
    rw [run, runChmod] at h ⊢
    split at h
    · split at h
      · cases h
      · exact changeMatches_upToDate h
    · cases h
  | chown =>
    rw [run, runChown] at h ⊢
    split at h
    · exact changeMatches_upToDate h
    · cases h

lemma upToDate_empty : Dir.empty.UpToDate := by
  have hfresh : freshListing [] = [] := by simp [freshListing, descendantsOf]
  rw [Dir.UpToDate, Dir.empty, Dir.toEntry, ← hfresh]
  exact .dir (List.forall_mem_nil _)

lemma runAll_upToDate {steps : List (Directive × List String)} (hd : d.UpToDate)
    (h : (runAll source steps d).result = .ok ()) : (runAll source steps d).tree.UpToDate :=
  forEach_keeps_of_ok (fun step _ => run_upToDate step.1) hd h

end Directive

theorem Recipe.listings_held (r : Recipe) (source : Dir) :
    (∀ steps done, r.check.steps = .ok steps → done <+: steps →
      (Directive.runAll source done .empty).result = .ok () →
      ∀ d : Dir, d.IsIn (Directive.runAll source done .empty).tree → d.HoldsListing) ∧
    ∀ tree, r.run source = .ok tree → ∀ d : Dir, d.IsIn tree → d.HoldsListing := by
  have hall {steps : List (Directive × List String)}
      (h : (Directive.runAll source steps .empty).result = .ok ()) :
      ∀ d : Dir, d.IsIn (Directive.runAll source steps .empty).tree → d.HoldsListing :=
    fun d hd => ((Directive.runAll_upToDate Directive.upToDate_empty h).of_isIn hd).holdsListing
  refine ⟨fun steps done _ _ => hall, fun tree h => ?_⟩
  obtain ⟨steps, -, h⟩ := bind_eq_ok_iff.mp h
  change (Directive.runAll source steps .empty).result.map _ = _ at h
  cases hr : (Directive.runAll source steps .empty).result with
  | error e =>
    rw [hr] at h
    cases h
  | ok _ =>
    rw [hr] at h
    rw [← Except.ok.inj h]
    exact hall hr

/-! A directory with an old listing is copied, and then a copy matches nothing. -/

def outdated : Dir := ⟨.ofDir, some ["d"], [("d", .dir .ofDir (some ["gone"]) [])]⟩

def fetching : Recipe := [⟨"COPY", ["d", "a"]⟩, ⟨"COPY", ["*.none", "b"]⟩]

def fetched : Dir := ⟨.ofDir, some ["a"], [("a", .dir .ofDir (some []) [])]⟩

theorem Recipe.listings_held_outdated :
    fetching.check.steps = .ok [(.copy, ["d", "a"]), (.copy, ["*.none", "b"])] ∧
      (Directive.runAll outdated [(.copy, ["d", "a"])] .empty).result = .ok () ∧
      (Directive.runAll outdated [(.copy, ["d", "a"])] .empty).tree.HoldsListing ∧
      fetching.run outdated = .ok fetched ∧ fetched.HoldsListing := by
  have hsteps : fetching.check.steps = .ok [(.copy, ["d", "a"]), (.copy, ["*.none", "b"])] := by cbv
  have hfirst : (Directive.runAll outdated [(.copy, ["d", "a"])] .empty).result = .ok () := by cbv
  have hrun : fetching.run outdated = .ok fetched := by cbv
  obtain ⟨hall, hend⟩ := Recipe.listings_held fetching outdated
  refine ⟨hsteps, hfirst, ?_, hrun, hend fetched hrun fetched (.inl rfl)⟩
  exact hall _ [(.copy, ["d", "a"])] hsteps (by simp) hfirst _ (.inl rfl)

end TarRecipe
