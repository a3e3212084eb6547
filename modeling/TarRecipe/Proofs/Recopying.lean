import Mathlib
import TarRecipe.Proofs.Copying
import TarRecipe.Proofs.Effect

/-! Copies that are made again go through and change nothing. -/

namespace TarRecipe

open Outcome

section

variable {x : Option Binding} {ys : List (Option Binding)}

-- The last file stays the last one, and the directory that was there first stays the first one.
lemma foldl_joint_foldl_joint (h : (x :: ys).Pairwise SameKind) :
    ys.foldl joint (ys.foldl joint x) = ys.foldl joint x := by
  induction ys using List.reverseRecOn with
  | nil => rfl
  | append_singleton ys y ih =>
    have hinit : (x :: ys).Pairwise SameKind := h.sublist (by simp)
    have hy : ∀ z ∈ ys, SameKind y z := by
      intro z hz
      exact ((List.pairwise_append.mp (List.pairwise_cons.mp h).2).2.2 z hz y
        (List.mem_singleton_self y)).symm
    simp only [List.foldl_append, List.foldl_cons, List.foldl_nil]
    rcases y with _ | ⟨a, origin⟩ | a
    · simpa using ih hinit
    · simp [joint]
    · have hx : SameKind (ys.foldl joint x) (some (.dir a)) :=
        List.pairwise_pair.mp ((pairwise_foldl_joint hinit).mpr h)
      rcases hf : ys.foldl joint x with _ | ⟨a', origin⟩ | a'
      · rw [none_joint, foldl_joint_dir hy]
        rfl
      · rw [hf] at hx
        cases some_sameKind_some.mp hx
      · have hj : joint (some (.dir a')) (some (.dir a)) = some (.dir a') := rfl
        rw [hj, ← hf, ih hinit, hf, hj]

end

namespace Dir

variable {d : Dir} {above : Path} {offers : Path → List (Option Binding)} {o o' : Outcome Unit}

lemma Lays.again (h : d.Lays above offers o) (hr : o.result = .ok ())
    (h' : o.tree.Lays above offers o') :
    o'.result = .ok () ∧ ∀ q, o'.tree.at? q = o.tree.at? q := by
  obtain ⟨hf, hfill⟩ := h.reached hr
  obtain ⟨-, hk⟩ := h.ok_iff.mp hr
  have hok : o'.result = .ok () := by
    refine h'.ok_iff.mpr ⟨hf, fun q => ?_⟩
    have hq := hk q
    rw [hfill, h.bound hr, pairwise_foldl_joint hq]
    rw [Directive.pairwise_sameKind_iff] at hq ⊢
    simpa [or_assoc] using hq
  refine ⟨hok, fun q => ?_⟩
  rw [h'.bound hok, hfill, h.bound hr, foldl_joint_foldl_joint (hk q)]

end Dir

namespace Directive

variable {source d : Dir} {patterns args : List String} {ps qs : List Path}

lemma Enumerates.unique (h : Enumerates source patterns ps) (h' : Enumerates source patterns qs) :
    ps = qs := by
  have hn {ps : List Path} (h : Enumerates source patterns ps) : ps.Nodup :=
    h.ascending.imp fun {p q} hlt (he : p = q) => lt_irrefl q.render (he ▸ hlt)
  have hp : ps.Perm qs := by
    apply (List.perm_ext_iff_of_nodup (hn h) (hn h')).mpr
    exact fun p => (h.mem_iff p).trans (h'.mem_iff p).symm
  exact hp.eq_of_pairwise
    (fun _ _ _ _ hlt hgt => absurd hgt (lt_asymm hlt)) h.ascending h'.ascending

lemma exists_of_copy_ok (h : (copy.run source args d).result = .ok ()) :
    ∃ patterns dest, args = patterns ++ [dest] ∧ patterns ≠ [] ∧ ∀ pattern ∈ patterns,
      Glob.Readable pattern := by
  rw [run, runCopy] at h
  split at h
  · rename_i pattern patterns dest hinit hlast
    refine ⟨pattern :: patterns, dest, ?_, List.cons_ne_nil _ _, ?_⟩
    · rw [← hinit]
      exact (List.dropLast_append_getLast? dest hlast).symm
    · cases hg : Glob.compileAll (pattern :: patterns) with
      | error e =>
        rw [hg] at h
        cases h
      | ok globs => exact Glob.readable_of_compileAll hg
  · cases h

lemma copy_relisted (h : (copy.run source args d).result = .ok ()) :
    copy.run source args d = ⟨.ok (), d⟩ ∨
      (copy.run source args d).tree.relist = (copy.run source args d).tree := by
  have hlast (o : Outcome Unit) (h : (o.andThen fun _ t => relist t).result = .ok ()) :
      (o.andThen fun _ t => relist t).tree.relist = (o.andThen fun _ t => relist t).tree := by
    obtain ⟨r, t⟩ := o
    cases r with
    | error e => cases h
    | ok _ => exact Dir.relist_relist t
  rw [run] at h ⊢
  unfold runCopy at h ⊢
  repeat' split at h
  · cases h
  · exact .inl rfl
  · exact .inr (hlast _ h)
  · cases h

lemma copy_again_bound (hs : source.WellFormed) (h : (copy.run source args d).result = .ok ()) :
    (copy.run source args (copy.run source args d).tree).result = .ok () ∧ ∀ q,
      (copy.run source args (copy.run source args d).tree).tree.at? q =
        (copy.run source args d).tree.at? q := by
  obtain ⟨patterns, dest, rfl, hne, hr⟩ := exists_of_copy_ok h
  rcases copy_lays hs hne hr dest d with ⟨-, hrun⟩ | ⟨ps, -, hps, hl⟩
  · simp [hrun]
  rcases copy_lays hs hne hr dest (copy.run source (patterns ++ [dest]) d).tree with
    ⟨-, hrun⟩ | ⟨qs, -, hqs, hl'⟩
  · simp [hrun]
  rw [hqs.unique hps] at hl'
  exact hl.again h hl'

theorem copy_idempotent (hs : source.WellFormed) (hd : d.WellFormed)
    (h : (copy.run source args d).result = .ok ()) :
    copy.run source args (copy.run source args d).tree =
      ⟨.ok (), (copy.run source args d).tree⟩ := by
  have hw {t : Dir} (ht : t.WellFormed) := run_wellFormed hs ht copy args
  rcases copy_relisted h with hrun | hlisted
  · simp [hrun]
  obtain ⟨hok, hat⟩ := copy_again_bound hs h
  rcases copy_relisted hok with hrun | hlisted'
  · exact hrun
  exact congrArg₂ Outcome.mk hok (Dir.eq_of_relist (hw (hw hd)) (hw hd) hlisted' hlisted hat)

/-! The directories and the files of two sources have gone over one another. -/

theorem copy_idempotent_twins :
    (copy.run twins ["d", "?/d", "/"] .empty).result = .ok () ∧
      copy.run twins ["d", "?/d", "/"] (copy.run twins ["d", "?/d", "/"] .empty).tree =
        ⟨.ok (), (copy.run twins ["d", "?/d", "/"] .empty).tree⟩ := by
  have hok : (copy.run twins ["d", "?/d", "/"] .empty).result = .ok () := by cbv
  exact ⟨hok, copy_idempotent twins_wellFormed .empty hok⟩

end Directive

end TarRecipe
