import Mathlib.Data.List.Basic
import Mathlib.Data.List.DropRight
import Mathlib.Data.List.Induction
import Mathlib.Data.List.TakeWhile
import Mathlib.Tactic.Common
import TarRecipe.Disk.Output
import TarRecipe.Proofs.Disk.Lookup
import TarRecipe.Proofs.Path
import TarRecipe.Proofs.Text.Ascii
import TarRecipe.Proofs.Text.Decoding

/-! Paths on disk taken apart, and the temporary file beside the file at the end. -/

namespace TarRecipe.Disk

open Pathname (slash dot)

variable {p q : Pathname} {name : Bytes} {ns ss : List Bytes} {tag : String}

/-! ## Segments -/

lemma segments_append_slash (p q : Pathname) :
    Pathname.segments (p ++ slash :: q) = p.segments ++ q.segments :=
  List.splitOn_append_cons_self ..

lemma segments_of_not_mem (h : slash ∉ name) : Pathname.segments name = [name] :=
  List.splitOn_eq_singleton h

lemma slash_not_mem_of_mem_segments (h : name ∈ p.segments) : slash ∉ name :=
  not_mem_of_mem_splitOn h

lemma exists_last_segment (p : Pathname) :
    slash ∉ p ∧ p.segments = [p] ∨ ∃ a b : Pathname, p = a ++ slash :: b ∧ slash ∉ b ∧
      p.segments = a.segments ++ [b] := by
  by_cases h : slash ∈ p
  · obtain ⟨a, b, hab, ha⟩ := List.eq_append_cons_of_mem (List.mem_reverse.mpr h)
    have hp : p = b.reverse ++ slash :: a.reverse := by
      rw [← List.reverse_reverse p, hab, List.reverse_append, List.reverse_cons, List.append_assoc]
      rfl
    have hno : slash ∉ a.reverse := by simpa using ha
    exact .inr ⟨b.reverse, a.reverse, hp, hno,
      by rw [hp, segments_append_slash, segments_of_not_mem hno]⟩
  · exact .inl ⟨h, segments_of_not_mem h⟩

lemma endsInSlash_append_slash (p : Pathname) : Pathname.endsInSlash (p ++ [slash]) = true := by
  rw [Pathname.endsInSlash, List.getLast?_concat]
  rfl

lemma exists_segments_of_name (hn : endsInNoName p = false) (hs : p.endsInSlash = false) :
    ∃ ss name, p.segments = ss ++ [name] ∧ IsEntryName name := by
  have hname {u : List Bytes} {name : Bytes}
      (h : p.segments = u ++ [name]) (hne : name ≠ []) (hslash : slash ∉ name) :
      IsEntryName name := by
    have hl : (p.segments.filter (· ≠ [])).getLast? = some name := by
      have hone : [name].filter (· ≠ []) = [name] := List.filter_cons_of_pos (decide_eq_true hne)
      rw [h, List.filter_append, hone, List.getLast?_concat]
    rw [endsInNoName, hl] at hn
    simp only [Bool.or_eq_false_iff, beq_eq_false_iff_ne] at hn
    exact ⟨hne, hn.1, hn.2, hslash⟩
  rcases exists_last_segment p with ⟨hp, hseg⟩ | ⟨a, b, rfl, hb, hseg⟩
  · refine ⟨[], p, hseg, hname (u := []) hseg ?_ hp⟩
    rintro rfl
    exact absurd hn (by decide)
  · refine ⟨_, b, hseg, hname hseg ?_ hb⟩
    rintro rfl
    exact Bool.false_ne_true (hs.symm.trans (endsInSlash_append_slash a))

/-! ## The directory and the name -/

lemma names_subset (p : Pathname) : p.names ⊆ p.segments := by
  rw [Pathname.names]
  cases p.segments with
  | nil => exact List.Subset.refl []
  | cons first rest =>
    refine List.append_subset.mpr ⟨?_,
      fun s hs => List.mem_cons_of_mem first (List.mem_filter.mp hs).1⟩
    split_ifs
    · exact List.nil_subset _
    · exact List.cons_subset.mpr ⟨List.mem_cons_self, List.nil_subset _⟩

lemma getLast?_names (hseg : p.segments = ss ++ [name]) (hn : IsEntryName name) :
    p.names.getLast? = some name := by
  have hname : [name].filter (fun s => s ≠ [] ∧ s ≠ [dot]) = [name] :=
    List.filter_cons_of_pos (decide_eq_true ⟨hn.ne_nil, hn.ne_dot⟩)
  rw [Pathname.names, hseg]
  cases ss with
  | nil =>
    dsimp only [List.nil_append]
    rw [if_neg hn.ne_nil]
    rfl
  | cons first ss =>
    dsimp only [List.cons_append]
    rw [List.filter_append, hname, ← List.append_assoc, List.getLast?_concat]

lemma fileName_of_concat (hseg : p.segments = ss ++ [name]) (hn : IsEntryName name) :
    p.fileName = name := by
  rw [Pathname.fileName, getLast?_names hseg hn]
  exact if_neg (not_or.mpr ⟨hn.ne_dot, hn.ne_dots⟩)

lemma slash_not_mem_fileName (p : Pathname) : slash ∉ p.fileName := by
  rw [Pathname.fileName]
  cases h : p.names.getLast? with
  | none => exact List.not_mem_nil
  | some name =>
    dsimp only
    split_ifs
    · exact List.not_mem_nil
    · exact slash_not_mem_of_mem_segments (names_subset p (List.mem_of_getLast? h))

lemma dropSilent_concat (hn : IsEntryName name) (ss : List Bytes) :
    Pathname.dropSilent (ss ++ [name]) = ss ++ [name] := by
  have hs : ¬ Pathname.isSilent name = true := by
    rw [Pathname.isSilent, decide_eq_true_eq]
    exact not_or.mpr ⟨hn.ne_nil, hn.ne_dot⟩
  exact List.rdropWhile_concat_neg Pathname.isSilent ss name hs

lemma exists_dropSilent (ss : List Bytes) :
    ∃ rest, ss = Pathname.dropSilent ss ++ rest ∧ spoken rest = [] := by
  refine ⟨ss.rtakeWhile Pathname.isSilent, List.rdropWhile_append_rtakeWhile.symm,
    List.filter_eq_nil_iff.mpr ?_⟩
  intro s hs
  have h : Pathname.isSilent s = true := List.mem_rtakeWhile_imp hs
  rw [Pathname.isSilent, decide_eq_true_eq] at h
  rwa [decide_eq_true_eq, not_and_or, not_not, not_not]

lemma segments_intercalate_dropSilent (hns : ∀ n ∈ ss, slash ∉ n)
    (h : Pathname.dropSilent ss ≠ []) :
    Pathname.segments ([slash].intercalate (Pathname.dropSilent ss)) = Pathname.dropSilent ss :=
  List.splitOn_intercalate slash (fun n hn => hns n ((List.rdropWhile_prefix _ ss).subset hn)) h

lemma intercalate_dropSilent_ne_nil (hns : ∀ n ∈ ss, slash ∉ n) (h : Pathname.dropSilent ss ≠ []) :
    [slash].intercalate (Pathname.dropSilent ss) ≠ [] := by
  intro hnil
  have hseg := segments_intercalate_dropSilent hns h
  have hagain : Pathname.dropSilent (Pathname.dropSilent ss) = Pathname.dropSilent ss :=
    List.rdropWhile_idempotent Pathname.isSilent ss
  rw [hnil] at hseg
  rw [← hseg] at hagain
  cases hagain

lemma slash_not_mem_of_mem_above : ∀ n ∈ (Pathname.dropSilent p.segments).dropLast, slash ∉ n :=
  fun _ hn => slash_not_mem_of_mem_segments
    ((List.rdropWhile_prefix _ p.segments).subset (List.dropLast_subset _ hn))

lemma parent_ne_nil (p : Pathname) : p.parent ≠ [] := by
  unfold Pathname.parent
  dsimp only
  split_ifs with h
  · exact intercalate_dropSilent_ne_nil slash_not_mem_of_mem_above h
  · exact List.cons_ne_nil _ _
  · exact List.cons_ne_nil _ _

lemma isAbsolute_of_segments {above rest : List Bytes} (hseg : p.segments = above ++ rest)
    (hr : rest ≠ []) (hq : q.segments = above) (hne : q ≠ []) : q.isAbsolute = p.isAbsolute := by
  have hslash : ∀ n ∈ rest, slash ∉ n :=
    fun n hn => slash_not_mem_of_mem_segments (hseg ▸ List.mem_append_right above hn)
  have hsplit : Pathname.segments (q ++ slash :: [slash].intercalate rest) = p.segments := by
    rw [segments_append_slash, hq, hseg]
    exact congrArg _ (List.splitOn_intercalate slash hslash hr)
  have hp : p = q ++ slash :: [slash].intercalate rest := calc
    p = [slash].intercalate p.segments := (List.intercalate_splitOn slash).symm
    _ = [slash].intercalate (Pathname.segments (q ++ slash :: [slash].intercalate rest)) := by
      rw [hsplit]
    _ = _ := List.intercalate_splitOn slash
  rw [Pathname.isAbsolute, Pathname.isAbsolute, hp, List.head?_append_of_ne_nil _ hne]

lemma parent_spec (hseg : p.segments = ss ++ [name]) (hn : IsEntryName name) :
    spoken p.parent.segments = spoken ss ∧ p.parent.isAbsolute = p.isAbsolute := by
  obtain ⟨rest, hss, hrest⟩ := exists_dropSilent ss
  have hsaid : spoken ss = spoken (Pathname.dropSilent ss) := by
    conv_lhs => rw [hss, spoken_append, hrest, List.append_nil]
  have hnames : ∀ n ∈ ss, slash ∉ n :=
    fun n hn => slash_not_mem_of_mem_segments (hseg ▸ List.mem_append_left [name] hn)
  unfold Pathname.parent
  simp only [hseg, dropSilent_concat hn, List.dropLast_concat]
  by_cases h : Pathname.dropSilent ss = []
  · rw [if_neg (not_not.mpr h), hsaid, h]
    cases p.isAbsolute with
    | true =>
      rw [if_pos ⟨List.concat_ne_nil name ss, rfl⟩]
      exact ⟨rfl, rfl⟩
    | false =>
      rw [if_neg (fun hb => Bool.false_ne_true hb.2)]
      exact ⟨rfl, rfl⟩
  · have hs := segments_intercalate_dropSilent hnames h
    rw [if_pos h, hs]
    have hsplit : p.segments = Pathname.dropSilent ss ++ (rest ++ [name]) := by
      rw [hseg, ← List.append_assoc, ← hss]
    refine ⟨hsaid.symm,
      isAbsolute_of_segments hsplit ?_ hs (intercalate_dropSilent_ne_nil hnames h)⟩
    exact List.append_ne_nil_of_right_ne_nil rest (List.cons_ne_nil name [])

lemma stem_of_not_mem (h : slash ∉ p) : stem p = [dot] ∧ p.isAbsolute = false := by
  have hall : ∀ c ∈ p.reverse, (c != slash) = true := fun c hc => bne_iff_ne.mpr fun he =>
    h (he ▸ List.mem_reverse.mp hc)
  have habs : p.isAbsolute = false := Bool.eq_false_iff.mpr fun ha =>
    h (List.mem_of_head? (eq_of_beq ha))
  have hdrop : (p.reverse.dropWhile (· == slash)).dropWhile (· != slash) = [] :=
    List.dropWhile_eq_nil_iff.mpr fun c hc => hall c (List.dropWhile_suffix _ |>.subset hc)
  rw [stem, hdrop, List.reverse_nil, habs]
  exact ⟨rfl, rfl⟩

lemma stem_append_slash (a : Pathname) (hb : slash ∉ name) (hne : name ≠ []) :
    stem (a ++ slash :: name) = a ++ [slash] := by
  have hall : ∀ c ∈ name.reverse, (c != slash) = true := fun c hc => bne_iff_ne.mpr fun he =>
    hb (he ▸ List.mem_reverse.mp hc)
  have hrev : (a ++ slash :: name).reverse = name.reverse ++ slash :: a.reverse := by simp
  have hfirst : (name.reverse ++ slash :: a.reverse).dropWhile (· == slash) =
      name.reverse ++ slash :: a.reverse := by
    obtain ⟨c, u, hu⟩ := List.exists_cons_of_ne_nil (List.reverse_ne_nil_iff.mpr hne)
    have hc : c ≠ slash := bne_iff_ne.mp (hall c (hu ▸ List.mem_cons_self))
    rw [hu, List.cons_append, List.dropWhile_cons_of_neg (by simpa using hc)]
  have hdrop : ((slash :: a.reverse).reverse : List UInt8) = a ++ [slash] := by simp
  rw [stem, hrev, hfirst, dropWhile_append_stop hall (by simp), hdrop]
  cases a <;> rfl

lemma stem_spec (hseg : p.segments = ss ++ [name]) (hn : name ≠ []) :
    spoken (stem p).segments = spoken ss ∧ (stem p).isAbsolute = p.isAbsolute ∧
      (Fits p → Fits (stem p)) := by
  rcases exists_last_segment p with ⟨hp, hone⟩ | ⟨a, b, rfl, hb, hlast⟩
  · obtain ⟨rfl, rfl⟩ : ss = [] ∧ p = name := by
      have h := hseg.symm.trans hone
      cases ss with
      | nil => exact ⟨rfl, (List.cons.inj h).1.symm⟩
      | cons s ss => simp at h
    obtain ⟨hstem, habs⟩ := stem_of_not_mem hp
    rw [hstem, habs]
    exact ⟨rfl, rfl, fun _ => ⟨by decide, by decide, by decide⟩⟩
  · obtain ⟨rfl, rfl⟩ := List.append_inj' (hseg.symm.trans hlast) rfl |>.imp_right fun h =>
      (List.cons.inj h).1
    rw [stem_append_slash a hb hn]
    refine ⟨?_, ?_, fun hf => ⟨fun hz => hf.no_zero ?_, by simp, ?_⟩⟩
    · rw [segments_append_slash, spoken_append]
      exact List.append_nil _
    · cases a <;> rfl
    · exact List.append_subset.mpr ⟨List.subset_append_left .., by simp⟩ hz
    · have hlen := hf.length_le
      simp only [List.length_append, List.length_cons, List.length_nil] at hlen ⊢
      omega

/-! ## The temporary file -/

lemma join_spec (hp : p ≠ []) (hn : IsEntryName name) :
    (∃ ss, (p.join name).segments = ss ++ [name] ∧ spoken ss = spoken p.segments) ∧
      (p.join name).isAbsolute = p.isAbsolute ∧ p <+: p.join name := by
  have hrel : ¬ (Pathname.isAbsolute name = true ∨ p = []) := by
    rw [not_or]
    exact ⟨fun h => hn.no_slash (List.mem_of_head? (eq_of_beq h)), hp⟩
  have habs (u : List UInt8) : Pathname.isAbsolute (p ++ u) = p.isAbsolute := by
    rw [Pathname.isAbsolute, List.head?_append_of_ne_nil _ hp]
    rfl
  rw [Pathname.join, if_neg hrel]
  by_cases hs : p.endsInSlash = true
  · rw [if_pos hs]
    obtain ⟨a, rfl⟩ := List.getLast?_eq_some_iff.mp (eq_of_beq hs)
    refine ⟨⟨Pathname.segments a, ?_, ?_⟩, habs name, List.prefix_append ..⟩
    · rw [List.append_assoc, List.singleton_append, segments_append_slash,
        segments_of_not_mem hn.no_slash]
    · rw [segments_append_slash, spoken_append]
      exact (List.append_nil _).symm
  · rw [if_neg hs]
    refine ⟨⟨p.segments, ?_, rfl⟩, habs _, List.prefix_append ..⟩
    rw [segments_append_slash, segments_of_not_mem hn.no_slash]

lemma getLast?_temporaryName (tag : String) (p : Pathname) :
    (temporaryName tag p).getLast? = some 0x70 := by
  have ht : textBytes ".tmp" = [0x2E, 0x74, 0x6D, 0x70] := by decide
  rw [temporaryName, textBytes_append, ht, List.getLast?_append_of_ne_nil _ (List.cons_ne_nil _ _)]
  rfl

lemma isEntryName_temporaryName (htag : '/' ∉ tag.toList) (p : Pathname) :
    IsEntryName (temporaryName tag p) := by
  have hl := getLast?_temporaryName tag p
  refine ⟨?_, ?_, ?_, fun hm => ?_⟩
  · intro h
    rw [h] at hl
    cases hl
  · intro h
    rw [h] at hl
    exact absurd hl (by decide)
  · intro h
    rw [h] at hl
    exact absurd hl (by decide)
  · have hc := Utf8.slash_mem_encode.mp hm
    simp only [String.toList_append, List.mem_append] at hc
    rcases hc with (((hc | hc) | hc) | hc) | hc
    · exact absurd hc (by decide)
    · exact slash_not_mem_fileName p (Utf8.slash_mem_of_mem_lossy hc)
    · exact absurd hc (by decide)
    · exact htag hc
    · exact absurd hc (by decide)

-- A name that the temporary one is made from is shorter, even where its bytes are no text.
lemma temporaryName_ne (tag : String) (p : Pathname) : temporaryName tag p ≠ p.fileName := by
  intro h
  have hlossy := Utf8.lossy_textBytes ("." ++ Utf8.lossy p.fileName ++ "." ++ tag ++ ".tmp")
  change Utf8.lossy (temporaryName tag p) = _ at hlossy
  rw [h] at hlossy
  have hlen := congrArg (fun s => s.toList.length) hlossy
  simp only [String.toList_append, List.length_append] at hlen
  have hdot : ".".toList.length = 1 := rfl
  omega

lemma temporaryPath_spec (htag : '/' ∉ tag.toList) (p : Pathname) :
    (∃ ss, (temporaryPath tag p).segments = ss ++ [temporaryName tag p] ∧
      spoken ss = spoken p.parent.segments) ∧
      (temporaryPath tag p).isAbsolute = p.parent.isAbsolute ∧
        (Fits (temporaryPath tag p) → Fits p.parent) := by
  have hne := parent_ne_nil p
  obtain ⟨hseg, habs, hpre⟩ := join_spec hne (isEntryName_temporaryName htag p)
  exact ⟨hseg, habs, fun hf => ⟨fun hz => hf.no_zero (hpre.subset hz), hne,
    hpre.length_le.trans hf.length_le⟩⟩

end TarRecipe.Disk
