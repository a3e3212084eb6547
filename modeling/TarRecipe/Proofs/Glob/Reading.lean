import TarRecipe.Proofs.Glob.Pieces

/-! How patterns are read, after the pass that leaves one star of each run. -/

namespace TarRecipe.Glob

variable {p : Piece} {ps : List Piece} {s : List Char}

/-! ## Folding -/

lemma fold_star (s : List Char) : fold ('*' :: s) = '*' :: fold (s.dropWhile (· == '*')) := by
  rw [fold, if_pos rfl]

lemma dropWhile_star (h : s.head? ≠ some '*') : s.dropWhile (· == '*') = s := by
  cases s with
  | nil => rfl
  | cons c s =>
    rw [List.dropWhile_cons_of_neg]
    simpa using h

lemma fold_stars (more : Nat) (s : List Char) :
    fold ((Piece.stars more).text ++ s) = fold ('*' :: s) := by
  have hd : (List.replicate more '*' ++ s).dropWhile (· == '*') = s.dropWhile (· == '*') :=
    List.dropWhile_append_of_pos (by simp)
  rw [Piece.text, List.cons_append, fold_star, fold_star, hd]

lemma fold_text (h : p.Proper) (hp : ∀ more, p ≠ .stars more) (s : List Char) :
    fold (p.text ++ s) = p.text ++ fold s := by
  cases p with
  | literal c =>
    rw [Piece.text, List.singleton_append, fold, if_neg h.1, if_neg h.2.2]
    rfl
  | anyOne =>
    rw [Piece.text, List.singleton_append, fold]
    rfl
  | stars more => exact absurd rfl (hp more)
  | oneOf negated first others =>
    rw [Piece.text, List.cons_append, fold, if_neg (by decide), if_pos rfl,
      classLength?_classText h s]
    dsimp only
    rw [List.take_left, List.drop_left]
    rfl

lemma fold_open (h : ¬ Closed s) : fold ('[' :: s) = '[' :: s := by
  rw [fold, if_neg (by decide), if_pos rfl, classLength?_of_not_closed h]

lemma head?_spell_append (h : ∀ p ∈ ps, p.Proper) (hps : ∀ more, ps.head? ≠ some (.stars more))
    (hs : s.head? ≠ some '*') : (spell ps ++ s).head? ≠ some '*' := by
  cases ps with
  | nil => exact hs
  | cons p ps =>
    have hp := h p List.mem_cons_self
    cases p with
    | literal c => simpa [Piece.text] using hp.1
    | anyOne => simp [Piece.text]
    | stars more => exact absurd rfl (hps more)
    | oneOf negated first others => simp [Piece.text]

lemma fold_spell (h : ∀ p ∈ ps, p.Proper) (hs : s.head? ≠ some '*') :
    fold (spell ps ++ s) = spell (oneStar ps) ++ fold s := by
  fun_induction oneStar ps with
  | case1 more' more ps ih =>
    rw [← ih (List.forall_mem_cons.mp h).2, spell_cons, spell_cons, List.append_assoc,
      List.append_assoc, fold_stars, fold_stars]
    exact fold_stars (more + 1) (spell ps ++ s)
  | case2 more ps hps ih =>
    have h := (List.forall_mem_cons.mp h).2
    -- the star is the last one of its row
    have hhead : (spell ps ++ s).head? ≠ some '*' := by
      refine head?_spell_append h (fun more' hmore => ?_) hs
      obtain ⟨ps, rfl⟩ := List.head?_eq_some_iff.mp hmore
      exact hps more' ps rfl
    rw [spell_cons, spell_cons, List.append_assoc, fold_stars, fold_star, dropWhile_star hhead,
      ih h]
    rfl
  | case3 p ps _ hp ih =>
    obtain ⟨hproper, h⟩ := List.forall_mem_cons.mp h
    rw [spell_cons, spell_cons, List.append_assoc, List.append_assoc, fold_text hproper hp, ih h]
  | case4 => rfl

lemma proper_oneStar (h : ∀ p ∈ ps, p.Proper) : ∀ p ∈ oneStar ps, p.Proper := by
  fun_induction oneStar ps with
  | case1 _ more ps ih => exact ih (List.forall_mem_cons.mp h).2
  | case2 more ps _ ih => exact List.forall_mem_cons.mpr ⟨trivial, ih (List.forall_mem_cons.mp h).2⟩
  | case3 p ps _ _ ih =>
    obtain ⟨hp, h⟩ := List.forall_mem_cons.mp h
    exact List.forall_mem_cons.mpr ⟨hp, ih h⟩
  | case4 => exact List.forall_mem_nil _

lemma hasTwoStars_suffix {t : List Char} (ht : t <:+ s) (h : hasTwoStars s = false) :
    hasTwoStars t = false := by
  induction s with
  | nil => rwa [List.suffix_nil.mp ht]
  | cons c s ih =>
    rcases List.suffix_cons_iff.mp ht with rfl | ht
    · exact h
    refine ih ht ?_
    cases s with
    | nil => rfl
    | cons d s =>
      rw [hasTwoStars, Bool.or_eq_false_iff] at h
      exact h.2

lemma head?_oneStar (h : ∀ more qs, ps ≠ .stars more :: qs) (more : Nat) :
    (oneStar ps).head? ≠ some (.stars more) := by
  cases ps with
  | nil => simp [oneStar]
  | cons p ps =>
    cases p with
    | stars more' => exact absurd rfl (h more' ps)
    | _ => simp [oneStar]

lemma fold_of_not_hasTwoStars (h : hasTwoStars s = false) : fold s = s := by
  fun_induction fold s with
  | case1 => rfl
  | case2 s ih =>
    have hd : s.dropWhile (· == '*') = s := by
      refine dropWhile_star fun hs => ?_
      obtain ⟨s, rfl⟩ := List.head?_eq_some_iff.mp hs
      simp [hasTwoStars] at h
    rw [hd] at ih ⊢
    rw [ih (hasTwoStars_suffix (List.suffix_cons _ _) h)]
  | case3 s _ => rfl
  | case4 s n hn _ ih =>
    have hsuffix : s.drop n <:+ '[' :: s := (List.drop_suffix n s).trans (List.suffix_cons _ _)
    rw [ih (hasTwoStars_suffix hsuffix h), List.take_append_drop]
  | case5 c s hstar hclass ih => rw [ih (hasTwoStars_suffix (List.suffix_cons _ _) h)]

lemma collapseStars_eq_fold (s : List Char) : collapseStars s = fold s := by
  rw [collapseStars]
  split
  · rfl
  · rename_i h
    exact (fold_of_not_hasTwoStars (by simpa using h)).symm

lemma Spells.collapseStars (h : Spells ps s) : Spells (oneStar ps) (collapseStars s) := by
  refine ⟨proper_oneStar h.1, ?_⟩
  have hf := fold_spell (s := []) h.1 (by simp)
  rw [List.append_nil, fold, List.append_nil, h.2] at hf
  rw [collapseStars_eq_fold, hf]

/-! ## Reading -/

lemma read_bracket (offset : Nat) (before : Option Char) (done : List Token) (s : List Char) :
    read offset before done ('[' :: s) =
      match class? s with
      | none => .error ⟨offset, .range⟩
      | some (t, rest) => read (offset + 1 + (s.length - rest.length)) ']' (t :: done) rest := by
  rw [read.eq_def]
  dsimp only
  rw [if_neg (by decide), if_neg (by decide), if_pos rfl]
  split <;> rename_i h <;> rw [h]

lemma read_star (hs : s.head? ≠ some '*') (offset : Nat) (before : Option Char)
    (done : List Token) :
    read offset before done ('*' :: s) = read (offset + 1) '*' (.star :: done) s := by
  have ht : s.takeWhile (· == '*') = [] := by
    cases s with
    | nil => rfl
    | cons c s =>
      rw [List.takeWhile_cons_of_neg]
      simpa using hs
  rw [read.eq_def]
  simp [ht]

lemma read_text (h : p.Proper) (hp : ∀ more, p = .stars more → more = 0 ∧ s.head? ≠ some '*')
    (offset : Nat) (before : Option Char) (done : List Token) :
    ∃ before', read offset before done (p.text ++ s) =
      read (offset + p.text.length) before' (p.token :: done) s := by
  cases p with
  | literal c =>
    refine ⟨c, ?_⟩
    rw [Piece.text, List.singleton_append, read.eq_def]
    simp only [if_neg h.1, if_neg h.2.1, if_neg h.2.2]
    rfl
  | anyOne =>
    refine ⟨'?', ?_⟩
    rw [Piece.text, List.singleton_append, read.eq_def]
    rfl
  | stars more =>
    obtain ⟨rfl, hs⟩ := hp more rfl
    exact ⟨'*', read_star hs offset before done⟩
  | oneOf negated first others =>
    refine ⟨']', ?_⟩
    rw [Piece.text, List.cons_append, read_bracket, class?_classText h s]
    simp [Piece.token, Nat.add_assoc, Nat.add_comm 1]

lemma read_oneStar (h : ∀ p ∈ ps, p.Proper) (hs : s.head? ≠ some '*') (offset : Nat)
    (before : Option Char) (done : List Token) :
    ∃ before', read offset before done (spell (oneStar ps) ++ s) =
      read (offset + (spell (oneStar ps)).length) before'
        (((oneStar ps).map Piece.token).reverse ++ done) s := by
  fun_induction oneStar ps generalizing offset before done with
  | case1 _ more ps ih => exact ih (List.forall_mem_cons.mp h).2 offset before done
  | case2 more ps hps ih =>
    have h := (List.forall_mem_cons.mp h).2
    have hhead : (spell (oneStar ps) ++ s).head? ≠ some '*' :=
      head?_spell_append (proper_oneStar h) (head?_oneStar fun more' qs => hps more' qs) hs
    have hone : ∀ more', Piece.stars 0 = .stars more' →
        more' = 0 ∧ (spell (oneStar ps) ++ s).head? ≠ some '*' := by
      rintro _ ⟨⟩
      exact ⟨rfl, hhead⟩
    obtain ⟨_, hstar⟩ := read_text (p := .stars 0) trivial hone offset before done
    obtain ⟨before', hread⟩ := ih h (offset + 1) _ (.star :: done)
    refine ⟨before', ?_⟩
    rw [spell_cons, List.append_assoc, hstar]
    simpa [Piece.text, Piece.token, Nat.add_assoc, Nat.add_comm 1] using hread
  | case3 p ps _ hp ih =>
    obtain ⟨hproper, h⟩ := List.forall_mem_cons.mp h
    obtain ⟨_, hpiece⟩ := read_text (s := spell (oneStar ps) ++ s) hproper
      (fun more hm => absurd hm (hp more)) offset before done
    obtain ⟨before', hread⟩ := ih h (offset + p.text.length) _ (p.token :: done)
    refine ⟨before', ?_⟩
    rw [spell_cons, List.append_assoc, hpiece]
    simpa [Nat.add_assoc] using hread
  | case4 => exact ⟨before, rfl⟩

end TarRecipe.Glob
