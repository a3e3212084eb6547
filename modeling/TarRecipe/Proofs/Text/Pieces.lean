import Mathlib.Data.List.Basic
import Mathlib.Data.List.TakeWhile
import Mathlib.Tactic.Common
import TarRecipe.Text.Blank

/-! Trimmed texts, and texts in pieces: separators cut, and blanks around pieces do not count. -/

namespace TarRecipe.Text

variable {p : Char → Bool} {s t z : List Char} {c sep : Char}

/-! ## Trimming -/

lemma trim_cons_of_pos (h : p c = true) (s : List Char) : trim p (c :: s) = trim p s := by
  rw [trim, List.dropWhile_cons_of_pos h, trim]

lemma trim_append_left (h : ∀ c ∈ s, p c = true) (t : List Char) : trim p (s ++ t) = trim p t := by
  rw [trim, List.dropWhile_append_of_pos h, trim]

lemma trim_append_right (s : List Char) (h : ∀ c ∈ t, p c = true) : trim p (s ++ t) = trim p s := by
  induction s with
  | nil =>
    rw [List.nil_append, ← List.append_nil t, trim_append_left h]
  | cons c s ih =>
    by_cases hc : p c = true
    · rw [List.cons_append, trim_cons_of_pos hc, trim_cons_of_pos hc, ih]
    · rw [trim, trim, List.cons_append, List.dropWhile_cons_of_neg hc,
        List.dropWhile_cons_of_neg hc, ← List.cons_append, trimEnd_append_of_all _ h]

lemma trimEnd_of_getLast? (h : ∀ c, s.getLast? = some c → p c = false) : trimEnd p s = s := by
  rw [trimEnd]
  cases hr : s.reverse with
  | nil => rw [List.dropWhile_nil, ← hr, List.reverse_reverse]
  | cons c t =>
    have hc : p c = false := by
      apply h
      rw [List.getLast?_eq_head?_reverse, hr, List.head?_cons]
    rw [List.dropWhile_cons_of_neg (by simp [hc]), ← hr, List.reverse_reverse]

lemma trim_eq_self (hh : ∀ c, s.head? = some c → p c = false)
    (hl : ∀ c, s.getLast? = some c → p c = false) :
    trim p s = s := by
  cases s with
  | nil => rfl
  | cons c s =>
    rw [trim, List.dropWhile_cons_of_neg (by simp [hh c rfl]), trimEnd_of_getLast? hl]

lemma exists_trim (p : Char → Bool) (s : List Char) :
    ∃ a b, s = a ++ trim p s ++ b ∧ (∀ c ∈ a, p c = true) ∧ ∀ c ∈ b, p c = true := by
  have he : trim p s ++ ((s.dropWhile p).reverse.takeWhile p).reverse = s.dropWhile p := by
    rw [trim, trimEnd, ← List.reverse_append, List.takeWhile_append_dropWhile, List.reverse_reverse]
  refine ⟨s.takeWhile p, ((s.dropWhile p).reverse.takeWhile p).reverse, ?_, ?_, ?_⟩
  · rw [List.append_assoc, he, List.takeWhile_append_dropWhile]
  · exact fun c hc => List.mem_takeWhile_imp hc
  · exact fun c hc => List.mem_takeWhile_imp (List.mem_reverse.mp hc)

lemma trim_subset (p : Char → Bool) (s : List Char) : trim p s ⊆ s := by
  obtain ⟨a, b, hs, -, -⟩ := exists_trim p s
  conv_rhs => rw [hs]
  exact List.subset_append_of_subset_left b (List.subset_append_right a _)

lemma head?_trim (h : p c = false) (s : List Char) (hs : ∀ b ∈ t, p b = true) :
    (trim p (t ++ c :: s)).head? = some c := by
  have hne : ((c :: s).reverse.dropWhile p).reverse ≠ [] := by
    rw [ne_eq, List.reverse_eq_nil_iff, List.dropWhile_eq_nil_iff]
    exact fun ha => absurd (ha c (by simp)) (by simp [h])
  have hpre : ((c :: s).reverse.dropWhile p).reverse <+: c :: s := by
    conv_rhs => rw [← List.reverse_reverse (c :: s)]
    exact List.reverse_prefix.mpr (List.dropWhile_suffix p)
  rw [trim_append_left hs, trim, List.dropWhile_cons_of_neg (by simp [h]), trimEnd]
  obtain ⟨d, u, hu⟩ := List.exists_cons_of_ne_nil hne
  rw [hu] at hpre ⊢
  rw [(List.cons_prefix_cons.mp hpre).1]
  rfl

lemma trim_eq_nil_iff : trim p s = [] ↔ ∀ b ∈ s, p b = true := by
  constructor
  · intro h
    obtain ⟨a, b, hs, ha, hb⟩ := exists_trim p s
    rw [h, List.append_nil] at hs
    rw [hs]
    exact List.forall_mem_append.mpr ⟨ha, hb⟩
  · intro h
    rw [← List.append_nil s, trim_append_left h]
    rfl

lemma head?_trim_eq_some (h : (trim p s).head? = some c) : p c = false := by
  have hpre : trim p s <+: s.dropWhile p := by
    conv_rhs => rw [← List.reverse_reverse (s.dropWhile p)]
    exact List.reverse_prefix.mpr (List.dropWhile_suffix p)
  obtain ⟨u, hu⟩ := List.head?_eq_some_iff.mp h
  obtain ⟨v, hv⟩ := hu ▸ hpre
  have hd := List.head?_dropWhile_not p s
  rw [← hv] at hd
  simpa using hd

lemma getLast?_trim_eq_some (h : (trim p s).getLast? = some c) : p c = false := by
  rw [trim, trimEnd, List.getLast?_reverse] at h
  have hd := List.head?_dropWhile_not p (s.dropWhile p).reverse
  rw [h] at hd
  simpa using hd

lemma head?_trim_append (h : trim p s ≠ []) (t : List Char) :
    (trim p (s ++ t)).head? = (trim p s).head? := by
  obtain ⟨a, b, hs, ha, -⟩ := exists_trim p s
  cases hu : trim p s with
  | nil => exact absurd hu h
  | cons c u =>
    rw [hs, hu, List.append_assoc, List.append_assoc, List.cons_append, List.head?_cons]
    exact head?_trim (head?_trim_eq_some (s := s) (by rw [hu, List.head?_cons])) _ ha

lemma exists_trim_of_getLast? (hs : s.getLast? = some c) (hc : p c = false) :
    ∃ a, s = a ++ trim p s ∧ ∀ b ∈ a, p b = true := by
  obtain ⟨a, b, h, ha, hb⟩ := exists_trim p s
  obtain rfl : b = [] := by
    by_contra hne
    rw [h, List.getLast?_append_of_ne_nil _ hne] at hs
    exact Bool.false_ne_true (hc.symm.trans (hb c (List.mem_of_getLast? hs)))
  exact ⟨a, by rwa [List.append_nil] at h, ha⟩

lemma getLast?_trim (hs : s.getLast? = some c) (hc : p c = false) :
    (trim p s).getLast? = some c := by
  obtain ⟨a, h, ha⟩ := exists_trim_of_getLast? hs hc
  have hne : trim p s ≠ [] := by
    intro ht
    rw [ht, List.append_nil] at h
    exact Bool.false_ne_true (hc.symm.trans (ha c (h ▸ List.mem_of_getLast? hs)))
  rw [← hs]
  conv_rhs => rw [h, List.getLast?_append_of_ne_nil _ hne]

lemma exists_trim_append (h : trim p s ≠ []) (hc : p c = false) :
    ∃ b, trim p (s ++ [c]) = trim p s ++ (b ++ [c]) := by
  obtain ⟨a, b, hs, ha, -⟩ := exists_trim p s
  refine ⟨b, ?_⟩
  conv_lhs => rw [hs, List.append_assoc, List.append_assoc, trim_append_left ha]
  refine trim_eq_self (fun d hd => ?_) fun d hd => ?_
  · rw [List.head?_append_of_ne_nil _ h] at hd
    exact head?_trim_eq_some hd
  · rw [← List.append_assoc, List.getLast?_concat] at hd
    exact Option.some.inj hd ▸ hc

/-! ## Pieces -/

def pieces (sep : Char) (s : List Char) : List (List Char) :=
  ((s.splitOn sep).map (trim isAsciiBlank)).filter (· ≠ [])

lemma pieces_append_cons (s t : List Char) :
    pieces sep (s ++ sep :: t) = pieces sep s ++ pieces sep t := by
  rw [pieces, List.splitOn_append_cons_self, List.map_append, List.filter_append, pieces, pieces]

lemma pieces_of_not_mem (h : sep ∉ s) : pieces sep s = [trim isAsciiBlank s].filter (· ≠ []) := by
  rw [pieces, List.splitOn_eq_singleton h, List.map_singleton]

lemma pieces_nil : pieces sep [] = [] := pieces_of_not_mem List.not_mem_nil

lemma pieces_cons_blank (h : isAsciiBlank c = true) (s : List Char) :
    pieces sep (c :: s) = pieces sep s := by
  by_cases hc : c = sep
  · subst c
    rw [← List.nil_append (sep :: s), pieces_append_cons, pieces_nil, List.nil_append]
  · by_cases hs : sep ∈ s
    · obtain ⟨a, b, rfl, ha⟩ := List.eq_append_cons_of_mem hs
      rw [← List.cons_append, pieces_append_cons, pieces_append_cons,
        pieces_of_not_mem (List.not_mem_cons_of_ne_of_not_mem (Ne.symm hc) ha),
        pieces_of_not_mem ha, trim_cons_of_pos h]
    · rw [pieces_of_not_mem (List.not_mem_cons_of_ne_of_not_mem (Ne.symm hc) hs),
        pieces_of_not_mem hs, trim_cons_of_pos h]

lemma pieces_append_left (h : ∀ c ∈ s, isAsciiBlank c = true) (t : List Char) :
    pieces sep (s ++ t) = pieces sep t := by
  induction s with
  | nil => rfl
  | cons c s ih =>
    rw [List.forall_mem_cons] at h
    rw [List.cons_append, pieces_cons_blank h.1, ih h.2]

lemma pieces_of_blank (h : ∀ c ∈ s, isAsciiBlank c = true) : pieces sep s = [] := by
  rw [← List.append_nil s, pieces_append_left h, pieces_nil]

lemma exists_last_of_mem (h : sep ∈ s) : ∃ a b, s = a ++ sep :: b ∧ sep ∉ b := by
  obtain ⟨a, b, hab, ha⟩ := List.eq_append_cons_of_mem (List.mem_reverse.mpr h)
  refine ⟨b.reverse, a.reverse, ?_, by simpa using ha⟩
  rw [← List.reverse_reverse s, hab]
  simp

lemma pieces_append_right (s : List Char) (h : ∀ c ∈ t, isAsciiBlank c = true) :
    pieces sep (s ++ t) = pieces sep s := by
  have hline {a : List Char} (ha : sep ∉ a) : pieces sep (a ++ t) = pieces sep a := by
    by_cases ht : sep ∈ t
    · obtain ⟨b, b', rfl, hb⟩ := List.eq_append_cons_of_mem ht
      rw [List.forall_mem_append, List.forall_mem_cons] at h
      rw [← List.append_assoc, pieces_append_cons, pieces_of_blank h.2.2, List.append_nil,
        pieces_of_not_mem (by simp [ha, hb]), pieces_of_not_mem ha, trim_append_right a h.1]
    · rw [pieces_of_not_mem (by simp [ha, ht]), pieces_of_not_mem ha, trim_append_right a h]
  by_cases hs : sep ∈ s
  · -- only what stands behind the last separator can meet the blanks
    obtain ⟨a, b, rfl, hb⟩ := exists_last_of_mem hs
    rw [List.append_assoc, List.cons_append, pieces_append_cons, pieces_append_cons, hline hb]
  · exact hline hs

lemma pieces_trim (s : List Char) : pieces sep (trim isAsciiBlank s) = pieces sep s := by
  obtain ⟨a, b, hs, ha, hb⟩ := exists_trim isAsciiBlank s
  conv_rhs => rw [hs, pieces_append_right _ hb, pieces_append_left ha]

lemma pieces_of_ends {d : Char} (hn : sep ∉ s) (hc : s.head? = some c) (hd : s.getLast? = some d)
    (h : isAsciiBlank c = false ∧ isAsciiBlank d = false) : pieces sep s = [s] := by
  rw [pieces_of_not_mem hn, trim_eq_self]
  · cases s with
    | nil => cases hc
    | cons => rfl
  · intro b hb
    obtain rfl := Option.some.inj (hc.symm.trans hb)
    exact h.1
  · intro b hb
    obtain rfl := Option.some.inj (hd.symm.trans hb)
    exact h.2

lemma exists_pieces_cons (hc : isAsciiBlank c = false) (hsep : isAsciiBlank sep = true)
    (s : List Char) :
    ∃ z zs, pieces sep (c :: s) = (c :: z) :: zs := by
  have hne : sep ≠ c := fun h => Bool.false_ne_true (hc.symm.trans (h ▸ hsep))
  have hline {a : List Char} (ha : sep ∉ a) : ∃ z, pieces sep (c :: a) = [c :: z] := by
    rw [pieces_of_not_mem (List.not_mem_cons_of_ne_of_not_mem hne ha)]
    obtain ⟨z, hz⟩ := List.head?_eq_some_iff.mp (head?_trim hc a (t := []) (List.forall_mem_nil _))
    exact ⟨z, by rw [List.nil_append] at hz; simp [hz]⟩
  by_cases hs : sep ∈ s
  · obtain ⟨a, b, rfl, ha⟩ := List.eq_append_cons_of_mem hs
    obtain ⟨z, hz⟩ := hline ha
    exact ⟨z, pieces sep b,
      by rw [← List.cons_append, pieces_append_cons, hz, List.singleton_append]⟩
  · obtain ⟨z, hz⟩ := hline hs
    exact ⟨z, [], hz⟩

lemma pieces_cons_ne_nil (hc : isAsciiBlank c = false) (hsep : isAsciiBlank sep = true)
    (s : List Char) :
    pieces sep (c :: s) ≠ [] := by
  obtain ⟨z, zs, h⟩ := exists_pieces_cons hc hsep s
  exact h ▸ List.cons_ne_nil _ _

lemma blank_of_pieces_eq_nil (hsep : isAsciiBlank sep = true) (h : pieces sep s = []) :
    ∀ c ∈ s, isAsciiBlank c = true := by
  induction s with
  | nil => exact List.forall_mem_nil _
  | cons c s ih =>
    cases hc : isAsciiBlank c with
    | true =>
      rw [pieces_cons_blank hc] at h
      exact List.forall_mem_cons.mpr ⟨hc, ih h⟩
    | false => exact absurd h (pieces_cons_ne_nil hc hsep s)

lemma lines_induction (sep : Char) {P : List Char → Prop} (line : ∀ s, sep ∉ s → P s)
    (cons : ∀ s t, sep ∉ s → P t → P (s ++ sep :: t)) (s : List Char) : P s := by
  induction hk : s.length using Nat.strong_induction_on generalizing s with
  | _ k ih =>
    subst hk
    by_cases hs : sep ∈ s
    · obtain ⟨a, b, rfl, ha⟩ := List.eq_append_cons_of_mem hs
      exact cons a b ha (ih b.length (by simp; omega) b rfl)
    · exact line s hs

lemma of_mem_pieces (h : z ∈ pieces sep s) : z ≠ [] ∧ sep ∉ z ∧ z ⊆ s ∧
    (∀ c, z.head? = some c → isAsciiBlank c = false) ∧ ∀ c, z.getLast? = some c →
      isAsciiBlank c = false := by
  have hline {a : List Char} (ha : sep ∉ a) (hz : z ∈ pieces sep a) : z ≠ [] ∧ sep ∉ z ∧ z ⊆ a ∧
      (∀ c, z.head? = some c → isAsciiBlank c = false) ∧ ∀ c, z.getLast? = some c →
        isAsciiBlank c = false := by
    rw [pieces_of_not_mem ha, List.mem_filter, List.mem_singleton] at hz
    obtain ⟨rfl, hne⟩ := hz
    exact ⟨by simpa using hne, fun hm => ha (trim_subset _ a hm), trim_subset _ a,
      fun c => head?_trim_eq_some, fun c => getLast?_trim_eq_some⟩
  induction s using lines_induction sep with
  | line s hs => exact hline hs h
  | cons a b ha ih =>
    rw [pieces_append_cons, List.mem_append] at h
    rcases h with h | h
    · obtain ⟨hne, hsep, hsub, hends⟩ := hline ha h
      exact ⟨hne, hsep, List.subset_append_of_subset_left _ hsub, hends⟩
    · obtain ⟨hne, hsep, hsub, hends⟩ := ih h
      exact ⟨hne, hsep, List.subset_append_of_subset_right a (List.subset_cons_of_subset sep hsub),
        hends⟩

/-! ## Texts side by side -/

lemma pieces_of_mem (hz : sep ∉ z) (hm : c ∈ z) (hc : isAsciiBlank c = false) :
    pieces sep z = [trim isAsciiBlank z] := by
  have ht : trim isAsciiBlank z ≠ [] := fun h => by simp [trim_eq_nil_iff.mp h c hm] at hc
  simp [pieces_of_not_mem hz, ht]

lemma pieces_eq_nil_or (hz : sep ∉ z) :
    pieces sep z = [] ∨ trim isAsciiBlank z ≠ [] ∧ pieces sep z = [trim isAsciiBlank z] := by
  by_cases ht : trim isAsciiBlank z = [] <;> simp [pieces_of_not_mem hz, ht]

lemma exists_pieces_append (sep : Char) (s : List Char) :
    ∃ ps z, sep ∉ z ∧ ∀ t, pieces sep (s ++ t) = ps ++ pieces sep (z ++ t) := by
  by_cases hs : sep ∈ s
  · obtain ⟨a, z, rfl, hz⟩ := exists_last_of_mem hs
    refine ⟨pieces sep a, z, hz, fun t => ?_⟩
    rw [List.append_assoc, List.cons_append, pieces_append_cons]
  · exact ⟨[], s, hs, fun t => rfl⟩

lemma length_pieces_append_cons (hsep : isAsciiBlank sep = true) (hz : sep ∉ z)
    (hc : isAsciiBlank c = false) (t : List Char) :
    (pieces sep (z ++ c :: t)).length = (pieces sep (c :: t)).length := by
  have hne : sep ≠ c := fun h => Bool.false_ne_true (hc.symm.trans (h ▸ hsep))
  have hline {a : List Char} (ha : sep ∉ a) : (pieces sep (z ++ c :: a)).length =
      (pieces sep (c :: a)).length := by
    have ha' := List.not_mem_cons_of_ne_of_not_mem hne ha
    rw [pieces_of_mem (List.not_mem_append hz ha') (List.mem_append_right z List.mem_cons_self) hc,
      pieces_of_mem ha' List.mem_cons_self hc, List.length_singleton, List.length_singleton]
  by_cases ht : sep ∈ t
  · obtain ⟨a, b, rfl, ha⟩ := List.eq_append_cons_of_mem ht
    rw [← List.cons_append, ← List.append_assoc, pieces_append_cons, pieces_append_cons,
      List.length_append, List.length_append, hline ha]
  · exact hline ht

lemma length_pieces_cons_le (hsep : isAsciiBlank sep = true) (hc : isAsciiBlank c = false)
    (s t : List Char) :
    (pieces sep (c :: t)).length ≤ (pieces sep (s ++ c :: t)).length := by
  obtain ⟨ps, z, hz, h⟩ := exists_pieces_append sep s
  rw [h, List.length_append, length_pieces_append_cons hsep hz hc]
  exact Nat.le_add_left _ _

lemma pieces_line_append (hsep : isAsciiBlank sep = true) (hz : sep ∉ z) (t : List Char) :
    pieces sep (z ++ t) = pieces sep z ++ pieces sep t ∨
      (pieces sep (z ++ t)).length = (pieces sep t).length := by
  induction t generalizing z with
  | nil =>
    left
    rw [pieces_nil, List.append_nil, List.append_nil]
  | cons c t ih =>
    cases hc : isAsciiBlank c with
    | false => exact .inr (length_pieces_append_cons hsep hz hc t)
    | true =>
      rw [pieces_cons_blank hc]
      by_cases hne : c = sep
      · exact .inl (hne ▸ pieces_append_cons z t)
      · have hzc : pieces sep (z ++ [c]) = pieces sep z := pieces_append_right z (by simpa using hc)
        rw [← List.singleton_append, ← List.append_assoc, ← hzc]
        exact ih (List.not_mem_append hz (by simpa using Ne.symm hne))

lemma count_trim (hc : p c = false) (s : List Char) : (trim p s).count c = s.count c := by
  obtain ⟨a, b, hs, ha, hb⟩ := exists_trim p s
  have hno {u : List Char} (hu : ∀ d ∈ u, p d = true) : u.count c = 0 :=
    List.count_eq_zero.mpr fun hm => Bool.false_ne_true (hc.symm.trans (hu c hm))
  conv_rhs => rw [hs]
  rw [List.count_append, List.count_append, hno ha, hno hb, Nat.zero_add, Nat.add_zero]

lemma count_pieces (hsep : c ≠ sep) (hc : isAsciiBlank c = false) (s : List Char) :
    (pieces sep s).flatten.count c = s.count c := by
  have hline {a : List Char} (ha : sep ∉ a) : (pieces sep a).flatten.count c = a.count c := by
    rw [← count_trim hc a, pieces_of_not_mem ha]
    by_cases ht : trim isAsciiBlank a = [] <;> simp [ht]
  induction s using lines_induction sep with
  | line s hs => exact hline hs
  | cons a b ha ih =>
    rw [pieces_append_cons, List.flatten_append, List.count_append, hline ha, ih, List.count_append,
      List.count_cons_of_ne hsep.symm]

end TarRecipe.Text
