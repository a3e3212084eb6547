import TarRecipe.Proofs.Glob.Pieces

/-! What the matcher finds: a search that stops early where the path is exhausted loses no match. -/

namespace TarRecipe.Glob

variable {p : Piece} {s t : List Char} {c : Char} {v w : Verdict} {L : Language Char}

/-- The verdict on a text is right, and if the text is exhausted then no end of it is in the
language. -/
structure Decides (L : Language Char) (s : List Char) (v : Verdict) : Prop where
  matched_iff : v = .matched ↔ s ∈ L
  exhausted : v = .exhausted → ∀ t, t <:+ s → t ∉ L

/-! ## Stars -/

def segment : Language Char := {s | '/' ∉ s}

lemma mem_segment_mul : s ∈ segment * L ↔ ∃ u v, '/' ∉ u ∧ v ∈ L ∧ u ++ v = s := by
  rw [Language.mem_mul]
  constructor
  · rintro ⟨u, hu, v, hv, h⟩
    exact ⟨u, v, hu, hv, h⟩
  · rintro ⟨u, v, hu, hv, h⟩
    exact ⟨u, hu, v, hv, h⟩

lemma mem_segment_mul_of_mem (h : s ∈ L) : s ∈ segment * L :=
  mem_segment_mul.mpr ⟨[], s, List.not_mem_nil, h, rfl⟩

lemma nil_mem_segment_mul : [] ∈ segment * L ↔ [] ∈ L := by
  refine ⟨fun h => ?_, mem_segment_mul_of_mem⟩
  obtain ⟨u, v, _, hv, h⟩ := mem_segment_mul.mp h
  rwa [(List.append_eq_nil_iff.mp h).2] at hv

lemma cons_mem_segment_mul : c :: s ∈ segment * L ↔ c :: s ∈ L ∨ c ≠ '/' ∧ s ∈ segment * L := by
  constructor
  · intro h
    obtain ⟨u, v, hu, hv, h⟩ := mem_segment_mul.mp h
    cases u with
    | nil =>
      rw [List.nil_append] at h
      exact .inl (h ▸ hv)
    | cons d u =>
      obtain ⟨rfl, rfl⟩ := List.cons.inj h
      simp only [List.mem_cons, not_or] at hu
      exact .inr ⟨Ne.symm hu.1, mem_segment_mul.mpr ⟨u, v, hu.2, hv, rfl⟩⟩
  · rintro (h | ⟨hc, h⟩)
    · exact mem_segment_mul_of_mem h
    · obtain ⟨u, v, hu, hv, rfl⟩ := mem_segment_mul.mp h
      refine mem_segment_mul.mpr ⟨c :: u, v, ?_, hv, rfl⟩
      simp only [List.mem_cons, not_or]
      exact ⟨Ne.symm hc, hu⟩

lemma not_mem_segment_mul (h : ∀ t, t <:+ s → t ∉ L) : ∀ t, t <:+ s → t ∉ segment * L := by
  intro t ht hmem
  obtain ⟨u, v, _, hv, rfl⟩ := mem_segment_mul.mp hmem
  exact h v ((List.suffix_append u v).trans ht) hv

lemma Decides.nil (h : Decides L [] v) : Decides (segment * L) [] (v.orTry v) := by
  have hv : v.orTry v = v := by cases v <;> rfl
  rw [hv]
  exact ⟨h.matched_iff.trans nil_mem_segment_mul.symm,
    fun he => not_mem_segment_mul (h.exhausted he)⟩

lemma Decides.cons (hv : Decides L (c :: s) v) (hw : c ≠ '/' → Decides (segment * L) s w) :
    Decides (segment * L) (c :: s) (v.orTry (if c = '/' then .mismatch else w)) := by
  cases v with
  | matched =>
    have hmem := mem_segment_mul_of_mem (hv.matched_iff.mp rfl)
    exact ⟨iff_of_true rfl hmem, fun he => by cases he⟩
  | exhausted =>
    have hno := not_mem_segment_mul (hv.exhausted rfl)
    exact ⟨iff_of_false (fun h => by cases h) (hno _ List.suffix_rfl), fun _ => hno⟩
  | mismatch =>
    have hhere : c :: s ∉ L := fun h => by cases hv.matched_iff.mpr h
    by_cases hc : c = '/'
    · rw [if_pos hc]
      refine ⟨iff_of_false (fun h => by cases h) fun h => ?_, fun he => by cases he⟩
      exact (cons_mem_segment_mul.mp h).elim hhere fun h => h.1 hc
    · rw [if_neg hc]
      have hmem : c :: s ∈ segment * L ↔ s ∈ segment * L := by
        rw [cons_mem_segment_mul, or_iff_right hhere, and_iff_right hc]
      refine ⟨(hw hc).matched_iff.trans hmem.symm, fun he t ht => ?_⟩
      have hno := (hw hc).exhausted he
      rcases List.suffix_cons_iff.mp ht with rfl | ht
      · exact fun h => hno s List.suffix_rfl (hmem.mp h)
      · exact hno t ht

lemma afterStar_cons (rest : Bool → List Char → Verdict) (atStart : Bool) (c : Char)
    (s : List Char) :
    afterStar options false rest atStart (c :: s) =
      if c = '/' then .mismatch
      else (rest (c == '/') s).orTry (afterStar options false rest (c == '/') s) := by
  rw [afterStar]
  simp [options]

lemma decides_star {rest : Bool → List Char → Verdict}
    (h : ∀ atStart s, Decides L s (rest atStart s)) (atStart : Bool) (s : List Char) :
    Decides (segment * L) s ((rest atStart s).orTry (afterStar options false rest atStart s)) := by
  induction s generalizing atStart with
  | nil => exact (h atStart []).nil
  | cons c s ih =>
    rw [afterStar_cons]
    exact (h atStart (c :: s)).cons fun _ => ih _

/-! ## Single characters -/

lemma mem_language_iff_accepts (hp : ∀ more, p ≠ .stars more) (atStart : Bool) (u : List Char) :
    u ∈ p.language ↔ ∃ c, u = [c] ∧ p.token.accepts options atStart c = true := by
  cases p with
  | literal c =>
    change u = [c] ↔ _
    simp [Piece.token, Token.accepts, sameChar, options]
  | anyOne =>
    change (∃ c, u = [c] ∧ c ≠ '/') ↔ _
    simp [Piece.token, Token.accepts, options]
  | stars more => exact absurd rfl (hp more)
  | oneOf negated first others =>
    have hrange : ∀ c, rangeAccepts options c = (·.contains c) := fun c => by
      funext r
      simp [rangeAccepts, options]
    refine exists_congr fun c => and_congr_right fun _ => ?_
    rw [← contains_ranges, ← hrange]
    cases negated <;> simp [Piece.token, Token.accepts, options]

lemma run_single (hp : ∀ more, p ≠ .stars more) (ts : List Token) (atStart : Bool) :
    run options (p.token :: ts) atStart [] = .exhausted ∧
    ∀ c s, run options (p.token :: ts) atStart (c :: s) =
      if p.token.accepts options atStart c then run options ts (c == '/') s else .mismatch := by
  cases p with
  | stars more => exact absurd rfl (hp more)
  | _ => exact ⟨rfl, fun _ _ => rfl⟩

lemma decides_single (hp : ∀ more, p ≠ .stars more) {ts : List Token}
    (h : ∀ atStart s, Decides L s (run options ts atStart s)) (atStart : Bool) (s : List Char) :
    Decides (p.language * L) s (run options (p.token :: ts) atStart s) := by
  obtain ⟨hnil, hcons⟩ := run_single hp ts atStart
  have hmem_nil : [] ∉ p.language * L := by
    simp [Language.mem_mul, mem_language_iff_accepts hp atStart]
  have hmem_cons : ∀ c s, c :: s ∈ p.language * L ↔
      p.token.accepts options atStart c = true ∧ s ∈ L := by
    simp [Language.mem_mul, mem_language_iff_accepts hp atStart]
  cases s with
  | nil =>
    rw [hnil]
    refine ⟨iff_of_false (fun h => by cases h) hmem_nil, fun _ t ht => ?_⟩
    rwa [List.suffix_nil.mp ht]
  | cons c s =>
    rw [hcons]
    split
    · rename_i hc
      refine ⟨(h _ s).matched_iff.trans ?_, fun he t ht => ?_⟩
      · rw [hmem_cons, and_iff_right hc]
      have hno := (h _ s).exhausted he
      cases t with
      | nil => exact hmem_nil
      | cons d t =>
        -- what is behind the first character of an end is an end of what is behind `c`
        have ht : t <:+ s := by
          rcases List.suffix_cons_iff.mp ht with heq | ht
          · rw [(List.cons.inj heq).2]
          · exact (List.suffix_cons d t).trans ht
        exact fun hmem => hno t ht ((hmem_cons d t).mp hmem).2
    · rename_i hc
      exact ⟨iff_of_false (fun h => by cases h) fun h => hc ((hmem_cons c s).mp h).1,
        fun he => by cases he⟩

lemma decides_run (ps : List Piece) (atStart : Bool) (s : List Char) :
    Decides (language ps) s (run options (ps.map Piece.token) atStart s) := by
  induction ps generalizing atStart s with
  | nil =>
    cases s with
    | nil => exact ⟨iff_of_true rfl rfl, fun he => by cases he⟩
    | cons c s =>
      have hno : c :: s ∉ language [] := fun h => by cases h
      exact ⟨iff_of_false (fun h => by cases h) hno, fun he => by cases he⟩
  | cons p ps ih =>
    rw [language, List.map_cons, List.prod_cons]
    by_cases hp : ∃ more, p = .stars more
    · obtain ⟨more, rfl⟩ := hp
      exact decides_star ih atStart s
    · exact decides_single (not_exists.mp hp) ih atStart s

end TarRecipe.Glob
