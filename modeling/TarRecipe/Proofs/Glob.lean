import TarRecipe.Execute
import TarRecipe.Proofs.Glob.Matching
import TarRecipe.Proofs.Glob.Reading

/-! What globs match, as a whole and segment by segment. -/

namespace TarRecipe.Glob

/-- The pieces alone are a pattern, and it matches the segment. -/
def Meets (ps : List Piece) (segment : List Char) : Prop :=
  matchPath (String.ofList (spell ps)) (String.ofList segment) = .ok true

variable {p : Piece} {ps : List Piece} {s : List Char} {pattern : String}

/-! ## Segments -/

lemma splitOn_append_of_not_mem {u v : List Char} (hu : '/' ∉ u) :
    (u ++ v).splitOn '/' = (v.splitOn '/').modifyHead (u ++ ·) := by
  induction u with
  | nil => exact (congrFun List.modifyHead_id _).symm
  | cons c u ih =>
    simp only [List.mem_cons, not_or] at hu
    rw [List.cons_append, List.splitOn_cons_eq_if_modifyHead, if_neg (by simpa using Ne.symm hu.1),
      ih hu.2, List.modifyHead_modifyHead]
    rfl

lemma slash_not_mem (hp : p ≠ .literal '/') {u : List Char} (hu : u ∈ p.language) : '/' ∉ u := by
  cases p with
  | literal c =>
    obtain rfl : u = [c] := hu
    simpa [eq_comm] using hp
  | anyOne =>
    obtain ⟨c, rfl, hc⟩ := hu
    simpa using Ne.symm hc
  | stars more => exact hu
  | oneOf negated first others =>
    obtain ⟨c, rfl, hc, -⟩ := hu
    simpa using Ne.symm hc

lemma segments_of_mem (h : s ∈ language ps) :
    List.Forall₂ (fun qs segment => segment ∈ language qs) (ps.splitOn (.literal '/'))
      (s.splitOn '/') := by
  induction ps generalizing s with
  | nil =>
    obtain rfl : s = [] := h
    exact .cons rfl .nil
  | cons p ps ih =>
    obtain ⟨u, hu, v, hv, rfl⟩ := mem_language_cons.mp h
    have hrest := ih hv
    rw [List.splitOn_cons_eq_if_modifyHead]
    by_cases hp : p = .literal '/'
    · subst hp
      obtain rfl : u = ['/'] := hu
      rw [List.singleton_append, List.splitOn_cons_eq_if_modifyHead]
      exact .cons rfl hrest
    · rw [if_neg (by simpa using hp), splitOn_append_of_not_mem (slash_not_mem hp hu)]
      -- No piece but a slash meets one, so what the piece meets goes before the first segment.
      generalize ps.splitOn (.literal '/') = qss at hrest ⊢
      generalize v.splitOn '/' = segments at hrest ⊢
      cases hrest with
      | nil => exact .nil
      | cons hfirst hothers => exact .cons (mem_language_cons.mpr ⟨u, hu, _, hfirst, rfl⟩) hothers

lemma mem_language_append {qs : List Piece} {u v : List Char} (hu : u ∈ language ps)
    (hv : v ∈ language qs) :
    u ++ v ∈ language (ps ++ qs) := by
  rw [language, List.map_append, List.prod_append]
  exact Language.append_mem_mul hu hv

lemma mem_of_segments {qss : List (List Piece)} {segments : List (List Char)}
    (h : List.Forall₂ (fun qs segment => segment ∈ language qs) qss segments) :
    ['/'].intercalate segments ∈ language ([.literal '/'].intercalate qss) := by
  induction h with
  | nil => rfl
  | cons hfirst hothers ih =>
    cases hothers with
    | nil => simpa using hfirst
    | cons hsecond hothers =>
      rw [List.intercalate_cons_cons, List.intercalate_cons_cons]
      have hslash : ['/'] ∈ language [.literal '/'] :=
        mem_language_cons.mpr ⟨['/'], rfl, [], rfl, rfl⟩
      exact mem_language_append (mem_language_append hfirst hslash) ih

lemma mem_language_iff_segments : s ∈ language ps ↔
    List.Forall₂ (fun qs segment => segment ∈ language qs) (ps.splitOn (.literal '/'))
      (s.splitOn '/') := by
  constructor
  · exact segments_of_mem
  · intro h
    have hmem := mem_of_segments h
    rwa [List.intercalate_splitOn, List.intercalate_splitOn] at hmem

/-! ## Patterns -/

lemma language_oneStar (ps : List Piece) : language (oneStar ps) = language ps := by
  ext s
  fun_induction oneStar ps generalizing s with
  | case1 _ more ps ih =>
    rw [ih]
    simp only [mem_language_cons]
    constructor
    · rintro ⟨u, hu, v, hv, rfl⟩
      exact ⟨[], List.not_mem_nil, u ++ v, ⟨u, hu, v, hv, rfl⟩, rfl⟩
    · rintro ⟨u, hu, _, ⟨u', hu', v, hv, rfl⟩, rfl⟩
      exact ⟨u ++ u', List.not_mem_append hu hu', v, hv, List.append_assoc u u' v⟩
  | case2 more ps _ ih =>
    simp only [mem_language_cons, ih]
    rfl
  | case3 p ps _ _ ih => simp only [mem_language_cons, ih]
  | case4 => rfl

lemma compile_spells (h : Spells ps pattern.toList) :
    compile pattern = .ok ⟨(oneStar ps).map Piece.token⟩ := by
  obtain ⟨_, hread⟩ := read_oneStar (s := []) h.1 (by simp) 0 none []
  rw [List.append_nil, h.collapseStars.2, read.eq_def _ _ _ []] at hread
  rw [compile, ofChars, hread]
  simp [Except.map]

lemma compile_leavesOpen {position : Nat} (h : LeavesOpen pattern.toList position) :
    compile pattern = .error ⟨position, .range⟩ := by
  obtain ⟨ps, _, rest, ⟨hps, rfl⟩, hs, hrest, rfl⟩ := h
  obtain ⟨_, hread⟩ := read_oneStar (s := '[' :: rest) hps (by simp) 0 none []
  rw [← fold_open hrest, ← fold_spell hps (by simp), hs, ← collapseStars_eq_fold, fold_open hrest,
    read_bracket, class?_of_not_closed hrest, Nat.zero_add] at hread
  rw [compile, ofChars, hread]
  rfl

lemma isMatch_iff (ps : List Piece) (path : String) :
    isMatch ⟨(oneStar ps).map Piece.token⟩ path = true ↔ path.toList ∈ language ps := by
  rw [isMatch, decide_eq_true_iff, (decides_run (oneStar ps) true path.toList).matched_iff,
    language_oneStar]

lemma matchPath_spells (h : Spells ps pattern.toList) (path : String) :
    matchPath pattern path = .ok (isMatch ⟨(oneStar ps).map Piece.token⟩ path) := by
  rw [matchPath, compileOne, compile_spells h]
  rfl

lemma matchPath_leavesOpen {position : Nat} (h : LeavesOpen pattern.toList position)
    (path : String) :
    matchPath pattern path = .error (.pattern (.glob pattern ⟨position, .range⟩)) := by
  rw [matchPath, compileOne, compile_leavesOpen h]
  rfl

lemma meets_iff (h : ∀ p ∈ ps, p.Proper) (segment : List Char) :
    Meets ps segment ↔ segment ∈ language ps := by
  have hps : Spells ps (String.ofList (spell ps)).toList := ⟨h, String.toList_ofList.symm⟩
  rw [Meets, matchPath_spells hps, Except.ok.injEq, isMatch_iff, String.toList_ofList]

lemma mem_of_mem_splitOn {q : Piece} {qs : List Piece} (hqs : qs ∈ ps.splitOn q) (hp : p ∈ qs) :
    p ∈ ps := by
  have hsub := sublist_intercalate_of_mem (a := q) hqs
  rw [List.intercalate_splitOn] at hsub
  exact hsub.subset hp

/-! ## Patterns without wildcards -/

def Plain (s : List Char) : Prop := ∀ c ∈ s, c ≠ '*' ∧ c ≠ '?' ∧ c ≠ '['

lemma spells_plain {s : List Char} (h : Plain s) : Spells (s.map .literal) s := by
  refine ⟨fun p hp => ?_, ?_⟩
  · obtain ⟨c, hc, rfl⟩ := List.mem_map.mp hp
    exact h c hc
  · simp [spell, List.flatMap_map, Piece.text]

lemma mem_language_literals (s t : List Char) : t ∈ language (s.map .literal) ↔ t = s := by
  induction s generalizing t with
  | nil => rfl
  | cons c s ih =>
    rw [List.map_cons, mem_language_cons]
    simp only [ih]
    constructor
    · rintro ⟨_, rfl, _, rfl, rfl⟩
      rfl
    · rintro rfl
      exact ⟨[c], rfl, s, rfl, rfl⟩

lemma compile_plain {pattern : String} (h : Plain pattern.toList) :
    compile pattern = .ok ⟨(oneStar (pattern.toList.map .literal)).map Piece.token⟩ :=
  compile_spells (spells_plain h)

/-! ## Paths by segments -/

theorem matchPath_segmentwise (pattern : String) :
    (∀ path e, matchPath pattern path = .error e ↔ ∃ position,
      LeavesOpen pattern.toList position ∧ e = .pattern (.glob pattern ⟨position, .range⟩)) ∧
    ((¬ ∃ position, LeavesOpen pattern.toList position) → ∃ ps, Spells ps pattern.toList) ∧
    ∀ ps, Spells ps pattern.toList →
      Spells (oneStar ps) (collapseStars pattern.toList) ∧
      compile pattern = .ok ⟨(oneStar ps).map Piece.token⟩ ∧
      ∀ path : String, ∃ found, matchPath pattern path = .ok found ∧
        (found = true ↔ path.toList ∈ language ps) ∧
        (found = true ↔
          List.Forall₂ Meets (ps.splitOn (.literal '/')) (path.toList.splitOn '/')) := by
  refine ⟨fun path e => ⟨fun he => ?_, ?_⟩, (exists_spells pattern.toList).resolve_right, ?_⟩
  · rcases exists_spells pattern.toList with ⟨ps, hps⟩ | ⟨position, hopen⟩
    · cases (matchPath_spells hps path).symm.trans he
    · exact ⟨position, hopen, Except.error.inj (he.symm.trans (matchPath_leavesOpen hopen path))⟩
  · rintro ⟨position, hopen, rfl⟩
    exact matchPath_leavesOpen hopen path
  intro ps hps
  refine ⟨hps.collapseStars, compile_spells hps, fun path => ⟨_, matchPath_spells hps path, ?_⟩⟩
  have hmatch := isMatch_iff ps path
  refine ⟨hmatch, hmatch.trans (mem_language_iff_segments.trans ?_)⟩
  simp only [List.forall₂_iff_zip]
  refine and_congr_right fun _ => forall_congr' fun qs => forall_congr' fun segment =>
    imp_congr_right fun hmem => ?_
  have hqs : ∀ p ∈ qs, p.Proper := fun p hp =>
    hps.1 p (mem_of_mem_splitOn (List.of_mem_zip hmem).1 hp)
  exact (meets_iff hqs segment).symm

theorem matchPath_segmentwise_class :
    matchPath "**[!]" "a" = .error (.pattern (.glob "**[!]" ⟨1, .range⟩)) ∧
    Spells [.oneOf false '*' ['/'], .stars 1, .literal '/', .anyOne] "[*/]**/?".toList ∧
    List.Forall₂ Meets [[.oneOf false '*' ['/'], .stars 1], [.anyOne]]
      ["*bc".toList, "d".toList] := by
  have hps : Spells [.oneOf false '*' ['/'], .stars 1, .literal '/', .anyOne] "[*/]**/?".toList :=
    ⟨by simp [Piece.Proper], rfl⟩
  refine ⟨?_, hps, ?_⟩
  · have hstars : Spells [.stars 1] ['*', '*'] := ⟨by simp [Piece.Proper], rfl⟩
    exact ((matchPath_segmentwise "**[!]").1 "a" _).mpr
      ⟨1, ⟨_, _, ['!', ']'], hstars, rfl, by simp [Closed], rfl⟩, rfl⟩
  · obtain ⟨found, hfound, _, hsegments⟩ :=
      ((matchPath_segmentwise "[*/]**/?").2.2 _ hps).2.2 "*bc/d"
    have htrue : matchPath "[*/]**/?" "*bc/d" = .ok true := by cbv
    exact hsegments.mp (Except.ok.inj (hfound.symm.trans htrue))

end TarRecipe.Glob
