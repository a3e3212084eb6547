import Mathlib
import TarRecipe.Proofs.Agreement
import TarRecipe.Proofs.Recipe.Passes
import TarRecipe.Proofs.Recipe.Seam
import TarRecipe.Proofs.Text.Decoding

/-! Two texts of commands, one below the other. -/

namespace TarRecipe

open Text

namespace Lines

variable {s t x v : List Char} {c : Char}

lemma logicalLines_blank_append (hs : ∀ b ∈ s, isAsciiBlank b = true) (t : List Char) :
    logicalLines (s ++ t) = logicalLines t := by
  rw [logicalLines_eq, logicalLines_eq, stripComments_append (not_mem_of_blank hs rfl),
    joinContinued_append_of_not_mem (not_mem_of_blank hs rfl),
    joinBracketed_append (not_mem_of_blank hs rfl), pieces_append_left hs]

lemma logicalLines_append_blank (s : List Char) (ht : ∀ b ∈ t, isAsciiBlank b = true)
    (hn : '\n' ∉ t) :
    logicalLines (s ++ t) = logicalLines s := by
  obtain ⟨inComment, hstrip⟩ := exists_stripComments_append false s
  obtain ⟨inBrackets, hbracket⟩ :=
    exists_joinBracketed_append false (joinContinued (stripComments false s))
  have hsub := stripComments_subset inComment t
  have hn' : '\n' ∉ stripComments inComment t := fun h => hn (hsub h)
  rw [logicalLines_eq, logicalLines_eq, hstrip,
    joinContinued_append_of (.inr fun h => hn' (List.mem_of_head? h)),
    joinContinued_of_not_mem (.inl hn'), hbracket, pieces_append_right]
  exact fun b hb => ht b (hsub (joinBracketed_subset inBrackets _ hb))

lemma logicalLines_trim_of_getLast? (h : s.getLast? = some c) (hc : isAsciiBlank c = false) :
    logicalLines (trim isAsciiBlank s) = logicalLines s := by
  obtain ⟨a, hs, ha⟩ := exists_trim_of_getLast? h hc
  conv_rhs => rw [hs, logicalLines_blank_append ha]

/-! ## The end of a text -/

def lastLine (s : List Char) : List Char :=
  (((s.splitOn '\n').filter fun line => trim isAsciiBlank line ≠ []).getLast?).getD []

def Continued (s : List Char) : Prop := (stripComments false (lastLine s)).getLast? = some '\\'

instance : Decidable (Continued s) := inferInstanceAs (Decidable (_ = _))

lemma lines_of_blank (hs : ∀ b ∈ s, isAsciiBlank b = true) :
    (s.splitOn '\n').filter (fun line => trim isAsciiBlank line ≠ []) = [] := by
  have hp : pieces '\n' s = [] := pieces_of_blank hs
  rwa [pieces, List.filter_map, List.map_eq_nil_iff] at hp

lemma lastLine_append_blank (s : List Char) (ht : ∀ b ∈ t, isAsciiBlank b = true) :
    lastLine (s ++ '\n' :: t) = lastLine s := by
  rw [lastLine, List.splitOn_append_cons_self, List.filter_append, lines_of_blank ht,
    List.append_nil, lastLine]

lemma lastLine_of_line {line : List Char} (hn : '\n' ∉ line) (hb : c ∈ line)
    (hc : isAsciiBlank c = false) :
    lastLine line = line ∧ ∀ s, lastLine (s ++ '\n' :: line) = line := by
  have ht : trim isAsciiBlank line ≠ [] := fun h => by simp [trim_eq_nil_iff.mp h c hb] at hc
  constructor
  · simp [lastLine, List.splitOn_eq_singleton hn, ht]
  · intro s
    have hline : [line].filter (fun line => trim isAsciiBlank line ≠ []) = [line] := by simp [ht]
    rw [lastLine, List.splitOn_append_cons_self, List.splitOn_eq_singleton hn, List.filter_append,
      hline, List.getLast?_concat]
    rfl

lemma continued_append_iff (hc : isAsciiBlank c = false) (hn : '\n' ∉ t) :
    Continued (s ++ c :: t) ↔ (stripComments false (s ++ c :: t)).getLast? = some '\\' := by
  have hct : '\n' ∉ c :: t :=
    List.not_mem_cons_of_ne_of_not_mem (fun h => by simp [← h, isAsciiBlank] at hc) hn
  by_cases hs : '\n' ∈ s
  · obtain ⟨a, b, rfl, hb⟩ := exists_last_of_mem hs
    have hline :=
      (lastLine_of_line (List.not_mem_append hb hct)
        (List.mem_append_right b List.mem_cons_self) hc).2 a
    rw [List.append_assoc, List.cons_append, Continued, hline, stripComments_newline,
      List.getLast?_append_of_ne_nil _ (List.cons_ne_nil _ _)]
    cases stripComments false (b ++ c :: t) with
    | nil => decide
    | cons d u => rw [List.getLast?_cons_cons]
  · rw [Continued,
      (lastLine_of_line (List.not_mem_append hs hct)
        (List.mem_append_right s List.mem_cons_self) hc).1]

lemma not_continued_of_blank (hs : ∀ b ∈ s, isAsciiBlank b = true) : ¬ Continued s := by
  rw [Continued, lastLine, lines_of_blank hs]
  decide

/-- `x` is the text up to the end of its last line, and `v` are the empty lines behind it. -/
structure Ends (s x v : List Char) : Prop where
  eq : s ++ ['\n'] = x ++ '\n' :: v
  blank : ∀ b ∈ v, isAsciiBlank b = true
  line : trim isAsciiBlank s ≠ [] → ∃ a c b, x = a ++ c :: b ∧ isAsciiBlank c = false ∧ '\n' ∉ b

lemma Ends.append (h : Ends s x v) (t : List Char) : s ++ '\n' :: t = x ++ '\n' :: (v ++ t) := by
  rw [← List.singleton_append, ← List.append_assoc, h.eq, List.append_assoc]
  rfl

lemma Ends.continued_iff (h : Ends s x v) :
    Continued s ↔ (stripComments false x).getLast? = some '\\' := by
  by_cases hs : trim isAsciiBlank s = []
  · have hblank : ∀ b ∈ x, isAsciiBlank b = true := by
      intro b hb
      have hm : b ∈ s ++ ['\n'] := h.eq ▸ List.mem_append_left _ hb
      rcases List.mem_append.mp hm with hm | hm
      · exact trim_eq_nil_iff.mp hs b hm
      · rw [List.mem_singleton.mp hm]
        rfl
    refine iff_of_false (not_continued_of_blank (trim_eq_nil_iff.mp hs)) fun hx => ?_
    exact not_mem_of_blank hblank rfl (stripComments_subset false x (List.mem_of_getLast? hx))
  · have hlast : lastLine x = lastLine s := by
      rw [← lastLine_append_blank x h.blank, ← h.eq]
      exact lastLine_append_blank s (List.forall_mem_nil _)
    obtain ⟨a, c, b, rfl, hc, hb⟩ := h.line hs
    rw [← continued_append_iff hc hb, Continued, Continued, hlast]

lemma Ends.closed_iff (h : Ends s x v) :
    Closed (stripComments false s) ↔ Closed (stripComments false x) := by
  have hstrip := congrArg (stripComments false) h.eq
  rw [stripComments_newline, stripComments_newline] at hstrip
  have hrest {d : Char} (hd : isAsciiBlank d = false) : d ∉ '\n' :: stripComments false v := by
    refine not_mem_of_blank (List.forall_mem_cons.mpr ⟨rfl, fun b hb => ?_⟩) hd
    exact h.blank b (stripComments_subset false v hb)
  constructor
  · intro hs
    exact Closed.of_append_left (hstrip ▸ hs.append (.of_not_mem (by decide))) (hrest rfl)
  · intro hx
    exact Closed.of_append_left (hstrip ▸ hx.append (.of_not_mem (hrest rfl))) (by decide)

lemma exists_ends (s : List Char) :
    ∃ x v, Ends s x v ∧ logicalLines (trim isAsciiBlank s) = logicalLines x := by
  obtain ⟨a, b, hs, ha, hb⟩ := exists_trim isAsciiBlank s
  obtain ⟨y, v, hyv, hy⟩ :=
    List.eq_append_cons_of_mem (List.mem_append_right b (List.mem_singleton_self '\n'))
  have hblank : ∀ d ∈ y ++ '\n' :: v, isAsciiBlank d = true :=
    hyv ▸ List.forall_mem_append.mpr ⟨hb, List.forall_mem_singleton.mpr rfl⟩
  rw [List.forall_mem_append, List.forall_mem_cons] at hblank
  refine ⟨a ++ (trim isAsciiBlank s ++ y), v, ⟨?_, hblank.2.2, fun hne => ?_⟩, ?_⟩
  · conv_lhs => rw [hs, List.append_assoc, hyv]
    simp
  · obtain ⟨c, hc⟩ := Option.ne_none_iff_exists'.mp (List.getLast?_eq_none_iff.not.mpr hne)
    obtain ⟨u, hu⟩ := List.getLast?_eq_some_iff.mp hc
    exact ⟨a ++ u, c, y, by simp [hu], getLast?_trim_eq_some hc, hy⟩
  · rw [logicalLines_blank_append ha, logicalLines_append_blank _ hblank.1 hy]

/-! ## Two texts -/

lemma read_congr (h : logicalLines s = logicalLines t) : read s = read t := by rw [read, read, h]

lemma read_joined_iff {r₁ r₂ : Recipe} (h₁ : read (trim isAsciiBlank s) = .ok r₁)
    (h₂ : read (trim isAsciiBlank t) = .ok r₂) :
    read (trim isAsciiBlank (s ++ '\n' :: t)) = .ok (r₁ ++ r₂) ↔
      (Continued s → ∀ b ∈ t, isAsciiBlank b = true) ∧
        (Closed (stripComments false s) ∨ r₂ = []) := by
  by_cases ht : trim isAsciiBlank t = []
  · have hblank := trim_eq_nil_iff.mp ht
    obtain rfl : r₂ = [] := (logicalLines_eq_nil_iff h₂).mp (by rw [ht]; rfl)
    rw [trim_append_right s (List.forall_mem_cons.mpr ⟨rfl, hblank⟩), List.append_nil]
    exact iff_of_true h₁ ⟨fun _ => hblank, .inr rfl⟩
  · obtain ⟨a, b, ht', ha, hb⟩ := exists_trim isAsciiBlank t
    obtain ⟨d, hd⟩ := Option.ne_none_iff_exists'.mp (List.getLast?_eq_none_iff.not.mpr ht)
    obtain ⟨x, v, hends, hx⟩ := exists_ends s
    have hrest : logicalLines (v ++ (a ++ trim isAsciiBlank t)) =
        logicalLines (trim isAsciiBlank t) := by
      rw [logicalLines_blank_append hends.blank, logicalLines_blank_append ha]
    -- blanks in front do not count, so only those at the end have to be trimmed
    have htrim : trim isAsciiBlank (s ++ '\n' :: t) =
        trim isAsciiBlank (s ++ '\n' :: (a ++ trim isAsciiBlank t)) := by
      conv_lhs => rw [ht', ← List.cons_append, ← List.append_assoc, trim_append_right _ hb]
    have hd' : (s ++ '\n' :: (a ++ trim isAsciiBlank t)).getLast? = some d := by
      rw [← List.cons_append, ← List.append_assoc, List.getLast?_append_of_ne_nil _ ht, hd]
    have hlines : logicalLines (trim isAsciiBlank (s ++ '\n' :: t)) =
        logicalLines (x ++ '\n' :: (v ++ (a ++ trim isAsciiBlank t))) := by
      rw [htrim, logicalLines_trim_of_getLast? hd' (getLast?_trim_eq_some hd), hends.append]
    rw [read_congr hx] at h₁
    rw [← read_congr hrest] at h₂
    rw [read_congr hlines, read_append_newline_iff h₁ h₂, ne_eq, ← hends.continued_iff,
      ← hends.closed_iff]
    exact and_congr_left fun _ =>
      ⟨fun h hc => absurd hc h, fun h hc => ht (trim_eq_nil_iff.mpr (h hc))⟩

lemma IsLines.joined (hs : IsLines s) (ht : IsLines t) : IsLines (s ++ '\n' :: t) := by
  rw [IsLines]
  by_cases hu : trim isAsciiBlank s = []
  · rwa [trim_append_left (trim_eq_nil_iff.mp hu), trim_cons_of_pos rfl]
  · rwa [head?_trim_append hu]

end Lines

/-- Two texts of commands that are accepted give the commands of both one below the other, unless
the first one ends in the middle of a line. -/
theorem Recipe.parse_joined {data₁ data₂ : Bytes} {s t : List Char} {r₁ r₂ : Recipe}
    (hs : Utf8.decode data₁ = .ok s) (ht : Utf8.decode data₂ = .ok t) (hls : Lines.IsLines s)
    (hlt : Lines.IsLines t) (h₁ : Recipe.parse data₁ = .ok r₁) (h₂ : Recipe.parse data₂ = .ok r₂) :
    Recipe.parse (data₁ ++ 0x0A :: data₂) = .ok (r₁ ++ r₂) ↔
      (Lines.Continued s → ∀ c ∈ t, isAsciiBlank c = true) ∧
        (Lines.Closed (Lines.stripComments false s) ∨ r₂ = []) := by
  have hd : Utf8.decode (data₁ ++ 0x0A :: data₂) = .ok (s ++ '\n' :: t) :=
    Utf8.decode_append hs (Utf8.decode_append (t := [0x0A]) rfl ht)
  rw [Lines.parse_eq_ok_iff hs hls] at h₁
  rw [Lines.parse_eq_ok_iff ht hlt] at h₂
  rw [Lines.parse_eq_ok_iff hd (hls.joined hlt)]
  exact Lines.read_joined_iff h₁ h₂

/-! A backslash with a blank behind it, above one that ends the file. -/

def spaced : List Char := "COPY a[b] \\ \n\t\n".toList

def noted : List Char := "# then\nMKDIR c\\".toList

theorem Recipe.parse_joined_spaced :
    Recipe.parse (Utf8.encode spaced ++ 0x0A :: Utf8.encode noted) =
      .ok [⟨"COPY", ["a[b]", "\\"]⟩, ⟨"MKDIR", ["c\\"]⟩] := by
  have h₁ : Recipe.parse (Utf8.encode spaced) = .ok [⟨"COPY", ["a[b]", "\\"]⟩] := by cbv
  have h₂ : Recipe.parse (Utf8.encode noted) = .ok [⟨"MKDIR", ["c\\"]⟩] := by cbv
  exact (Recipe.parse_joined (Utf8.decode_encode spaced) (Utf8.decode_encode noted) (by decide)
    (by decide) h₁ h₂).mpr
    ⟨fun h => absurd h (by decide), .inl (by decide)⟩

theorem Recipe.not_parse_joined : ¬ ∀ (data₁ data₂ : Bytes) (s t : List Char) (r₁ r₂ : Recipe),
    Utf8.decode data₁ = .ok s → Utf8.decode data₂ = .ok t → Lines.IsLines s → Lines.IsLines t →
      Recipe.parse data₁ = .ok r₁ → Recipe.parse data₂ = .ok r₂ →
        Recipe.parse (data₁ ++ 0x0A :: data₂) = .ok (r₁ ++ r₂) := by
  intro h
  have h₁ : Recipe.parse (Utf8.encode "MKDIR a\\".toList) = .ok [⟨"MKDIR", ["a\\"]⟩] := by cbv
  have h₂ : Recipe.parse (Utf8.encode "MKDIR b".toList) = .ok [⟨"MKDIR", ["b"]⟩] := by cbv
  have hj :=
    h _ _ _ _ _ _ (Utf8.decode_encode _) (Utf8.decode_encode _) (by decide) (by decide) h₁ h₂
  have hr : Recipe.parse (Utf8.encode "MKDIR a\\".toList ++ 0x0A :: Utf8.encode "MKDIR b".toList) =
      .ok [⟨"MKDIR", ["aMKDIR", "b"]⟩] := by cbv
  exact absurd (Except.ok.inj (hr.symm.trans hj)) (by decide)

/-! So does a bracket that is still open. -/

example : Recipe.parse (textBytes "MKDIR a[\nMKDIR b") = .ok [⟨"MKDIR", ["a[MKDIR", "b"]⟩] := by cbv

end TarRecipe
