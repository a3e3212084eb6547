import Mathlib.Data.List.Basic
import Mathlib.Data.List.Forall2
import Mathlib.Tactic.Common
import TarRecipe.Proofs.Json.Rest
import TarRecipe.Proofs.Recipe.Passes

/-! A text below one that ends in a backslash or inside of a bracket. -/

namespace TarRecipe.Lines

open Text

variable {s t z : List Char} {c : Char} {r r₁ r₂ : Recipe}

lemma blank_of_pieces_joinBracketed {inBrackets : Bool}
    (h : pieces '\n' (joinBracketed inBrackets s) = []) :
    ∀ b ∈ s, isAsciiBlank b = true := by
  intro b hb
  by_cases hn : b = '\n'
  · rw [hn]
    rfl
  · exact blank_of_pieces_eq_nil rfl h b (mem_joinBracketed hb hn)

lemma logicalLines_append_newline (hs : (stripComments false s).getLast? ≠ some '\\')
    (hc : Closed (stripComments false s) ∨ logicalLines t = []) :
    logicalLines (s ++ '\n' :: t) = logicalLines s ++ logicalLines t := by
  have hj : joinContinued (stripComments false (s ++ '\n' :: t)) =
      joinContinued (stripComments false s) ++ '\n' :: joinContinued (stripComments false t) := by
    rw [stripComments_newline, joinContinued_append hs, joinContinued_cons (.inl (by decide))]
  rw [logicalLines_eq, hj]
  rcases hc with hc | hc
  · rw [hc.joinContinued.joinBracketed_append (fun h => absurd h Bool.false_ne_true), joinBracketed,
      if_neg Bool.false_ne_true]
    change pieces '\n' (_ ++ '\n' :: joinBracketed false _) = _
    rw [pieces_append_cons]
    rfl
  · have hblank := blank_of_pieces_joinBracketed hc
    obtain ⟨inBrackets, hbracket⟩ :=
      exists_joinBracketed_append false (joinContinued (stripComments false s))
    rw [hc, hbracket, pieces_append_right, List.append_nil]
    · rfl
    · intro b hb
      exact (List.mem_cons.mp (joinBracketed_subset inBrackets _ hb)).elim
        (fun h => h ▸ rfl) (hblank b)

/-! ## Lines that are read -/

lemma read_eq_ok_iff :
    read s = .ok r ↔ List.Forall₂ (fun line c => readLine line = .ok c) (logicalLines s) r :=
  mapM_eq_ok_iff

lemma logicalLines_eq_nil_iff (h : read s = .ok r) : logicalLines s = [] ↔ r = [] := by
  rw [← List.length_eq_zero_iff, (read_eq_ok_iff.mp h).length_eq, List.length_eq_zero_iff]

lemma read_append {text text₁ text₂ : List Char}
    (h : logicalLines text = logicalLines text₁ ++ logicalLines text₂) (h₁ : read text₁ = .ok r₁)
    (h₂ : read text₂ = .ok r₂) : read text = .ok (r₁ ++ r₂) := by
  rw [read_eq_ok_iff] at h₁ h₂ ⊢
  exact h ▸ List.rel_append h₁ h₂

lemma args_of_readLine {line args : List Char} {command : Command}
    (hargs : trim isAsciiBlank (line.dropWhile (· != ' ')) = args)
    (h : readLine line = .ok command) :
    args ≠ [] ∧ (args.head? = some '[' → Json.readAll Document.readArgs args = .ok command.args) ∧
      (args.head? ≠ some '[' → command.args = plainArgs args) := by
  have hne : args ≠ [] := by
    rintro rfl
    simp [readLine, hargs] at h
  simp only [readLine, hargs] at h
  split_ifs at h with hname hhead
  · refine ⟨hne, fun _ => ?_, fun hn => absurd hhead hn⟩
    split at h
    · rename_i hread
      cases h
      exact hread
    · cases h
  · cases h
    exact ⟨hne, fun hh => absurd hh hhead, fun _ => rfl⟩

lemma pieces_of_plainArgs_eq (h : plainArgs s = plainArgs t) : pieces ' ' s = pieces ' ' t :=
  List.map_injective_iff.mpr (fun _ _ => String.ofList_injective) h

lemma readLine_ne_of_backslash {command : Command} (ht : t.getLast? = some '\\')
    (h : readLine (s ++ t) = .ok command) : readLine s ≠ .ok command := by
  intro hs
  obtain ⟨hne, -, hplain⟩ := args_of_readLine rfl hs
  have hm : ' ' ∈ s := by
    by_contra hm
    refine hne ?_
    rw [List.dropWhile_eq_nil_iff.mpr fun c hc => by simpa using fun he : c = ' ' => hm (he ▸ hc)]
    rfl
  obtain ⟨name, w, rfl, hname⟩ := List.eq_append_cons_of_mem hm
  rw [(span_name hname w).2] at hne hplain
  have hargs : (name ++ ' ' :: w ++ t).dropWhile (· != ' ') = ' ' :: w ++ t := by
    rw [List.append_assoc, List.cons_append, (span_name hname _).2]
  obtain ⟨-, hjson, hplain'⟩ := args_of_readLine (congrArg _ hargs) h
  have hmt : '\\' ∈ t := List.mem_of_getLast? ht
  -- a list of arguments ends in its bracket, and plain arguments hold all the backslashes of their
  -- line
  by_cases hhead : (trim isAsciiBlank (' ' :: w ++ t)).head? = some '['
  · have hlast : (trim isAsciiBlank (' ' :: w ++ t)).getLast? = some '\\' := by
      refine getLast?_trim ?_ rfl
      rw [List.getLast?_append_of_ne_nil _ (List.ne_nil_of_mem hmt), ht]
    exact absurd (Json.getLast?_of_readAll (fun _ _ _ => Json.readText_suffix) (hjson hhead) hlast)
      (by decide)
  · have hp :=
      pieces_of_plainArgs_eq ((hplain (head?_trim_append hne _ ▸ hhead)).symm.trans (hplain' hhead))
    have hcount (s : List Char) : (pieces ' ' (trim isAsciiBlank s)).flatten.count '\\' =
        s.count '\\' := by
      rw [pieces_trim, count_pieces (by decide) rfl]
    have heq := hcount (' ' :: w ++ t)
    rw [← hp, hcount, List.count_append] at heq
    have hpos := List.count_pos_iff.mpr hmt
    omega

/-! ## Lines that go on -/

lemma exists_both {α β : Type} {R : α → β → Prop} {ps qs xs : List α} {x y : α} {us vs : List β}
    (hx : List.Forall₂ R (ps ++ x :: xs) us) (hy : List.Forall₂ R (ps ++ y :: qs) (us ++ vs)) :
    ∃ u, R x u ∧ R y u := by
  induction ps generalizing us with
  | nil =>
    cases hx with
    | cons hx _ =>
      cases hy with
      | cons hy _ => exact ⟨_, hx, hy⟩
  | cons p ps ih =>
    cases hx with
    | cons _ hx =>
      cases hy with
      | cons _ hy => exact ih hx hy

lemma exists_of_not_closed (h : ¬ Closed s) : ∃ u v, s = u ++ '[' :: v ∧ Closed u ∧ ']' ∉ v := by
  induction s with
  | nil => exact absurd (.of_not_mem List.not_mem_nil) h
  | cons c s ih =>
    by_cases hc : c = '[' ∧ ']' ∉ s
    · exact ⟨[], s, by rw [hc.1, List.nil_append], .of_not_mem List.not_mem_nil, hc.2⟩
    · obtain ⟨u, v, rfl, hu, hv⟩ :=
        ih fun hs => h (.cons (fun he => of_not_not fun hm => hc ⟨he, hm⟩) hs)
      refine ⟨c :: u, v, rfl, .cons (fun he => ?_) hu, hv⟩
      have hm : ']' ∈ u ++ '[' :: v := of_not_not fun hm => hc ⟨he, hm⟩
      simpa [hv] using hm

lemma exists_joinBracketed_of_not_closed (h : ¬ Closed s) :
    ∃ u v, '\n' ∉ v ∧ ∀ t,
      joinBracketed false (s ++ t) = u ++ '[' :: v ++ joinBracketed true t := by
  obtain ⟨u, v, rfl, hu, hv⟩ := exists_of_not_closed h
  refine ⟨joinBracketed false u, v.filter (· ≠ '\n'), newline_not_mem_filter v, fun t => ?_⟩
  rw [List.append_assoc, hu.joinBracketed_append (fun h => absurd h Bool.false_ne_true),
    List.cons_append, joinBracketed, if_neg Bool.false_ne_true]
  change _ ++ '[' :: joinBracketed true (v ++ t) = _
  rw [joinBracketed_open_append hv, List.append_assoc, List.cons_append]

lemma length_pieces_joinBracketed_le (hz : '\n' ∉ z)
    (ht : pieces '\n' (joinBracketed false t) ≠ []) :
    (pieces '\n' (z ++ joinBracketed true t)).length ≤
      (pieces '\n' (joinBracketed false t)).length := by
  by_cases hm : ']' ∈ t
  · obtain ⟨a, b, rfl, ha⟩ := List.eq_append_cons_of_mem hm
    obtain ⟨inBrackets, h⟩ := exists_joinBracketed_append false a
    have hclose (inBrackets : Bool) : joinBracketed inBrackets (']' :: b) =
        ']' :: joinBracketed false b := by
      cases inBrackets <;> rfl
    rw [joinBracketed_open_append ha, h, hclose, hclose, ← List.append_assoc,
      length_pieces_append_cons rfl (List.not_mem_append hz (newline_not_mem_filter a)) rfl]
    exact length_pieces_cons_le rfl rfl _ _
  · have hopen := joinBracketed_open_append hm []
    rw [List.append_nil, joinBracketed, List.append_nil] at hopen
    rw [hopen, pieces_of_not_mem (List.not_mem_append hz (newline_not_mem_filter t))]
    exact (List.length_filter_le _ _).trans (List.length_pos_of_ne_nil ht)

lemma read_ne_of_not_closed (hs : (stripComments false s).getLast? ≠ some '\\')
    (hc : ¬ Closed (stripComments false s)) (h₁ : read s = .ok r₁) (h₂ : read t = .ok r₂)
    (hr : r₂ ≠ []) :
    read (s ++ '\n' :: t) ≠ .ok (r₁ ++ r₂) := by
  obtain ⟨u, v, hv, hjoin⟩ := exists_joinBracketed_of_not_closed (mt Closed.of_joinContinued hc)
  obtain ⟨ps, z, hz, hps⟩ := exists_pieces_append '\n' u
  have hzv : '\n' ∉ z ++ '[' :: v :=
    List.not_mem_append hz (List.not_mem_cons_of_ne_of_not_mem (by decide) hv)
  have hs₁ : logicalLines s = ps ++ pieces '\n' (z ++ '[' :: v) := by
    have h := hjoin []
    rw [List.append_nil, joinBracketed, List.append_nil] at h
    rw [logicalLines_eq, h, hps]
  have hs₂ : logicalLines (s ++ '\n' :: t) =
      ps ++ pieces '\n'
        (z ++ '[' :: v ++ joinBracketed true (joinContinued (stripComments false t))) := by
    rw [logicalLines_eq, stripComments_newline, joinContinued_append hs,
      joinContinued_cons (.inl (by decide)), hjoin, List.append_assoc, hps, joinBracketed,
      if_pos rfl, if_pos rfl, List.append_assoc]
  have hle := length_pieces_joinBracketed_le hzv (mt (logicalLines_eq_nil_iff h₂).mp hr)
  have hone := pieces_of_mem hzv (List.mem_append_right z List.mem_cons_self) rfl
  -- there is a command for each line, and the whole has a line less than its parts
  intro h
  have hlen₁ := (read_eq_ok_iff.mp h₁).length_eq
  have hlen₂ := (read_eq_ok_iff.mp h₂).length_eq
  have hlen := (read_eq_ok_iff.mp h).length_eq
  rw [hs₁, List.length_append, hone, List.length_singleton] at hlen₁
  rw [hs₂, List.length_append, List.length_append] at hlen
  rw [logicalLines_eq] at hlen₂
  omega

lemma length_pieces_joinBracketed (inBrackets : Bool) (t : List Char) :
    (pieces '\n' (joinBracketed inBrackets t)).length ≤
      (pieces '\n' (joinBracketed false t)).length := by
  cases inBrackets with
  | false => exact le_rfl
  | true =>
    by_cases ht : pieces '\n' (joinBracketed false t) = []
    · have hblank := blank_of_pieces_joinBracketed ht
      rw [ht, pieces_of_blank fun b hb => hblank b (joinBracketed_subset true t hb)]
    · exact length_pieces_joinBracketed_le List.not_mem_nil ht

/-- A backslash goes with its line end. If the lines are not fewer for that, the line it stood in is
one without it. -/
lemma read_ne_of_backslash (hs : (stripComments false s).getLast? = some '\\')
    (h₁ : read s = .ok r₁) (h₂ : read t = .ok r₂) : read (s ++ '\n' :: t) ≠ .ok (r₁ ++ r₂) := by
  obtain ⟨y, hy⟩ := List.getLast?_eq_some_iff.mp hs
  obtain ⟨inBrackets, hb⟩ := exists_joinBracketed_append false (joinContinued y)
  obtain ⟨ps, z, hz, hps⟩ := exists_pieces_append '\n' (joinBracketed false (joinContinued y))
  have hs₁ : logicalLines s = ps ++ [trim isAsciiBlank (z ++ ['\\'])] := by
    have hzb : '\n' ∉ z ++ ['\\'] := List.not_mem_append hz (by decide)
    rw [logicalLines_eq, hy, joinContinued_append_of (.inr (by decide)), hb, hps,
      ← pieces_of_mem hzb (List.mem_append_right z (List.mem_singleton_self '\\')) rfl]
    cases inBrackets <;> rfl
  have hs₂ : logicalLines (s ++ '\n' :: t) =
      ps ++
        pieces '\n' (z ++ joinBracketed inBrackets (joinContinued (stripComments false t))) := by
    rw [logicalLines_eq, stripComments_newline, hy, List.append_assoc,
      joinContinued_append_of (.inr (by simp)), List.singleton_append, joinContinued, hb, hps]
  have hle := length_pieces_joinBracketed inBrackets (joinContinued (stripComments false t))
  intro h
  rw [read_eq_ok_iff] at h₁ h₂ h
  have hlen₁ := h₁.length_eq
  have hlen₂ := h₂.length_eq
  have hlen := h.length_eq
  rw [hs₁, List.length_append, List.length_singleton] at hlen₁
  rw [logicalLines_eq] at hlen₂
  rw [hs₂, List.length_append, List.length_append] at hlen
  rcases pieces_line_append rfl hz
    (joinBracketed inBrackets (joinContinued (stripComments false t))) with hapart | hmerged
  · rw [hapart, List.length_append] at hlen
    rcases pieces_eq_nil_or hz with hnil | ⟨hne, hone⟩
    · rw [hnil, List.length_nil] at hlen
      omega
    · -- both readings have a line in the place of the backslash, one with it and one without
      rw [hs₁] at h₁
      rw [hs₂, hapart, hone, List.singleton_append] at h
      obtain ⟨command, hc, hc'⟩ := exists_both h₁ h
      obtain ⟨b, hb⟩ := exists_trim_append hne (c := '\\') rfl
      exact readLine_ne_of_backslash List.getLast?_concat (hb ▸ hc) hc'
  · omega

theorem read_append_newline_iff (h₁ : read s = .ok r₁) (h₂ : read t = .ok r₂) :
    read (s ++ '\n' :: t) = .ok (r₁ ++ r₂) ↔
      (stripComments false s).getLast? ≠ some '\\' ∧
        (Closed (stripComments false s) ∨ r₂ = []) := by
  constructor
  · intro h
    have hs : (stripComments false s).getLast? ≠ some '\\' :=
      fun hs => read_ne_of_backslash hs h₁ h₂ h
    refine ⟨hs, or_iff_not_imp_left.mpr fun hc => ?_⟩
    by_contra hr
    exact read_ne_of_not_closed hs hc h₁ h₂ hr h
  · rintro ⟨hs, hc⟩
    exact read_append
      (logicalLines_append_newline hs (hc.imp_right (logicalLines_eq_nil_iff h₂).mpr)) h₁ h₂

end TarRecipe.Lines
