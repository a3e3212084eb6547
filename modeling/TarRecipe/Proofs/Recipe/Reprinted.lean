import Mathlib
import TarRecipe.Proofs.Path
import TarRecipe.Proofs.Recipe.Layout
import TarRecipe.Proofs.Recipe.Seam

/-! Commands from lines, written on lines again. -/

namespace TarRecipe

open Text

namespace Lines

variable {s line : List Char} {c : Command}

def Listed (line : List Char) : Prop :=
  (trim isAsciiBlank (line.dropWhile (· != ' '))).head? = some '['

instance : Decidable (Listed line) := inferInstanceAs (Decidable (_ = _))

/-! ## Lines that are left -/

lemma not_mem_stripComments (inComment : Bool) (s : List Char) :
    '#' ∉ stripComments inComment s := by
  induction s generalizing inComment with
  | nil => exact List.not_mem_nil
  | cons c s ih =>
    rw [stripComments]
    split_ifs with hn _ hc
    · exact List.not_mem_cons_of_ne_of_not_mem (hn ▸ by decide) (ih false)
    · exact ih true
    · exact ih true
    · exact List.not_mem_cons_of_ne_of_not_mem (Ne.symm hc) (ih false)

lemma of_mem_logicalLines (h : line ∈ logicalLines s) : '\n' ∉ line ∧ '#' ∉ line := by
  obtain ⟨-, hn, hsub, -, -⟩ := of_mem_pieces (logicalLines_eq s ▸ h)
  refine ⟨hn, fun hm => not_mem_stripComments false s ?_⟩
  exact joinContinued_subset _ (joinBracketed_subset false _ (hsub hm))

/-! ## Commands on them -/

lemma name_of_readLine (h : readLine line = .ok c) :
    c.name ≠ "" ∧ ∀ letter ∈ c.name.toList, 'A' ≤ letter ∧ letter ≤ 'Z' := by
  obtain ⟨hname, hc⟩ : isName (line.takeWhile (· != ' ')) = true ∧
      c.name = String.ofList (line.takeWhile (· != ' ')) := by
    simp only [readLine] at h
    split_ifs at h with hbad
    all_goals
      have hname : isName (line.takeWhile (· != ' ')) = true := by
        simp at hbad
        exact hbad.1
    · split at h
      · cases h
        exact ⟨hname, rfl⟩
      · cases h
    · cases h
      exact ⟨hname, rfl⟩
  simpa [isName, hc] using hname

lemma bareArgs_of_readLine (h : readLine line = .ok c) (hn : '\n' ∉ line) (hc : '#' ∉ line)
    (hl : ¬ Listed line) :
    BareArgs c.args := by
  obtain ⟨hne, -, hplain⟩ := args_of_readLine rfl h
  rw [hplain hl]
  obtain ⟨d, args, hargs⟩ := List.exists_cons_of_ne_nil hne
  have hd : isAsciiBlank d = false :=
    head?_trim_eq_some (s := line.dropWhile (· != ' ')) (by rw [hargs, List.head?_cons])
  have hsub : d :: args ⊆ line :=
    hargs ▸ List.Subset.trans (trim_subset _ _) (List.dropWhile_suffix _).subset
  obtain ⟨z, zs, hz⟩ := exists_pieces_cons hd (rfl : isAsciiBlank ' ' = true) args
  have hp : plainArgs (trim isAsciiBlank (line.dropWhile (· != ' '))) =
      ((d :: z) :: zs).map String.ofList := by
    rw [← hz, ← hargs]
    rfl
  rw [hp]
  refine ⟨List.cons_ne_nil _ _, List.forall_mem_map.mpr fun arg ha => ?_, fun arg ha => ?_⟩
  · obtain ⟨hne, hspace, hmem, hfirst, hlast⟩ := of_mem_pieces (hz ▸ ha)
    rw [String.toList_ofList]
    exact ⟨hne, hspace, fun hm => hn (hsub (hmem hm)), fun hm => hc (hsub (hmem hm)), hfirst, hlast⟩
  · obtain rfl := Option.some.inj ha
    rw [String.toList_ofList, List.head?_cons, ne_eq, Option.some.injEq]
    rintro rfl
    exact hl (by rw [Listed, hargs, List.head?_cons])

/-! ## Lines that are written -/

lemma words_of_args (args : List String) :
    Words Spaces args (args.flatMap fun arg => ' ' :: arg.toList) := by
  induction args with
  | nil => exact .nil
  | cons arg args ih => exact .cons (List.forall_mem_nil _) ih

lemma toList_render (c : Command) :
    c.render.toList = c.name.toList ++ c.args.flatMap fun arg => ' ' :: arg.toList := by
  rw [Command.render, String.toList_intercalate, List.map_cons]
  exact (intercalate_cons_eq ' ' c.name.toList (c.args.map String.toList)).trans
    (by rw [List.flatMap_map])

lemma logicalLines_of_line (hn : '\n' ∉ line) (hc : '#' ∉ line) :
    logicalLines line = pieces '\n' line := by
  have hstrip := stripComments_append hc []
  rw [List.append_nil, stripComments, List.append_nil] at hstrip
  rw [logicalLines_eq, hstrip, joinContinued_of_not_mem (.inl hn), joinBracketed_of_not_mem hn]

lemma not_mem_render {d : Char} (hname : d ∉ c.name.toList) (hargs : ∀ arg ∈ c.args, d ∉ arg.toList)
    (hd : d ≠ ' ' ∧ d ≠ '\t') : d ∉ c.render.toList := by
  rw [toList_render, List.mem_append, not_or]
  refine ⟨hname, (words_of_args c.args).not_mem (fun gap hg => ?_) hargs⟩
  exact List.not_mem_cons_of_ne_of_not_mem hd.1 (hg.not_mem hd)

lemma parse_render (hne : c.name ≠ "")
    (hname : ∀ letter ∈ c.name.toList, 'A' ≤ letter ∧ letter ≤ 'Z')
    (ha : BareArgs c.args) : Recipe.parse (textBytes c.render) = .ok [c] := by
  have hw := words_of_args c.args
  obtain ⟨hpiece, htrim⟩ := pieces_line hne hname ha hw
  have hread := readLine_words hne hname ha hw
  rw [← toList_render] at hpiece htrim hread
  have hn : '\n' ∉ c.render.toList :=
    not_mem_render (fun hm => absurd (hname _ hm) (by decide))
      (fun arg h => (ha.bare arg h).no_newline) (by decide)
  have hc : '#' ∉ c.render.toList :=
    not_mem_render (fun hm => absurd (hname _ hm) (by decide))
      (fun arg h => (ha.bare arg h).no_comment) (by decide)
  have hlines : IsLines c.render.toList := by
    obtain ⟨d, s, hd⟩ := List.exists_cons_of_ne_nil (by simpa using hne : c.name.toList ≠ [])
    rw [IsLines, htrim, toList_render, hd, List.cons_append, List.head?_cons, ne_eq,
      Option.some.injEq]
    rintro rfl
    exact absurd (hname _ (hd ▸ List.mem_cons_self)) (by decide)
  rw [textBytes, parse_eq_ok_iff (Utf8.decode_encode _) hlines, htrim, read_eq_ok_iff,
    logicalLines_of_line hn hc, hpiece]
  exact .cons hread .nil

end Lines

theorem Recipe.parse_reprinted {data : Bytes} {s : List Char} {r : Recipe}
    (hd : Utf8.decode data = .ok s) (hs : Lines.IsLines s) (h : Recipe.parse data = .ok r) :
    List.Forall₂ (fun line c => Lines.readLine line = .ok c ∧
        (c.name ≠ "" ∧ ∀ letter ∈ c.name.toList, 'A' ≤ letter ∧ letter ≤ 'Z') ∧
        (¬ Lines.Listed line → Lines.BareArgs c.args ∧ Recipe.parse (textBytes c.render) = .ok [c]))
      (Lines.logicalLines (trim isAsciiBlank s)) r := by
  rw [Lines.parse_eq_ok_iff hd hs, Lines.read_eq_ok_iff] at h
  refine List.forall₂_iff_zip.mpr ⟨h.length_eq, fun {line c} hmem => ?_⟩
  obtain ⟨hn, hc⟩ := Lines.of_mem_logicalLines (List.of_mem_zip hmem).1
  have hread := (List.forall₂_iff_zip.mp h).2 hmem
  have hname := Lines.name_of_readLine hread
  refine ⟨hread, hname, fun hl => ?_⟩
  have hargs := Lines.bareArgs_of_readLine hread hn hc hl
  exact ⟨hargs, Lines.parse_render hname.1 hname.2 hargs⟩

/-! A tab and backslashes in arguments, a list, and a bracket open across a line end. -/

def ragged : List Char := "MKDIR a\tb \\c  # d\n COPY [\"q\n q\"]\nX x\r[y\nz\r \\".toList

theorem Recipe.parse_reprinted_ragged :
    Recipe.parse (Utf8.encode ragged) =
      .ok [⟨"MKDIR", ["a\tb", "\\c"]⟩, ⟨"COPY", ["q q"]⟩, ⟨"X", ["x\r[yz", "\\"]⟩] ∧
      Recipe.parse (textBytes "MKDIR a\tb \\c") = .ok [⟨"MKDIR", ["a\tb", "\\c"]⟩] ∧
        Recipe.parse (textBytes "X x\r[yz \\") = .ok [⟨"X", ["x\r[yz", "\\"]⟩] := by
  have hr : Recipe.parse (Utf8.encode ragged) =
      .ok [⟨"MKDIR", ["a\tb", "\\c"]⟩, ⟨"COPY", ["q q"]⟩, ⟨"X", ["x\r[yz", "\\"]⟩] := by cbv
  have hlines : Lines.logicalLines (trim isAsciiBlank ragged) =
      ["MKDIR a\tb \\c".toList, "COPY [\"q q\"]".toList, "X x\r[yz\r \\".toList] := by cbv
  have h := Recipe.parse_reprinted (Utf8.decode_encode ragged) (by decide) hr
  rw [hlines] at h
  obtain _ | ⟨⟨-, -, hmkdir⟩, _ | ⟨-, _ | ⟨⟨-, -, hx⟩, -⟩⟩⟩ := h
  exact ⟨hr, (hmkdir (by decide)).2, (hx (by decide)).2⟩

end TarRecipe
