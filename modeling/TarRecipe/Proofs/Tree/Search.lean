import Mathlib
import TarRecipe.Proofs.Text.Ascii
import TarRecipe.Proofs.Tree.Coherence

/-! Children are found by halving. -/

namespace TarRecipe

namespace Children

variable {κ α : Type} [LT κ] [DecidableLT κ]

/-- Halves the part of a list that is left until it meets the key. Gives the place of the key, or
as an error the place where the key would go. -/
def positionIn (key : α → κ) (k : κ) (xs : List α) (low high : Nat) : Except Nat Nat :=
  if low < high then
    let mid := (low + high) / 2
    match xs[mid]? with
    | none => .error low
    | some x =>
      if key x < k then positionIn key k xs (mid + 1) high
      else if k < key x then positionIn key k xs low mid
      else .ok mid
  else .error low
termination_by high - low

def position (key : α → κ) (k : κ) (xs : List α) : Except Nat Nat :=
  positionIn key k xs 0 xs.length

def IsPosition (key : α → κ) (k : κ) (xs : List α) : Except Nat Nat → Prop
  | .ok i => ∃ x, xs[i]? = some x ∧ key x = k
  | .error i => i ≤ xs.length ∧ (∀ x ∈ xs.take i, key x < k) ∧ ∀ x ∈ xs.drop i, k < key x

omit [DecidableLT κ] in
lemma forall_of_getElem? {key : α → κ} {xs : List α} {i : Nat} {x : α}
    (h : xs.Pairwise fun x y => key x < key y) (hx : xs[i]? = some x) :
    (∀ y ∈ xs.take i, key y < key x) ∧ ∀ y ∈ xs.drop (i + 1), key x < key y := by
  obtain ⟨hi, rfl⟩ := List.getElem?_eq_some_iff.mp hx
  rw [← List.take_append_drop i xs, List.drop_eq_getElem_cons hi, List.pairwise_append,
    List.pairwise_cons] at h
  exact ⟨fun y hy => h.2.2 y hy _ List.mem_cons_self, h.2.1.1⟩

variable [LE κ] [Std.IsLinearOrder κ] [Std.LawfulOrderLT κ]

-- What lies before `low` stays below the key, and what lies from `high` on stays above it.
lemma isPosition_positionIn {key : α → κ} {k : κ} {xs : List α} {low high : Nat}
    (h : xs.Pairwise fun x y => key x < key y) (hl : low ≤ high) (hh : high ≤ xs.length)
    (below : ∀ x ∈ xs.take low, key x < k) (above : ∀ x ∈ xs.drop high, k < key x) :
    IsPosition key k xs (positionIn key k xs low high) := by
  fun_induction positionIn key k xs low high with
  | case1 low high hlt mid hn =>
    have hm := List.getElem?_eq_none_iff.mp hn
    omega
  | case2 low high hlt mid x hx hlow ih =>
    apply ih
    · omega
    · exact hh
    · intro y hy
      rw [List.take_add_one, hx, Option.toList_some, List.mem_append, List.mem_singleton] at hy
      rcases hy with hy | rfl
      · exact Std.lt_trans ((forall_of_getElem? h hx).1 y hy) hlow
      · exact hlow
    · exact above
  | case3 low high hlt mid x hx hlow hhigh ih =>
    have hi := (List.getElem?_eq_some_iff.mp hx).1
    apply ih
    · omega
    · omega
    · exact below
    · intro y hy
      rw [List.drop_eq_getElem_cons hi, List.mem_cons] at hy
      rcases hy with rfl | hy
      · rwa [(List.getElem?_eq_some_iff.mp hx).2]
      · exact Std.lt_trans hhigh ((forall_of_getElem? h hx).2 y hy)
  | case4 low high hlt mid x hx hlow hhigh =>
    exact ⟨x, hx, (Std.lt_trichotomy (key x) k).resolve_left hlow |>.resolve_right hhigh⟩
  | case5 low high hge =>
    obtain rfl : low = high := by omega
    exact ⟨hh, below, above⟩

lemma isPosition_position {key : α → κ} {xs : List α} (h : xs.Pairwise fun x y => key x < key y)
    (k : κ) : IsPosition key k xs (position key k xs) := by
  apply isPosition_positionIn h (Nat.zero_le _) le_rfl
  · simp
  · simp

end Children

lemma textBytes_lt_iff {s t : String} : textBytes s < textBytes t ↔ s < t := by
  refine ⟨fun h => ?_, textBytes_lt_textBytes⟩
  rcases lt_trichotomy s t with hlt | rfl | hlt
  · exact hlt
  · exact absurd h (List.lt_irrefl _)
  · exact absurd (List.lt_trans h (textBytes_lt_textBytes hlt)) (List.lt_irrefl _)

namespace Children

variable {α : Type} {name : String} {x : α} {cs : List (String × α)}

def positionOf (name : String) (cs : List (String × α)) : Except Nat Nat :=
  position (fun c => textBytes c.1) (textBytes name) cs

lemma isPosition_positionOf (h : Ascending cs) (name : String) :
    IsPosition Prod.fst name cs (positionOf name cs) := by
  have hs : cs.Pairwise fun c d => textBytes c.1 < textBytes d.1 := h.imp textBytes_lt_textBytes
  have hp := isPosition_position hs (textBytes name)
  rw [positionOf]
  generalize position (fun c => textBytes c.1) (textBytes name) cs = r at hp
  cases r with
  | ok i =>
    obtain ⟨c, hc, he⟩ := hp
    exact ⟨c, hc, textBytes_injective he⟩
  | error i =>
    obtain ⟨hi, below, above⟩ := hp
    exact ⟨hi, fun c hc => textBytes_lt_iff.mp (below c hc),
      fun c hc => textBytes_lt_iff.mp (above c hc)⟩

def search (name : String) (cs : List (String × α)) : Option α :=
  match positionOf name cs with
  | .ok i => cs[i]?.map Prod.snd
  | .error _ => none

lemma not_mem_of_position {i : Nat} (h : IsPosition Prod.fst name cs (.error i)) :
    ∀ c ∈ cs, c.1 ≠ name := by
  obtain ⟨_, below, above⟩ := h
  intro c hc he
  rw [← List.take_append_drop i cs, List.mem_append] at hc
  rcases hc with hc | hc
  · exact lt_irrefl _ (he ▸ below c hc)
  · exact lt_irrefl _ (he ▸ above c hc)

lemma search_eq_lookup (h : Ascending cs) (name : String) : search name cs = cs.lookup name := by
  have hp := isPosition_positionOf h name
  rw [search]
  cases hr : positionOf name cs with
  | ok i =>
    rw [hr] at hp
    obtain ⟨⟨n, y⟩, hc, rfl⟩ := hp
    have hl := h.mem_iff_lookup.mp (List.mem_of_getElem? hc)
    simp [hc, hl]
  | error i =>
    rw [hr] at hp
    symm
    apply List.lookup_eq_none_iff.mpr
    intro c hc
    exact bne_iff_ne.mpr (not_mem_of_position hp c hc).symm

/-! ## Changes at the place that is found -/

lemma insert_eq_set {i : Nat} {y : α} (h : Ascending cs) (hi : cs[i]? = some (name, y)) :
    insert name x cs = cs.set i (name, x) := by
  induction cs generalizing i with
  | nil => simp at hi
  | cons c cs ih =>
    obtain ⟨hc, hcs⟩ := List.pairwise_cons.mp h
    cases i with
    | zero =>
      obtain rfl : c = (name, y) := by simpa using hi
      simp [insert]
    | succ i =>
      rw [List.getElem?_cons_succ] at hi
      have hlt : c.1 < name := hc _ (List.mem_of_getElem? hi)
      rw [insert, if_neg hlt.not_gt, if_neg hlt.ne', ih hcs hi, List.set_cons_succ]

lemma insert_eq_insertIdx {i : Nat} (h : IsPosition Prod.fst name cs (.error i)) :
    insert name x cs = cs.insertIdx i (name, x) := by
  obtain ⟨hi, below, above⟩ := h
  induction cs generalizing i with
  | nil =>
    obtain rfl : i = 0 := by simpa using hi
    rfl
  | cons c cs ih =>
    cases i with
    | zero => rw [insert, if_pos (above c List.mem_cons_self), List.insertIdx_zero]
    | succ i =>
      rw [List.take_succ_cons, List.forall_mem_cons] at below
      rw [insert, if_neg below.1.not_gt, if_neg below.1.ne', List.insertIdx_succ_cons,
        ih (Nat.le_of_succ_le_succ hi) below.2 above]

lemma erase_eq_eraseIdx {i : Nat} {y : α} (h : Ascending cs) (hi : cs[i]? = some (name, y)) :
    erase name cs = cs.eraseIdx i := by
  induction cs generalizing i with
  | nil => simp at hi
  | cons c cs ih =>
    obtain ⟨hc, hcs⟩ := List.pairwise_cons.mp h
    cases i with
    | zero =>
      obtain rfl : c = (name, y) := by simpa using hi
      have hn : ∀ d ∈ cs, d.1 ≠ name := fun d hd => (hc d hd).ne'
      simpa [erase] using hn
    | succ i =>
      rw [List.getElem?_cons_succ] at hi
      have hne : c.1 ≠ name := (hc _ (List.mem_of_getElem? hi)).ne
      have he : erase name (c :: cs) = c :: erase name cs := by simp [erase, hne]
      rw [he, ih hcs hi, List.eraseIdx_cons_succ]

theorem insert_eq_at_position (h : Ascending cs) (name : String) (x : α) :
    insert name x cs = match positionOf name cs with
      | .ok i => cs.set i (name, x)
      | .error i => cs.insertIdx i (name, x) := by
  have hp := isPosition_positionOf h name
  split <;> rename_i i hr <;> rw [hr] at hp
  · obtain ⟨⟨n, y⟩, hc, rfl⟩ := hp
    exact insert_eq_set h hc
  · exact insert_eq_insertIdx hp

theorem erase_eq_at_position (h : Ascending cs) (name : String) :
    erase name cs = match positionOf name cs with
      | .ok i => cs.eraseIdx i
      | .error _ => cs := by
  have hp := isPosition_positionOf h name
  split <;> rename_i i hr <;> rw [hr] at hp
  · obtain ⟨⟨n, y⟩, hc, rfl⟩ := hp
    exact erase_eq_eraseIdx h hc
  · have hn := not_mem_of_position hp
    simpa [erase] using hn

end Children

/-! ## Every directory of a tree -/

lemma Entry.WellFormed.of_mem_descendants {e x : Entry} {p : Path} (h : e.WellFormed)
    (hx : (p, x) ∈ e.descendants) : x.WellFormed :=
  h.find? (h.mem_descendants_iff.mp hx).2

theorem Built.children_searchable {tree d : Dir} (h : Built tree)
    (hd : d = tree ∨ ∃ p, (p, d.toEntry) ∈ tree.descendants) :
    (d.children.map fun c => textBytes c.1).Pairwise (· < ·) ∧
      (∀ c ∈ d.children, c.1 ≠ "" ∧ '/' ∉ c.1.toList ∧ c.1 ≠ "." ∧ c.1 ≠ "..") ∧
      ∀ name, d.child name = Children.search name d.children ∧
        ∀ e, d.child name = some e ↔ (name, e) ∈ d.children := by
  have hw : d.WellFormed := by
    rcases hd with rfl | ⟨p, hp⟩
    · exact h.wellFormed
    · exact Entry.WellFormed.of_mem_descendants h.wellFormed hp
  refine ⟨?_, fun c hc => ?_, fun name => ⟨?_, fun e => ?_⟩⟩
  · exact List.pairwise_map.mpr (hw.ascending.imp textBytes_lt_textBytes)
  · have hn := hw.named c hc
    exact ⟨hn.ne_empty, hn.no_slash, hn.ne_dot, hn.ne_dots⟩
  · exact (Children.search_eq_lookup hw.ascending name).symm
  · exact hw.ascending.mem_iff_lookup.symm

/-! A whole tree that is added by the name of a directory among other children. -/

def crowded : Dir :=
  ((Dir.empty.addFile "é" [0x2F] id).tree.add "../a/"
    (Dir.empty.addFile "y" [0x2F] id).tree.toEntry).tree

def absorbed : Dir := ⟨.ofDir, none, [("y", .file .ofFile [0x2F])]⟩

theorem Built.children_searchable_absorbed :
    (["a"], absorbed.toEntry) ∈ crowded.descendants ∧
      Children.search "y" absorbed.children = some (.file .ofFile [0x2F]) := by
  have hb : Built crowded :=
    .add "../a/" [] (.addFile "é" [0x2F] id .empty) (.addFile "y" [0x2F] id .empty) rfl
  have hd : crowded.descendants =
      [(["a"], absorbed.toEntry), (["a", "y"], .file .ofFile [0x2F]),
        (["é"], .file .ofFile [0x2F])] := by
    have hp : Path.parse "../a/" = ["a"] := by cbv
    simp only [crowded, Dir.add, hp]
    cbv
  have hm : (["a"], absorbed.toEntry) ∈ crowded.descendants := hd ▸ List.mem_cons_self
  obtain ⟨_, _, hs⟩ := Built.children_searchable hb (.inr ⟨["a"], hm⟩)
  exact ⟨hm, (hs "y").1.symm.trans rfl⟩

end TarRecipe
