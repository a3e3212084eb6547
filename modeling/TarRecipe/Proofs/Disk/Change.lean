import Mathlib.Data.List.Basic
import Mathlib.Tactic.Common
import TarRecipe.Proofs.Disk.Node

/-! What a change of one entry does to all places, and how one is undone. -/

namespace TarRecipe.Disk.Node

def shape : Node → Node
  | .directory perm _ => .directory perm []
  | node => node

def shapeAt (node : Node) (place : Place) : Option Node := (node.at? place).map shape

variable {node m x : Node} {o : Option Node} {dir place q : Place} {name : Bytes} {perm : UInt32}
  {entries : List (Bytes × Node)}

lemma eq_of_shape_eq (h : m.shape = x) (hx : ∀ perm entries, x ≠ .directory perm entries) :
    m = x := by
  cases m with
  | directory perm entries => exact absurd h.symm (hx perm [])
  | file => exact h
  | link => exact h
  | special => exact h

lemma exists_of_shape_eq_directory (h : m.shape = .directory perm entries) :
    ∃ entries', m = .directory perm entries' := by
  cases m with
  | directory perm' entries' => exact ⟨entries', by rw [(Node.directory.inj h).1]⟩
  | file => cases h
  | link => cases h
  | special => cases h

lemma at?_of_shapeAt (h : node.shapeAt place = some x)
    (hx : ∀ perm entries, x ≠ .directory perm entries) :
    node.at? place = some x := by
  obtain ⟨m, hm, hs⟩ := Option.map_eq_some_iff.mp h
  rw [hm, eq_of_shape_eq hs hx]

lemma exists_of_at?_cons (h : node.at? (name :: place) = some m) :
    ∃ perm entries below, node = .directory perm entries ∧ entries.lookup name = some below ∧
      below.at? place = some m := by
  rw [at?_cons] at h
  obtain ⟨below, hb, hm⟩ := Option.bind_eq_some_iff.mp h
  cases node with
  | directory perm entries => exact ⟨perm, entries, below, rfl, hb, hm⟩
  | file => cases hb
  | link => cases hb
  | special => cases hb

def IsDirectoryAt (node : Node) (place : Place) : Prop :=
  ∃ perm entries, node.at? place = some (.directory perm entries)

lemma children_eq_nil_of_at? (h : ¬ node.IsDirectoryAt place) :
    ∀ m, node.at? place = some m → m.children = [] := by
  intro m hm
  cases m with
  | directory perm entries => exact absurd ⟨perm, entries, hm⟩ h
  | file => rfl
  | link => rfl
  | special => rfl

lemma IsDirectoryAt.of_append (h : node.IsDirectoryAt (place ++ q)) : node.IsDirectoryAt place := by
  obtain ⟨perm, entries, h⟩ := h
  rw [at?_append] at h
  obtain ⟨m, hm, hq⟩ := Option.bind_eq_some_iff.mp h
  cases q with
  | nil =>
    cases (at?_nil m).symm.trans hq
    exact ⟨perm, entries, hm⟩
  | cons name q =>
    obtain ⟨perm', entries', _, rfl, -, -⟩ := exists_of_at?_cons hq
    exact ⟨perm', entries', hm⟩

lemma IsDirectoryAt.root (h : node.IsDirectoryAt place) : node.IsDirectoryAt [] :=
  of_append (q := place) h

/-- Two roots that differ in nothing but what is at one place. -/
def SameBut (t : Place) (root root' : Node) : Prop := ∀ q, q ≠ t → root.shapeAt q = root'.shapeAt q

lemma SameBut.symm {t : Place} {root root' : Node} (h : SameBut t root root') :
    SameBut t root' root :=
  fun q hq => (h q hq).symm

lemma SameBut.trans {t : Place} {r₁ r₂ r₃ : Node} (h : SameBut t r₁ r₂) (h' : SameBut t r₂ r₃) :
    SameBut t r₁ r₃ :=
  fun q hq => (h q hq).trans (h' q hq)

lemma SameBut.isDirectoryAt {t : Place} {root root' : Node} (h : SameBut t root root') (hq : q ≠ t)
    (hd : root.IsDirectoryAt q) : root'.IsDirectoryAt q := by
  obtain ⟨perm, entries, hd⟩ := hd
  have hs := h q hq
  rw [shapeAt, shapeAt, hd] at hs
  obtain ⟨m, hm, hsm⟩ := Option.map_eq_some_iff.mp hs.symm
  obtain ⟨entries', rfl⟩ := exists_of_shape_eq_directory hsm
  exact ⟨perm, entries', hm⟩

lemma shapeAt_nil (perm : UInt32) (entries : List (Bytes × Node)) :
    (directory perm entries).shapeAt [] = some (.directory perm []) := by
  rw [shapeAt, at?_nil]
  rfl

lemma shapeAt_cons (perm : UInt32) (entries : List (Bytes × Node)) (name : Bytes) (q : Place) :
    (directory perm entries).shapeAt (name :: q) = (entries.lookup name).bind (·.shapeAt q) := by
  rw [shapeAt, at?_cons, children, Option.map_bind]
  rfl

lemma shapeAt_of_children_eq_nil (h : ∀ m, o = some m → m.children = []) (q : Place) :
    o.bind (·.shapeAt q) = if q = [] then o.map shape else none := by
  cases o with
  | none => split_ifs <;> rfl
  | some m =>
    rw [Option.bind_some, shapeAt]
    cases q with
    | nil =>
      rw [at?_nil]
      rfl
    | cons n q =>
      rw [at?_cons, h m rfl]
      rfl

/-! ## Changes -/

lemma change_name (f : Option Node → Option Node) (perm : UInt32) (entries : List (Bytes × Node))
    (name n : Bytes) :
    ∃ entries', (directory perm entries).change f [name] = .directory perm entries' ∧
      entries'.lookup n = if n = name then f (entries.lookup name) else entries.lookup n := by
  rw [change]
  cases f (entries.lookup name) with
  | none => exact ⟨_, rfl, lookup_erase name n entries⟩
  | some x => exact ⟨_, rfl, lookup_insert name n x entries⟩

lemma change_below (f : Option Node → Option Node) (hb : entries.lookup name = some m)
    (hp : place ≠ []) :
    (directory perm entries).change f (name :: place) =
      .directory perm (Children.insert name (m.change f place) entries) := by
  cases place with
  | nil => exact absurd rfl hp
  | cons n place =>
    rw [change]
    · rw [hb]
      rfl
    · exact List.cons_ne_nil n place

lemma shapeAt_change (hd : node.at? dir = some (.directory perm entries))
    (hold : ∀ m, node.at? (dir ++ [name]) = some m → m.children = [])
    (hnew : ∀ m, o = some m → m.children = []) (q : Place) :
    (node.change (fun _ => o) (dir ++ [name])).shapeAt q =
      if q = dir ++ [name] then o.map shape else node.shapeAt q := by
  -- down to where the way to `q` leaves the way to the entry
  induction dir generalizing node q with
  | nil =>
    cases (at?_nil node).symm.trans hd
    have hold : ∀ m, entries.lookup name = some m → m.children = [] := by
      intro m hm
      refine hold m ?_
      rw [List.nil_append, at?_cons, children, hm, Option.bind_some, at?_nil]
    cases q with
    | nil =>
      obtain ⟨entries', he, -⟩ := change_name (fun _ => o) perm entries name []
      rw [List.nil_append, he, shapeAt_nil, shapeAt_nil, if_neg (List.cons_ne_nil _ _).symm]
    | cons n q =>
      obtain ⟨entries', he, hl⟩ := change_name (fun _ => o) perm entries name n
      rw [List.nil_append, he, shapeAt_cons, shapeAt_cons, hl]
      by_cases hn : n = name
      · subst hn
        rw [if_pos rfl, shapeAt_of_children_eq_nil hnew, shapeAt_of_children_eq_nil hold]
        cases q <;> simp
      · simp [hn]
  | cons d dir ih =>
    obtain ⟨perm', entries', below, rfl, hb, hd'⟩ := exists_of_at?_cons hd
    have hbelow : ∀ m, below.at? (dir ++ [name]) = some m → m.children = [] := by
      intro m hm
      refine hold m ?_
      rw [List.cons_append, at?_cons, children, hb, Option.bind_some, hm]
    rw [List.cons_append, change_below _ hb (by simp)]
    cases q with
    | nil => rw [shapeAt_nil, shapeAt_nil, if_neg (List.cons_ne_nil _ _).symm]
    | cons n q =>
      rw [shapeAt_cons, shapeAt_cons, lookup_insert]
      by_cases hn : n = d
      · subst hn
        rw [if_pos rfl, Option.bind_some, ih hd' hbelow, hb, Option.bind_some]
        simp
      · simp [hn]

lemma sameBut_change (hd : node.IsDirectoryAt dir) (hold : ¬ node.IsDirectoryAt (dir ++ [name]))
    (hnew : ∀ m, o = some m → m.children = []) :
    SameBut (dir ++ [name]) node (node.change (fun _ => o) (dir ++ [name])) := by
  obtain ⟨perm, entries, hd⟩ := hd
  intro q hq
  rw [shapeAt_change hd (children_eq_nil_of_at? hold) hnew, if_neg hq]

lemma shapeAt_change_self (hd : node.IsDirectoryAt dir)
    (hold : ¬ node.IsDirectoryAt (dir ++ [name])) (hnew : ∀ m, o = some m → m.children = []) :
    (node.change (fun _ => o) (dir ++ [name])).shapeAt (dir ++ [name]) = o.map shape := by
  obtain ⟨perm, entries, hd⟩ := hd
  rw [shapeAt_change hd (children_eq_nil_of_at? hold) hnew, if_pos rfl]

lemma erase_change (hw : node.WellFormed) (hd : node.at? dir = some (.directory perm entries))
    (hn : node.at? (dir ++ [name]) = none) (x : Node) :
    (node.change (fun _ => some x) (dir ++ [name])).change (fun _ => none)
      (dir ++ [name]) = node := by
  induction dir generalizing node with
  | nil =>
    cases (at?_nil node).symm.trans hd
    have hl : entries.lookup name = none := by
      rw [List.nil_append, at?_cons, children, Option.bind_eq_none_iff] at hn
      by_contra hne
      obtain ⟨m, hm⟩ := Option.ne_none_iff_exists'.mp hne
      cases (at?_nil m).symm.trans (hn m hm)
    rw [List.nil_append, change, change, Children.erase_insert, Children.erase_of_lookup_eq_none]
    rwa [← lookup_eq]
  | cons d dir ih =>
    obtain ⟨perm', entries', below, rfl, hb, hd'⟩ := exists_of_at?_cons hd
    have hn : below.at? (dir ++ [name]) = none := by
      rwa [List.cons_append, at?_cons, children, hb, Option.bind_some] at hn
    have hl :
        (Children.insert d (below.change (fun _ => some x) (dir ++ [name])) entries').lookup d =
        some (below.change (fun _ => some x) (dir ++ [name])) := by
      rw [lookup_insert, if_pos rfl]
    have ha : Children.Ascending entries' := hw.ascending
    have hbelow : below.WellFormed := hw.of_mem (d, below) ((mem_iff_lookup ha).mpr hb)
    rw [List.cons_append, change_below _ hb (by simp), change_below _ hl (by simp),
      Children.insert_insert, ih hbelow hd' hn, ha.insert_of_lookup]
    rwa [← lookup_eq]

end TarRecipe.Disk.Node
