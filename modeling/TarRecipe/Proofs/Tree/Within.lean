import Mathlib.Data.List.Basic
import Mathlib.Tactic.Common
import TarRecipe.Proofs.Tree.Lookup
import TarRecipe.Proofs.Tree.Related

/-! Changes in a directory at a path. -/

namespace TarRecipe

variable {α : Type}

def Entry.FileOn (e : Entry) (p : Path) : Prop :=
  ∃ q a origin, q <+: p ∧ e.at? q = some (.file a origin)

lemma Entry.fileOn_file (a : Attrs) (origin : Bytes) (p : Path) : (Entry.file a origin).FileOn p :=
  ⟨[], a, origin, List.nil_prefix, at?_nil _⟩

namespace Dir

def FileOn (d : Dir) (p : Path) : Prop := d.toEntry.FileOn p

def dirAt (d : Dir) (p : Path) : Dir :=
  match d.find? p with
  | some (.dir a l cs) => ⟨a, l, cs⟩
  | _ => .empty

def filled (d : Dir) (p q : Path) : Option Binding :=
  if q <+: p ∧ d.at? q = none then some (.dir .ofDir) else d.at? q

/-- `t` is `d` with the directory `x` at a path, which is made if it is missing. -/
structure Grafted (d : Dir) (p : Path) (x t : Dir) : Prop where
  inside (q : Path) : t.at? (p ++ q) = x.at? q
  outside (q : Path) : ¬ p <+: q → t.at? q = d.filled p q

variable {d x t : Dir} {p q : Path} {name : String} {e : Entry}

lemma at?_append (d : Dir) (p q : Path) : d.at? (p ++ q) = (d.find? p).bind (·.at? q) := by
  rw [at?, find?_append, Option.map_bind]
  rfl

lemma at?_put (d : Dir) (name n : String) (e : Entry) (q : Path) :
    (d.put name e).at? (n :: q) = if n = name then e.at? q else d.at? (n :: q) := by
  rw [at?_cons, at?_cons, child_put]
  split <;> rfl

lemma at?_empty_cons (name : String) (p : Path) : empty.at? (name :: p) = none := by
  rw [at?_cons]
  rfl

lemma at?_empty_of_ne (hq : q ≠ []) : empty.at? q = none := by
  obtain ⟨name, q, rfl⟩ := List.exists_cons_of_ne_nil hq
  exact at?_empty_cons name q

/-! ## Files on the way -/

lemma not_fileOn_nil (d : Dir) : ¬ d.FileOn [] := by
  rintro ⟨q, a, origin, hq, h⟩
  obtain rfl := List.prefix_nil.mp hq
  cases h

lemma fileOn_cons : d.FileOn (name :: p) ↔ ∃ e, d.child name = some e ∧ e.FileOn p := by
  constructor
  · rintro ⟨q, a, origin, hq, h⟩
    cases q with
    | nil => cases h
    | cons n q =>
      obtain ⟨rfl, hp⟩ := List.cons_prefix_cons.mp hq
      obtain ⟨e, hc, h⟩ := Option.bind_eq_some_iff.mp ((at?_cons d n q).symm.trans h)
      exact ⟨e, hc, q, a, origin, hp, h⟩
  · rintro ⟨e, hc, q, a, origin, hq, h⟩
    refine ⟨name :: q, a, origin, List.cons_prefix_cons.mpr ⟨rfl, hq⟩, ?_⟩
    change d.at? (name :: q) = _
    rw [at?_cons, hc]
    exact h

lemma not_fileOn_empty (p : Path) : ¬ empty.FileOn p := by
  cases p with
  | nil => exact not_fileOn_nil empty
  | cons name p =>
    rw [fileOn_cons]
    rintro ⟨e, he, _⟩
    cases he

/-! ## What lies above an entry -/

lemma dir_of_at?_append (hq : q ≠ []) (h : d.at? (p ++ q) ≠ none) :
    ∃ a, d.at? p = some (.dir a) := by
  rw [at?_append] at h
  rw [at?]
  cases hx : d.find? p with
  | none => exact absurd (by rw [hx]; rfl) h
  | some e =>
    cases e with
    | dir a l cs => exact ⟨a, rfl⟩
    | file a origin =>
      obtain ⟨n, q, rfl⟩ := List.exists_cons_of_ne_nil hq
      exact absurd (by rw [hx]; rfl) h

lemma at?_ne_none_of_prefix (hq : q <+: p) (h : d.at? p ≠ none) : d.at? q ≠ none := by
  obtain ⟨t, rfl⟩ := hq
  by_cases ht : t = []
  · rwa [ht, List.append_nil] at h
  · obtain ⟨a, ha⟩ := dir_of_at?_append ht h
    simp [ha]

lemma not_fileOn_of_append (hq : q ≠ []) (h : d.at? (p ++ q) ≠ none) : ¬ d.FileOn p := by
  rintro ⟨r, a, origin, ⟨t, rfl⟩, hr⟩
  rw [List.append_assoc] at h
  obtain ⟨b, hb⟩ := dir_of_at?_append (by simp [hq]) h
  cases hr.symm.trans hb

lemma filled_of_bound (h : d.at? p ≠ none) (q : Path) : d.filled p q = d.at? q := by
  rw [filled, if_neg]
  exact fun hn => at?_ne_none_of_prefix hn.1 h hn.2

/-! ## What is answered and left -/

lemma dirAt_nil (d : Dir) : d.dirAt [] = d := by
  rw [dirAt, find?_nil]
  rfl

lemma dirAt_empty (p : Path) : empty.dirAt p = empty := by
  cases p with
  | nil => exact dirAt_nil empty
  | cons name p =>
    rw [dirAt, find?_cons]
    rfl

lemma filled_append (h : ¬ d.FileOn p) (q : Path) : d.filled p (p ++ q) = (d.dirAt p).at? q := by
  have hq : p ++ q <+: p ↔ q = [] := by
    constructor
    · intro h
      simpa using h.length_le
    · rintro rfl
      simp
  cases hx : d.find? p with
  | none =>
    have hb : d.at? (p ++ q) = none := by rw [at?_append, hx, Option.bind_none]
    rw [filled, hb, dirAt, hx]
    cases q with
    | nil => simp [at?_nil, empty]
    | cons n q => simp [hq, at?_empty_cons]
  | some e =>
    cases e with
    | file a origin =>
      refine absurd ⟨p, a, origin, List.prefix_rfl, ?_⟩ h
      exact congrArg (Option.map Entry.binding) hx
    | dir a l cs =>
      have hb : d.at? (p ++ q) = Dir.at? ⟨a, l, cs⟩ q := by
        rw [at?_append, hx]
        rfl
      rw [filled, hb, dirAt, hx, if_neg]
      rintro ⟨hp, hn⟩
      rw [hq.mp hp, at?_nil] at hn
      cases hn

lemma within_of_fileOn {make : Bool} {full : Path} {edit : Dir → Outcome α} (h : d.FileOn p) :
    (within make full edit p d).result = .error (.typeMismatch full .directory .file) := by
  induction p generalizing d with
  | nil => exact absurd h (not_fileOn_nil d)
  | cons name p ih =>
    obtain ⟨e, hc, he⟩ := fileOn_cons.mp h
    rw [within, hc]
    cases e with
    | file a origin => rfl
    | dir a l cs => exact ih he

lemma within_of_missing {full : Path} {edit : Dir → Outcome α} (hf : ¬ d.FileOn p)
    (h : d.at? p = none) :
    (within false full edit p d).result = .error (.notFound full) := by
  induction p generalizing d with
  | nil =>
    rw [at?_nil] at h
    cases h
  | cons name p ih =>
    rw [at?_cons] at h
    rw [fileOn_cons] at hf
    rw [within]
    cases hc : d.child name with
    | none => rfl
    | some e =>
      rw [hc] at h hf
      cases e with
      | file a origin => exact absurd ⟨_, rfl, Entry.fileOn_file a origin p⟩ hf
      | dir a l cs => exact ih (fun he => hf ⟨_, rfl, he⟩) h

lemma Grafted.nil (d x : Dir) : Grafted d [] x x :=
  ⟨fun _ => rfl, fun _ h => absurd List.nil_prefix h⟩

lemma Grafted.cons {c : Dir} (h : Grafted c p x t)
    (hc : ∀ q, d.filled (name :: p) (name :: q) = c.filled p q) :
    Grafted d (name :: p) x (d.put name t.toEntry) where
  inside q := by
    rw [List.cons_append, at?_put, if_pos rfl]
    exact h.inside q
  outside q hq := by
    cases q with
    | nil =>
      rw [filled, if_neg]
      · rw [at?_nil, at?_nil]
        rfl
      · rintro ⟨_, hn⟩
        rw [at?_nil] at hn
        cases hn
    | cons n q =>
      rw [at?_put]
      split
      · rename_i hn
        subst n
        rw [hc]
        exact h.outside q fun hp => hq (List.cons_prefix_cons.mpr ⟨rfl, hp⟩)
      · rename_i hn
        rw [filled, if_neg]
        rintro ⟨hp, _⟩
        exact hn (List.cons_prefix_cons.mp hp).1

lemma within_grafted {make : Bool} (full : Path) (edit : Dir → Outcome α) (hf : ¬ d.FileOn p)
    (hm : make = true ∨ d.at? p ≠ none) :
    (within make full edit p d).result = (edit (d.dirAt p).touch).result ∧
      Grafted d p (edit (d.dirAt p).touch).tree (within make full edit p d).tree := by
  induction p generalizing d with
  | nil =>
    rw [dirAt_nil, within]
    exact ⟨rfl, .nil d _⟩
  | cons name p ih =>
    rw [fileOn_cons] at hf
    have hfill (q : Path) : d.filled (name :: p) (name :: q) =
        if q <+: p ∧ (d.child name).bind (·.at? q) = none then some (.dir .ofDir)
        else (d.child name).bind (·.at? q) := by
      simp only [filled, at?_cons, List.cons_prefix_cons, true_and]
    rw [at?_cons] at hm
    rw [within, dirAt, find?_cons]
    cases hc : d.child name with
    | none =>
      -- from here on directories are made, as if the rest of the way led through an empty one
      rw [hc] at hm hfill
      obtain rfl : make = true := hm.resolve_right fun h => h rfl
      obtain ⟨hr, hg⟩ := ih (not_fileOn_empty p) (.inl rfl)
      rw [dirAt_empty] at hr hg
      refine ⟨hr, hg.cons fun q => ?_⟩
      rw [hfill, filled]
      cases q with
      | nil => simp [at?_nil, empty]
      | cons n q => simp [at?_empty_cons]
    | some e =>
      rw [hc] at hm hf hfill
      cases e with
      | file a origin => exact absurd ⟨_, rfl, Entry.fileOn_file a origin p⟩ hf
      | dir a l cs =>
        obtain ⟨hr, hg⟩ := ih (d := ⟨a, l, cs⟩) (fun he => hf ⟨_, rfl, he⟩) hm
        exact ⟨hr, hg.cons hfill⟩

lemma Grafted.at?_of_child (h : Grafted d p x t) (hf : ¬ d.FileOn p)
    (ha : x.attrs = (d.dirAt p).attrs) (hc : ∀ n, n ≠ name → x.child n = (d.dirAt p).child n) :
    (∀ q, t.at? (p ++ name :: q) = (x.child name).bind (·.at? q)) ∧
      ∀ q, ¬ p ++ [name] <+: q → t.at? q = d.filled p q := by
  refine ⟨fun q => by rw [h.inside, at?_cons], fun q hq => ?_⟩
  by_cases hp : p <+: q
  · obtain ⟨q, rfl⟩ := hp
    rw [h.inside, filled_append hf]
    cases q with
    | nil => rw [at?_nil, at?_nil, ha]
    | cons n q =>
      rw [List.prefix_append_right_inj, List.cons_prefix_cons] at hq
      rw [at?_cons, at?_cons, hc n fun hn => hq ⟨hn.symm, List.nil_prefix⟩]
  · exact h.outside q hp

/-! ## Changes of one entry -/

lemma child_dirAt (hf : ¬ d.FileOn p) (name : String) :
    (d.dirAt p).child name = d.find? (p ++ [name]) := by
  rw [find?_append, dirAt]
  cases hx : d.find? p with
  | none => rfl
  | some e =>
    cases e with
    | dir a l cs => exact (find?_singleton _ _).symm
    | file a origin =>
      exact absurd ⟨p, a, origin, List.prefix_rfl,
        congrArg (Option.map Entry.binding) hx⟩ hf

lemma child_dirAt_parent (hp : p ≠ []) (hf : ¬ d.FileOn p.parent) :
    (d.dirAt p.parent).touch.child p.name = d.find? p :=
  (child_dirAt hf p.name).trans (congrArg d.find? (Path.parent_append_name hp))

lemma at?_eq_none_iff : d.at? p = none ↔ d.find? p = none := Option.map_eq_none_iff

lemma parent_of_bound (hp : p ≠ []) (hx : d.find? p = some e) :
    ¬ d.FileOn p.parent ∧ d.at? p.parent ≠ none := by
  have hb : d.at? (p.parent ++ [p.name]) ≠ none := by
    rw [Path.parent_append_name hp, ne_eq, at?_eq_none_iff, hx]
    exact Option.some_ne_none e
  exact ⟨not_fileOn_of_append (List.cons_ne_nil _ _) hb,
    at?_ne_none_of_prefix (List.prefix_append _ _) hb⟩

structure Replaced (d : Dir) (p : Path) (e : Option Entry) (t : Dir) : Prop where
  below (q : Path) : t.at? (p ++ q) = e.bind (·.at? q)
  beside (q : Path) : ¬ p <+: q → t.at? q = d.filled p.parent q

lemma Grafted.replaced {x : Dir} (h : Grafted d p.parent x t) (hp : p ≠ [])
    (hf : ¬ d.FileOn p.parent) (ha : x.attrs = (d.dirAt p.parent).attrs)
    (hc : ∀ n, n ≠ p.name → x.child n = (d.dirAt p.parent).child n) :
    Replaced d p (x.child p.name) t := by
  obtain ⟨hb, ho⟩ := h.at?_of_child hf ha hc
  have hcons (q : Path) : p ++ q = p.parent ++ p.name :: q := by
    conv_lhs => rw [← Path.parent_append_name hp, List.append_assoc, List.singleton_append]
  refine ⟨fun q => by rw [hcons, hb], fun q hq => ho q ?_⟩
  rwa [Path.parent_append_name hp]

lemma within_put {α : Type} {make : Bool} {full : Path} {edit : Dir → Outcome α} (hp : p ≠ [])
    (hf : ¬ d.FileOn p.parent) (hm : make = true ∨ d.at? p.parent ≠ none) {r : Except Error α}
    (he : edit (d.dirAt p.parent).touch = ⟨r, (d.dirAt p.parent).touch.put p.name e⟩) :
    (within make full edit p.parent d).result = r ∧
      Replaced d p (some e) (within make full edit p.parent d).tree := by
  obtain ⟨hr, hg⟩ := within_grafted full edit hf hm
  rw [he] at hr hg
  refine ⟨hr, ?_⟩
  have hchild := hg.replaced hp hf rfl fun n hn => (child_put _ _ _ _).trans (if_neg hn)
  rwa [child_put, if_pos rfl] at hchild

lemma within_drop {α : Type} {make : Bool} {full : Path} {edit : Dir → Outcome α} (hp : p ≠ [])
    (hf : ¬ d.FileOn p.parent) (hm : make = true ∨ d.at? p.parent ≠ none) {r : Except Error α}
    (he : edit (d.dirAt p.parent).touch = ⟨r, (d.dirAt p.parent).touch.drop p.name⟩) :
    (within make full edit p.parent d).result = r ∧
      Replaced d p none (within make full edit p.parent d).tree := by
  obtain ⟨hr, hg⟩ := within_grafted full edit hf hm
  rw [he] at hr hg
  refine ⟨hr, ?_⟩
  have hchild := hg.replaced hp hf rfl fun n hn => (child_drop _ _ _).trans (if_neg hn)
  rwa [child_drop, if_pos rfl] at hchild

lemma within_create (make : Bool) (full : Path) (hp : p ≠ []) (hf : ¬ d.FileOn p.parent)
    (hm : make = true ∨ d.at? p.parent ≠ none) (hn : d.at? p = none) (e : Entry) :
    (within make full (create p e) p.parent d).result = .ok () ∧
      Replaced d p (some e) (within make full (create p e) p.parent d).tree := by
  apply within_put hp hf hm
  rw [create, child_dirAt_parent hp hf, at?_eq_none_iff.mp hn]

lemma within_create_of_bound {make : Bool} {full : Path} (hp : p ≠ []) (hf : ¬ d.FileOn p.parent)
    (hm : make = true ∨ d.at? p.parent ≠ none) (hn : d.at? p ≠ none) (e : Entry) :
    (within make full (create p e) p.parent d).result = .error (.alreadyExists p) := by
  rw [(within_grafted full _ hf hm).1, create, child_dirAt_parent hp hf]
  obtain ⟨x, hx⟩ := Option.ne_none_iff_exists'.mp fun h => hn (at?_eq_none_iff.mpr h)
  rw [hx]

end Dir

end TarRecipe
