import Mathlib
import TarRecipe.Proofs.Effect
import TarRecipe.Proofs.Tree.Merging

/-! Entries that are laid over a tree one after the other. -/

namespace TarRecipe

def SameKind (x y : Option Binding) : Prop := ∀ b b', x = some b → y = some b' → b.kind = b'.kind

@[simp] lemma sameKind_none (x : Option Binding) : SameKind x none := fun _ _ _ h => by cases h

@[simp] lemma none_sameKind (x : Option Binding) : SameKind none x := fun _ _ h => by cases h

@[simp] lemma some_sameKind_some {b b' : Binding} :
    SameKind (some b) (some b') ↔ b.kind = b'.kind := by
  simp [SameKind]

lemma SameKind.symm {x y : Option Binding} (h : SameKind x y) : SameKind y x :=
  fun b b' hy hx => (h b' b hx hy).symm

instance : Std.Symm SameKind := ⟨fun _ _ => SameKind.symm⟩

lemma SameKind.refl (x : Option Binding) : SameKind x x := by
  rintro b b' rfl ⟨⟩
  rfl

lemma sameKind_joint {x y : Option Binding} (h : SameKind x y) (z : Option Binding) :
    SameKind (joint x y) z ↔ SameKind x z ∧ SameKind y z := by
  cases x with
  | none => simp
  | some b =>
    cases y with
    | none => simp
    | some b' =>
      cases z with
      | none => simp
      | some c =>
        cases b <;> cases b' <;> simp_all [joint, Binding.kind]

/-! ## Layers at one path -/

lemma pairwise_foldl_joint {x : Option Binding} {ys zs : List (Option Binding)}
    (h : (x :: ys).Pairwise SameKind) :
    (ys.foldl joint x :: zs).Pairwise SameKind ↔ (x :: ys ++ zs).Pairwise SameKind := by
  induction ys generalizing x with
  | nil => rfl
  | cons y ys ih =>
    obtain ⟨hx, hys⟩ := List.pairwise_cons.mp h
    obtain ⟨hxy, hx⟩ := List.forall_mem_cons.mp hx
    obtain ⟨hy, hys⟩ := List.pairwise_cons.mp hys
    have hjoint : (joint x y :: ys).Pairwise SameKind :=
      List.pairwise_cons.mpr ⟨fun z hz => (sameKind_joint hxy z).mpr ⟨hx z hz, hy z hz⟩, hys⟩
    rw [List.foldl_cons, ih hjoint]
    simp only [List.cons_append, List.pairwise_cons, List.forall_mem_cons, sameKind_joint hxy]
    constructor
    · rintro ⟨hz, hp⟩
      exact ⟨⟨hxy, fun z hm => (hz z hm).1⟩, fun z hm => (hz z hm).2, hp⟩
    · rintro ⟨⟨_, hz⟩, hz', hp⟩
      exact ⟨fun z hm => ⟨hz z hm, hz' z hm⟩, hp⟩

lemma foldl_joint_none {x : Option Binding} {ys : List (Option Binding)} (h : ∀ y ∈ ys, y = none) :
    ys.foldl joint x = x := by
  induction ys with
  | nil => rfl
  | cons y ys ih =>
    obtain ⟨hy, h⟩ := List.forall_mem_cons.mp h
    rw [List.foldl_cons, hy, joint_none, ih h]

lemma foldl_joint_dir {a : Attrs} {ys : List (Option Binding)}
    (h : ∀ y ∈ ys, SameKind (some (.dir a)) y) :
    ys.foldl joint (some (.dir a)) = some (.dir a) := by
  induction ys with
  | nil => rfl
  | cons y ys ih =>
    obtain ⟨hy, h⟩ := List.forall_mem_cons.mp h
    have hj : joint (some (.dir a)) y = some (.dir a) := by
      cases y with
      | none => rfl
      | some b =>
        cases b with
        | file _ _ => exact absurd (some_sameKind_some.mp hy) (by simp [Binding.kind])
        | dir _ => rfl
    rw [List.foldl_cons, hj, ih h]

section

variable {γ : Type} {P : γ → Prop} {f : γ → Option Binding} {xs before after : List γ} {x : γ}

lemma exists_first (h : ∃ x ∈ xs, P x) :
    ∃ before x after, xs = before ++ x :: after ∧ P x ∧ ∀ y ∈ before, ¬ P y := by
  classical
  obtain ⟨x, hx⟩ : ∃ x, xs.find? (fun x => decide (P x)) = some x := by
    rw [← Option.isSome_iff_exists, List.find?_isSome]
    simpa using h
  obtain ⟨hp, before, after, heq, hb⟩ := List.find?_eq_some_iff_append.mp hx
  exact ⟨before, x, after, heq, of_decide_eq_true hp, fun y hy => by simpa using hb y hy⟩

lemma exists_last (h : ∃ x ∈ xs, P x) :
    ∃ before x after, xs = before ++ x :: after ∧ P x ∧ ∀ y ∈ after, ¬ P y := by
  have hr : ∃ x ∈ xs.reverse, P x := by simpa using h
  obtain ⟨after, x, before, heq, hx, ha⟩ := exists_first hr
  refine ⟨before.reverse, x, after.reverse, ?_, hx, by simpa using ha⟩
  rw [← List.reverse_reverse xs, heq]
  simp

lemma foldl_layers_file {a : Attrs} {origin : Bytes} (hx : f x = some (.file a origin))
    (h : ∀ y ∈ after, ¬ f y ≠ none) (old : Option Binding) :
    ((before ++ x :: after).map f).foldl joint old = some (.file a origin) := by
  rw [List.map_append, List.map_cons, List.foldl_append, List.foldl_cons, foldl_joint_none, hx]
  · generalize (before.map f).foldl joint old = b
    rcases b with _ | (_ | _) <;> rfl
  · exact List.forall_mem_map.mpr fun y hy => not_not.mp (h y hy)

lemma foldl_layers_dir {a : Attrs} (hk : ((before ++ x :: after).map f).Pairwise SameKind)
    (hx : f x = some (.dir a)) (h : ∀ y ∈ before, ¬ f y ≠ none) :
    ((before ++ x :: after).map f).foldl joint none = some (.dir a) := by
  have hb : (before.map f).foldl joint none = none :=
    foldl_joint_none (List.forall_mem_map.mpr fun y hy => not_not.mp (h y hy))
  rw [List.map_append, List.map_cons, hx] at hk ⊢
  obtain ⟨_, hk, _⟩ := List.pairwise_append.mp hk
  rw [List.foldl_append, hb, List.foldl_cons, none_joint,
    foldl_joint_dir (List.pairwise_cons.mp hk).1]

end

def Entry.offered (e : Entry) (p q : Path) : Option Binding :=
  if p <+: q then e.at? (q.drop p.length) else none

namespace Dir

/-! ## Trees that get layers -/

/-- Below the directory at `above`, which is made if it is missing, layers have come over the tree,
unless a file is on the way or some of what meets at a path is of different kinds. -/
structure Lays (d : Dir) (above : Path) (offers : Path → List (Option Binding)) (o : Outcome Unit) :
    Prop where
  ok_iff : o.result = .ok () ↔
    ¬ d.FileOn above ∧ ∀ q, (d.filled above q :: offers q).Pairwise SameKind
  bound : o.result = .ok () → ∀ q, o.tree.at? q = (offers q).foldl joint (d.filled above q)

variable {γ : Type} {d : Dir} {above p q : Path} {e : Entry} {o o' : Outcome Unit}
  {offers offers' : Path → List (Option Binding)} {f : γ → Dir → Outcome Unit}
  {offer : γ → Path → Option Binding}

lemma exists_dir_filled (hf : ¬ d.FileOn above) (hq : q <+: above) :
    ∃ a, d.filled above q = some (.dir a) := by
  rw [filled]
  split
  · exact ⟨.ofDir, rfl⟩
  · rename_i hn
    obtain ⟨b, hb⟩ := Option.ne_none_iff_exists'.mp fun h => hn ⟨hq, h⟩
    cases b with
    | file a origin => exact absurd ⟨q, a, origin, hq, hb⟩ hf
    | dir a => exact ⟨a, hb⟩

-- Where the first layers are down there are directories all the way, and nothing is to be made for
-- the next ones.
lemma Lays.reached (h : d.Lays above offers o) (hr : o.result = .ok ()) :
    ¬ o.tree.FileOn above ∧ ∀ q, o.tree.filled above q = o.tree.at? q := by
  obtain ⟨hf, hk⟩ := h.ok_iff.mp hr
  have hdir (q : Path) (hq : q <+: above) : ∃ a, o.tree.at? q = some (.dir a) := by
    obtain ⟨a, ha⟩ := exists_dir_filled hf hq
    have hq := hk q
    rw [ha, List.pairwise_cons] at hq
    exact ⟨a, by rw [h.bound hr, ha, foldl_joint_dir hq.1]⟩
  constructor
  · rintro ⟨q, a, origin, hq, hat⟩
    obtain ⟨b, hb⟩ := hdir q hq
    cases hat.symm.trans hb
  · obtain ⟨a, ha⟩ := hdir above List.prefix_rfl
    exact filled_of_bound (by simp [ha])

lemma Lays.andThen {next : Dir → Outcome Unit} (h : d.Lays above offers o)
    (h' : o.tree.Lays above offers' (next o.tree)) :
    d.Lays above (fun q => offers q ++ offers' q) (o.andThen fun _ t => next t) := by
  rw [Outcome.andThen]
  cases hr : o.result with
  | error e =>
    refine ⟨iff_of_false (fun h => by cases h) ?_, fun h => by cases h⟩
    rintro ⟨hf, hk⟩
    have hok : o.result = .ok () := h.ok_iff.mpr ⟨hf, fun q => (List.pairwise_append.mp (hk q)).1⟩
    cases hr.symm.trans hok
  | ok _ =>
    obtain ⟨hf, hk⟩ := h.ok_iff.mp hr
    obtain ⟨hf', hfill⟩ := h.reached hr
    have hstart (q : Path) : o.tree.filled above q = (offers q).foldl joint (d.filled above q) := by
      rw [hfill, h.bound hr]
    constructor
    · simp only [h'.ok_iff, hf, hf', hstart, pairwise_foldl_joint (hk _), List.cons_append]
    · intro hok q
      rw [h'.bound hok, hstart, List.foldl_append]

-- Without a layer the directories down to `above` would not be made, so the induction starts from
-- one.
lemma forEach_lays {xs : List γ} (hxs : xs ≠ [])
    (hf : ∀ x ∈ xs, ∀ d : Dir, d.Lays above (fun q => [offer x q]) (f x d))
    (d : Dir) : d.Lays above (fun q => xs.map fun x => offer x q) (Outcome.forEach f xs d) := by
  induction xs generalizing d with
  | nil => exact absurd rfl hxs
  | cons x xs ih =>
    rw [List.forall_mem_cons] at hf
    cases xs with
    | nil =>
      rw [Outcome.forEach_singleton]
      exact hf.1 d
    | cons y ys => exact (hf.1 d).andThen (ih (List.cons_ne_nil y ys) hf.2 _)

/-! ## Entries as layers -/

lemma offered_append (e : Entry) (p r : Path) : e.offered p (p ++ r) = e.at? r := by
  rw [Entry.offered, if_pos (List.prefix_append p r), List.drop_left]

lemma filled_parent_append (d : Dir) (p r : Path) :
    d.filled p.parent (p ++ r) = d.at? (p ++ r) := by
  rw [filled, if_neg]
  rintro ⟨hpre, hn⟩
  have hl := hpre.length_le
  rw [List.length_append, Path.parent, List.length_dropLast] at hl
  have hp : p ++ r = [] := List.length_eq_zero_iff.mp (by rw [List.length_append]; omega)
  rw [hp, at?_nil] at hn
  cases hn

lemma reaches_iff_parent : d.Reaches p ↔ ¬ d.FileOn p.parent := by
  by_cases hp : p = []
  · rw [hp]
    exact iff_of_true (reaches_nil d) (not_fileOn_nil d)
  · exact reaches_iff hp

lemma add_lays (he : e.WellFormed) (text : String) (d : Dir) :
    d.Lays (Path.parse text).parent (fun q => [e.offered (Path.parse text) q]) (d.add text e) := by
  have hkinds :
      (∀ q, [d.filled (Path.parse text).parent q, e.offered (Path.parse text) q].Pairwise
        SameKind) ↔
      ∀ r b b', d.at? (Path.parse text ++ r) = some b → e.at? r = some b' → b.kind = b'.kind := by
    simp only [List.pairwise_pair]
    constructor
    · intro h r
      have hr := h (Path.parse text ++ r)
      rwa [filled_parent_append, offered_append] at hr
    · intro h q
      by_cases hq : Path.parse text <+: q
      · obtain ⟨r, rfl⟩ := hq
        rw [filled_parent_append, offered_append]
        exact h r
      · rw [Entry.offered, if_neg hq]
        exact sameKind_none _
  constructor
  · rw [hkinds, ← reaches_iff_parent]
    constructor
    · intro h
      have hr := reaches_of_add h
      exact ⟨hr, ((adds_of_reaches he hr).ok_iff he).mp h⟩
    · rintro ⟨hr, hk⟩
      exact ((adds_of_reaches he hr).ok_iff he).mpr hk
  · intro hok q
    have ha := adds_of_reaches he (reaches_of_add hok)
    rw [List.foldl_cons, List.foldl_nil]
    by_cases hq : Path.parse text <+: q
    · obtain ⟨r, rfl⟩ := hq
      rw [filled_parent_append, offered_append, ha.below r hok]
    · rw [Entry.offered, if_neg hq, joint_none, ha.beside q hok hq]

end Dir

end TarRecipe
