import Mathlib
import TarRecipe.Proofs.Tree.Operations
import TarRecipe.Proofs.Tree.Within

/-! Trees as maps from paths to what is bound there. -/

namespace TarRecipe

/-- On the way down from the root to `p`, with both of them left out. -/
def Path.Above (q p : Path) : Prop := q ≠ [] ∧ q <+: p ∧ q ≠ p

lemma Path.Clean.of_prefix {p q : Path} (h : p.Clean) (hq : q <+: p) : q.Clean :=
  fun name hn => h name (hq.subset hn)

lemma Path.above_iff {p q : Path} (hp : p ≠ []) : q.Above p ↔ q ≠ [] ∧ q <+: p.parent := by
  constructor
  · rintro ⟨hn, ⟨t, rfl⟩, hne⟩
    have ht : t ≠ [] := fun ht => hne (by rw [ht, List.append_nil])
    rw [parent, List.dropLast_append_of_ne_nil ht]
    exact ⟨hn, List.prefix_append q _⟩
  · rintro ⟨hn, hq⟩
    refine ⟨hn, hq.trans (List.dropLast_prefix p), ?_⟩
    rintro rfl
    have hl := hq.length_le
    have hpos := List.length_pos_of_ne_nil hn
    rw [parent, List.length_dropLast] at hl
    omega

namespace Dir

def view (d : Dir) (p : Path) : Option Binding := (d.getEntry p.render).toOption.map Entry.binding

def BindsFile (d : Dir) (p : Path) : Prop := ∃ a origin, d.view p = some (.file a origin)

def BindsDir (d : Dir) (p : Path) : Prop := ∃ a, d.view p = some (.dir a)

variable {d t : Dir} {p q : Path} {name : String} {e : Entry}

lemma view_nil (d : Dir) : d.view [] = none := rfl

lemma view_eq_at? (hc : p.Clean) (hp : p ≠ []) : d.view p = d.at? p := by
  have hg : d.getEntry p.render = d.entryAt p := by rw [getEntry, Path.parse_render hc]
  rw [view, hg, at?]
  cases hf : d.find? p with
  | some e =>
    rw [entryAt_eq_ok_iff.mpr ⟨hp, hf⟩]
    rfl
  | none =>
    cases he : d.entryAt p with
    | error e => rfl
    | ok e =>
      rw [(entryAt_eq_ok_iff.mp he).2] at hf
      cases hf

/-! ## Files and gaps above a path -/

lemma fileOn_iff (hc : p.Clean) : d.FileOn p ↔ ∃ q, q ≠ [] ∧ q <+: p ∧ d.BindsFile q := by
  constructor
  · rintro ⟨q, a, origin, hq, h⟩
    have hn : q ≠ [] := by
      rintro rfl
      cases h
    exact ⟨q, hn, hq, a, origin, (view_eq_at? (hc.of_prefix hq) hn).trans h⟩
  · rintro ⟨q, hn, hq, a, origin, h⟩
    exact ⟨q, a, origin, hq, (view_eq_at? (hc.of_prefix hq) hn).symm.trans h⟩

lemma fileOn_parent_iff (hc : p.Clean) (hp : p ≠ []) :
    d.FileOn p.parent ↔ ∃ q, q.Above p ∧ d.BindsFile q := by
  simp only [fileOn_iff hc.parent, Path.above_iff hp, and_assoc]

lemma gap_iff (hc : p.Clean) (hp : p ≠ []) :
    d.at? p.parent = none ↔ ∃ q, q.Above p ∧ d.view q = none := by
  constructor
  · intro h
    have hn : p.parent ≠ [] := by
      intro he
      rw [he, at?_nil] at h
      cases h
    exact ⟨p.parent, (Path.above_iff hp).mpr ⟨hn, List.prefix_rfl⟩,
      (view_eq_at? hc.parent hn).trans h⟩
  · rintro ⟨q, hq, hv⟩
    obtain ⟨hn, hq⟩ := (Path.above_iff hp).mp hq
    rw [view_eq_at? (hc.parent.of_prefix hq) hn] at hv
    exact of_not_not fun h => at?_ne_none_of_prefix hq h hv

lemma bindsDir_above_iff (hc : p.Clean) (hp : p ≠ []) :
    (∀ q : Path, q.Above p → d.BindsDir q) ↔ ¬ d.FileOn p.parent ∧ d.at? p.parent ≠ none := by
  rw [fileOn_parent_iff hc hp, ne_eq, gap_iff hc hp]
  constructor
  · intro h
    constructor
    · rintro ⟨q, hq, a, origin, hf⟩
      obtain ⟨b, hb⟩ := h q hq
      cases hf.symm.trans hb
    · rintro ⟨q, hq, hn⟩
      obtain ⟨b, hb⟩ := h q hq
      cases hn.symm.trans hb
  · rintro ⟨hf, hg⟩ q hq
    cases hv : d.view q with
    | none => exact absurd ⟨q, hq, hv⟩ hg
    | some b =>
      cases b with
      | file a origin => exact absurd ⟨q, hq, a, origin, hv⟩ hf
      | dir a => exact ⟨a, hv⟩

/-! ## A new entry without anything below -/

lemma Replaced.at?_leaf (h : Replaced d p (some e) t) (hp : p ≠ [])
    (he : ∀ q, q ≠ [] → e.at? q = none) (hn : d.at? p = none) (q : Path) :
    t.at? q = if q = p then some e.binding else d.filled p.parent q := by
  by_cases hq : p <+: q
  · obtain ⟨r, rfl⟩ := hq
    rw [h.below, Option.bind_some]
    by_cases hr : r = []
    · rw [hr, List.append_nil, if_pos rfl, Entry.at?_nil]
    · have hlen : ¬ p ++ r <+: p.parent := by
        intro hl
        have := hl.length_le
        have := List.length_pos_of_ne_nil hp
        rw [Path.parent, List.length_dropLast, List.length_append] at *
        omega
      have hnone : d.at? (p ++ r) = none :=
        of_not_not fun hb => at?_ne_none_of_prefix (List.prefix_append p r) hb hn
      rw [he r hr, if_neg (by simpa using hr), filled, if_neg fun hl => hlen hl.1, hnone]
  · rw [if_neg fun (he : q = p) => hq (he ▸ List.prefix_rfl), h.beside q hq]

end Dir

/-! ## What operations owe to the map -/

/-- When an operation succeeds, what is bound once it has, and how it fails otherwise. -/
structure Contract where
  can : Prop
  bound : Path → Option Binding
  fault : Error

structure Outcome.Meets {α : Type} (o : Outcome α) (c : Contract) : Prop where
  wellFormed : o.tree.WellFormed
  succeeds : (∃ x, o.result = .ok x) ↔ c.can
  bound : c.can → ∀ q : Path, q.Clean → q ≠ [] → o.tree.view q = c.bound q
  fault : ¬ c.can → o.result = .error c.fault

namespace Outcome

variable {α β : Type} {o : Outcome α} {c : Contract}

lemma meets_of_ok {x : α} (hc : c.can) (hr : o.result = .ok x) (hw : o.tree.WellFormed)
    (hb : ∀ q : Path, q.Clean → q ≠ [] → o.tree.at? q = c.bound q) : o.Meets c where
  wellFormed := hw
  succeeds := iff_of_true ⟨x, hr⟩ hc
  bound _ q hq hn := (Dir.view_eq_at? hq hn).trans (hb q hq hn)
  fault h := absurd hc h

lemma meets_of_error (hc : ¬ c.can) (hr : o.result = .error c.fault) (hw : o.tree.WellFormed) :
    o.Meets c where
  wellFormed := hw
  succeeds := iff_of_false (fun ⟨x, hx⟩ => by rw [hr] at hx; cases hx) hc
  bound h := absurd h hc
  fault _ := hr

lemma andThen_ok (o : Outcome α) (y : β) :
    (o.andThen fun _ d => ⟨.ok y, d⟩) = ⟨o.result.map fun _ => y, o.tree⟩ := by
  obtain ⟨r, t⟩ := o
  cases r <;> rfl

end Outcome

namespace Contract

open scoped Classical

noncomputable def mkdir (d : Dir) (p : Path) (f : Attrs → Attrs) : Contract where
  can := p ≠ [] ∧ d.view p = none ∧ ∀ q : Path, q.Above p → d.BindsDir q
  bound q := if q = p then some (.dir (f .ofDir)) else d.view q
  fault :=
    if p = [] then .alreadyExists p
    else if ∃ q : Path, q.Above p ∧ d.BindsFile q then .typeMismatch p .directory .file
    else if ∃ q : Path, q.Above p ∧ d.view q = none then .notFound p
    else .alreadyExists p

noncomputable def mkdirAll (d : Dir) (p : Path) (f : Attrs → Attrs) : Contract where
  can := ∀ q : Path, q ≠ [] → q <+: p → ¬ d.BindsFile q
  bound q :=
    let made := if q <+: p ∧ d.view q = none then some (.dir .ofDir) else d.view q
    if q = p then made.map (Binding.change f) else made
  fault := .typeMismatch p .directory .file

noncomputable def addFile (d : Dir) (p : Path) (origin : Bytes) (f : Attrs → Attrs) : Contract where
  can := p ≠ [] ∧ d.view p = none ∧ ∀ q : Path, q.Above p → ¬ d.BindsFile q
  bound q :=
    if q = p then some (.file (f .ofFile) origin)
    else if q.Above p ∧ d.view q = none then some (.dir .ofDir)
    else d.view q
  fault :=
    if p = [] then .alreadyExists p
    else if ∃ q : Path, q.Above p ∧ d.BindsFile q then .typeMismatch p.parent .directory .file
    else .alreadyExists p

noncomputable def remove (d : Dir) (p : Path) : Contract where
  can := d.view p ≠ none
  bound q := if p <+: q then none else d.view q
  fault :=
    if ∃ q : Path, q.Above p ∧ d.BindsFile q then .typeMismatch p .directory .file else .notFound p

end Contract

namespace Dir

open Binding (uniform_eq)

variable {d : Dir} {text : String} {e : Entry}

lemma mkdir_meets (h : d.WellFormed) (text : String) (f : Attrs → Attrs) :
    (d.mkdir text f).Meets (.mkdir d (Path.parse text) f) := by
  have hw : (d.mkdir text f).tree.WellFormed :=
    (mkdir_related uniform_eq text trivial (related_eq_iff.mpr h)).tree.left
  have hc := Path.clean_parse text
  rw [mkdir] at hw ⊢
  generalize Path.parse text = p at hw hc ⊢
  -- what can be in the way, in the order in which it is met: the root, a file above, a gap above,
  -- an entry
  by_cases hp : p = []
  · refine Outcome.meets_of_error (fun hcan => hcan.1 hp) ?_ hw
    rw [if_pos hp, Contract.mkdir]
    dsimp only
    rw [if_pos hp]
  rw [if_neg hp, Outcome.andThen_ok] at hw ⊢
  by_cases hf : d.FileOn p.parent
  · refine Outcome.meets_of_error (fun hcan => ((bindsDir_above_iff hc hp).mp hcan.2.2).1 hf) ?_ hw
    dsimp only [Contract.mkdir]
    rw [within_of_fileOn hf, if_neg hp, if_pos ((fileOn_parent_iff hc hp).mp hf)]
    rfl
  by_cases hm : d.at? p.parent = none
  · refine Outcome.meets_of_error (fun hcan => ((bindsDir_above_iff hc hp).mp hcan.2.2).2 hm) ?_ hw
    dsimp only [Contract.mkdir]
    rw [within_of_missing hf hm, if_neg hp, if_neg ((fileOn_parent_iff hc hp).not.mp hf),
      if_pos ((gap_iff hc hp).mp hm)]
    rfl
  by_cases hn : d.at? p = none
  · obtain ⟨hr, ht⟩ := within_create false p hp hf (.inr hm) hn (empty.setAttrs f).toEntry
    refine Outcome.meets_of_ok ⟨hp, (view_eq_at? hc hp).trans hn,
      (bindsDir_above_iff hc hp).mpr ⟨hf, hm⟩⟩
      (congrArg (Except.map _) hr) hw fun q hq hqn => ?_
    have hleaf (r : Path) (hr : r ≠ []) : (empty.setAttrs f).toEntry.at? r = none := by
      obtain ⟨n, r, rfl⟩ := List.exists_cons_of_ne_nil hr
      exact at?_empty_cons n r
    dsimp only [Contract.mkdir]
    rw [ht.at?_leaf hp hleaf hn, filled_of_bound hm, view_eq_at? hq hqn]
    rfl
  · refine Outcome.meets_of_error (fun hcan => hn ((view_eq_at? hc hp).symm.trans hcan.2.1)) ?_ hw
    dsimp only [Contract.mkdir]
    rw [within_create_of_bound hp hf (.inr hm) hn, if_neg hp,
      if_neg ((fileOn_parent_iff hc hp).not.mp hf), if_neg ((gap_iff hc hp).not.mp hm)]
    rfl

lemma mkdirAll_of_not_fileOn (hf : ¬ d.FileOn (Path.parse text)) (f : Attrs → Attrs) :
    (∃ x, (d.mkdirAll text f).result = .ok x) ∧
      ∀ q, (d.mkdirAll text f).tree.at? q =
        let made := d.filled (Path.parse text) q
        if q = Path.parse text then made.map (Binding.change f) else made := by
  rw [mkdirAll, modifyDir]
  generalize Path.parse text = p at hf ⊢
  obtain ⟨hr, hg⟩ := within_grafted p (fun d => ⟨.ok (setAttrs f d), setAttrs f d⟩) hf (.inl rfl)
  refine ⟨⟨_, hr⟩, fun q => ?_⟩
  dsimp only
  by_cases hpq : p <+: q
  · obtain ⟨r, rfl⟩ := hpq
    rw [hg.inside, filled_append hf]
    cases r with
    | nil =>
      rw [List.append_nil, if_pos rfl, at?_nil, at?_nil]
      rfl
    | cons n r =>
      rw [if_neg (by simp), at?_cons, at?_cons]
      rfl
  · rw [hg.outside q hpq, if_neg fun (he : q = p) => hpq (he ▸ List.prefix_rfl)]

lemma mkdirAll_meets (h : d.WellFormed) (text : String) (f : Attrs → Attrs) :
    (d.mkdirAll text f).Meets (.mkdirAll d (Path.parse text) f) := by
  have hw : (d.mkdirAll text f).tree.WellFormed :=
    (mkdirAll_related uniform_eq text trivial (related_eq_iff.mpr h)).tree.left
  have hcan : ¬ d.FileOn (Path.parse text) ↔ ∀ q : Path, q ≠ [] → q <+: Path.parse text →
      ¬ d.BindsFile q := by
    rw [fileOn_iff (Path.clean_parse text)]
    simp only [not_exists, not_and]
  by_cases hf : d.FileOn (Path.parse text)
  · exact Outcome.meets_of_error (fun h => hcan.mpr h hf) (within_of_fileOn hf) hw
  obtain ⟨⟨x, hr⟩, ht⟩ := mkdirAll_of_not_fileOn hf f
  refine Outcome.meets_of_ok (hcan.mp hf) hr hw fun q hq hqn => ?_
  rw [ht, filled, ← view_eq_at? hq hqn]
  rfl

lemma addFile_of_unbound (hp : Path.parse text ≠ []) (hf : ¬ d.FileOn (Path.parse text).parent)
    (hn : d.at? (Path.parse text) = none) (origin : Bytes) (f : Attrs → Attrs) :
    (d.addFile text origin f).result = .ok (f .ofFile) ∧
      ∀ q, (d.addFile text origin f).tree.at? q =
        if q = Path.parse text then some (.file (f .ofFile) origin) else
          d.filled (Path.parse text).parent q := by
  rw [addFile]
  generalize Path.parse text = p at hp hf hn ⊢
  obtain ⟨hr, ht⟩ := within_create true p.parent hp hf (.inl rfl) hn (.file (f .ofFile) origin)
  rw [if_neg hp, Outcome.andThen_ok]
  refine ⟨congrArg (Except.map _) hr, fun q => ?_⟩
  refine ht.at?_leaf hp (fun r hr => ?_) hn q
  obtain ⟨n, r, rfl⟩ := List.exists_cons_of_ne_nil hr
  rfl

lemma addFile_meets (h : d.WellFormed) (text : String) (origin : Bytes) (f : Attrs → Attrs) :
    (d.addFile text origin f).Meets (.addFile d (Path.parse text) origin f) := by
  have hw : (d.addFile text origin f).tree.WellFormed :=
    (addFile_related uniform_eq text rfl (related_eq_iff.mpr h)).tree.left
  have hc := Path.clean_parse text
  by_cases hp : Path.parse text = []
  · have hr : (d.addFile text origin f).result = .error (.alreadyExists (Path.parse text)) := by
      rw [addFile, if_pos hp]
    refine Outcome.meets_of_error (fun hcan => hcan.1 hp) ?_ hw
    dsimp only [Contract.addFile]
    rw [hr, if_pos hp]
  have hcan : ¬ d.FileOn (Path.parse text).parent ↔ ∀ q : Path, q.Above (Path.parse text) →
      ¬ d.BindsFile q := by
    rw [fileOn_parent_iff hc hp]
    simp only [not_exists, not_and]
  by_cases hf : d.FileOn (Path.parse text).parent
  · refine Outcome.meets_of_error (fun h => hcan.mpr h.2.2 hf) ?_ hw
    dsimp only [Contract.addFile]
    rw [addFile, if_neg hp, Outcome.andThen_ok, within_of_fileOn hf, if_neg hp,
      if_pos ((fileOn_parent_iff hc hp).mp hf)]
    rfl
  by_cases hn : d.at? (Path.parse text) = none
  · obtain ⟨hr, ht⟩ := addFile_of_unbound hp hf hn origin f
    refine Outcome.meets_of_ok ⟨hp, (view_eq_at? hc hp).trans hn, hcan.mp hf⟩ hr hw
      fun q hq hqn => ?_
    dsimp only [Contract.addFile]
    rw [ht, view_eq_at? hq hqn, Path.above_iff hp, filled]
    simp only [hqn, ne_eq, not_false_eq_true, true_and]
  · refine Outcome.meets_of_error (fun hcan => hn ((view_eq_at? hc hp).symm.trans hcan.2.1)) ?_ hw
    dsimp only [Contract.addFile]
    rw [addFile, if_neg hp, Outcome.andThen_ok, within_create_of_bound hp hf (.inl rfl) hn,
      if_neg hp, if_neg ((fileOn_parent_iff hc hp).not.mp hf)]
    rfl

lemma remove_of_bound (hp : Path.parse text ≠ []) (hx : d.find? (Path.parse text) = some e) :
    (d.remove text).result = .ok e ∧ Replaced d (Path.parse text) none (d.remove text).tree := by
  rw [remove]
  generalize Path.parse text = p at hp hx ⊢
  obtain ⟨hf, hm⟩ := parent_of_bound hp hx
  rw [if_neg hp]
  apply within_drop hp hf (.inr hm)
  rw [child_dirAt_parent hp hf, hx]

lemma remove_of_unbound (hp : Path.parse text ≠ []) (hx : d.find? (Path.parse text) = none)
    (hf : ¬ d.FileOn (Path.parse text).parent) :
    (d.remove text).result = .error (.notFound (Path.parse text)) := by
  rw [remove]
  generalize Path.parse text = p at hp hx hf ⊢
  rw [if_neg hp]
  by_cases hm : d.at? p.parent = none
  · exact within_of_missing hf hm
  · rw [(within_grafted _ _ hf (.inr hm)).1, child_dirAt_parent hp hf, hx]

lemma remove_meets (h : d.WellFormed) (text : String) :
    (d.remove text).Meets (.remove d (Path.parse text)) ∧
      ∀ e, (d.remove text).result = .ok e → d.getEntry text = .ok e := by
  have hw : (d.remove text).tree.WellFormed :=
    (remove_related uniform_eq text (related_eq_iff.mpr h)).tree.left
  have hc := Path.clean_parse text
  by_cases hp : Path.parse text = []
  · have hr : (d.remove text).result = .error (.notFound []) := by rw [remove, if_pos hp, hp]
    refine ⟨Outcome.meets_of_error (fun hcan => hcan (hp ▸ view_nil d)) ?_ hw, fun e he => ?_⟩
    · dsimp only [Contract.remove]
      rw [if_neg, hr, hp]
      rintro ⟨q, ⟨hq, hpre, _⟩, _⟩
      exact hq (List.prefix_nil.mp (hp ▸ hpre))
    · cases hr.symm.trans he
  have hview := view_eq_at? (d := d) hc hp
  cases hx : d.find? (Path.parse text) with
  | some e =>
    obtain ⟨hr, ht⟩ := remove_of_bound hp hx
    have hb : d.at? (Path.parse text) ≠ none := fun hn => by
      cases hx.symm.trans (at?_eq_none_iff.mp hn)
    refine ⟨Outcome.meets_of_ok (fun hn => hb (hview.symm.trans hn)) hr hw fun q hq hqn => ?_,
      fun e' he => ?_⟩
    · dsimp only [Contract.remove]
      split
      · rename_i hpq
        obtain ⟨r, rfl⟩ := hpq
        exact ht.below r
      · rename_i hpq
        rw [ht.beside q hpq, filled_of_bound (parent_of_bound hp hx).2, view_eq_at? hq hqn]
    · cases hr.symm.trans he
      exact getEntry_eq_ok_iff.mpr ⟨hp, hx⟩
  | none =>
    have hcan : ¬ (Contract.remove d (Path.parse text)).can :=
      fun hcan => hcan (hview.trans (at?_eq_none_iff.mpr hx))
    -- a file on the way is met before the entry is missed
    by_cases hf : d.FileOn (Path.parse text).parent
    · have hr :
          (d.remove text).result = .error (.typeMismatch (Path.parse text) .directory .file) := by
        rw [remove, if_neg hp, within_of_fileOn hf]
      refine ⟨Outcome.meets_of_error hcan ?_ hw, fun e he => by cases hr.symm.trans he⟩
      dsimp only [Contract.remove]
      rw [hr, if_pos ((fileOn_parent_iff hc hp).mp hf)]
    · have hr := remove_of_unbound hp hx hf
      refine ⟨Outcome.meets_of_error hcan ?_ hw, fun e he => by cases hr.symm.trans he⟩
      dsimp only [Contract.remove]
      rw [hr, if_neg ((fileOn_parent_iff hc hp).not.mp hf)]

lemma finite_view (h : d.WellFormed) : {p : Path | p.Clean ∧ d.view p ≠ none}.Finite := by
  refine (List.finite_toSet (d.descendants.map Prod.fst)).subset ?_
  rintro p ⟨hc, hv⟩
  have hp : p ≠ [] := by
    rintro rfl
    exact hv (view_nil d)
  rw [view_eq_at? hc hp, ne_eq, at?_eq_none_iff] at hv
  obtain ⟨e, he⟩ := Option.ne_none_iff_exists'.mp hv
  exact List.mem_map.mpr ⟨(p, e), (Entry.WellFormed.mem_descendants_iff h).mpr ⟨hp, he⟩, rfl⟩

theorem refines_path_map (h : d.WellFormed) (text : String) (origin : Bytes) (f : Attrs → Attrs) :
    {p : Path | p.Clean ∧ d.view p ≠ none}.Finite ∧
    (d.mkdir text f).Meets (.mkdir d (Path.parse text) f) ∧
    (d.mkdirAll text f).Meets (.mkdirAll d (Path.parse text) f) ∧
    (d.addFile text origin f).Meets (.addFile d (Path.parse text) origin f) ∧
    (d.remove text).Meets (.remove d (Path.parse text)) ∧
    ∀ e, (d.remove text).result = .ok e → d.getEntry text = .ok e := by
  obtain ⟨hr, hs⟩ := remove_meets h text
  exact ⟨finite_view h, mkdir_meets h text f, mkdirAll_meets h text f,
    addFile_meets h text origin f, hr, hs⟩

/-! A file beside a directory that holds one. -/

def stored : Dir := ⟨.ofDir, none,
  [("a", .file .ofFile [1]), ("etc", .dir .ofDir none [("hosts", .file .ofFile [2])])]⟩

lemma stored_wellFormed : stored.WellFormed := by
  refine .dir (by decide) (by decide) (by simp [stored]) fun c hc => ?_
  simp only [stored, List.mem_cons, List.not_mem_nil, or_false] at hc
  rcases hc with rfl | rfl
  · exact .file
  · refine .dir (by decide) (by decide) (by simp) fun c hc => ?_
    obtain rfl := List.mem_singleton.mp hc
    exact .file

theorem refines_path_map_stored :
    (stored.remove "etc/.").tree.view ["etc", "hosts"] = none ∧
      (stored.remove "etc/.").tree.view ["a"] = some (.file .ofFile [1]) ∧
      (stored.addFile "a/b/c" [3] id).result =
        .error (.typeMismatch ["a", "b"] .directory .file) := by
  obtain ⟨_, _, _, _, hr, _⟩ := refines_path_map stored_wellFormed "etc/." [] id
  obtain ⟨_, _, _, ha, _, _⟩ := refines_path_map stored_wellFormed "a/b/c" [3] id
  have he : Path.parse "etc/." = ["etc"] := by decide
  have hb : Path.parse "a/b/c" = ["a", "b", "c"] := by decide
  have hfile : ∃ q : Path, q.Above ["a", "b", "c"] ∧ stored.BindsFile q :=
    ⟨["a"], ⟨by decide, by decide, by decide⟩, .ofFile, [1], by decide⟩
  rw [he] at hr
  rw [hb] at ha
  have hcan : (Contract.remove stored ["etc"]).can := by
    change stored.view ["etc"] ≠ none
    decide
  refine ⟨?_, ?_, ?_⟩
  · rw [hr.bound hcan _ (by decide) (by decide)]
    simp [Contract.remove]
  · have hv : stored.view ["a"] = some (.file .ofFile [1]) := by decide
    rw [hr.bound hcan _ (by decide) (by decide)]
    simp [Contract.remove, hv]
  · obtain ⟨q, hq, hf⟩ := hfile
    rw [ha.fault fun hcan => hcan.2.2 q hq hf]
    dsimp only [Contract.addFile]
    rw [if_neg (by decide), if_pos ⟨q, hq, hf⟩]
    rfl

end Dir

end TarRecipe
