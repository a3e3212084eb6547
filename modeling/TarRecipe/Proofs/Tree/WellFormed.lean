import Mathlib.Data.List.Basic
import Mathlib.Data.List.Perm.Basic
import Mathlib.Data.String.Basic
import Mathlib.Tactic.Common
import TarRecipe.Proofs.Path
import TarRecipe.Proofs.Tree.Children
import TarRecipe.Proofs.Tree.Descendants

/-! Well-formed trees: names are clean and ascend, and held listings are right. -/

namespace TarRecipe

open Children (Ascending)

def freshListing (cs : List (String × Entry)) : List String :=
  ((descendantsOf cs).map fun x => x.1.render).mergeSort

inductive Entry.WellFormed : Entry → Prop
  | file {a origin} : WellFormed (.file a origin)
  | dir {a l cs} (ascending : Ascending cs) (named : ∀ c ∈ cs, Path.IsName c.1)
      (current : ∀ ps, l = some ps → ps = freshListing cs) (below : ∀ c ∈ cs, c.2.WellFormed) :
      WellFormed (.dir a l cs)

def Dir.WellFormed (d : Dir) : Prop := d.toEntry.WellFormed

namespace Dir.WellFormed

variable {d : Dir} {name : String} {e : Entry}

lemma ascending (h : d.WellFormed) : Ascending d.children := by
  cases h; assumption

lemma named (h : d.WellFormed) : ∀ c ∈ d.children, Path.IsName c.1 := by
  cases h; assumption

lemma below (h : d.WellFormed) : ∀ c ∈ d.children, c.2.WellFormed := by
  cases h; assumption

lemma current (h : d.WellFormed) : ∀ ps, d.listing = some ps → ps = freshListing d.children := by
  cases h; assumption

lemma mem_of_child (h : d.WellFormed) (hc : d.child name = some e) : (name, e) ∈ d.children :=
  h.ascending.mem_iff_lookup.mpr hc

lemma child (h : d.WellFormed) (hc : d.child name = some e) : e.WellFormed :=
  h.below _ (h.mem_of_child hc)

/-! ## Changes of one directory -/

lemma empty : Dir.empty.WellFormed :=
  .dir .nil (by simp [Dir.empty]) (by simp [Dir.empty, freshListing, descendantsOf])
    (by simp [Dir.empty])

lemma rebuild {a : Attrs} {cs : List (String × Entry)} (ha : Ascending cs)
    (hn : ∀ c ∈ cs, Path.IsName c.1) (hb : ∀ c ∈ cs, c.2.WellFormed) :
    Dir.WellFormed ⟨a, none, cs⟩ :=
  .dir ha hn (by simp) hb

lemma touch (h : d.WellFormed) : d.touch.WellFormed :=
  rebuild h.ascending h.named h.below

lemma put (h : d.WellFormed) (hn : Path.IsName name) (he : e.WellFormed) :
    (d.put name e).WellFormed := by
  refine rebuild (h.ascending.insert name e) ?_ ?_ <;> intro c hc
  · rcases Children.eq_or_mem_of_mem_insert hc with rfl | hc
    · exact hn
    · exact h.named c hc
  · rcases Children.eq_or_mem_of_mem_insert hc with rfl | hc
    · exact he
    · exact h.below c hc

lemma drop (h : d.WellFormed) (name : String) : (d.drop name).WellFormed :=
  rebuild (h.ascending.erase name) (fun c hc => h.named c (List.mem_of_mem_filter hc))
    (fun c hc => h.below c (List.mem_of_mem_filter hc))

end Dir.WellFormed

lemma Entry.WellFormed.find? {e x : Entry} {p : Path} (h : e.WellFormed) (hx : e.find? p = some x) :
    x.WellFormed := by
  induction p generalizing e with
  | nil =>
    rw [Entry.find?_nil] at hx
    exact Option.some_inj.mp hx ▸ h
  | cons name p ih =>
    cases e with
    | file a origin => simp [Entry.find?] at hx
    | dir a l cs =>
      have hd : Dir.find? ⟨a, l, cs⟩ (name :: p) = some x := hx
      rw [Dir.find?_cons] at hd
      obtain ⟨y, hy, hx⟩ := Option.bind_eq_some_iff.mp hd
      exact ih (Dir.WellFormed.child (d := ⟨a, l, cs⟩) h hy) hx

/-! ## Descendants and what is found at paths -/

lemma Entry.WellFormed.mem_descendants_iff {e x : Entry} {p : Path} (h : e.WellFormed) :
    (p, x) ∈ e.descendants ↔ p ≠ [] ∧ e.find? p = some x := by
  induction e using Entry.induction_on generalizing p with
  | file a origin => cases p <;> simp [descendants, Entry.find?]
  | dir a l cs ih =>
    have hd : Dir.WellFormed ⟨a, l, cs⟩ := h
    rw [descendants, mem_descendantsOf_iff]
    constructor
    · rintro ⟨name, e, q, hm, rfl, hq⟩
      refine ⟨List.cons_ne_nil name q, ?_⟩
      have hc : cs.lookup name = some e := hd.ascending.mem_iff_lookup.mp hm
      rw [Entry.find?, hc]
      rcases hq with ⟨rfl, rfl⟩ | hq
      · exact Entry.find?_nil _
      · exact ((ih _ hm (hd.below _ hm)).mp hq).2
    · rintro ⟨hp, hx⟩
      obtain ⟨name, q, rfl⟩ := List.exists_cons_of_ne_nil hp
      rw [Entry.find?] at hx
      split at hx
      · rename_i e hc
        have hm := hd.ascending.mem_iff_lookup.mpr hc
        refine ⟨name, e, q, hm, rfl, ?_⟩
        by_cases hq : q = []
        · subst q
          rw [Entry.find?_nil] at hx
          exact .inl ⟨rfl, (Option.some_inj.mp hx).symm⟩
        · exact .inr ((ih _ hm (hd.below _ hm)).mpr ⟨hq, hx⟩)
      · cases hx

lemma Dir.WellFormed.at?_file_iff {d : Dir} (h : d.WellFormed) {p : Path} {a : Attrs}
    {origin : Bytes} :
    d.at? p = some (.file a origin) ↔ (p, Entry.file a origin) ∈ d.descendants := by
  have hm := Entry.WellFormed.mem_descendants_iff h (p := p) (x := .file a origin)
  change (p, Entry.file a origin) ∈ d.descendants ↔ _ at hm
  rw [hm, Dir.at?, Option.map_eq_some_iff]
  constructor
  · rintro ⟨e, he, hb⟩
    cases e with
    | dir a l cs => cases hb
    | file a origin =>
      cases hb
      refine ⟨?_, he⟩
      rintro rfl
      cases he
  · rintro ⟨_, he⟩
    exact ⟨_, he, rfl⟩

lemma Entry.WellFormed.clean {e : Entry} (h : e.WellFormed) {x : Path × Entry}
    (hx : x ∈ e.descendants) : Path.Clean x.1 := by
  induction e using Entry.induction_on generalizing x with
  | file a origin => simp [descendants] at hx
  | dir a l cs ih =>
    obtain ⟨p, y⟩ := x
    have hd : Dir.WellFormed ⟨a, l, cs⟩ := h
    obtain ⟨name, e, q, hm, rfl, hq⟩ := mem_descendantsOf_iff.mp hx
    refine Path.clean_cons.mpr ⟨hd.named _ hm, ?_⟩
    rcases hq with ⟨rfl, rfl⟩ | hq
    · exact Path.clean_nil
    · exact ih _ hm (hd.below _ hm) hq

end TarRecipe
