import Mathlib.Data.List.Sort
import Mathlib.Data.String.Basic
import Mathlib.Tactic.Common
import TarRecipe.Proofs.Text.ByteOrder
import TarRecipe.Proofs.Tree.WellFormed

/-! Listings of well-formed trees: whatever is held from before, what is listed is what is there. -/

namespace TarRecipe

lemma mergeSort_pairwise (s : List String) : s.mergeSort.Pairwise (· ≤ ·) :=
  List.pairwise_mergeSort' (· ≤ ·) s

lemma mergeSort_eq_of_perm {s t : List String} (h : s.Perm t) : s.mergeSort = t.mergeSort := by
  have hp := (s.mergeSort_perm (· ≤ ·)).trans (h.trans (t.mergeSort_perm (· ≤ ·)).symm)
  exact hp.eq_of_pairwise (fun _ _ _ _ => le_antisymm) (mergeSort_pairwise s) (mergeSort_pairwise t)

def Entry.fresh (e : Entry) : List String := (e.descendants.map fun x => x.1.render).mergeSort

lemma map_render_cons (name : String) {xs : List (Path × Entry)} (h : ∀ x ∈ xs, x.1 ≠ []) :
    (xs.map fun x => (name :: x.1, x.2)).map (fun x => Path.render x.1) =
      (xs.map fun x => x.1.render).map (fun path => name ++ "/" ++ path) := by
  rw [List.map_map, List.map_map]
  exact List.map_congr_left fun x hx => Path.render_cons (h x hx)

lemma gather_perm {cs : List (String × Entry)} (h : ∀ c ∈ cs, c.2.listed = c.2.fresh) :
    (gather cs).Perm ((descendantsOf cs).map fun x => x.1.render) := by
  induction cs with
  | nil => simp [gather, descendantsOf]
  | cons c cs ih =>
    obtain ⟨name, e⟩ := c
    rw [List.forall_mem_cons] at h
    rw [gather, descendantsOf, List.map_append, List.map_cons, Path.render_singleton,
      map_render_cons name fun x => Entry.ne_nil_of_mem_descendants]
    refine List.Perm.append (.cons _ (.map _ ?_)) (ih h.2)
    rw [h.1]
    exact List.mergeSort_perm ..

lemma Entry.WellFormed.listed_eq {e : Entry} (h : e.WellFormed) : e.listed = e.fresh := by
  induction e using Entry.induction_on with
  | file a origin => simp [Entry.listed, Entry.fresh, descendants]
  | dir a l cs ih =>
    have hd : Dir.WellFormed ⟨a, l, cs⟩ := h
    cases l with
    | some ps => exact hd.current ps rfl
    | none =>
      rw [Entry.listed]
      exact mergeSort_eq_of_perm (gather_perm fun c hc => ih c hc (hd.below c hc))

/-! ## What is listed -/

lemma head_mem_of_mem_descendantsOf {cs : List (String × Entry)} {p : Path}
    (h : p ∈ (descendantsOf cs).map Prod.fst) : ∃ c ∈ cs, p.head? = some c.1 := by
  obtain ⟨⟨_, x⟩, hx, rfl⟩ := List.mem_map.mp h
  obtain ⟨name, e, q, hm, rfl, _⟩ := mem_descendantsOf_iff.mp hx
  exact ⟨_, hm, rfl⟩

lemma nodup_descendantsOf {cs : List (String × Entry)} (ha : Children.Ascending cs)
    (hb : ∀ c ∈ cs, (c.2.descendants.map Prod.fst).Nodup) :
    ((descendantsOf cs).map Prod.fst).Nodup := by
  induction cs with
  | nil => simp [descendantsOf]
  | cons c cs ih =>
    obtain ⟨name, e⟩ := c
    rw [List.forall_mem_cons] at hb
    obtain ⟨hc, ha⟩ := List.pairwise_cons.mp ha
    have hfst : (e.descendants.map fun x => (name :: x.1, x.2)).map Prod.fst =
        (e.descendants.map Prod.fst).map (name :: ·) := by
      simp
    rw [descendantsOf, List.map_append, List.map_cons, hfst]
    refine List.Nodup.append (List.nodup_cons.mpr ⟨?_, ?_⟩) (ih ha hb.2) ?_
    · intro hm
      obtain ⟨q, hq, hn⟩ := List.mem_map.mp hm
      obtain ⟨x, hx, rfl⟩ := List.mem_map.mp hq
      exact Entry.ne_nil_of_mem_descendants hx (List.cons.inj hn).2
    · exact hb.1.map fun p q hpq => (List.cons.inj hpq).2
    · intro p hp hq
      have hn : p.head? = some name := by
        rcases List.mem_cons.mp hp with rfl | hp
        · rfl
        · obtain ⟨q, _, rfl⟩ := List.mem_map.mp hp
          rfl
      obtain ⟨d, hd, he⟩ := head_mem_of_mem_descendantsOf hq
      have hlt := hc d hd
      rw [Option.some_inj.mp (hn.symm.trans he)] at hlt
      exact lt_irrefl _ hlt

lemma Entry.WellFormed.nodup_paths {e : Entry} (h : e.WellFormed) :
    (e.descendants.map Prod.fst).Nodup := by
  induction e using Entry.induction_on with
  | file a origin => simp [descendants]
  | dir a l cs ih =>
    have hd : Dir.WellFormed ⟨a, l, cs⟩ := h
    exact nodup_descendantsOf hd.ascending fun c hc => ih c hc (hd.below c hc)

lemma Entry.WellFormed.nodup_fresh {e : Entry} (h : e.WellFormed) : e.fresh.Nodup := by
  have hmap : (e.descendants.map fun x => x.1.render) =
      (e.descendants.map Prod.fst).map Path.render := by
    rw [List.map_map]
    rfl
  rw [fresh, (List.mergeSort_perm _ _).nodup_iff, hmap]
  refine h.nodup_paths.map_on ?_
  intro p hp q hq
  obtain ⟨x, hx, rfl⟩ := List.mem_map.mp hp
  obtain ⟨y, hy, rfl⟩ := List.mem_map.mp hq
  exact Path.render_injective (h.clean hx) (h.clean hy)

lemma Entry.WellFormed.listed_pairwise {e : Entry} (h : e.WellFormed) :
    e.listed.Pairwise (· < ·) := by
  rw [h.listed_eq]
  exact (List.pairwise_and_iff.mpr ⟨mergeSort_pairwise _, h.nodup_fresh⟩).imp
    fun hab => lt_of_le_of_ne hab.1 hab.2

lemma Entry.WellFormed.mem_listed_iff {e : Entry} (h : e.WellFormed) {text : String} :
    text ∈ e.listed ↔ ∃ p x, p ≠ [] ∧ e.find? p = some x ∧ Path.render p = text := by
  simp only [h.listed_eq, fresh, List.mem_mergeSort, List.mem_map, Prod.exists,
    h.mem_descendants_iff, and_assoc]

/-! ## Relisting -/

lemma lookup_map_snd (g : Entry → Entry) (cs : List (String × Entry)) (name : String) :
    (cs.map fun c => (c.1, g c.2)).lookup name = (cs.lookup name).map g := by
  induction cs with
  | nil => rfl
  | cons c cs ih =>
    obtain ⟨n, e⟩ := c
    rw [List.map_cons, Children.lookup_cons_eq, Children.lookup_cons_eq, ih]
    split <;> rfl

lemma ascending_map_snd {cs : List (String × Entry)} (h : Children.Ascending cs)
    (g : Entry → Entry) :
    Children.Ascending (cs.map fun c => (c.1, g c.2)) :=
  List.pairwise_map.mpr h

lemma relistAll_eq_map (cs : List (String × Entry)) :
    relistAll cs = cs.map fun c => (c.1, c.2.relist) := by
  induction cs with
  | nil => rfl
  | cons c cs ih => rw [relistAll, ih, List.map_cons]

lemma Dir.toEntry_relist (d : Dir) : d.relist.toEntry = d.toEntry.relist := rfl

lemma Entry.relist_relist (e : Entry) : e.relist.relist = e.relist := by
  induction e using Entry.induction_on with
  | file a origin => rfl
  | dir a l cs ih =>
    have hcs : relistAll (relistAll cs) = relistAll cs := by
      rw [relistAll_eq_map (relistAll cs), relistAll_eq_map cs, List.map_map]
      exact List.map_congr_left fun c hc => by simp [ih c hc]
    rw [relist, relist, hcs]

lemma Dir.toEntry_injective : Function.Injective Dir.toEntry := by
  rintro ⟨⟩ ⟨⟩ h
  cases h
  rfl

lemma Dir.relist_relist (d : Dir) : d.relist.relist = d.relist :=
  Dir.toEntry_injective (Entry.relist_relist d.toEntry)

lemma Entry.find?_relist (e : Entry) (p : Path) :
    e.relist.find? p = (e.find? p).map Entry.relist := by
  induction p generalizing e with
  | nil => simp
  | cons name p ih =>
    cases e with
    | file a origin => rfl
    | dir a l cs =>
      rw [relist, find?, find?, relistAll_eq_map, lookup_map_snd]
      cases cs.lookup name with
      | none => rfl
      | some e => exact ih e

lemma Entry.WellFormed.relist {e : Entry} (h : e.WellFormed) : e.relist.WellFormed := by
  induction e using Entry.induction_on with
  | file a origin => exact h
  | dir a l cs ih =>
    have hd : Dir.WellFormed ⟨a, l, cs⟩ := h
    have hb : ∀ c ∈ relistAll cs, c.2.WellFormed := by
      rw [relistAll_eq_map]
      exact List.forall_mem_map.mpr fun c hc => ih c hc (hd.below c hc)
    refine .dir ?_ ?_ ?_ hb
    · rw [relistAll_eq_map]
      exact ascending_map_snd hd.ascending _
    · rw [relistAll_eq_map]
      exact List.forall_mem_map.mpr hd.named
    · intro ps hps
      rw [← Option.some_inj.mp hps]
      exact mergeSort_eq_of_perm (gather_perm fun c hc => (hb c hc).listed_eq)

/-! ## Attributes -/

lemma changeEach_eq_map (f : Attrs → Attrs) (cs : List (String × Entry)) :
    changeEach f cs = cs.map fun c => (c.1, c.2.change f true) := by
  induction cs with
  | nil => rfl
  | cons c cs ih => rw [changeEach, ih, List.map_cons]

lemma Entry.find?_change (f : Attrs → Attrs) (e : Entry) (p : Path) :
    (e.change f true).find? p = (e.find? p).map (·.change f true) := by
  induction p generalizing e with
  | nil => simp
  | cons name p ih =>
    cases e with
    | file a origin => rfl
    | dir a l cs =>
      rw [change, if_pos rfl, find?, find?, changeEach_eq_map, lookup_map_snd]
      cases cs.lookup name with
      | none => rfl
      | some e => exact ih e

lemma paths_changeEach (f : Attrs → Attrs) {cs : List (String × Entry)}
    (h : ∀ c ∈ cs, (c.2.change f true).descendants.map Prod.fst = c.2.descendants.map Prod.fst) :
    (descendantsOf (changeEach f cs)).map Prod.fst = (descendantsOf cs).map Prod.fst := by
  induction cs with
  | nil => rfl
  | cons c cs ih =>
    rw [List.forall_mem_cons] at h
    have hc := congrArg (List.map (c.1 :: ·)) h.1
    rw [List.map_map, List.map_map] at hc
    rw [changeEach, descendantsOf, descendantsOf, List.map_append, List.map_append, ih h.2,
      List.map_cons, List.map_cons, List.map_map, List.map_map]
    exact congrArg (fun ps => ([c.1] :: ps) ++ _) hc

lemma Entry.paths_change (f : Attrs → Attrs) (all : Bool) (e : Entry) :
    (e.change f all).descendants.map Prod.fst = e.descendants.map Prod.fst := by
  induction e using Entry.induction_on generalizing all with
  | file a origin => rfl
  | dir a l cs ih =>
    cases all with
    | false => rfl
    | true => exact paths_changeEach f fun c hc => ih c hc true

lemma freshListing_congr {cs ds : List (String × Entry)}
    (h : (descendantsOf cs).map Prod.fst = (descendantsOf ds).map Prod.fst) :
    freshListing cs = freshListing ds := by
  have hr := congrArg (List.map Path.render) h
  rw [List.map_map, List.map_map] at hr
  exact congrArg (fun ps => List.mergeSort ps) hr

lemma Entry.WellFormed.change {e : Entry} (h : e.WellFormed) (f : Attrs → Attrs) (all : Bool) :
    (e.change f all).WellFormed := by
  induction e using Entry.induction_on generalizing all with
  | file a origin => exact .file
  | dir a l cs ih =>
    have hd : Dir.WellFormed ⟨a, l, cs⟩ := h
    cases all with
    | false => exact .dir hd.ascending hd.named hd.current hd.below
    | true =>
      have hp := Entry.paths_change f true (.dir a l cs)
      rw [Entry.change, if_pos rfl] at hp ⊢
      refine .dir ?_ ?_ ?_ ?_
      · rw [changeEach_eq_map]
        exact ascending_map_snd hd.ascending _
      · rw [changeEach_eq_map]
        exact List.forall_mem_map.mpr hd.named
      · intro ps hps
        rw [hd.current ps hps]
        exact (freshListing_congr hp).symm
      · rw [changeEach_eq_map]
        exact List.forall_mem_map.mpr fun c hc => ih c hc (hd.below c hc) true

end TarRecipe
