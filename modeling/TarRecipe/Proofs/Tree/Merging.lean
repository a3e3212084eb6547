import Mathlib
import TarRecipe.Proofs.Tree.PathMap

/-! Trees that are merged: what both of them bind is decided place by place. -/

namespace TarRecipe

def joint (old new : Option Binding) : Option Binding :=
  match old, new with
  | some (.dir a), some (.dir _) => some (.dir a)
  | _, some b => some b
  | _, none => old

@[simp] lemma joint_none (old : Option Binding) : joint old none = old := by
  cases old with
  | none => rfl
  | some b => cases b <;> rfl

@[simp] lemma none_joint (new : Option Binding) : joint none new = new := by
  cases new <;> rfl

def verdict : Option Error → Except Error Unit
  | some f => .error f
  | none => .ok ()

@[simp] lemma verdict_eq_ok_iff {fault : Option Error} : verdict fault = .ok () ↔ fault = none := by
  cases fault <;> simp [verdict]

@[simp] lemma verdict_eq_error_iff {fault : Option Error} {f : Error} :
    verdict fault = .error f ↔ fault = some f := by
  cases fault <;> simp [verdict]

namespace Dir

def ofChildren (cs : List (String × Entry)) : Dir := ⟨.ofDir, none, cs⟩

def fault? (d : Dir) (p : Path) (x : Path × Entry) : Option Error :=
  match d.at? x.1 with
  | none => none
  | some b => if b.kind = x.2.kind then none else some (.typeMismatch (p ++ x.1) b.kind x.2.kind)

structure Merges (d : Dir) (p : Path) (cs : List (String × Entry)) (o : Outcome Unit) : Prop where
  result : o.result = verdict ((descendantsOf cs).findSome? (d.fault? p))
  bound : o.result = .ok () → ∀ q, o.tree.at? q = joint (d.at? q) ((ofChildren cs).at? q)

variable {d c : Dir} {p : Path} {name : String} {e : Entry} {cs : List (String × Entry)}
  {o : Outcome Unit}

lemma at?_ofChildren_cons (name : String) (e : Entry) (cs : List (String × Entry)) (n : String)
    (q : Path) :
    (ofChildren ((name, e) :: cs)).at? (n :: q) =
      if n = name then e.at? q else (ofChildren cs).at? (n :: q) := by
  rw [at?_cons, at?_cons]
  simp only [child, ofChildren, Children.lookup_cons_eq]
  split <;> rfl

lemma joint_at?_nil (d c : Dir) : joint (d.at? []) (c.at? []) = d.at? [] := by
  rw [at?_nil, at?_nil]
  rfl

lemma Merges.of_ok {t : Dir} (h : ∀ x ∈ descendantsOf cs, d.fault? p x = none)
    (ha : t.attrs = d.attrs)
    (hb : ∀ n q, t.at? (n :: q) = joint (d.at? (n :: q)) ((ofChildren cs).at? (n :: q))) :
    d.Merges p cs ⟨.ok (), t⟩ where
  result := (verdict_eq_ok_iff.mpr (List.findSome?_eq_none_iff.mpr h)).symm
  bound _ q := by
    cases q with
    | nil => rw [joint_at?_nil, at?_nil, at?_nil, ha]
    | cons n q => exact hb n q

/-! ## One entry -/

lemma descendantsOf_singleton (name : String) (e : Entry) :
    descendantsOf [(name, e)] = ([name], e) :: e.descendants.map fun x => (name :: x.1, x.2) := by
  simp [descendantsOf]

lemma put_merges_of_new (hc : d.child name = none) (e : Entry) :
    d.Merges p [(name, e)] ⟨.ok (), d.put name e⟩ := by
  have hn (q : Path) : d.at? (name :: q) = none := by rw [at?_cons, hc, Option.bind_none]
  refine .of_ok ?_ rfl ?_
  · rintro ⟨q, x⟩ hx
    obtain ⟨n, y, r, hm, rfl, _⟩ := mem_descendantsOf_iff.mp hx
    cases List.mem_singleton.mp hm
    rw [fault?, hn]
  · intro n q
    rw [at?_put, at?_ofChildren_cons]
    split
    · rename_i h
      rw [h, hn, none_joint]
    · exact (joint_none _).symm

lemma put_merges_of_file {a b : Attrs} {origin origin' : Bytes}
    (hc : d.child name = some (.file b origin')) :
    d.Merges p [(name, .file a origin)] ⟨.ok (), d.put name (.file a origin)⟩ := by
  refine .of_ok ?_ rfl ?_
  · rw [descendantsOf_singleton, Entry.descendants, List.map_nil, List.forall_mem_singleton, fault?,
      at?_name, hc]
    rfl
  · intro n q
    rw [at?_put, at?_ofChildren_cons]
    split
    · rename_i h
      cases q with
      | nil => rw [h, at?_name, hc]; rfl
      | cons m q => rw [h, at?_cons, hc]; rfl
    · exact (joint_none _).symm

lemma merges_of_clash {x : Entry} (hc : d.child name = some x) (hk : x.kind ≠ e.kind) (t : Dir) :
    d.Merges p [(name, e)] ⟨.error (.typeMismatch (p ++ [name]) x.kind e.kind), t⟩ := by
  have hf : d.fault? p ([name], e) = some (.typeMismatch (p ++ [name]) x.kind e.kind) := by
    rw [fault?, at?_name, hc]
    simp only [Option.map_some, Entry.kind_binding, if_neg hk]
  refine ⟨?_, fun h => by cases h⟩
  rw [descendantsOf_singleton, List.findSome?_cons, hf]
  rfl

-- What is merged below is merged here, one name further down.
lemma Merges.lift {a a' : Attrs} {l l' : Option (List String)} {cs' : List (String × Entry)}
    (hc : d.child name = some (.dir a' l' cs')) (h : Merges ⟨a', none, cs'⟩ (p ++ [name]) cs o) :
    d.Merges p [(name, .dir a l cs)] ⟨o.result, d.put name o.tree.toEntry⟩ := by
  have hat (q : Path) : d.at? (name :: q) = Dir.at? ⟨a', none, cs'⟩ q := by
    rw [at?_cons, hc]
    cases q <;> rfl
  have hf (x : Path × Entry) :
      d.fault? p (name :: x.1, x.2) = Dir.fault? ⟨a', none, cs'⟩ (p ++ [name]) x := by
    simp only [fault?, hat, List.append_assoc, List.singleton_append]
  have hhead : d.fault? p ([name], .dir a l cs) = none := by
    rw [fault?, hat, at?_nil]
    rfl
  constructor
  · rw [descendantsOf_singleton, List.findSome?_cons, hhead, List.findSome?_map, Entry.descendants]
    simp only [Function.comp_def, hf]
    exact h.result
  · intro hr q
    cases q with
    | nil => rw [joint_at?_nil]; rfl
    | cons n q =>
      rw [at?_put, at?_ofChildren_cons]
      split
      · rename_i hn
        rw [hn, hat]
        change o.tree.at? q = _
        rw [h.bound hr q]
        cases q <;> rfl
      · exact (joint_none _).symm

/-! ## Children one by one -/

lemma descendantsOf_cons (name : String) (e : Entry) (cs : List (String × Entry)) :
    descendantsOf ((name, e) :: cs) = descendantsOf [(name, e)] ++ descendantsOf cs := by
  simp [descendantsOf]

lemma Merges.cons_of_error {f : Error} (h : d.Merges p [(name, e)] o) (hr : o.result = .error f) :
    d.Merges p ((name, e) :: cs) ⟨.error f, o.tree⟩ := by
  have hf := verdict_eq_error_iff.mp (h.result.symm.trans hr)
  refine ⟨?_, fun h => by cases h⟩
  rw [descendantsOf_cons, List.findSome?_append, hf]
  rfl

-- The other children have other names, and meet what has been there before the first one came.
lemma Merges.cons {o' : Outcome Unit} (h : d.Merges p [(name, e)] o) (hr : o.result = .ok ())
    (hn : ∀ c ∈ cs, c.1 ≠ name) (h' : o.tree.Merges p cs o') : d.Merges p ((name, e) :: cs) o' := by
  have hnone := verdict_eq_ok_iff.mp (h.result.symm.trans hr)
  have hsame (n : String) (q : Path) (hne : n ≠ name) : o.tree.at? (n :: q) = d.at? (n :: q) := by
    rw [h.bound hr, at?_ofChildren_cons, if_neg hne]
    exact joint_none _
  have hfault : ∀ x ∈ descendantsOf cs, o.tree.fault? p x = d.fault? p x := by
    rintro ⟨_, x⟩ hx
    obtain ⟨n, _, q, hm, rfl, _⟩ := mem_descendantsOf_iff.mp hx
    rw [fault?, fault?, hsame n q (hn _ hm)]
  have hnew (q : Path) : (ofChildren cs).at? (name :: q) = none := by
    have hl : cs.lookup name = none :=
      List.lookup_eq_none_iff.mpr fun c hc => bne_iff_ne.mpr (hn c hc).symm
    rw [at?_cons, child, ofChildren, hl, Option.bind_none]
  constructor
  · rw [descendantsOf_cons, List.findSome?_append, hnone, Option.none_or, ← List.head?_filterMap,
      ← List.filterMap_congr hfault, List.head?_filterMap]
    exact h'.result
  · intro hok q
    rw [h'.bound hok q]
    cases q with
    | nil => rw [joint_at?_nil, joint_at?_nil, h.bound hr, joint_at?_nil]
    | cons n q =>
      by_cases hne : n = name
      · rw [hne, hnew, joint_none, h.bound hr, at?_ofChildren_cons, at?_ofChildren_cons, if_pos rfl,
          if_pos rfl]
      · rw [hsame n q hne, at?_ofChildren_cons, if_neg hne]

lemma mergeAll_merges
    (hcs : ∀ c ∈ cs, ∀ (p : Path) (d : Dir), d.Merges p [c] (merge (p ++ [c.1]) c.1 c.2 d))
    (ha : Children.Ascending cs) (p : Path) (d : Dir) : d.Merges p cs (mergeAll p cs d) := by
  induction cs generalizing d with
  | nil =>
    refine .of_ok (by simp [descendantsOf]) rfl fun n q => ?_
    exact (joint_none _).symm
  | cons c cs ih =>
    obtain ⟨name, e⟩ := c
    obtain ⟨hhead, hrest⟩ := List.forall_mem_cons.mp hcs
    obtain ⟨hlt, ha⟩ := List.pairwise_cons.mp ha
    rw [mergeAll, Outcome.andThen]
    cases hr : (merge (p ++ [name]) name e d).result with
    | error f => exact (hhead p d).cons_of_error hr
    | ok _ =>
      apply (hhead p d).cons hr
      · exact fun c hc => (hlt c hc).ne'
      · exact ih hrest ha _

lemma merge_merges {e : Entry} (he : e.WellFormed) (name : String) (p : Path) (d : Dir) :
    d.Merges p [(name, e)] (merge (p ++ [name]) name e d) := by
  -- over what is merged, since the tree that it meets is another one for each child
  induction e using Entry.induction_on generalizing name p d with
  | file a origin =>
    rw [merge]
    cases hc : d.child name with
    | none => exact put_merges_of_new hc _
    | some x =>
      cases x with
      | file b origin' => exact put_merges_of_file hc
      | dir b l cs => exact merges_of_clash hc (by simp [Entry.kind]) d
  | dir a l cs ih =>
    have hd : Dir.WellFormed ⟨a, l, cs⟩ := he
    rw [merge]
    cases hc : d.child name with
    | none => exact put_merges_of_new hc _
    | some x =>
      cases x with
      | file b origin => exact merges_of_clash hc (by simp [Entry.kind]) d
      | dir b l' cs' =>
        apply Merges.lift hc
        exact mergeAll_merges (fun c hm p d => ih c hm (hd.below c hm) c.1 p d) hd.ascending _ _

/-! ## Entries at paths -/

def Reaches (d : Dir) (p : Path) : Prop :=
  ∀ q : Path, q.Above p → ∀ a origin, d.at? q ≠ some (.file a origin)

lemma reaches_iff (hp : p ≠ []) : d.Reaches p ↔ ¬ d.FileOn p.parent := by
  constructor
  · rintro h ⟨q, a, origin, hq, hat⟩
    have hn : q ≠ [] := by
      rintro rfl
      cases hat
    exact h q ((Path.above_iff hp).mpr ⟨hn, hq⟩) a origin hat
  · intro h q hq a origin hat
    exact h ⟨q, a, origin, ((Path.above_iff hp).mp hq).2, hat⟩

lemma at?_touch (d : Dir) (q : Path) : d.touch.at? q = d.at? q := by
  cases q <;> rfl

lemma at?_dirAt_parent (hp : p ≠ []) (hf : ¬ d.FileOn p.parent) (r : Path) :
    (d.dirAt p.parent).touch.at? (p.name :: r) = d.at? (p ++ r) := by
  rw [at?_cons, child_dirAt_parent hp hf, at?_append]

lemma parent_append_cons (hp : p ≠ []) (r : Path) : p.parent ++ p.name :: r = p ++ r := by
  rw [List.append_cons, Path.parent_append_name hp]

structure Adds (d : Dir) (p : Path) (e : Entry) (o : Outcome Unit) : Prop where
  result :
    o.result = verdict ((([], e) :: e.descendants).findSome? fun x => d.fault? [] (p ++ x.1, x.2))
  below (r : Path) : o.result = .ok () → o.tree.at? (p ++ r) = joint (d.at? (p ++ r)) (e.at? r)
  beside (q : Path) : o.result = .ok () → ¬ p <+: q → o.tree.at? q = d.filled p.parent q

lemma add_adds_root {text : String} (he : e.WellFormed) (hp : Path.parse text = []) :
    d.Adds [] e (d.add text e) := by
  rw [add.eq_def, if_pos hp]
  cases e with
  | file a origin => exact ⟨rfl, fun _ h => (by cases h), fun _ h => (by cases h)⟩
  | dir a l cs =>
    have hd : Dir.WellFormed ⟨a, l, cs⟩ := he
    have h :=
      mergeAll_merges (fun c hm p d => merge_merges (hd.below c hm) c.1 p d) hd.ascending [] d.touch
    refine ⟨?_, fun r hr => ?_, fun q _ hq => absurd List.nil_prefix hq⟩
    · have hf : d.touch.fault? [] = fun x => d.fault? [] ([] ++ x.1, x.2) := by
        funext x
        rw [fault?, fault?, at?_touch]
        rfl
      have hhead : d.fault? [] ([] ++ [], Entry.dir a l cs) = none := rfl
      rw [List.findSome?_cons, hhead, Entry.descendants, ← hf]
      exact h.result
    · refine (h.bound hr r).trans ?_
      rw [at?_touch]
      cases r <;> rfl

lemma add_adds {text : String} (he : e.WellFormed) (hp : Path.parse text ≠ [])
    (hf : ¬ d.FileOn (Path.parse text).parent) : d.Adds (Path.parse text) e (d.add text e) := by
  rw [add.eq_def]
  generalize Path.parse text = p at hp hf ⊢
  rw [if_neg hp]
  obtain ⟨hr, hg⟩ := within_grafted p.parent (merge p p.name e) hf (.inl rfl)
  have h := merge_merges he p.name p.parent (d.dirAt p.parent).touch
  rw [Path.parent_append_name hp] at h
  constructor
  · have hfault :
        ((d.dirAt p.parent).touch.fault? p.parent ∘ fun x : Path × Entry => (p.name :: x.1, x.2)) =
        fun x : Path × Entry => d.fault? [] (p ++ x.1, x.2) := by
      funext x
      simp only [Function.comp, fault?, at?_dirAt_parent hp hf, parent_append_cons hp,
        List.nil_append]
    have hmap : descendantsOf [(p.name, e)] =
        (([], e) :: e.descendants).map fun x => (p.name :: x.1, x.2) :=
      descendantsOf_singleton p.name e
    rw [hr, h.result, hmap, List.findSome?_map, hfault]
  · intro r hok
    rw [hr] at hok
    rw [← parent_append_cons hp, hg.inside, h.bound hok, at?_dirAt_parent hp hf,
      at?_ofChildren_cons, if_pos rfl, parent_append_cons hp]
  · intro q hok hq
    rw [hr] at hok
    by_cases hpq : p.parent <+: q
    · obtain ⟨r, rfl⟩ := hpq
      rw [hg.inside, filled_append hf, h.bound hok, at?_touch]
      cases r with
      | nil => exact joint_at?_nil _ _
      | cons n r =>
        have hn : n ≠ p.name := by
          rintro rfl
          exact hq ⟨r, (parent_append_cons hp r).symm⟩
        rw [at?_ofChildren_cons, if_neg hn]
        exact joint_none _
    · exact hg.outside q hpq

lemma fault?_eq_none_iff {x : Path × Entry} :
    d.fault? p x = none ↔ ∀ b, d.at? x.1 = some b → b.kind = x.2.kind := by
  rw [fault?]
  cases d.at? x.1 <;> simp

lemma fault?_eq_some_iff {x : Path × Entry} {f : Error} :
    d.fault? p x = some f ↔
      ∃ b, d.at? x.1 = some b ∧ b.kind ≠ x.2.kind ∧
        f = .typeMismatch (p ++ x.1) b.kind x.2.kind := by
  rw [fault?]
  cases d.at? x.1 <;> simp [eq_comm]

lemma mem_cons_descendants_iff (he : e.WellFormed) {r : Path} {x : Entry} :
    (r, x) ∈ ([], e) :: e.descendants ↔ e.find? r = some x := by
  rw [List.mem_cons, he.mem_descendants_iff, Prod.mk.injEq]
  by_cases hr : r = []
  · rw [hr, Entry.find?_nil, Option.some_inj]
    simp [eq_comm]
  · simp [hr]

lemma Adds.ok_iff (h : d.Adds p e o) (he : e.WellFormed) :
    o.result = .ok () ↔
      ∀ r b b', d.at? (p ++ r) = some b → e.at? r = some b' → b.kind = b'.kind := by
  rw [h.result, verdict_eq_ok_iff, List.findSome?_eq_none_iff]
  simp only [fault?_eq_none_iff]
  constructor
  · intro hx r b b' hat hat'
    obtain ⟨x, hfind, rfl⟩ := Option.map_eq_some_iff.mp hat'
    rw [Entry.kind_binding]
    exact hx (r, x) ((mem_cons_descendants_iff he).mpr hfind) b hat
  · rintro hk ⟨r, x⟩ hm b hat
    rw [← Entry.kind_binding]
    exact hk r b x.binding hat (Entry.at?_of_find? ((mem_cons_descendants_iff he).mp hm))

lemma Adds.exists_clash (h : d.Adds p e o) {f : Error} (hf : o.result = .error f) :
    ∃ before r x after b, ([], e) :: e.descendants = before ++ (r, x) :: after ∧
      (∀ y ∈ before, ∀ b, d.at? (p ++ y.1) = some b → b.kind = y.2.kind) ∧
      d.at? (p ++ r) = some b ∧ b.kind ≠ x.kind ∧ f = .typeMismatch (p ++ r) b.kind x.kind := by
  rw [h.result, verdict_eq_error_iff] at hf
  obtain ⟨before, ⟨r, x⟩, after, heq, hx, hbefore⟩ := List.findSome?_eq_some_iff.mp hf
  obtain ⟨b, hat, hk, rfl⟩ := fault?_eq_some_iff.mp hx
  exact ⟨before, r, x, after, b, heq, fun y hy => fault?_eq_none_iff.mp (hbefore y hy),
    hat, hk, rfl⟩

lemma adds_of_reaches {text : String} (he : e.WellFormed) (h : d.Reaches (Path.parse text)) :
    d.Adds (Path.parse text) e (d.add text e) := by
  by_cases hp : Path.parse text = []
  · rw [hp]
    exact add_adds_root he hp
  · exact add_adds he hp ((reaches_iff hp).mp h)

lemma reaches_nil (d : Dir) : d.Reaches [] := fun _ hq => absurd (List.prefix_nil.mp hq.2.1) hq.1

lemma reaches_of_add {text : String} (h : (d.add text e).result = .ok ()) :
    d.Reaches (Path.parse text) := by
  by_cases hp : Path.parse text = []
  · rw [hp]
    exact reaches_nil d
  · rw [reaches_iff hp]
    intro hf
    rw [add.eq_def, if_neg hp, within_of_fileOn hf] at h
    cases h

/-- An entry can be added where no file is on the way and where it meets nothing of the other kind.
It is then merged with what was there, on the way to it directories are made, and all else stays. If
only the kinds are in the way, the first that differ are reported. -/
theorem add_merges {d : Dir} {e : Entry} (he : e.WellFormed) (text : String) :
    ((d.add text e).result = .ok () ↔
      d.Reaches (Path.parse text) ∧ (Path.parse text = [] → e.kind = .directory) ∧
        ∀ r b b', d.at? (Path.parse text ++ r) = some b → e.at? r = some b' → b.kind = b'.kind) ∧
    ((d.add text e).result = .ok () →
      (∀ r, (d.add text e).tree.at? (Path.parse text ++ r) =
        joint (d.at? (Path.parse text ++ r)) (e.at? r)) ∧
      (∀ q : Path, q.Above (Path.parse text) → d.at? q = none →
        (d.add text e).tree.at? q = some (.dir .ofDir)) ∧
      ∀ q : Path, ¬ Path.parse text <+: q → ¬ (q.Above (Path.parse text) ∧ d.at? q = none) →
        (d.add text e).tree.at? q = d.at? q) ∧
    ∀ f, (d.add text e).result = .error f → d.Reaches (Path.parse text) →
      (Path.parse text = [] → e.kind = .directory) →
      ∃ before r x after b, ([], e) :: e.descendants = before ++ (r, x) :: after ∧
        (∀ y ∈ before, ∀ b, d.at? (Path.parse text ++ y.1) = some b → b.kind = y.2.kind) ∧
        d.at? (Path.parse text ++ r) = some b ∧ b.kind ≠ x.kind ∧
        f = .typeMismatch (Path.parse text ++ r) b.kind x.kind ∧
        f.message = mismatchMessage ("/" ++ (Path.parse text ++ r).render) b.kind x.kind := by
  refine ⟨⟨fun h => ?_, fun ⟨hr, _, hk⟩ => ?_⟩, fun h => ?_, fun f hf hr _ => ?_⟩
  · have hr := reaches_of_add h
    have hk := ((adds_of_reaches he hr).ok_iff he).mp h
    refine ⟨hr, fun hp => ?_, hk⟩
    have hroot := hk [] (.dir d.attrs) e.binding (by rw [hp]; exact at?_nil d) (Entry.at?_nil e)
    cases e with
    | file a origin => cases hroot
    | dir a l cs => rfl
  · exact ((adds_of_reaches he hr).ok_iff he).mpr hk
  · have ha := adds_of_reaches he (reaches_of_add h)
    refine ⟨fun r => ha.below r h, fun q hq hn => ?_, fun q hq hn => ?_⟩
    · have hbeside : ¬ Path.parse text <+: q :=
        fun hpq => hq.2.2 (hq.2.1.eq_of_length_le hpq.length_le)
      have hp : Path.parse text ≠ [] := fun hp => hbeside (hp ▸ List.nil_prefix)
      rw [ha.beside q h hbeside, filled, if_pos ⟨((Path.above_iff hp).mp hq).2, hn⟩]
    · have hp : Path.parse text ≠ [] := fun hp => hq (hp ▸ List.nil_prefix)
      rw [ha.beside q h hq, filled, if_neg]
      rintro ⟨hpre, hnone⟩
      have hne : q ≠ [] := by
        rintro rfl
        cases hnone
      exact hn ⟨(Path.above_iff hp).mpr ⟨hne, hpre⟩, hnone⟩
  · obtain ⟨before, r, x, after, b, heq, hbefore, hat, hk, rfl⟩ :=
      (adds_of_reaches he hr).exists_clash hf
    exact ⟨before, r, x, after, b, heq, hbefore, hat, hk, rfl, rfl⟩

/-! A directory that joins another one, and a file that would take its place. -/

def joining : Entry := .dir ⟨0o700, "x", "x"⟩ none
  [("hosts", .file ⟨0o600, "x", "x"⟩ [3]),
    ("ssh", .dir ⟨0o700, "x", "x"⟩ none [("keys", .file .ofFile [4])])]

def clashing : Entry := .dir .ofDir none [("a", .file .ofFile [5]), ("etc", .file .ofFile [6])]

lemma wellFormed_joining : joining.WellFormed := by
  refine .dir (by decide) (by decide) (by simp) fun c hc => ?_
  simp only [List.mem_cons, List.not_mem_nil, or_false] at hc
  rcases hc with rfl | rfl
  · exact .file
  · refine .dir (by decide) (by decide) (by simp) fun c hc => ?_
    obtain rfl := List.mem_singleton.mp hc
    exact .file

lemma wellFormed_clashing : clashing.WellFormed := by
  refine .dir (by decide) (by decide) (by simp) fun c hc => ?_
  simp only [List.mem_cons, List.not_mem_nil, or_false] at hc
  rcases hc with rfl | rfl <;> exact .file

theorem add_merges_stored :
    (stored.add "etc" joining).tree.at? ["etc"] = some (.dir .ofDir) ∧
      (stored.add "etc" joining).tree.at? ["etc", "hosts"] = some (.file ⟨0o600, "x", "x"⟩ [3]) ∧
      (stored.add "etc" joining).tree.at? ["etc", "ssh", "keys"] = some (.file .ofFile [4]) ∧
      (stored.add "etc" joining).tree.at? ["a"] = some (.file .ofFile [1]) ∧
      ∃ before x after,
        ([], clashing) :: clashing.descendants = before ++ (["etc"], x) :: after := by
  have hp : Path.parse "etc" = ["etc"] := by decide
  have hok : (stored.add "etc" joining).result = .ok () := by cbv
  obtain ⟨_, hbound, _⟩ := add_merges (d := stored) wellFormed_joining "etc"
  obtain ⟨hbelow, _, hbeside⟩ := hbound hok
  rw [hp] at hbelow hbeside
  have ha : stored.at? ["a"] ≠ none := by decide
  refine ⟨hbelow [], hbelow ["hosts"], hbelow ["ssh", "keys"],
    hbeside ["a"] (by decide) (fun h => ha h.2), ?_⟩
  have hres : (stored.add "" clashing).result =
      .error (.typeMismatch ["etc"] .directory .file) := by cbv
  obtain ⟨_, _, herror⟩ := add_merges (d := stored) wellFormed_clashing ""
  rw [Path.parse_empty] at herror
  obtain ⟨before, r, x, after, b, heq, _, _, _, hf, _⟩ :=
    herror _ hres (reaches_nil stored) fun _ => rfl
  obtain ⟨rfl, _⟩ := Error.typeMismatch.inj hf
  exact ⟨before, x, after, heq⟩

end Dir

end TarRecipe
