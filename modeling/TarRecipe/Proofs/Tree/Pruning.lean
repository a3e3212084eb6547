import Mathlib.Data.List.Basic
import Mathlib.Tactic.Common
import TarRecipe.Proofs.Tree.Operations
import TarRecipe.Tree.Pruning

/-! Pruning only takes away, and its depth does not matter beyond the height of the tree. -/

namespace TarRecipe

open Outcome

lemma Outcome.forEach_keeps {γ : Type} {P : Dir → Prop} {f : γ → Dir → Outcome Unit} {xs : List γ}
    {d : Dir} (hf : ∀ x d, P d → P (f x d).tree) (h : P d) : P (forEach f xs d).tree := by
  induction xs generalizing d with
  | nil => exact h
  | cons x xs ih =>
    have hx := hf x d h
    rw [forEach, andThen]
    split
    · exact ih hx
    · exact hx

/-! ## Parts -/

def Entry.PartOf (e' e : Entry) : Prop := ∀ p b, e'.at? p = some b → e.at? p = some b

def Dir.PartOf (d' d : Dir) : Prop := d'.toEntry.PartOf d.toEntry

lemma Entry.PartOf.refl (e : Entry) : e.PartOf e := fun _ _ h => h

namespace Dir

variable {d d' d'' : Dir} {α : Type}

lemma PartOf.refl (d : Dir) : d.PartOf d := Entry.PartOf.refl d.toEntry

lemma PartOf.trans (h : d''.PartOf d') (h' : d'.PartOf d) : d''.PartOf d :=
  fun p b hb => h' p b (h p b hb)

lemma PartOf.at? (h : d'.PartOf d) {p : Path} {b : Binding} (hb : d'.at? p = some b) :
    d.at? p = some b := h p b hb

lemma partOf_of_child (ha : d'.attrs = d.attrs)
    (hc : ∀ name e', d'.child name = some e' → ∃ e, d.child name = some e ∧ e'.PartOf e) :
    d'.PartOf d := by
  intro p b hb
  change d'.at? p = some b at hb
  change d.at? p = some b
  cases p with
  | nil => rwa [at?_nil, ← ha, ← at?_nil]
  | cons name p =>
    rw [at?_cons, Option.bind_eq_some_iff] at hb ⊢
    obtain ⟨e', he', hb⟩ := hb
    obtain ⟨e, he, hp⟩ := hc name e' he'
    exact ⟨e, he, hp p b hb⟩

lemma touch_partOf (d : Dir) : d.touch.PartOf d :=
  partOf_of_child rfl fun _ e he => ⟨e, he, .refl e⟩

lemma drop_partOf (d : Dir) (name : String) : (d.drop name).PartOf d := by
  refine partOf_of_child rfl fun n e he => ?_
  rw [child_drop] at he
  split at he
  · cases he
  · exact ⟨e, he, .refl e⟩

lemma put_partOf {name : String} {e e' : Entry} (he : d.child name = some e) (h : e'.PartOf e) :
    (d.put name e').PartOf d := by
  refine partOf_of_child rfl fun n x hx => ?_
  rw [child_put] at hx
  split at hx
  · subst n
    exact ⟨e, he, Option.some_inj.mp hx ▸ h⟩
  · exact ⟨x, hx, .refl x⟩

lemma within_partOf {edit : Dir → Outcome α} (he : ∀ d, (edit d).tree.PartOf d) (full path : Path)
    (d : Dir) : (within false full edit path d).tree.PartOf d := by
  induction path generalizing d with
  | nil => exact (he d.touch).trans (touch_partOf d)
  | cons name path ih =>
    rw [within]
    split
    · exact touch_partOf d
    · rename_i hc
      exact put_partOf hc (ih _)
    · exact touch_partOf d

lemma remove_partOf (text : String) (d : Dir) : (d.remove text).tree.PartOf d := by
  rw [remove]
  split
  · exact .refl d
  · refine within_partOf (fun d => ?_) _ _ d
    split
    · exact drop_partOf d _
    · exact .refl d

/-! ## The paths that rules ignore -/

def swept (rules : Ignore.Rules) (d : Dir) : Outcome Unit :=
  sweep rules (if rules.isEmpty then [] else d.listed) d

lemma sweepOne_partOf (rules : Ignore.Rules) (path : String) (d : Dir) :
    (sweepOne rules path d).tree.PartOf d := by
  rw [sweepOne]
  split
  · split
    · exact remove_partOf path d
    · exact .refl d
  · exact .refl d
  · exact .refl d

lemma swept_partOf (rules : Ignore.Rules) (d : Dir) : (d.swept rules).tree.PartOf d :=
  forEach_keeps (P := (·.PartOf d)) (fun path d' h => (sweepOne_partOf rules path d').trans h)
    (.refl d)

variable {B : Binding → Binding → Prop} {F : (Attrs → Attrs) → Prop} {d₁ d₂ : Dir}

lemma sweepOne_alike (hB : Binding.Uniform B F) (rules : Ignore.Rules) (path : String)
    (h : d₁.Related B d₂) : Alike (· = ·) B (sweepOne rules path d₁) (sweepOne rules path d₂) := by
  rw [sweepOne, sweepOne]
  have he : Agree (· = ·) (Entry.Related B) (d₁.getEntry path) (d₂.getEntry path) :=
    entryAt_related hB (Path.parse path) h
  generalize d₁.getEntry path = g₁ at he
  generalize d₂.getEntry path = g₂ at he
  cases he with
  | @ok e₁ e₂ he =>
    have hk : e₁.isDir = e₂.isDir := congrArg (· == Kind.directory) (he.kind hB)
    dsimp only
    rw [hk]
    split
    · exact (remove_related hB path h).void
    · exact related_ok trivial h
  | @error e _ he =>
    subst he
    cases e <;> first | exact related_ok trivial h | exact related_error rfl h

lemma swept_alike (hB : Binding.Uniform B F) (rules : Ignore.Rules) (h : d₁.Related B d₂) :
    Alike (· = ·) B (d₁.swept rules) (d₂.swept rules) := by
  rw [swept, swept, h.listed]
  exact forEach_alike_same _ (fun path _ _ h => sweepOne_alike hB rules path h) h

/-! ## The directories that remain -/

lemma pruneEach_paired {prune : Dir → Outcome Unit} {R : Entry → Entry → Prop}
    (hr : ∀ e, R e e) {cs : List (String × Entry)}
    (hp : ∀ a l below, R (prune ⟨a, l, below⟩).tree.toEntry (.dir a l below)) :
    Children.Paired R (pruneEach prune cs).2 cs := by
  induction cs with
  | nil => exact .nil
  | cons c cs ih =>
    obtain ⟨name, e⟩ := c
    cases e with
    | file a origin => exact .cons ⟨rfl, hr _⟩ ih
    | dir a l below =>
      rw [pruneEach]
      split
      · exact .cons ⟨rfl, hp a l below⟩ (List.forall₂_same.mpr fun c _ => ⟨rfl, hr c.2⟩)
      · exact .cons ⟨rfl, hp a l below⟩ ih

lemma pruneEach_names (prune : Dir → Outcome Unit) (cs : List (String × Entry)) :
    (pruneEach prune cs).2.map Prod.fst = cs.map Prod.fst :=
  (pruneEach_paired (R := fun _ _ => True) (fun _ => trivial) fun _ _ _ => trivial).names

def pruneBelow (prune : Dir → Outcome Unit) (d : Dir) : Outcome Unit :=
  ⟨(pruneEach prune d.children).1,
    { d with listing := none, children := (pruneEach prune d.children).2 }⟩

lemma pruneBelow_partOf {prune : Dir → Outcome Unit} (hp : ∀ d, (prune d).tree.PartOf d) (d : Dir) :
    (pruneBelow prune d).tree.PartOf d := by
  refine partOf_of_child rfl fun name e' he' => ?_
  have hcs : Children.Paired Entry.PartOf (pruneEach prune d.children).2 d.children :=
    pruneEach_paired Entry.PartOf.refl fun a l below => hp ⟨a, l, below⟩
  have hc := hcs.lookup name
  change (pruneEach prune d.children).2.lookup name = some e' at he'
  rw [he'] at hc
  change Option.Rel _ _ (d.child name) at hc
  generalize d.child name = c at hc
  cases hc with
  | some h => exact ⟨_, rfl, h⟩

lemma pruneTo_succ (origins : Origins) (name : String) (depth : Nat) (d : Dir) :
    pruneTo origins name (depth + 1) d = match d.ownRules origins name with
      | .error e => ⟨.error e, d⟩
      | .ok none => ⟨.ok (), d⟩
      | .ok (some rules) => (d.swept rules).andThen fun _ =>
        pruneBelow (pruneTo origins name depth) := rfl

lemma pruneTo_partOf (origins : Origins) (name : String) (depth : Nat) (d : Dir) :
    (pruneTo origins name depth d).tree.PartOf d := by
  induction depth generalizing d with
  | zero => exact .refl d
  | succ depth ih =>
    rw [pruneTo_succ]
    split
    · exact .refl d
    · exact .refl d
    · rename_i rules _
      rw [andThen]
      split
      · exact (pruneBelow_partOf ih _).trans (swept_partOf rules d)
      · exact swept_partOf rules d

lemma applyIgnore_partOf (origins : Origins) (name : String) (d : Dir) :
    (d.applyIgnore origins name).tree.PartOf d := by
  rw [applyIgnore, andThen]
  split
  · intro p b hb
    rw [toEntry_relist, Entry.at?_relist] at hb
    exact pruneTo_partOf origins name _ d p b hb
  · exact pruneTo_partOf origins name _ d

end Dir

/-! ## Heights -/

lemma heightOf_le_iff {cs : List (String × Entry)} {k : Nat} :
    heightOf cs ≤ k ↔ ∀ c ∈ cs, c.2.height ≤ k := by
  induction cs with
  | nil => simp [heightOf]
  | cons c cs ih => rw [heightOf, max_le_iff, ih, List.forall_mem_cons]

lemma Entry.WellFormed.height_le_iff {e : Entry} (h : e.WellFormed) {k : Nat} :
    e.height ≤ k ↔ ∀ p a, e.at? p = some (.dir a) → p.length < k := by
  induction e using Entry.induction_on generalizing k with
  | file a origin =>
    refine iff_of_true (Nat.zero_le k) fun p b hb => ?_
    cases p <;> cases hb
  | dir a l cs ih =>
    have hd : Dir.WellFormed ⟨a, l, cs⟩ := h
    cases k with
    | zero =>
      refine iff_of_false (Nat.not_succ_le_zero _) fun hp => ?_
      exact Nat.not_lt_zero _ (hp [] a (Dir.at?_nil ⟨a, l, cs⟩))
    | succ k =>
      rw [height, Nat.add_le_add_iff_right, heightOf_le_iff]
      constructor
      · intro hk p b hb
        cases p with
        | nil => exact Nat.zero_lt_succ k
        | cons name p =>
          change Dir.at? ⟨a, l, cs⟩ (name :: p) = _ at hb
          rw [Dir.at?_cons, Option.bind_eq_some_iff] at hb
          obtain ⟨e, he, hb⟩ := hb
          have hm := hd.mem_of_child he
          exact Nat.succ_lt_succ ((ih _ hm (hd.below _ hm)).mp (hk _ hm) p b hb)
      · intro hp c hc
        refine (ih c hc (hd.below c hc)).mpr fun p b hb => ?_
        have hn : Dir.child ⟨a, l, cs⟩ c.1 = some c.2 := hd.ascending.mem_iff_lookup.mp hc
        have hlt := hp (c.1 :: p) b (by
          change Dir.at? ⟨a, l, cs⟩ (c.1 :: p) = _
          rw [Dir.at?_cons, hn]
          exact hb)
        exact Nat.lt_of_succ_lt_succ hlt

lemma Dir.PartOf.height_le {d d' : Dir} (hw : d.WellFormed) (hw' : d'.WellFormed)
    (h : d'.PartOf d) :
    d'.toEntry.height ≤ d.toEntry.height := by
  refine (Entry.WellFormed.height_le_iff hw').mpr fun p a hb => ?_
  exact (Entry.WellFormed.height_le_iff hw).mp (Nat.le_refl _) p a (h p _ hb)

/-! ## Pruning to any depth -/

namespace Dir

variable {d : Dir}

def prune (origins : Origins) (name : String) (d : Dir) : Outcome Unit :=
  pruneTo origins name d.toEntry.height d

lemma swept_wellFormed (h : d.WellFormed) (rules : Ignore.Rules) :
    (d.swept rules).tree.WellFormed :=
  (swept_alike Binding.uniform_eq rules (related_eq_iff.mpr h)).tree.left

lemma height_pos (d : Dir) : 0 < d.toEntry.height := Nat.zero_lt_succ _

lemma height_lt_of_mem {c : String × Entry} (hc : c ∈ d.children) : c.2.height < d.toEntry.height :=
  Nat.lt_succ_of_le (heightOf_le_iff.mp (Nat.le_refl _) c hc)

lemma pruneEach_congr {f g : Dir → Outcome Unit} {cs : List (String × Entry)}
    (h : ∀ c ∈ cs, ∀ a l below, c.2 = .dir a l below → f ⟨a, l, below⟩ = g ⟨a, l, below⟩) :
    pruneEach f cs = pruneEach g cs := by
  induction cs with
  | nil => rfl
  | cons c cs ih =>
    rw [List.forall_mem_cons] at h
    obtain ⟨name, e⟩ := c
    cases e with
    | file a origin => rw [pruneEach, pruneEach, ih h.2]
    | dir a l below => rw [pruneEach, pruneEach, h.1 a l below rfl, ih h.2]

lemma pruneBelow_swept_congr (h : d.WellFormed) (rules : Ignore.Rules) {f g : Dir → Outcome Unit}
    (hfg : ∀ c : Dir, c.WellFormed → c.toEntry.height < d.toEntry.height → f c = g c) :
    ((d.swept rules).andThen fun _ => pruneBelow f) = (d.swept rules).andThen fun _ =>
      pruneBelow g := by
  have hw := swept_wellFormed h rules
  have hs := (swept_partOf rules d).height_le h hw
  rw [andThen, andThen]
  split
  · rw [pruneBelow, pruneBelow, pruneEach_congr]
    intro c hc a l below he
    have hb := hw.below c hc
    have hk := height_lt_of_mem hc
    rw [he] at hb hk
    exact hfg _ hb (hk.trans_le hs)
  · rfl

lemma pruneTo_add_one (origins : Origins) (name : String) {depth : Nat} (h : d.WellFormed)
    (hd : d.toEntry.height ≤ depth) :
    pruneTo origins name (depth + 1) d = pruneTo origins name depth d := by
  induction depth generalizing d with
  | zero => exact absurd hd (Nat.not_le.mpr d.height_pos)
  | succ depth ih =>
    rw [pruneTo_succ, pruneTo_succ]
    split
    · rfl
    · rfl
    · exact pruneBelow_swept_congr h _ fun c hc hk => ih hc (Nat.le_of_lt_succ (hk.trans_le hd))

lemma pruneTo_eq_prune (origins : Origins) (name : String) {depth : Nat} (h : d.WellFormed)
    (hd : d.toEntry.height ≤ depth) : pruneTo origins name depth d = d.prune origins name := by
  induction depth, hd using Nat.le_induction with
  | base => rfl
  | succ depth hd ih => rw [pruneTo_add_one origins name h hd, ih]

lemma prune_eq (origins : Origins) (name : String) (h : d.WellFormed) :
    d.prune origins name = match d.ownRules origins name with
      | .error e => ⟨.error e, d⟩
      | .ok none => ⟨.ok (), d⟩
      | .ok (some rules) => (d.swept rules).andThen fun _ => pruneBelow (prune origins name) := by
  rw [prune, ← pruneTo_add_one origins name h (Nat.le_refl _), pruneTo_succ]
  split
  · rfl
  · rfl
  · exact pruneBelow_swept_congr h _ fun c hc hk => pruneTo_eq_prune origins name hc hk.le

end Dir

end TarRecipe
