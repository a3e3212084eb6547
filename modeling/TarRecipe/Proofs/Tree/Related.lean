import Mathlib.Data.List.Forall2
import Mathlib.Data.String.Basic
import Mathlib.Tactic.Common
import TarRecipe.Proofs.Tree.Listing
import TarRecipe.Tree.Edit

/-! Two trees side by side, which bind related things at the same paths. -/

namespace TarRecipe

section

variable {α β γ δ : Type} {r : α → β → Prop} {s : γ → δ → Prop} {x : Option α} {y : Option β}

lemma rel_isSome (h : Option.Rel r x y) : x.isSome = y.isSome := by
  cases h <;> rfl

lemma rel_map {f : α → γ} {g : β → δ} (h : Option.Rel r x y) (hf : ∀ a b, r a b → s (f a) (g b)) :
    Option.Rel s (x.map f) (y.map g) := by
  cases h with
  | none => exact .none
  | some hr => exact .some (hf _ _ hr)

lemma rel_bind {f : α → Option γ} {g : β → Option δ} (h : Option.Rel r x y)
    (hf : ∀ a b, r a b → Option.Rel s (f a) (g b)) : Option.Rel s (x.bind f) (y.bind g) := by
  cases h with
  | none => exact .none
  | some hr => exact hf _ _ hr

end

namespace Binding

def kind : Binding → Kind
  | file .. => .file
  | dir _ => .directory

def change (f : Attrs → Attrs) : Binding → Binding
  | file a origin => file (f a) origin
  | dir a => dir (f a)

/-- What operations ask of a relation; `F` holds the changes of attributes that respect it. -/
structure Uniform (B : Binding → Binding → Prop) (F : (Attrs → Attrs) → Prop) : Prop where
  kind {b₁ b₂ : Binding} : B b₁ b₂ → b₁.kind = b₂.kind
  newDir : B (.dir .ofDir) (.dir .ofDir)
  change {f : Attrs → Attrs} {b₁ b₂ : Binding} : F f → B b₁ b₂ → B (b₁.change f) (b₂.change f)

lemma uniform_eq : Uniform (· = ·) fun _ => True where
  kind h := congrArg Binding.kind h
  newDir := rfl
  change _ h := congrArg _ h

inductive Alike (R : Bytes → Bytes → Prop) : Binding → Binding → Prop
  | file {a o₁ o₂} : R o₁ o₂ → Alike R (.file a o₁) (.file a o₂)
  | dir {a} : Alike R (.dir a) (.dir a)

lemma uniform_alike (R : Bytes → Bytes → Prop) : Uniform (Alike R) fun _ => True where
  kind h := by cases h <;> rfl
  newDir := .dir
  change _ h := by
    cases h with
    | file hr => exact .file hr
    | dir => exact .dir

end Binding

namespace Entry

def at? (e : Entry) (p : Path) : Option Binding := (e.find? p).map binding

@[simp] lemma kind_binding (e : Entry) : e.binding.kind = e.kind := by
  cases e <;> rfl

lemma at?_of_find? {e x : Entry} {p : Path} (h : e.find? p = some x) : e.at? p = some x.binding :=
  congrArg (Option.map binding) h

lemma at?_nil (e : Entry) : e.at? [] = some e.binding := by
  rw [at?, find?_nil, Option.map_some]

lemma at?_relist (e : Entry) (p : Path) : e.relist.at? p = e.at? p := by
  have hb (x : Entry) : x.relist.binding = x.binding := by cases x <;> rfl
  rw [at?, find?_relist, Option.map_map]
  exact congrArg (fun g => (e.find? p).map g) (funext hb)

lemma at?_change (f : Attrs → Attrs) (e : Entry) (p : Path) :
    (e.change f true).at? p = (e.at? p).map (Binding.change f) := by
  have hb (x : Entry) : (x.change f true).binding = x.binding.change f := by cases x <;> rfl
  rw [at?, at?, find?_change, Option.map_map, Option.map_map]
  exact congrArg (fun g => (e.find? p).map g) (funext hb)

lemma at?_change_false (f : Attrs → Attrs) (e : Entry) (p : Path) :
    (e.change f false).at? p = if p = [] then some (e.binding.change f) else e.at? p := by
  split
  · subst p
    rw [at?_nil]
    cases e <;> rfl
  · rename_i hp
    obtain ⟨name, q, rfl⟩ := List.exists_cons_of_ne_nil hp
    cases e <;> rfl

structure Related (B : Binding → Binding → Prop) (e₁ e₂ : Entry) : Prop where
  left : e₁.WellFormed
  right : e₂.WellFormed
  at? (p : Path) : Option.Rel B (e₁.at? p) (e₂.at? p)

lemma related_eq_iff {e : Entry} : Related (· = ·) e e ↔ e.WellFormed := by
  refine ⟨fun h => h.left, fun h => ⟨h, h, fun p => ?_⟩⟩
  cases e.at? p with
  | none => exact .none
  | some b => exact .some rfl

end Entry

def Dir.Related (B : Binding → Binding → Prop) (d₁ d₂ : Dir) : Prop :=
  Entry.Related B d₁.toEntry d₂.toEntry

variable {B : Binding → Binding → Prop} {F : (Attrs → Attrs) → Prop}

namespace Entry.Related

variable {e₁ e₂ : Entry}

lemma file {a₁ a₂ : Attrs} {o₁ o₂ : Bytes} (h : B (.file a₁ o₁) (.file a₂ o₂)) :
    Related B (.file a₁ o₁) (.file a₂ o₂) := by
  refine ⟨.file, .file, fun p => ?_⟩
  cases p with
  | nil =>
    rw [at?_nil, at?_nil]
    exact .some h
  | cons name p => exact .none

lemma binding (h : Related B e₁ e₂) : B e₁.binding e₂.binding := by
  have hr := h.at? []
  rw [Entry.at?_nil, Entry.at?_nil] at hr
  cases hr
  assumption

lemma kind (hB : Binding.Uniform B F) (h : Related B e₁ e₂) : e₁.kind = e₂.kind := by
  have hk := hB.kind h.binding
  cases e₁ <;> cases e₂ <;> exact hk

lemma relist (h : Related B e₁ e₂) : Related B e₁.relist e₂.relist where
  left := h.left.relist
  right := h.right.relist
  at? p := by
    rw [at?_relist, at?_relist]
    exact h.at? p

lemma change (hB : Binding.Uniform B F) {f : Attrs → Attrs} (hf : F f) (h : Related B e₁ e₂)
    (all : Bool) : Related B (e₁.change f all) (e₂.change f all) where
  left := h.left.change f all
  right := h.right.change f all
  at? p := by
    cases all with
    | true =>
      rw [at?_change, at?_change]
      exact rel_map (h.at? p) fun _ _ => hB.change hf
    | false =>
      rw [at?_change_false, at?_change_false]
      split
      · exact .some (hB.change hf h.binding)
      · exact h.at? p

lemma isSome_find? (h : Related B e₁ e₂) (p : Path) :
    (e₁.find? p).isSome = (e₂.find? p).isSome := by
  have hp := rel_isSome (h.at? p)
  rwa [Entry.at?, Entry.at?, Option.isSome_map, Option.isSome_map] at hp

lemma listed (h : Related B e₁ e₂) : e₁.listed = e₂.listed := by
  have h₁ := h.left.listed_pairwise
  have h₂ := h.right.listed_pairwise
  have hm (text : String) : text ∈ e₁.listed ↔ text ∈ e₂.listed := by
    simp only [h.left.mem_listed_iff, h.right.mem_listed_iff, ← Option.isSome_iff_exists,
      exists_and_left, exists_and_right, ← h.isSome_find?]
  exact ((List.perm_ext_iff_of_nodup (h₁.imp ne_of_lt) (h₂.imp ne_of_lt)).mpr hm).eq_of_pairwise
    (fun _ _ _ _ hab hba => absurd hba (lt_asymm hab)) h₁ h₂

end Entry.Related

namespace Dir

variable {d d₁ d₂ : Dir} {name : String} {e e₁ e₂ : Entry}

lemma at?_nil (d : Dir) : d.at? [] = some (.dir d.attrs) := by
  rw [Dir.at?, Dir.find?_nil]
  rfl

lemma at?_cons (d : Dir) (name : String) (p : Path) :
    d.at? (name :: p) = (d.child name).bind (·.at? p) := by
  rw [Dir.at?, Dir.find?_cons, Option.map_bind]
  rfl

lemma at?_of_find? {d : Dir} {x : Entry} {p : Path} (h : d.find? p = some x) :
    d.at? p = some x.binding :=
  Entry.at?_of_find? h

lemma at?_relist (d : Dir) (q : Path) : d.relist.at? q = d.at? q := Entry.at?_relist d.toEntry q

lemma at?_name (d : Dir) (name : String) : d.at? [name] = (d.child name).map Entry.binding := by
  rw [at?_cons]
  cases d.child name with
  | none => rfl
  | some e => exact Entry.at?_nil e

lemma child_put (d : Dir) (name n : String) (e : Entry) :
    (d.put name e).child n = if n = name then some e else d.child n :=
  Children.lookup_insert ..

lemma child_drop (d : Dir) (name n : String) :
    (d.drop name).child n = if n = name then none else d.child n :=
  Children.lookup_erase ..

namespace Related

lemma mono {C : Binding → Binding → Prop} (h : d₁.Related B d₂)
    (hbc : ∀ p b₁ b₂, d₁.at? p = some b₁ → d₂.at? p = some b₂ → B b₁ b₂ → C b₁ b₂) :
    d₁.Related C d₂ := by
  refine ⟨h.left, h.right, fun p => ?_⟩
  change Option.Rel C (d₁.at? p) (d₂.at? p)
  have hp : Option.Rel B (d₁.at? p) (d₂.at? p) := h.at? p
  cases h₁ : d₁.at? p <;> cases h₂ : d₂.at? p <;> rw [h₁, h₂] at hp <;> cases hp
  · exact .none
  · rename_i hb
    exact .some (hbc p _ _ h₁ h₂ hb)

lemma attrs (h : d₁.Related B d₂) : B (.dir d₁.attrs) (.dir d₂.attrs) :=
  Entry.Related.binding h

lemma child (h : d₁.Related B d₂) (name : String) :
    Option.Rel (Entry.Related B) (d₁.child name) (d₂.child name) := by
  have hp (p : Path) :
      Option.Rel B ((d₁.child name).bind (·.at? p)) ((d₂.child name).bind (·.at? p)) := by
    rw [← at?_cons, ← at?_cons]
    exact h.at? (name :: p)
  cases h₁ : d₁.child name <;> cases h₂ : d₂.child name <;> rw [h₁, h₂] at hp
  · exact .none
  · have hn := hp []
    rw [Option.bind_some, Entry.at?_nil] at hn
    cases hn
  · have hn := hp []
    rw [Option.bind_some, Entry.at?_nil] at hn
    cases hn
  · exact .some ⟨Dir.WellFormed.child h.left h₁, Dir.WellFormed.child h.right h₂, hp⟩

lemma of_child (h₁ : d₁.WellFormed) (h₂ : d₂.WellFormed) (ha : B (.dir d₁.attrs) (.dir d₂.attrs))
    (hc : ∀ name, Option.Rel (Entry.Related B) (d₁.child name) (d₂.child name)) :
    d₁.Related B d₂ := by
  refine ⟨h₁, h₂, fun p => ?_⟩
  change Option.Rel B (d₁.at? p) (d₂.at? p)
  cases p with
  | nil =>
    rw [at?_nil, at?_nil]
    exact .some ha
  | cons name p =>
    rw [at?_cons, at?_cons]
    exact rel_bind (hc name) fun _ _ hr => hr.at? p

lemma of_children {a₁ a₂ : Attrs} {cs₁ cs₂ : List (String × Entry)} (ha : Children.Ascending cs₁)
    (hn : ∀ c ∈ cs₁, Path.IsName c.1) (hB : B (.dir a₁) (.dir a₂))
    (h : Children.Paired (Entry.Related B) cs₁ cs₂) :
    Dir.Related B ⟨a₁, none, cs₁⟩ ⟨a₂, none, cs₂⟩ := by
  have hnames := h.names
  refine of_child (.rebuild ha hn ?_) (.rebuild ?_ ?_ ?_) hB h.lookup
  · exact h.left fun _ _ he => he.left
  · exact Children.ascending_congr hnames ha
  · exact Children.forall_names_congr hnames hn
  · exact h.flip.left fun _ _ he => he.right

lemma children (h : d₁.Related B d₂) :
    Children.Paired (Entry.Related B) d₁.children d₂.children :=
  (Dir.WellFormed.ascending h.left).paired (Dir.WellFormed.ascending h.right) h.child

lemma listed (h : d₁.Related B d₂) : d₁.listed = d₂.listed := Entry.Related.listed h

lemma relist (h : d₁.Related B d₂) : d₁.relist.Related B d₂.relist := Entry.Related.relist h

lemma empty (hB : Binding.Uniform B F) : Dir.empty.Related B Dir.empty :=
  of_child .empty .empty hB.newDir fun _ => .none

lemma touch (h : d₁.Related B d₂) : d₁.touch.Related B d₂.touch :=
  of_child (Dir.WellFormed.touch h.left) (Dir.WellFormed.touch h.right) h.attrs h.child

lemma put (h : d₁.Related B d₂) (hn : Path.IsName name) (he : e₁.Related B e₂) :
    (d₁.put name e₁).Related B (d₂.put name e₂) := by
  refine of_child (Dir.WellFormed.put h.left hn he.left) (Dir.WellFormed.put h.right hn he.right)
    h.attrs fun n => ?_
  rw [child_put, child_put]
  split
  · exact .some he
  · exact h.child n

lemma drop (h : d₁.Related B d₂) (name : String) : (d₁.drop name).Related B (d₂.drop name) := by
  refine of_child (Dir.WellFormed.drop h.left name) (Dir.WellFormed.drop h.right name) h.attrs
    fun n => ?_
  rw [child_drop, child_drop]
  split
  · exact .none
  · exact h.child n

lemma setAttrs (hB : Binding.Uniform B F) {f : Attrs → Attrs} (hf : F f) (h : d₁.Related B d₂) :
    (d₁.setAttrs f).Related B (d₂.setAttrs f) :=
  Entry.Related.change hB hf h false

lemma change (hB : Binding.Uniform B F) {f : Attrs → Attrs} (hf : F f) (h : d₁.Related B d₂)
    (all : Bool) : (d₁.change f all).Related B (d₂.change f all) :=
  Entry.Related.change hB hf h all

end Related

end Dir

lemma Dir.related_eq_iff {d : Dir} : d.Related (· = ·) d ↔ d.WellFormed := Entry.related_eq_iff

/-! ## Cases -/

inductive Entry.Pair (B : Binding → Binding → Prop) : Entry → Entry → Prop
  | file {a₁ a₂ o₁ o₂} : Related B (.file a₁ o₁) (.file a₂ o₂) → Pair B (.file a₁ o₁) (.file a₂ o₂)
  | dir {a₁ a₂ l₁ l₂ cs₁ cs₂} : Dir.Related B ⟨a₁, l₁, cs₁⟩ ⟨a₂, l₂, cs₂⟩ →
      Pair B (.dir a₁ l₁ cs₁) (.dir a₂ l₂ cs₂)

lemma Entry.Related.pair (hB : Binding.Uniform B F) {e₁ e₂ : Entry} (h : Related B e₁ e₂) :
    Pair B e₁ e₂ := by
  have hk := h.kind hB
  cases e₁ <;> cases e₂
  · exact .file h
  · cases hk
  · cases hk
  · exact .dir h

lemma Dir.Related.child_pair (hB : Binding.Uniform B F) {d₁ d₂ : Dir} (h : d₁.Related B d₂)
    (name : String) : Option.Rel (Entry.Pair B) (d₁.child name) (d₂.child name) := by
  have hc := h.child name
  generalize d₁.child name = c₁ at hc
  generalize d₂.child name = c₂ at hc
  cases hc with
  | none => exact .none
  | some he => exact .some (he.pair hB)

/-! ## Listings made anew -/

lemma Entry.Related.relist_eq {e₁ e₂ : Entry} (h : Related (· = ·) e₁ e₂) :
    e₁.relist = e₂.relist := by
  induction e₁ using Entry.induction_on generalizing e₂ with
  | file a origin =>
    cases h.pair Binding.uniform_eq with
    | file hf =>
      cases hf.binding
      rfl
  | dir a l cs ih =>
    cases h.pair Binding.uniform_eq with
    | @dir _ _ _ _ _ cs₂ hd =>
      have hcs : relistAll cs = relistAll cs₂ := by
        rw [relistAll_eq_map, relistAll_eq_map]
        exact hd.children.map_eq fun c hc _ he => ih c hc he
      cases hd.attrs
      rw [Entry.relist, Entry.relist, hcs]

lemma Dir.eq_of_relist {d₁ d₂ : Dir} (h₁ : d₁.WellFormed) (h₂ : d₂.WellFormed)
    (hr₁ : d₁.relist = d₁) (hr₂ : d₂.relist = d₂) (h : ∀ q, d₁.at? q = d₂.at? q) : d₁ = d₂ := by
  have hrel : Entry.Related (· = ·) d₁.toEntry d₂.toEntry := by
    refine ⟨h₁, h₂, fun q => ?_⟩
    change Option.Rel (· = ·) (d₁.at? q) (d₂.at? q)
    rw [h q]
    cases d₂.at? q with
    | none => exact .none
    | some b => exact .some rfl
  apply toEntry_injective
  rw [← hr₁, ← hr₂]
  exact hrel.relist_eq

end TarRecipe
