import Mathlib.Data.List.Basic
import Mathlib.Tactic.Common
import TarRecipe.Proofs.Tree.Pruning

/-! What pruning reads: the bytes of the consulted ignore files, and nothing else. -/

namespace TarRecipe

open Outcome

variable {B : Binding → Binding → Prop} {F : (Attrs → Attrs) → Prop} {X : Error → Error → Prop}
  {d₁ d₂ : Dir} {origins₁ origins₂ : Origins}

/-- Equal, but for the place and the reason when bytes cannot be read. -/
inductive Error.Similar : Error → Error → Prop
  | same (e : Error) : Similar e e
  | io (place place' : Bytes) (fault fault' : Disk.Fault) :
    Similar (.io place fault) (.io place' fault')

instance : Std.Refl Error.Similar := ⟨.same⟩

/-- What the trees bind to the path as files can be read in both, with the same bytes, or in
neither. -/
def Entry.SameBytes (origins₁ origins₂ : Origins) (e₁ e₂ : Entry) (p : Path) : Prop :=
  ∀ a₁ o₁ a₂ o₂, e₁.at? p = some (.file a₁ o₁) → e₂.at? p = some (.file a₂ o₂) →
    (origins₁ o₁).toOption = (origins₂ o₂).toOption

def Dir.SameBytes (origins₁ origins₂ : Origins) (d₁ d₂ : Dir) (p : Path) : Prop :=
  Entry.SameBytes origins₁ origins₂ d₁.toEntry d₂.toEntry p

lemma read_agree {o₁ o₂ : Bytes} (h : (origins₁ o₁).toOption = (origins₂ o₂).toOption) :
    Agree Error.Similar (· = ·) (origins₁.read o₁) (origins₂.read o₂) := by
  rw [Origins.read, Origins.read]
  cases h₁ : origins₁ o₁ <;> cases h₂ : origins₂ o₂ <;> rw [h₁, h₂] at h
  · exact .error (.io ..)
  · cases h
  · cases h
  · exact .ok (Option.some_inj.mp h)

/-! ## Consulted ignore files -/

/-- The path is one of an ignore file that pruning reads: its directory is reached, and nothing
before it on the way failed. -/
inductive Dir.Consulted (origins : Origins) (name : String) : Dir → Path → Prop
  | own {d a origin} : d.child name = some (.file a origin) → Consulted origins name d [name]
  | under {d rules d' before n a l cs after p} : d.ownRules origins name = .ok (some rules) →
      d.swept rules = ⟨.ok (), d'⟩ → d'.children = before ++ (n, .dir a l cs) :: after →
      (pruneEach (prune origins name) before).1 = .ok () → Consulted origins name ⟨a, l, cs⟩ p →
      Consulted origins name d (n :: p)

namespace Dir

lemma at?_singleton {d : Dir} {name : String} {e : Entry} (h : d.child name = some e) :
    d.at? [name] = some e.binding := by
  rw [at?_name, h, Option.map_some]

lemma Consulted.at? {origins : Origins} {name : String} {d : Dir} {p : Path}
    (h : d.Consulted origins name p) (hw : d.WellFormed) :
    p.getLast? = some name ∧ ∃ a origin, d.at? p = some (.file a origin) := by
  induction h with
  | @own d a origin hc => exact ⟨rfl, a, origin, at?_singleton hc⟩
  | @under d rules d' before n a l cs after p _ hs hcs _ _ ih =>
    have hw' := swept_wellFormed hw rules
    have hp := swept_partOf rules d
    rw [hs] at hw' hp
    have hm : (n, Entry.dir a l cs) ∈ d'.children := by
      rw [hcs]
      exact List.mem_append_right _ List.mem_cons_self
    have hc : d'.child n = some (.dir a l cs) := hw'.ascending.mem_iff_lookup.mp hm
    obtain ⟨hn, a', origin, ho⟩ := ih (hw'.below _ hm)
    refine ⟨?_, a', origin, hp.at? ?_⟩
    · rw [List.getLast?_cons, hn, Option.getD_some]
    · rw [at?_cons, hc]
      exact ho

lemma ownRules_agree {name : String} (hB : Binding.Uniform B F) (h : d₁.Related B d₂)
    (hb : d₁.Consulted origins₁ name [name] → SameBytes origins₁ origins₂ d₁ d₂ [name]) :
    Agree Error.Similar (· = ·) (d₁.ownRules origins₁ name) (d₂.ownRules origins₂ name) := by
  have hc := h.child_pair hB name
  rw [ownRules, ownRules]
  cases h₁ : d₁.child name with
  | none =>
    rw [h₁] at hc
    generalize d₂.child name = c at hc
    cases hc
    exact .ok rfl
  | some e₁ =>
    cases h₂ : d₂.child name with
    | none =>
      rw [h₁, h₂] at hc
      cases hc
    | some e₂ =>
      rw [h₁, h₂] at hc
      cases hc with
      | some hc =>
        cases hc with
        | dir _ => exact .ok rfl
        | @file a₁ a₂ o₁ o₂ _ =>
          have hr := read_agree (hb (.own h₁) a₁ o₁ a₂ o₂ (at?_singleton h₁) (at?_singleton h₂))
          dsimp only
          generalize origins₁.read o₁ = r₁ at hr
          generalize origins₂.read o₂ = r₂ at hr
          cases hr with
          | error he => exact .error he
          | @ok s _ hs =>
            subst hs
            change Agree _ _ (Except.bind ((Ignore.Rules.ofBytes s).mapError _) _)
              (Except.bind ((Ignore.Rules.ofBytes s).mapError _) _)
            cases Ignore.Rules.ofBytes s with
            | error f => exact .error (.same _)
            | ok rules => exact .ok rfl

lemma pruneEach_related {f g : Dir → Outcome Unit} {cs₁ cs₂ : List (String × Entry)}
    (hB : Binding.Uniform B F) (hcs : Children.Paired (Entry.Related B) cs₁ cs₂)
    (hp : ∀ before name a l below after, cs₁ = before ++ (name, .dir a l below) :: after →
      (pruneEach f before).1 = .ok () → ∀ d : Dir, Dir.Related B ⟨a, l, below⟩ d →
      (name, d.toEntry) ∈ cs₂ → Alike X B (f ⟨a, l, below⟩) (g d)) :
    Agree X (fun _ _ => True) (pruneEach f cs₁).1 (pruneEach g cs₂).1 ∧
      Children.Paired (Entry.Related B) (pruneEach f cs₁).2 (pruneEach g cs₂).2 := by
  induction hcs with
  | nil => exact ⟨.ok trivial, .nil⟩
  | @cons c₁ c₂ cs₁ cs₂ hc hcs ih =>
    obtain ⟨n, e₁⟩ := c₁
    obtain ⟨_, e₂⟩ := c₂
    obtain ⟨rfl, he⟩ := hc
    cases he.pair hB with
    | @file a₁ a₂ o₁ o₂ hpair =>
      have hi := ih fun before name a l below after hs hb d hd hm =>
        hp ((n, .file a₁ o₁) :: before) name a l below after (congrArg _ hs) hb d hd
          (List.mem_cons_of_mem _ hm)
      exact ⟨hi.1, .cons ⟨rfl, he⟩ hi.2⟩
    | @dir a₁ a₂ l₁ l₂ below₁ below₂ hd =>
      obtain ⟨hr, ht⟩ := hp [] n a₁ l₁ below₁ cs₁ rfl rfl ⟨a₂, l₂, below₂⟩ hd List.mem_cons_self
      rw [pruneEach, pruneEach]
      cases h₁ : (f ⟨a₁, l₁, below₁⟩).result with
      | error e₁ =>
        rw [h₁] at hr
        generalize (g ⟨a₂, l₂, below₂⟩).result = r₂ at hr
        cases hr with
        | error hx => exact ⟨.error hx, .cons ⟨rfl, ht⟩ hcs⟩
      | ok u =>
        have hi := ih fun before name a l below after hs hb d hd hm =>
          hp ((n, .dir a₁ l₁ below₁) :: before) name a l below after (congrArg _ hs)
            (by rw [pruneEach, h₁]; exact hb) d hd (List.mem_cons_of_mem _ hm)
        rw [h₁] at hr
        generalize (g ⟨a₂, l₂, below₂⟩).result = r₂ at hr
        cases hr with
        | ok _ => exact ⟨hi.1, .cons ⟨rfl, ht⟩ hi.2⟩

lemma pruneBelow_alike {f g : Dir → Outcome Unit} (hB : Binding.Uniform B F) (h : d₁.Related B d₂)
    (hp : ∀ before name a l below after, d₁.children = before ++ (name, .dir a l below) :: after →
      (pruneEach f before).1 = .ok () → ∀ d : Dir, Dir.Related B ⟨a, l, below⟩ d →
      d₂.child name = some d.toEntry → Alike X B (f ⟨a, l, below⟩) (g d)) :
    Alike X B (pruneBelow f d₁) (pruneBelow g d₂) := by
  have hw₁ : d₁.WellFormed := h.left
  have hw₂ : d₂.WellFormed := h.right
  obtain ⟨hr, hcs⟩ := pruneEach_related (X := X) hB h.children
    fun before name a l below after hs hb d hd hm =>
      hp before name a l below after hs hb d hd (hw₂.ascending.mem_iff_lookup.mp hm)
  have hnames := (pruneEach_names f d₁.children).symm
  refine ⟨hr, .of_children (Children.ascending_congr hnames hw₁.ascending) ?_ h.attrs hcs⟩
  exact Children.forall_names_congr hnames hw₁.named

/-! ## Pruning -/

lemma SameBytes.of_under {n : String} {p : Path} {e₁ e₂ : Entry} {d₁' d₂' : Dir}
    (h₁ : d₁'.PartOf d₁) (h₂ : d₂'.PartOf d₂) (hc₁ : d₁'.child n = some e₁)
    (hc₂ : d₂'.child n = some e₂) (h : SameBytes origins₁ origins₂ d₁ d₂ (n :: p)) :
    Entry.SameBytes origins₁ origins₂ e₁ e₂ p := by
  intro a₁ o₁ a₂ o₂ hp₁ hp₂
  refine h a₁ o₁ a₂ o₂ (h₁ (n :: p) _ ?_) (h₂ (n :: p) _ ?_)
  · change d₁'.at? (n :: p) = _
    rw [at?_cons, hc₁]
    exact hp₁
  · change d₂'.at? (n :: p) = _
    rw [at?_cons, hc₂]
    exact hp₂

lemma prune_alike {name : String} (hB : Binding.Uniform B F) (h : d₁.Related B d₂)
    (hb : ∀ p, d₁.Consulted origins₁ name p → SameBytes origins₁ origins₂ d₁ d₂ p) :
    Alike Error.Similar B (d₁.prune origins₁ name) (d₂.prune origins₂ name) := by
  -- what is pruned below is what the sweep leaves, which is no higher than it was
  induction hk : d₁.toEntry.height using Nat.strong_induction_on generalizing d₁ d₂ with
  | _ k ih =>
    subst hk
    have hr := ownRules_agree hB h (hb [name])
    rw [prune_eq _ _ h.left, prune_eq _ _ h.right]
    generalize hr₁ : d₁.ownRules origins₁ name = r₁ at hr
    generalize d₂.ownRules origins₂ name = r₂ at hr
    cases hr with
    | error he => exact related_error he h
    | @ok rules _ he =>
      subst he
      cases rules with
      | none => exact related_ok trivial h
      | some rules =>
        have hs : Alike Error.Similar B (d₁.swept rules) (d₂.swept rules) :=
          (swept_alike hB rules h).mono (fun e _ he => he ▸ .same e) fun _ _ hu => hu
        refine hs.andThen_of_eq fun _ _ d₁' d₂' hs₁ hs₂ _ ht => ?_
        have hp₁ : d₁'.PartOf d₁ := by
          have hp := swept_partOf rules d₁
          rwa [hs₁] at hp
        have hp₂ : d₂'.PartOf d₂ := by
          have hp := swept_partOf rules d₂
          rwa [hs₂] at hp
        have hw : d₁'.WellFormed := ht.left
        refine pruneBelow_alike hB ht fun before n a l below after hcs hok c hc hm => ?_
        have hmem : (n, Entry.dir a l below) ∈ d₁'.children := by
          rw [hcs]
          exact List.mem_append_right _ List.mem_cons_self
        refine ih _ ((height_lt_of_mem hmem).trans_le (hp₁.height_le h.left hw)) hc
          (fun p hp => ?_) rfl
        exact .of_under hp₁ hp₂ (hw.ascending.mem_iff_lookup.mp hmem) hm
          (hb _ (.under hr₁ hs₁ hcs hok hp))

lemma applyIgnore_alike {name : String} (hB : Binding.Uniform B F) (h : d₁.Related B d₂)
    (hb : ∀ p, d₁.Consulted origins₁ name p → SameBytes origins₁ origins₂ d₁ d₂ p) :
    Alike Error.Similar B (d₁.applyIgnore origins₁ name) (d₂.applyIgnore origins₂ name) :=
  (prune_alike hB h hb).andThen fun _ _ _ _ _ ht => related_ok trivial ht.relist

lemma SameBytes.self (origins : Origins) (d : Dir) (p : Path) :
    SameBytes origins origins d d p := by
  intro a₁ o₁ a₂ o₂ h₁ h₂
  cases h₁.symm.trans h₂
  rfl

lemma applyIgnore_wellFormed {d : Dir} (h : d.WellFormed) (origins : Origins) (name : String) :
    (d.applyIgnore origins name).tree.WellFormed :=
  (applyIgnore_alike Binding.uniform_eq (related_eq_iff.mpr h)
    fun p _ => .self origins d p).tree.left

end Dir

end TarRecipe
