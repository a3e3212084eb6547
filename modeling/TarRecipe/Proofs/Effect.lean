import Mathlib
import TarRecipe.Execute
import TarRecipe.Proofs.Directives
import TarRecipe.Proofs.Tree.Pruning
import TarRecipe.Proofs.Tree.Within

/-! What directives do to a tree, path by path, however far they get. -/

namespace TarRecipe

open Outcome
open Binding (uniform_eq)

lemma Outcome.forEach_singleton {γ : Type} (f : γ → Dir → Outcome Unit) (x : γ) (d : Dir) :
    forEach f [x] d = f x d := by
  rw [forEach, andThen]
  generalize f x d = o
  obtain ⟨r, t⟩ := o
  cases r <;> rfl

lemma Outcome.forEach_append {γ : Type} (f : γ → Dir → Outcome Unit) (xs ys : List γ) (d : Dir) :
    forEach f (xs ++ ys) d = (forEach f xs d).andThen fun _ d => forEach f ys d := by
  induction xs generalizing d with
  | nil => rfl
  | cons x xs ih =>
    rw [List.cons_append, forEach, forEach]
    obtain ⟨r, t⟩ := f x d
    cases r with
    | ok _ => exact ih t
    | error e => rfl

lemma Outcome.forEach_map {α β : Type} (f : β → Dir → Outcome Unit) (g : α → β) (xs : List α)
    (d : Dir) :
    forEach f (xs.map g) d = forEach (fun x => f (g x)) xs d := by
  induction xs generalizing d with
  | nil => rfl
  | cons x xs ih => simp only [List.map_cons, forEach, ih]

/-! ## Operations on trees -/

namespace Dir

def Moves (L : Option Binding → Option Binding → Prop) (d t : Dir) : Prop :=
  ∀ p, L (d.at? p) (t.at? p)

variable {L : Option Binding → Option Binding → Prop} {α : Type} {d t u : Dir} {name : String}
  {e : Entry} {cs : List (String × Entry)}

def Supplies (L : Option Binding → Option Binding → Prop) (e : Entry) : Prop :=
  ∀ p a o, e.at? p = some (.file a o) → ∀ a' o', L (some (.file a' o')) (some (.file a o))

lemma Supplies.below (h : Supplies L d.toEntry) (hw : d.WellFormed) :
    ∀ c ∈ d.children, Supplies L c.2 := by
  intro c hm p a o hp
  apply h (c.1 :: p)
  have hc : d.child c.1 = some c.2 := hw.ascending.mem_iff_lookup.mp hm
  change d.at? (c.1 :: p) = _
  rw [at?_cons, hc]
  exact hp

variable [IsPreorder (Option Binding) L]

lemma Moves.refl (d : Dir) : d.Moves L d := fun _ => refl_of L _

lemma Moves.trans (h : d.Moves L t) (h' : t.Moves L u) : d.Moves L u :=
  fun p => trans_of L (h p) (h' p)

lemma Moves.of_at? (h : ∀ p, t.at? p = d.at? p) : d.Moves L t := fun p => h p ▸ refl_of L _

lemma touch_moves (d : Dir) : d.Moves L d.touch := by
  apply Moves.of_at?
  intro p
  cases p with
  | nil => rfl
  | cons name p => rw [at?_cons, at?_cons]; rfl

lemma relist_moves (d : Dir) : d.Moves L d.relist := Moves.of_at? (Entry.at?_relist d.toEntry)

lemma put_moves (h : ∀ p, L (d.at? (name :: p)) (e.at? p)) : d.Moves L (d.put name e) := by
  intro p
  cases p with
  | nil =>
    rw [at?_nil, at?_nil]
    exact refl_of L _
  | cons n p =>
    rw [at?_put]
    split
    · rename_i hn
      exact hn ▸ h p
    · exact refl_of L _

lemma within_moves {make : Bool} (hnew : make = true → ∀ x, L none x) (full : Path)
    {edit : Dir → Outcome α} (he : ∀ d : Dir, d.Moves L (edit d).tree) (path : Path) (d : Dir) :
    d.Moves L (within make full edit path d).tree := by
  induction path generalizing d with
  | nil => exact (touch_moves d).trans (he d.touch)
  | cons name path ih =>
    rw [within]
    cases hc : d.child name with
    | none =>
      dsimp only
      split
      · rename_i hmake
        refine put_moves fun p => ?_
        rw [at?_cons, hc]
        exact hnew hmake _
      · exact touch_moves d
    | some e =>
      cases e with
      | file a origin => exact touch_moves d
      | dir a l cs =>
        refine put_moves fun p => ?_
        rw [at?_cons, hc]
        exact ih ⟨a, l, cs⟩ p

lemma mkdirAll_moves (hnew : ∀ x, L none x) (text : String) (d : Dir) :
    d.Moves L (d.mkdirAll text id).tree :=
  within_moves (fun _ => hnew) _ (fun d => .refl d) _ d

lemma update_moves {f : Entry → Entry} (hf : ∀ e p, L (Entry.at? e p) ((f e).at? p)) (text : String)
    (d : Dir) :
    d.Moves L (d.update text f).tree := by
  rw [update]
  split
  · exact .refl d
  · refine within_moves (fun h => absurd h Bool.false_ne_true) _ (fun d => ?_) _ d
    cases hc : d.child (Path.parse text).name with
    | none => exact .refl d
    | some e =>
      refine put_moves fun p => ?_
      rw [at?_cons, hc]
      exact hf e p

/-! ## Merging -/

lemma mergeAll_moves (hm : ∀ c ∈ cs, ∀ path name (d : Dir), d.Moves L (merge path name c.2 d).tree)
    (path : Path) (d : Dir) : d.Moves L (mergeAll path cs d).tree := by
  induction cs generalizing d with
  | nil => exact .refl d
  | cons c cs ih =>
    obtain ⟨name, e⟩ := c
    rw [List.forall_mem_cons] at hm
    have hd := hm.1 (path ++ [name]) name d
    rw [mergeAll, andThen]
    split
    · exact hd.trans (ih hm.2 _)
    · exact hd

lemma merge_moves (hnew : ∀ x, L none x) (hw : e.WellFormed) (he : Supplies L e) (path : Path)
    (name : String) (d : Dir) :
    d.Moves L (merge path name e d).tree := by
  induction e using Entry.induction_on generalizing path name d with
  | file a origin =>
    rw [merge]
    split
    · exact .refl d
    · rename_i hc
      refine put_moves fun p => ?_
      rw [at?_cons]
      cases hx : d.child name with
      | none => exact hnew _
      | some x =>
        cases x with
        | dir a' l cs => exact absurd hx (hc a' l cs)
        | file a' origin' =>
          cases p with
          | nil => exact he [] a origin (Entry.at?_nil _) a' origin'
          | cons n p => exact refl_of L _
  | dir a l cs ih =>
    rw [merge]
    cases hc : d.child name with
    | none =>
      refine put_moves fun p => ?_
      rw [at?_cons, hc]
      exact hnew _
    | some x =>
      cases x with
      | file a' origin => exact .refl d
      | dir a' l' cs' =>
        have hd : Dir.WellFormed ⟨a, l, cs⟩ := hw
        have hall :=
          mergeAll_moves (L := L) (fun c hm => ih c hm (hd.below c hm) (he.below hd c hm)) path
          (Dir.touch ⟨a', l', cs'⟩)
        refine put_moves fun p => ?_
        rw [at?_cons, hc]
        exact ((touch_moves ⟨a', l', cs'⟩).trans hall) p

lemma add_moves (hnew : ∀ x, L none x) (hw : e.WellFormed) (he : Supplies L e) (text : String)
    (d : Dir) :
    d.Moves L (d.add text e).tree := by
  simp only [add]
  split
  · cases e with
    | file a origin => exact .refl d
    | dir a l cs =>
      have hd : Dir.WellFormed ⟨a, l, cs⟩ := hw
      refine (touch_moves d).trans (mergeAll_moves (fun c hm => ?_) [] _)
      exact merge_moves hnew (hd.below c hm) (he.below hd c hm)
  · exact within_moves (fun _ => hnew) _ (merge_moves hnew hw he _ _) _ d

end Dir

namespace Entry

variable {L : Option Binding → Option Binding → Prop} [IsPreorder (Option Binding) L]

lemma change_moves {f : Attrs → Attrs} (hf : ∀ b, L (some b) (some (b.change f))) (all : Bool)
    (e : Entry) (p : Path) :
    L (e.at? p) ((e.change f all).at? p) := by
  cases all with
  | true =>
    rw [at?_change]
    cases e.at? p with
    | none => exact refl_of L _
    | some b => exact hf b
  | false =>
    rw [at?_change_false]
    split
    · rename_i hp
      rw [hp, at?_nil]
      exact hf _
    · exact refl_of L _

end Entry

/-! ## Directives -/

namespace Directive

inductive Effect (source : Dir) : Directive → Option Binding → Option Binding → Prop
  | same {directive x} : Effect source directive x x
  | new {directive b} : directive = .mkdir ∨ directive = .copy →
    Effect source directive none (some b)
  | replaced {a a' o o' q} : source.at? q = some (.file a' o') →
    Effect source .copy (some (.file a o)) (some (.file a' o'))
  | mode {b} (perm : UInt32) :
    Effect source .chmod (some b) (some (b.change fun a => { a with perm := perm }))
  | owner {b} (user group : String) :
    Effect source .chown (some b)
      (some (b.change fun a => { a with user := user, group := group }))

variable {source d : Dir} {directive : Directive} {args : List String} {b : Binding}
  {x y : Option Binding}

lemma Effect.keeps (h : Effect source directive (some b) y) :
    ∃ b', y = some b' ∧ b'.kind = b.kind := by
  cases h with
  | same => exact ⟨b, rfl, rfl⟩
  | replaced _ => exact ⟨_, rfl, rfl⟩
  | mode _ => exact ⟨_, rfl, by cases b <;> rfl⟩
  | owner _ _ => exact ⟨_, rfl, by cases b <;> rfl⟩

instance : IsPreorder (Option Binding) (Effect source directive) where
  refl _ := .same
  trans x y z h h' := by
    cases h with
    | same => exact h'
    | new hd =>
      obtain ⟨b', rfl, _⟩ := h'.keeps
      exact .new hd
    | replaced hq =>
      cases h' with
      | same => exact .replaced hq
      | replaced hq' => exact .replaced hq'
    | @mode b perm =>
      cases h' with
      | same => exact .mode perm
      | mode perm' => cases b <;> exact .mode perm'
    | @owner b user group =>
      cases h' with
      | same => exact .owner user group
      | owner user' group' => cases b <;> exact .owner user' group'

lemma Effect.of_none (h : directive = .mkdir ∨ directive = .copy) (x : Option Binding) :
    Effect source directive none x := by
  cases x with
  | none => exact .same
  | some b => exact .new h

variable {L : Option Binding → Option Binding → Prop} [IsPreorder (Option Binding) L]

lemma forEach_moves {γ : Type} {f : γ → Dir → Outcome Unit}
    (hf : ∀ x (d : Dir), d.Moves L (f x d).tree) (xs : List γ)
    (d : Dir) : d.Moves L ((forEach f xs d).andThen fun _ d => relist d).tree := by
  have h : d.Moves L (forEach f xs d).tree :=
    forEach_keeps (fun x d' h => h.trans (hf x d')) (.refl d)
  rw [andThen]
  split
  · exact h.trans (Dir.relist_moves _)
  · exact h

lemma runMkdir_effect (args : List String) (d : Dir) :
    d.Moves (Effect source .mkdir) (runMkdir args d).tree := by
  rw [runMkdir]
  split
  · exact .refl d
  · refine forEach_moves (fun path d => ?_) args d
    exact Dir.mkdirAll_moves (Effect.of_none (.inl rfl)) path d

lemma copyOne_effect (hs : source.WellFormed) (dest path : String) (d : Dir) :
    d.Moves (Effect source .copy) (copyOne source dest path d).tree := by
  rw [copyOne]
  cases he : source.getEntry path with
  | error _ => exact .refl d
  | ok e =>
    have hf := (Dir.getEntry_eq_ok_iff.mp he).2
    refine Dir.add_moves (Effect.of_none (.inr rfl)) (Entry.WellFormed.find? hs hf)
      (fun p a o hp a' o' => ?_) _ d
    apply Effect.replaced (q := Path.parse path ++ p)
    rw [Dir.at?_append, hf]
    exact hp

lemma runCopy_effect (hs : source.WellFormed) (args : List String) (d : Dir) :
    d.Moves (Effect source .copy) (runCopy source args d).tree := by
  rw [runCopy]
  split
  · split
    · exact .refl d
    · split
      · exact .refl d
      · exact forEach_moves (copyOne_effect hs _) _ d
  · exact .refl d

lemma changeMatches_moves {f : Attrs → Attrs} (hf : ∀ b, L (some b) (some (b.change f)))
    (all : Bool) (patterns : List String) (d : Dir) :
    d.Moves L (changeMatches f all patterns d).tree := by
  rw [changeMatches]
  split
  · exact .refl d
  · exact forEach_moves (Dir.update_moves (Entry.change_moves hf all)) _ d

lemma runChmod_effect (args : List String) (d : Dir) :
    d.Moves (Effect source .chmod) (runChmod args d).tree := by
  rw [runChmod]
  split
  · split
    · exact .refl d
    · refine changeMatches_moves (fun b => ?_) _ _ d
      cases b <;> exact .mode _
  · exact .refl d

lemma runChown_effect (args : List String) (d : Dir) :
    d.Moves (Effect source .chown) (runChown args d).tree := by
  rw [runChown]
  split
  · refine changeMatches_moves (fun b => ?_) _ _ d
    cases b <;> exact .owner _ _
  · exact .refl d

lemma run_effect (hs : source.WellFormed) (directive : Directive) (args : List String) (d : Dir) :
    d.Moves (Effect source directive) (directive.run source args d).tree := by
  cases directive with
  | mkdir => exact runMkdir_effect args d
  | copy => exact runCopy_effect hs args d
  | chmod => exact runChmod_effect args d
  | chown => exact runChown_effect args d

/-! ## Runs -/

lemma listed_subset {t : Dir} (hd : d.WellFormed) (ht : t.WellFormed)
    (h : d.Moves (Effect source directive) t) :
    d.listed ⊆ t.listed := by
  intro text hm
  obtain ⟨p, e, hp, he, rfl⟩ := (Entry.WellFormed.mem_listed_iff hd).mp hm
  have hb : d.at? p = some e.binding := congrArg (Option.map Entry.binding) he
  have hmoves := h p
  rw [hb] at hmoves
  obtain ⟨b, hb', _⟩ := hmoves.keeps
  obtain ⟨e', he', _⟩ := Option.map_eq_some_iff.mp hb'
  exact (Entry.WellFormed.mem_listed_iff ht).mpr ⟨p, e', hp, he', rfl⟩

lemma run_wellFormed (hs : source.WellFormed) (hd : d.WellFormed) (directive : Directive)
    (args : List String) :
    (directive.run source args d).tree.WellFormed :=
  (run_alike uniform_eq changes_true (Dir.related_eq_iff.mpr hs) directive args
    (Dir.related_eq_iff.mpr hd)).tree.left

def runAll (source : Dir) (steps : List (Directive × List String)) : Dir → Outcome Unit :=
  forEach (fun (directive, args) => directive.run source args) steps

lemma runAll_grows (hs : source.WellFormed) (hd : d.WellFormed)
    (steps : List (Directive × List String)) :
    (runAll source steps d).tree.WellFormed ∧ d.listed ⊆ (runAll source steps d).tree.listed := by
  refine forEach_keeps (P := fun t => t.WellFormed ∧ d.listed ⊆ t.listed) (fun step t ht => ?_)
    ⟨hd, List.Subset.refl _⟩
  have hw := run_wellFormed hs ht.1 step.1 step.2
  exact ⟨hw, List.Subset.trans ht.2 (listed_subset ht.1 hw (run_effect hs step.1 step.2 t))⟩

theorem run_keeps (hs : source.WellFormed) (hd : d.WellFormed) :
    (∀ (directive : Directive) args p,
      Effect source directive (d.at? p) ((directive.run source args d).tree.at? p)) ∧
    (∀ (directive : Directive) args p b, d.at? p = some b →
      ∃ b', (directive.run source args d).tree.at? p = some b' ∧ b'.kind = b.kind) ∧
    ∀ steps more,
      (runAll source steps d).tree.listed ⊆ (runAll source (steps ++ more) d).tree.listed := by
  refine ⟨fun directive args p => run_effect hs directive args d p, fun directive args p b hb => ?_,
    fun steps more => ?_⟩
  · have h := run_effect hs directive args d p
    rw [hb] at h
    exact h.keeps
  · rw [runAll, runAll, forEach_append, andThen]
    split
    · exact (runAll_grows hs (runAll_grows hs hd steps).1 more).2
    · exact List.Subset.refl _

/-! A copy replaces a file before it meets a directory where there is a file. -/

def holding (y : Entry) (origin : Bytes) : Dir :=
  ⟨.ofDir, none, [("d", .dir .ofDir none [("x", .file .ofFile origin), ("y", y)])]⟩

def supply : Dir := holding (.dir .ofDir none []) [0x2F]

def held : Dir := holding (.file .ofFile []) [0x2E]

lemma holding_wellFormed {y : Entry} (hy : y.WellFormed) (origin : Bytes) :
    (holding y origin).WellFormed := by
  have hname : Path.IsName "d" ∧ Path.IsName "x" ∧ Path.IsName "y" := by decide
  have hlt : "x" < "y" := by decide
  have hbelow : Entry.WellFormed (.dir .ofDir none [("x", .file .ofFile origin), ("y", y)]) :=
    .dir (List.pairwise_pair.mpr hlt) (by simp [hname]) (by simp)
      (by simp [hy, Entry.WellFormed.file])
  exact .dir (by simp [holding, Children.Ascending]) (by simp [holding, hname]) (by simp [holding])
    (by simp [holding, hbelow])

theorem run_keeps_midway :
    (copy.run supply ["d", "d"] held).result = .error (.typeMismatch ["d", "y"] .file .directory) ∧
      Effect supply .copy (some (.file .ofFile [0x2E]))
        ((copy.run supply ["d", "d"] held).tree.at? ["d", "x"]) ∧
      held.listed ⊆ (runAll supply [(.copy, ["d", "d"]), (.mkdir, ["e"])] held).tree.listed := by
  have hs : supply.WellFormed := holding_wellFormed (.dir .nil (by simp) (by simp) (by simp)) _
  have hd : held.WellFormed := holding_wellFormed .file _
  obtain ⟨heffect, _, hgrows⟩ := run_keeps hs hd
  refine ⟨by cbv, ?_, ?_⟩
  · exact heffect .copy ["d", "d"] ["d", "x"]
  · exact hgrows [] [(.copy, ["d", "d"]), (.mkdir, ["e"])]

end Directive

end TarRecipe
