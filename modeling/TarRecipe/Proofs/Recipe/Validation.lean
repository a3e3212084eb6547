import Mathlib
import TarRecipe.Proofs.Directives
import TarRecipe.Proofs.Tree.Coherence
import TarRecipe.Proofs.Tree.PathMap

/-! What the check asks of arguments is what directives ask of them. -/

namespace TarRecipe

/-! ## Errors of sequences -/

namespace Outcome

variable {α β γ : Type} {P : Error → Prop} {I : Dir → Prop}

def FailsOnly (P : Error → Prop) (o : Outcome α) : Prop := ∀ e, o.result = .error e → P e

lemma failsOnly_ok (x : α) (d : Dir) : FailsOnly P ⟨.ok x, d⟩ := fun e he => by cases he

lemma failsOnly_error {e : Error} (h : P e) (d : Dir) : FailsOnly P (⟨.error e, d⟩ : Outcome α) :=
  fun f hf => by cases hf; exact h

lemma FailsOnly.of_result {o o' : Outcome α} (h : FailsOnly P o) (hr : o'.result = o.result) :
    FailsOnly P o' := fun e he => h e (hr ▸ he)

lemma FailsOnly.andThen {o : Outcome α} {f : α → Dir → Outcome β} (h : FailsOnly P o)
    (hf : ∀ x, o.result = .ok x → FailsOnly P (f x o.tree)) : FailsOnly P (o.andThen f) := by
  obtain ⟨r, t⟩ := o
  cases r with
  | ok x => exact hf x rfl
  | error e => exact failsOnly_error (h e rfl) t

lemma FailsOnly.void {o : Outcome α} (h : FailsOnly P o) : FailsOnly P o.void := by
  obtain ⟨r, t⟩ := o
  cases r with
  | ok x => exact failsOnly_ok () t
  | error e => exact failsOnly_error (h e rfl) t

lemma FailsOnly.of_map {o : Outcome α} {g : α → β} {e : Error} (h : FailsOnly P o)
    (he : o.result.map g = .error e) : P e := by
  obtain ⟨r, t⟩ := o
  cases r with
  | ok x => cases he
  | error f =>
    cases he
    exact h e rfl

lemma forEach_failsOnly {f : γ → Dir → Outcome Unit} {xs : List γ} {d : Dir}
    (hf : ∀ x ∈ xs, ∀ d, I d → FailsOnly P (f x d) ∧ I (f x d).tree) (hd : I d) :
    FailsOnly P (forEach f xs d) := by
  induction xs generalizing d with
  | nil => exact failsOnly_ok () d
  | cons x xs ih =>
    rw [List.forall_mem_cons] at hf
    obtain ⟨hx, hi⟩ := hf.1 d hd
    exact hx.andThen fun _ _ => ih hf.2 hi

end Outcome

open Outcome

def Error.IsMismatch (e : Error) : Prop := ∃ p expected found, e = .typeMismatch p expected found

/-! ## Errors of operations -/

namespace Dir

variable {d source : Dir}

lemma within_failsOnly {α : Type} {P : Error → Prop}
    (hP : ∀ p, P (.typeMismatch p .directory .file)) (full : Path) {edit : Dir → Outcome α}
    (he : ∀ d, FailsOnly P (edit d)) (p : Path) (d : Dir) :
    FailsOnly P (within true full edit p d) := by
  by_cases hf : d.FileOn p
  · intro e h
    cases (within_of_fileOn hf).symm.trans h
    exact hP full
  · exact (he _).of_result (within_grafted full edit hf (.inl rfl)).1

lemma mkdirAll_failsOnly (text : String) (f : Attrs → Attrs) (d : Dir) :
    FailsOnly Error.IsMismatch (d.mkdirAll text f) :=
  within_failsOnly (fun p => ⟨p, _, _, rfl⟩) _ (fun _ => failsOnly_ok _ _) _ d

lemma mergeAll_failsOnly {cs : List (String × Entry)}
    (hm : ∀ c ∈ cs, ∀ path name d, FailsOnly Error.IsMismatch (merge path name c.2 d)) (path : Path)
    (d : Dir) :
    FailsOnly Error.IsMismatch (mergeAll path cs d) := by
  induction cs generalizing d with
  | nil => exact failsOnly_ok () d
  | cons c cs ih =>
    obtain ⟨name, e⟩ := c
    rw [List.forall_mem_cons] at hm
    rw [mergeAll]
    exact (hm.1 _ name d).andThen fun _ _ => ih hm.2 _

lemma merge_failsOnly (path : Path) (name : String) (e : Entry) (d : Dir) :
    FailsOnly Error.IsMismatch (merge path name e d) := by
  induction e using Entry.induction_on generalizing path name d with
  | file a origin =>
    rw [merge]
    split
    · exact failsOnly_error ⟨_, _, _, rfl⟩ d
    · exact failsOnly_ok () _
  | dir a l cs ih =>
    rw [merge]
    split
    · exact failsOnly_ok () _
    · exact failsOnly_error ⟨_, _, _, rfl⟩ d
    · exact (mergeAll_failsOnly (fun c hc path name d => ih c hc path name d) path _).of_result rfl

lemma add_failsOnly (text : String) (e : Entry) (d : Dir) :
    FailsOnly Error.IsMismatch (d.add text e) := by
  simp only [add]
  split
  · cases e with
    | file a origin => exact failsOnly_error ⟨_, _, _, rfl⟩ d
    | dir a l cs =>
      exact mergeAll_failsOnly (fun c _ path name d => merge_failsOnly path name c.2 d) [] _
  · exact within_failsOnly (fun p => ⟨p, _, _, rfl⟩) _ (merge_failsOnly _ _ e) _ d

/-! ## Changes of bound entries -/

def Has (d : Dir) (text : String) : Prop := Path.parse text ≠ [] ∧ d.at? (Path.parse text) ≠ none

lemma update_of_bound {text : String} {e : Entry} (hp : Path.parse text ≠ [])
    (hx : d.find? (Path.parse text) = some e) (f : Entry → Entry) :
    (d.update text f).result = .ok () ∧ Replaced d (Path.parse text) (some (f e))
      (d.update text f).tree := by
  rw [update]
  generalize Path.parse text = p at hp hx ⊢
  obtain ⟨hf, hm⟩ := parent_of_bound hp hx
  rw [if_neg hp]
  apply within_put hp hf (.inr hm)
  rw [child_dirAt_parent hp hf, hx]

lemma update_of_has {text : String} (h : d.Has text) {f : Entry → Entry}
    (hf : ∀ e q, (f e).at? q = none ↔ e.at? q = none) :
    (d.update text f).result = .ok () ∧ ∀ q, (d.update text f).tree.at? q = none ↔
      d.at? q = none := by
  obtain ⟨hp, hb⟩ := h
  obtain ⟨e, he⟩ := Option.ne_none_iff_exists'.mp (at?_eq_none_iff.not.mp hb)
  obtain ⟨hr, ht⟩ := update_of_bound hp he f
  refine ⟨hr, fun q => ?_⟩
  by_cases hq : Path.parse text <+: q
  · obtain ⟨r, rfl⟩ := hq
    rw [ht.below, at?_append, he]
    exact hf e r
  · rw [ht.beside q hq, filled_of_bound (parent_of_bound hp he).2]

lemma at?_change_eq_none (f : Attrs → Attrs) (all : Bool) (e : Entry) (q : Path) :
    (e.change f all).at? q = none ↔ e.at? q = none := by
  cases all with
  | true => rw [Entry.at?_change, Option.map_eq_none_iff]
  | false =>
    rw [Entry.at?_change_false]
    split
    · rename_i hq
      subst q
      simp [Entry.at?_nil]
    · rfl

lemma WellFormed.has_of_mem_listed (h : d.WellFormed) {text : String} (ht : text ∈ d.listed) :
    d.Has text := by
  obtain ⟨p, x, hp, hx, rfl⟩ := (Entry.WellFormed.mem_listed_iff h).mp ht
  have hc := Entry.WellFormed.clean_of_find? h hx
  rw [Has, Path.parse_render hc]
  refine ⟨hp, fun hn => ?_⟩
  cases hx.symm.trans (at?_eq_none_iff.mp hn)

end Dir

namespace Directive

variable {source d : Dir} {args patterns : List String}

/-! ## Errors of directives -/

def Malformed (patterns : List String) (e : Error) : Prop :=
  ∃ glob ∈ patterns, ∃ fault, Glob.compile glob = .error fault ∧ e = .pattern (.glob glob fault)

lemma malformed_of_compileAll {e : Error} (h : Glob.compileAll patterns = .error e) :
    Malformed patterns e := by
  induction patterns with
  | nil => cases h
  | cons glob patterns ih =>
    rw [Glob.compileAll, List.mapM_cons, Glob.compileOne] at h
    cases hc : Glob.compile glob with
    | error fault =>
      rw [hc] at h
      cases h
      exact ⟨glob, List.mem_cons_self, fault, hc, rfl⟩
    | ok g =>
      rw [hc] at h
      change (Glob.compileAll patterns >>= fun gs => _) = _ at h
      cases hr : Glob.compileAll patterns with
      | ok gs =>
        rw [hr] at h
        cases h
      | error f =>
        rw [hr] at h
        cases h
        obtain ⟨p, hp, hm⟩ := ih hr
        exact ⟨p, List.mem_cons_of_mem _ hp, hm⟩

lemma changeMatches_failsOnly (h : d.WellFormed) (f : Attrs → Attrs) (all : Bool)
    (patterns : List String) :
    FailsOnly (Malformed patterns) (changeMatches f all patterns d) := by
  rw [changeMatches]
  split
  · rename_i e he
    exact failsOnly_error (malformed_of_compileAll he) d
  · refine FailsOnly.andThen (forEach_failsOnly
      (I := fun d' => ∀ q, d'.at? q = none ↔ d.at? q = none) ?_ fun q => Iff.rfl)
      fun _ _ => failsOnly_ok _ _
    intro path hpath d' hd
    obtain ⟨hp, hb⟩ := h.has_of_mem_listed (List.mem_of_mem_filter hpath)
    have hhas : d'.Has path := ⟨hp, (hd _).not.mpr hb⟩
    obtain ⟨hr, ht⟩ := Dir.update_of_has hhas (Dir.at?_change_eq_none f all)
    refine ⟨fun e he => ?_, fun q => (ht q).trans (hd q)⟩
    cases hr.symm.trans he

lemma copyOne_failsOnly (h : source.WellFormed) {path : String} (hp : path ∈ source.listed)
    (dest : String) (d : Dir) :
    FailsOnly Error.IsMismatch (copyOne source dest path d) := by
  obtain ⟨hp, hb⟩ := h.has_of_mem_listed hp
  obtain ⟨e, he⟩ := Option.ne_none_iff_exists'.mp (Dir.at?_eq_none_iff.not.mp hb)
  rw [copyOne, Dir.getEntry_eq_ok_iff.mpr ⟨hp, he⟩]
  exact Dir.add_failsOnly _ e d

lemma runMkdir_failsOnly (ha : args ≠ []) (d : Dir) :
    FailsOnly Error.IsMismatch (runMkdir args d) := by
  rw [runMkdir, if_neg ha]
  refine FailsOnly.andThen (forEach_failsOnly (I := fun _ => True) ?_ trivial) fun _ _ =>
    failsOnly_ok _ _
  exact fun path _ d _ => ⟨(Dir.mkdirAll_failsOnly path id d).void, trivial⟩

lemma runCopy_failsOnly (h : source.WellFormed) (ha : args.dropLast ≠ []) (d : Dir) :
    FailsOnly (fun e => Malformed args.dropLast e ∨ e.IsMismatch) (runCopy source args d) := by
  obtain ⟨pattern, patterns, hd⟩ := List.exists_cons_of_ne_nil ha
  have hne : args ≠ [] := by
    rintro rfl
    exact ha rfl
  rw [runCopy, hd, List.getLast?_eq_some_getLast hne]
  dsimp only
  split
  · rename_i e he
    exact failsOnly_error (.inl (malformed_of_compileAll he)) d
  · split
    · exact failsOnly_ok () d
    · rename_i hs
      refine FailsOnly.andThen (forEach_failsOnly (I := fun _ => True) ?_ trivial) fun _ _ =>
        failsOnly_ok _ _
      intro path hpath d _
      have hl := List.mem_of_mem_filter hpath
      exact ⟨fun e he => .inr (copyOne_failsOnly h hl _ d e he), trivial⟩

/-! ## Shapes of arguments -/

def Shaped : Directive → List String → Prop
  | .mkdir, args => args ≠ []
  | .copy, args => args.dropLast ≠ []
  | .chmod, args =>
    ∃ mode glob globs, (recursion args).2 = mode :: glob :: globs ∧ (ModeChange.parse? mode).isSome
  | .chown, args => ∃ text glob globs, (recursion args).2 = text :: glob :: globs

def globs : Directive → List String → List String
  | .mkdir, _ => []
  | .copy, args => args.dropLast
  | .chmod, args | .chown, args => (recursion args).2.tail

def MayFail (directive : Directive) (args : List String) (e : Error) : Prop :=
  Malformed (directive.globs args) e ∨ (directive = .mkdir ∨ directive = .copy) ∧ e.IsMismatch

lemma runChmod_failsOnly (h : d.WellFormed) (ha : chmod.Shaped args) :
    FailsOnly (Malformed (chmod.globs args)) (runChmod args d) := by
  obtain ⟨mode, glob, patterns, hr, hm⟩ := ha
  obtain ⟨change, hm⟩ := Option.isSome_iff_exists.mp hm
  rcases hrec : recursion args with ⟨all, rest⟩
  obtain rfl : rest = mode :: glob :: patterns := by rw [← hr, hrec]
  rw [runChmod, globs, hrec]
  dsimp only
  rw [hm]
  exact changeMatches_failsOnly h _ all _

lemma runChown_failsOnly (h : d.WellFormed) (ha : chown.Shaped args) :
    FailsOnly (Malformed (chown.globs args)) (runChown args d) := by
  obtain ⟨text, glob, patterns, hr⟩ := ha
  rcases hrec : recursion args with ⟨all, rest⟩
  obtain rfl : rest = text :: glob :: patterns := by rw [← hr, hrec]
  rw [runChown, globs, hrec]
  exact changeMatches_failsOnly h _ all _

lemma run_failsOnly (hs : source.WellFormed) (h : d.WellFormed) {directive : Directive}
    (ha : directive.Shaped args) :
    FailsOnly (directive.MayFail args) (directive.run source args d) := by
  cases directive with
  | mkdir => exact fun e he => .inr ⟨.inl rfl, runMkdir_failsOnly ha d e he⟩
  | copy => exact fun e he => (runCopy_failsOnly hs ha d e he).imp_right fun hm => ⟨.inr rfl, hm⟩
  | chmod => exact fun e he => .inl (runChmod_failsOnly h ha e he)
  | chown => exact fun e he => .inl (runChown_failsOnly h ha e he)

lemma needsGlob_cases {directive : Directive} (hd : directive = .chmod ∨ directive = .chown)
    (args : List String) :
    directive.Shaped args ∧ directive.needsGlob args = .ok () ∨
      ¬ directive.Shaped args ∧ directive.needsGlob args = .error (.usage directive) ∧
        ∀ source d, directive.run source args d = ⟨.error (.usage directive), d⟩ := by
  rcases hrec : recursion args with ⟨all, _ | ⟨first, _ | ⟨glob, patterns⟩⟩⟩ <;>
    rcases hd with rfl | rfl
  · right
    simp [Shaped, needsGlob, run, runChmod, hrec]
  · right
    simp [Shaped, needsGlob, run, runChown, hrec]
  · right
    simp [Shaped, needsGlob, run, runChmod, hrec]
  · right
    simp [Shaped, needsGlob, run, runChown, hrec]
  · cases hm : ModeChange.parse? first with
    | none =>
      right
      simp [Shaped, needsGlob, run, runChmod, hrec, hm]
    | some change =>
      left
      simp [Shaped, needsGlob, hrec, hm]
  · left
    simp [Shaped, needsGlob, hrec]

end Directive

/-! ## Checked commands -/

namespace Command

variable {c checked : Command} {d : Directive}

lemma validate_of_needsGlob (hn : Directive.ofName? c.name = some d) (hd : d = .chmod ∨ d = .chown)
    (ha : c.args ≠ []) : c.validate = (d.needsGlob c.args).map fun _ => (d, c) := by
  obtain ⟨arg, args, ha⟩ := List.exists_cons_of_ne_nil ha
  rw [validate, hn]
  rcases hd with rfl | rfl <;> simp [ha]

lemma shaped_of_validate (h : c.validate = .ok (d, checked)) :
    Directive.ofName? checked.name = some d ∧ d.Shaped checked.args := by
  cases hn : Directive.ofName? c.name with
  | none => simp [validate, hn] at h
  | some directive =>
    rcases ha : c.args with _ | ⟨arg, args⟩
    · simp [validate, hn, ha] at h
    have hne : c.args ≠ [] := by simp [ha]
    by_cases hd : directive = .chmod ∨ directive = .chown
    · rw [validate_of_needsGlob hn hd hne] at h
      rcases Directive.needsGlob_cases hd c.args with ⟨hs, hok⟩ | ⟨_, herr, _⟩
      · rw [hok] at h
        cases h
        exact ⟨hn, hs⟩
      · rw [herr] at h
        cases h
    · cases directive with
      | mkdir =>
        simp [validate, hn, ha] at h
        obtain ⟨rfl, rfl⟩ := h
        exact ⟨hn, hne⟩
      | copy =>
        cases args with
        | nil =>
          simp [validate, hn, ha] at h
          obtain ⟨rfl, rfl⟩ := h
          exact ⟨hn, by simp [Directive.Shaped]⟩
        | cons other args =>
          simp [validate, hn, ha] at h
          obtain ⟨rfl, rfl⟩ := h
          exact ⟨hn, by simp [Directive.Shaped, ha]⟩
      | chmod => exact absurd (.inl rfl) hd
      | chown => exact absurd (.inr rfl) hd

lemma validate_of_shaped (hn : Directive.ofName? c.name = some d) (hs : d.Shaped c.args) :
    c.validate = .ok (d, c) := by
  rcases ha : c.args with _ | ⟨arg, args⟩
  · cases d <;> simp [Directive.Shaped, Directive.recursion, ha] at hs
  by_cases hd : d = .chmod ∨ d = .chown
  · rw [validate_of_needsGlob hn hd (by simp [ha])]
    rcases Directive.needsGlob_cases hd c.args with ⟨_, hok⟩ | ⟨hns, _⟩
    · rw [hok]
      rfl
    · exact absurd hs hns
  · cases d with
    | mkdir => simp [validate, hn, ha]
    | copy =>
      cases args with
      | nil => simp [Directive.Shaped, ha] at hs
      | cons other args => simp [validate, hn, ha]
    | chmod => exact absurd (.inl rfl) hd
    | chown => exact absurd (.inr rfl) hd

lemma usage_of_validate {e : Error} (hn : Directive.ofName? c.name = some d)
    (hd : d = .chmod ∨ d = .chown) (ha : c.args ≠ []) (he : c.validate = .error e) :
    e = .usage d ∧ ∀ source dest, d.run source c.args dest = ⟨.error (.usage d), dest⟩ := by
  rw [validate_of_needsGlob hn hd ha] at he
  rcases Directive.needsGlob_cases hd c.args with ⟨_, hok⟩ | ⟨_, herr, hrun⟩
  · rw [hok] at he
    cases he
  · rw [herr] at he
    cases he
    exact ⟨rfl, hrun⟩

end Command

namespace Recipe

lemma check_commands (r : Recipe) : r.check.commands.check = r.check := by
  induction r with
  | nil => rfl
  | cons c r ih =>
    cases hv : c.validate with
    | error e => simp only [check, hv]
    | ok checked =>
      obtain ⟨hn, hs⟩ := Command.shaped_of_validate hv
      simp only [check, hv, Command.validate_of_shaped hn hs, ih]

lemma shaped_of_mem_steps {r : Recipe} {steps : List (Directive × List String)}
    (h : r.check.steps = .ok steps) :
    ∀ step ∈ steps, step.1.Shaped step.2 := by
  induction r generalizing steps with
  | nil =>
    cases h
    exact List.forall_mem_nil _
  | cons c r ih =>
    rw [Checked.steps, check] at h
    cases hv : c.validate with
    | error e =>
      rw [hv] at h
      cases h
    | ok checked =>
      rw [hv] at h
      obtain ⟨_, hds, rfl⟩ := map_eq_ok_iff.mp h
      obtain ⟨ds, hr, rfl⟩ := map_eq_ok_iff.mp hds
      refine List.forall_mem_cons.mpr ⟨(Command.shaped_of_validate hv).2, ih ?_⟩
      rw [Checked.steps, hr]
      rfl

theorem run_mayFail {r : Recipe} {source : Dir} {steps : List (Directive × List String)} {e : Error}
    (hs : source.WellFormed) (h : r.check.steps = .ok steps) (he : r.run source = .error e) :
    ∃ step ∈ steps, step.1.MayFail step.2 e := by
  have hsteps := shaped_of_mem_steps h
  have hf : FailsOnly (fun e => ∃ step ∈ steps, step.1.MayFail step.2 e)
      (forEach (fun step d => step.1.run source step.2 d) steps .empty) := by
    refine forEach_failsOnly (I := Dir.WellFormed)
      (fun step hstep d hd => ⟨fun e he => ?_, ?_⟩) .empty
    · exact ⟨step, hstep, Directive.run_failsOnly hs hd (hsteps step hstep) e he⟩
    · exact (Directive.run_alike Binding.uniform_eq Directive.changes_true
        (Dir.related_eq_iff.mpr hs) step.1
        step.2 (Dir.related_eq_iff.mpr hd)).tree.left
  rw [run, h] at he
  exact hf.of_map he

end Recipe

theorem Command.validate_agrees_with_run :
    (∀ (c checked : Command) (d : Directive) (source dest : Dir) (e : Error),
      source.WellFormed → dest.WellFormed → c.validate = .ok (d, checked) →
      (d.run source checked.args dest).result = .error e → d.MayFail checked.args e) ∧
    (∀ (c : Command) (d : Directive) (e : Error), Directive.ofName? c.name = some d →
      d = .chmod ∨ d = .chown → c.args ≠ [] → c.validate = .error e →
      e = .usage d ∧ ∀ source dest, d.run source c.args dest = ⟨.error (.usage d), dest⟩) ∧
    ∀ r : Recipe, r.check.commands.check = r.check := by
  refine ⟨?_, ?_, Recipe.check_commands⟩
  · intro c checked d source dest e hs hd hv
    exact Directive.run_failsOnly hs hd (shaped_of_validate hv).2 e
  · intro c d e hn hd ha he
    exact usage_of_validate hn hd ha he

theorem Command.validate_agrees_with_run_usage :
    (∃ e, (Directive.chmod.run .empty ["-R", "0600", "et[c"] Dir.stored).result = .error e ∧
      Directive.chmod.MayFail ["-R", "0600", "et[c"] e) ∧
    (∀ source dest, Directive.chown.run source ["-R", "app"] dest =
      ⟨.error (.usage .chown), dest⟩) ∧
    Recipe.check [⟨"COPY", ["etc", "etc"]⟩] = Recipe.check [⟨"COPY", ["etc"]⟩] := by
  obtain ⟨hrun, husage, hcheck⟩ := validate_agrees_with_run
  have hv : (⟨"CHMOD", ["-R", "0600", "et[c"]⟩ : Command).validate =
      .ok (.chmod, ⟨"CHMOD", ["-R", "0600", "et[c"]⟩) := by
    cbv
  have he : (Directive.chmod.run .empty ["-R", "0600", "et[c"] Dir.stored).result =
      .error (.pattern (.glob "et[c" ⟨2, .range⟩)) := by cbv
  refine ⟨⟨_, he, hrun _ _ _ _ _ _ .empty Dir.stored_wellFormed hv he⟩, ?_,
    hcheck [⟨"COPY", ["etc"]⟩]⟩
  exact (husage ⟨"CHOWN", ["-R", "app"]⟩ .chown _ rfl (.inr rfl) (by simp) rfl).2

end TarRecipe
