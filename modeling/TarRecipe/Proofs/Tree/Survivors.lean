import Mathlib
import TarRecipe.Proofs.Tree.Coherence
import TarRecipe.Proofs.Tree.PathMap

/-! What pruning leaves: what no rules of an active directory above ignore. -/

namespace TarRecipe

namespace Dir

section

variable (origins : Origins) (name : String) (d : Dir)

def HasRules (p : Path) (rules : Ignore.Rules) : Prop :=
  ∃ a origin data, d.at? (p ++ [name]) = some (.file a origin) ∧ origins origin = .ok data ∧
    Ignore.Rules.ofBytes data = .ok rules

def Ignores (p s : Path) : Prop :=
  ∃ rules b, d.HasRules origins name p rules ∧ d.at? (p ++ s) = some b ∧
    rules.ignores s.render (b.kind == .directory) = true

/-- All the way down to the directory, each one still holds an ignore file when the rules of the
active directories strictly above it have been applied. -/
def Active (p : Path) : Prop :=
  ∀ q, q <+: p → (∃ a origin, d.at? (q ++ [name]) = some (.file a origin)) ∧
    ∀ t, t <+: q → t ≠ q → Active t → ∀ s, s ≠ [] → t ++ s <+: q ++ [name] →
      ¬ d.Ignores origins name t s
termination_by p.length
decreasing_by
  rename_i hq ht hne
  exact (Nat.lt_of_le_of_ne ht.length_le fun h => hne (ht.eq_of_length h)).trans_le hq.length_le

/-- No active directory strictly above `p` ignores `q` or a directory on the way down to it. -/
def Spared (p q : Path) : Prop :=
  ∀ t, t <+: p → t ≠ p → d.Active origins name t → ∀ s, s ≠ [] → t ++ s <+: q →
    ¬ d.Ignores origins name t s

def Survives (p : Path) : Prop := d.Spared origins name p p

end

variable {origins : Origins} {name : String} {d c t : Dir} {p q r s : Path} {rules : Ignore.Rules}

/-! ## Active directories -/

lemma active_iff_forall : d.Active origins name p ↔
    ∀ q, q <+: p → (∃ a origin, d.at? (q ++ [name]) = some (.file a origin)) ∧
      d.Spared origins name q (q ++ [name]) := by
  rw [Active]
  rfl

lemma Active.of_prefix (h : d.Active origins name p) (hq : q <+: p) : d.Active origins name q := by
  rw [active_iff_forall] at h ⊢
  exact fun t ht => h t (ht.trans hq)

lemma active_iff : d.Active origins name p ↔ (∀ q, q <+: p → q ≠ p → d.Active origins name q) ∧
    (∃ a origin, d.at? (p ++ [name]) = some (.file a origin)) ∧
      d.Spared origins name p (p ++ [name]) := by
  constructor
  · intro h
    exact ⟨fun q hq _ => h.of_prefix hq, active_iff_forall.mp h p List.prefix_rfl⟩
  · rintro ⟨habove, hown⟩
    rw [active_iff_forall]
    intro q hq
    by_cases he : q = p
    · exact he ▸ hown
    · exact active_iff_forall.mp (habove q hq he) q List.prefix_rfl

lemma Spared.of_prefix (h : d.Spared origins name p q) (hr : r <+: q) : d.Spared origins name p r :=
  fun t ht hne ha s hs hts => h t ht hne ha s hs (hts.trans hr)

lemma spared_nil (q : Path) : d.Spared origins name [] q :=
  fun _ ht hne => absurd (List.prefix_nil.mp ht) hne

lemma Survives.spared (h : d.Survives origins name q) (p : Path) : d.Spared origins name p q := by
  intro t _ _ ha s hs hts
  refine h t ((List.prefix_append t s).trans hts) ?_ ha s hs hts
  rintro rfl
  have hl := hts.length_le
  rw [List.length_append] at hl
  exact hs (List.length_eq_zero_iff.mp (by omega))

-- Below a directory that is not active, only the rules above it count.
lemma survives_iff_spared (h : ¬ d.Active origins name p) (hp : p <+: q) :
    d.Survives origins name q ↔ d.Spared origins name p q := by
  refine ⟨fun hs => hs.spared p, fun hs t ht _ ha s hne hts => ?_⟩
  have htp : ¬ p <+: t := fun hpt => h (ha.of_prefix hpt)
  have hpre : t <+: p := (List.prefix_or_prefix_of_prefix ht hp).resolve_right htp
  exact hs t hpre (fun he => htp (he ▸ List.prefix_rfl)) ha s hne hts

lemma spared_concat_iff (n : String) : d.Spared origins name (p ++ [n]) q ↔
    d.Spared origins name p q ∧
      (d.Active origins name p → ∀ s, s ≠ [] → p ++ s <+: q → ¬ d.Ignores origins name p s) := by
  have hne (t : Path) (ht : t <+: p) : t ≠ p ++ [n] := by
    rintro rfl
    have hl := ht.length_le
    rw [List.length_append, List.length_singleton] at hl
    omega
  constructor
  · intro h
    exact ⟨fun t ht _ => h t (ht.trans (List.prefix_append p [n])) (hne t ht),
      h p (List.prefix_append p [n]) (hne p List.prefix_rfl)⟩
  · rintro ⟨habove, hown⟩ t ht htn
    have htp : t <+: p := (List.prefix_concat_iff.mp ht).resolve_left htn
    by_cases he : t = p
    · exact he ▸ hown
    · exact habove t htp he

/-! ## Removing what is ignored -/

lemma walk_of_missing (full : Path) (hf : ¬ d.FileOn p) (h : d.at? p = none) :
    d.walk full p = .error (.notFound full) := by
  induction p generalizing d with
  | nil => cases (at?_nil d).symm.trans h
  | cons n p ih =>
    rw [at?_cons] at h
    rw [fileOn_cons] at hf
    rw [walk]
    cases hc : d.child n with
    | none => rfl
    | some e =>
      rw [hc] at h hf
      cases e with
      | file a origin => exact absurd ⟨_, rfl, Entry.fileOn_file a origin p⟩ hf
      | dir a l cs => exact ih (d := ⟨a, l, cs⟩) (fun he => hf ⟨_, rfl, he⟩) h

lemma entryAt_of_missing (hp : p ≠ []) (hf : ¬ d.FileOn p.parent) (h : d.find? p = none) :
    d.entryAt p = .error (.notFound p) := by
  rw [entryAt_eq hp]
  by_cases hm : d.at? p.parent = none
  · rw [walk_of_missing p hf hm]
    rfl
  · obtain ⟨e, he⟩ := Option.ne_none_iff_exists'.mp (at?_eq_none_iff.not.mp hm)
    cases e with
    | file a origin =>
      exact absurd ⟨p.parent, a, origin, List.prefix_rfl, at?_of_find? he⟩ hf
    | dir a l cs =>
      have hc : Dir.child ⟨a, l, cs⟩ p.name = none := by
        rw [← Path.parent_append_name hp, find?_append, he, Option.bind_some] at h
        exact (find?_singleton ⟨a, l, cs⟩ p.name).symm.trans h
      rw [(walk_eq_ok_iff p d ⟨a, l, cs⟩ p.parent).mpr he]
      simp only [bind, Except.bind, hc]

def Without (c : Dir) (gone : Path → Prop) (t : Dir) : Prop :=
  ∀ r b, t.at? r = some b ↔ c.at? r = some b ∧ ∀ s, gone s → ¬ s <+: r

lemma remove_without {x : Entry} (hs : s.Clean) (hne : s ≠ []) (hx : t.find? s = some x) :
    (t.remove s.render).result = .ok x ∧ t.Without (· = s) (t.remove s.render).tree := by
  have hp := Path.parse_render hs
  have hne' : Path.parse s.render ≠ [] := hp.symm ▸ hne
  have hx' : t.find? (Path.parse s.render) = some x := hp.symm ▸ hx
  obtain ⟨hr, ht⟩ := remove_of_bound hne' hx'
  rw [hp] at ht
  refine ⟨hr, fun r b => ?_⟩
  by_cases hsr : s <+: r
  · refine iff_of_false (fun hb => ?_) fun h => h.2 s rfl hsr
    obtain ⟨q, rfl⟩ := hsr
    rw [ht.below] at hb
    cases hb
  · rw [ht.beside r hsr, filled_of_bound (parent_of_bound hne hx).2]
    refine ⟨fun hb => ⟨hb, ?_⟩, And.left⟩
    rintro _ rfl
    exact hsr

lemma Without.trans {u : Dir} {gone gone' : Path → Prop} (h : c.Without gone t)
    (h' : t.Without gone' u) :
    c.Without (fun s => gone s ∨ gone' s) u := by
  intro r b
  rw [h' r b, h r b, and_assoc]
  simp only [or_imp, forall_and]

lemma getEntry_render (hs : s.Clean) (d : Dir) : d.getEntry s.render = d.entryAt s := by
  rw [getEntry, Path.parse_render hs]

-- What is missing went with something above it, or by itself, and its turn changes nothing.
lemma sweepOne_of_missing {gone : Path → Prop} {x : Entry} (rules : Ignore.Rules)
    (h : c.Without gone t) (hs : s.Clean) (hne : s ≠ []) (hx : c.find? s = some x)
    (ht : t.find? s = none) :
    sweepOne rules s.render t = ⟨.ok (), t⟩ ∧ ∃ q, gone q ∧ q <+: s := by
  have hf : ¬ t.FileOn s.parent := by
    rintro ⟨q, a, origin, hq, hat⟩
    exact (parent_of_bound hne hx).1 ⟨q, a, origin, hq, ((h q _).mp hat).1⟩
  constructor
  · rw [sweepOne, getEntry_render hs, entryAt_of_missing hne hf ht]
  · by_contra hno
    have hb := (h s _).mpr ⟨at?_of_find? hx, fun q hq hqs => hno ⟨q, hq, hqs⟩⟩
    cases (at?_eq_none_iff.mpr ht).symm.trans hb

lemma sweepOne_without {gone : Path → Prop} {x : Entry} (rules : Ignore.Rules)
    (h : c.Without gone t) (hs : s.Clean) (hne : s ≠ []) (hx : c.find? s = some x) :
    (sweepOne rules s.render t).result = .ok () ∧
      c.Without (fun q => gone q ∨ q = s ∧ rules.ignores s.render x.isDir = true)
        (sweepOne rules s.render t).tree := by
  cases ht : t.find? s with
  | some y =>
    have hxy : y.isDir = x.isDir := by
      have hc := ((h s _).mp (at?_of_find? ht)).1.symm.trans (at?_of_find? hx)
      have hk := congrArg Binding.kind (Option.some_inj.mp hc)
      rw [Entry.kind_binding, Entry.kind_binding] at hk
      rw [Entry.isDir, Entry.isDir, hk]
    rw [sweepOne, getEntry_render hs, entryAt_eq_ok_iff.mpr ⟨hne, ht⟩]
    dsimp only
    rw [hxy]
    split
    · rename_i hi
      obtain ⟨hr, hw⟩ := remove_without hs hne ht
      refine ⟨congrArg (Except.map fun _ => ()) hr, ?_⟩
      simp only [hi, and_true]
      exact h.trans hw
    · rename_i hi
      refine ⟨rfl, ?_⟩
      simp only [hi, Bool.false_eq_true, and_false, or_false]
      exact h
  | none =>
    obtain ⟨he, q, hq, hqs⟩ := sweepOne_of_missing rules h hs hne hx ht
    rw [he]
    refine ⟨rfl, fun r b => ?_⟩
    rw [h r b]
    refine and_congr_right fun _ => ⟨fun hall z hz hzr => ?_, fun hall z hz => hall z (.inl hz)⟩
    rcases hz with hz | ⟨rfl, _⟩
    · exact hall z hz hzr
    · exact hall q hq (hqs.trans hzr)

def Dropped (rules : Ignore.Rules) (c : Dir) (s : Path) : Prop :=
  s ≠ [] ∧ ∃ b, c.at? s = some b ∧ rules.ignores s.render (b.kind == .directory) = true

lemma dropped_iff {x : Entry} (rules : Ignore.Rules) (hne : s ≠ []) (hx : c.find? s = some x) :
    Dropped rules c s ↔ rules.ignores s.render x.isDir = true := by
  have hat : c.at? s = some x.binding := at?_of_find? hx
  simp [Dropped, hne, hat, Entry.isDir]

lemma dropped_mem_cons_iff {paths : List String} (hs : s.Clean) :
    q.Clean ∧ q.render ∈ s.render :: paths ∧ Dropped rules c q ↔
      q = s ∧ Dropped rules c s ∨ q.Clean ∧ q.render ∈ paths ∧ Dropped rules c q := by
  rw [List.mem_cons]
  constructor
  · rintro ⟨hc, he | hm, hq⟩
    · obtain rfl := Path.render_injective hc hs he
      exact .inl ⟨rfl, hq⟩
    · exact .inr ⟨hc, hm, hq⟩
  · rintro (⟨rfl, hq⟩ | ⟨hc, hm, hq⟩)
    · exact ⟨hs, .inl rfl, hq⟩
    · exact ⟨hc, .inr hm, hq⟩

lemma forEach_sweepOne {gone : Path → Prop} {paths : List String} (rules : Ignore.Rules)
    (h : c.Without gone t)
    (hp : ∀ text ∈ paths, ∃ (s : Path) (x : Entry), s.Clean ∧ s ≠ [] ∧ c.find? s = some x ∧
      s.render = text) :
    (Outcome.forEach (sweepOne rules) paths t).result = .ok () ∧
      c.Without (fun s => gone s ∨ s.Clean ∧ s.render ∈ paths ∧ Dropped rules c s)
        (Outcome.forEach (sweepOne rules) paths t).tree := by
  induction paths generalizing gone t with
  | nil =>
    refine ⟨rfl, ?_⟩
    simp only [List.not_mem_nil, false_and, and_false, or_false]
    exact h
  | cons text paths ih =>
    obtain ⟨⟨s, x, hs, hne, hx, rfl⟩, hrest⟩ := List.forall_mem_cons.mp hp
    obtain ⟨hr, hw⟩ := sweepOne_without rules h hs hne hx
    rw [Outcome.forEach, Outcome.andThen, hr]
    obtain ⟨hr', hw'⟩ := ih hw hrest
    refine ⟨hr', fun r b => ?_⟩
    rw [hw' r b]
    simp only [dropped_mem_cons_iff hs, dropped_iff rules hne hx, or_assoc]

lemma Dropped.listed (h : c.WellFormed) (hs : Dropped rules c s) :
    s.Clean ∧ s.render ∈ c.listed := by
  obtain ⟨hne, b, hb, _⟩ := hs
  obtain ⟨x, hx, _⟩ := Option.map_eq_some_iff.mp hb
  exact ⟨Entry.WellFormed.clean_of_find? h hx,
    (Entry.WellFormed.mem_listed_iff h).mpr ⟨s, x, hne, hx, rfl⟩⟩

lemma swept_without (h : c.WellFormed) (rules : Ignore.Rules) :
    (c.swept rules).result = .ok () ∧ c.Without (Dropped rules c) (c.swept rules).tree := by
  have hself : c.Without (fun _ => False) c := fun r b => by simp
  by_cases he : rules.isEmpty = true
  · have hn (s : Path) : ¬ Dropped rules c s := by
      rintro ⟨_, b, _, hi⟩
      rw [List.isEmpty_iff.mp he] at hi
      cases hi
    rw [swept, if_pos he]
    refine ⟨rfl, fun r b => ?_⟩
    change c.at? r = some b ↔ _
    simp [hn]
  · have hp : ∀ text ∈ c.listed, ∃ (s : Path) (x : Entry), s.Clean ∧ s ≠ [] ∧ c.find? s = some x ∧
        s.render = text := by
      intro text ht
      obtain ⟨s, x, hne, hx, hr⟩ := (Entry.WellFormed.mem_listed_iff h).mp ht
      exact ⟨s, x, Entry.WellFormed.clean_of_find? h hx, hne, hx, hr⟩
    obtain ⟨hr, hw⟩ := forEach_sweepOne rules hself hp
    rw [swept, if_neg he]
    refine ⟨hr, fun r b => (hw r b).trans ?_⟩
    have hgone (s : Path) : (False ∨ s.Clean ∧ s.render ∈ c.listed ∧ Dropped rules c s) ↔
        Dropped rules c s :=
      ⟨fun hs => (hs.resolve_left id).2.2, fun hs => .inr ⟨(hs.listed h).1, (hs.listed h).2, hs⟩⟩
    simp only [hgone]

/-! ## Directories that remain -/

def prunedEntry (prune : Dir → Outcome Unit) : Entry → Entry
  | .file a origin => .file a origin
  | .dir a l cs => (prune ⟨a, l, cs⟩).tree.toEntry

lemma pruneEach_ok {prune : Dir → Outcome Unit} {cs : List (String × Entry)}
    (h : (pruneEach prune cs).1 = .ok ()) :
    (∀ n a l below, (n, Entry.dir a l below) ∈ cs → (prune ⟨a, l, below⟩).result = .ok ()) ∧
      (pruneEach prune cs).2 = cs.map fun c => (c.1, prunedEntry prune c.2) := by
  induction cs with
  | nil => exact ⟨fun _ _ _ _ hm => absurd hm List.not_mem_nil, rfl⟩
  | cons c cs ih =>
    obtain ⟨n, e⟩ := c
    cases e with
    | file a origin =>
      obtain ⟨hr, ht⟩ := ih h
      refine ⟨fun m a l below hm => ?_, congrArg (_ :: ·) ht⟩
      exact hr m a l below ((List.mem_cons.mp hm).resolve_left (by simp))
    | dir a l below =>
      rw [pruneEach] at h ⊢
      cases hp : (prune ⟨a, l, below⟩).result with
      | error e =>
        rw [hp] at h
        cases h
      | ok u =>
        rw [hp] at h
        obtain ⟨hr, ht⟩ := ih h
        refine ⟨fun m a' l' below' hm => ?_, congrArg (_ :: ·) ht⟩
        rcases List.mem_cons.mp hm with he | hm
        · cases he
          exact hp
        · exact hr m a' l' below' hm

lemma child_pruneBelow {prune : Dir → Outcome Unit} (h : (pruneBelow prune c).result = .ok ())
    (n : String) :
    (pruneBelow prune c).tree.child n = (c.child n).map (prunedEntry prune) := by
  have ht := (pruneEach_ok h).2
  rw [child, pruneBelow, ht, lookup_map_snd]
  rfl

lemma at?_pruneBelow_of_dir {prune : Dir → Outcome Unit} (h : (pruneBelow prune c).result = .ok ())
    {n : String} {x : Dir} (hx : c.child n = some x.toEntry) (r : Path) :
    (pruneBelow prune c).tree.at? (n :: r) = (prune x).tree.at? r := by
  rw [at?_cons, child_pruneBelow h, hx]
  rfl

lemma at?_pruneBelow_of_other {prune : Dir → Outcome Unit}
    (h : (pruneBelow prune c).result = .ok ()) {n : String}
    (hn : ∀ x : Dir, c.child n ≠ some x.toEntry) (r : Path) :
    (pruneBelow prune c).tree.at? (n :: r) = c.at? (n :: r) := by
  rw [at?_cons, at?_cons, child_pruneBelow h]
  cases hx : c.child n with
  | none => rfl
  | some e =>
    cases e with
    | file a origin => rfl
    | dir a l cs => exact absurd hx (hn ⟨a, l, cs⟩)

/-! ## Pruning below a path -/

lemma HasRules.unique {rules' : Ignore.Rules} (h : d.HasRules origins name p rules)
    (h' : d.HasRules origins name p rules') : rules = rules' := by
  obtain ⟨a, origin, data, hat, hread, hof⟩ := h
  obtain ⟨a', origin', data', hat', hread', hof'⟩ := h'
  cases hat.symm.trans hat'
  cases hread.symm.trans hread'
  exact Except.ok.inj (hof.symm.trans hof')

lemma ownRules_eq_none (h : c.ownRules origins name = .ok none) (a : Attrs) (origin : Bytes) :
    c.at? [name] ≠ some (.file a origin) := by
  intro hat
  rw [at?_name] at hat
  obtain ⟨e, he, hb⟩ := Option.map_eq_some_iff.mp hat
  cases e with
  | dir a l cs => cases hb
  | file a origin =>
    rw [ownRules, he] at h
    obtain ⟨data, _, h⟩ := bind_eq_ok_iff.mp h
    obtain ⟨rules, _, h⟩ := bind_eq_ok_iff.mp h
    cases h

lemma ownRules_eq_some (h : c.ownRules origins name = .ok (some rules)) :
    ∃ a origin data, c.at? [name] = some (.file a origin) ∧ origins origin = .ok data ∧
      Ignore.Rules.ofBytes data = .ok rules := by
  rw [ownRules] at h
  split at h
  · rename_i a origin hc
    obtain ⟨data, hdata, h⟩ := bind_eq_ok_iff.mp h
    obtain ⟨rules', hrules, h⟩ := bind_eq_ok_iff.mp h
    cases h
    refine ⟨a, origin, data, by rw [at?_name, hc]; rfl, ?_, ?_⟩
    · exact (mapError_eq_ok_iff.mp hdata)
    · exact (mapError_eq_ok_iff.mp hrules)
  · cases h

def Left (origins : Origins) (name : String) (d : Dir) (p : Path) (c : Dir) : Prop :=
  (∀ q, q <+: p → q ≠ p → d.Active origins name q) ∧
    ∀ r b, c.at? r = some b ↔ d.at? (p ++ r) = some b ∧ d.Spared origins name p (p ++ r)

lemma Left.active_iff (h : d.Left origins name p c) :
    d.Active origins name p ↔ ∃ a origin, c.at? [name] = some (.file a origin) := by
  rw [Dir.active_iff]
  simp only [h.2, exists_and_right]
  exact and_iff_right h.1

lemma Left.swept (h : d.Left origins name p c) (hc : c.WellFormed)
    (hr : d.HasRules origins name p rules) (r : Path)
    (b : Binding) : (c.swept rules).tree.at? r = some b ↔
      d.at? (p ++ r) = some b ∧ d.Spared origins name p (p ++ r) ∧
        ∀ s, s ≠ [] → s <+: r → ¬ d.Ignores origins name p s := by
  rw [(swept_without hc rules).2 r b, h.2 r b, and_assoc]
  refine and_congr_right fun _ => and_congr_right fun hs => forall_congr' fun s => ?_
  have hd (hsr : s <+: r) : Dropped rules c s ↔ s ≠ [] ∧ d.Ignores origins name p s := by
    have hsp := hs.of_prefix ((List.prefix_append_right_inj p).mpr hsr)
    refine and_congr_right fun _ => ⟨?_, ?_⟩
    · rintro ⟨b, hb, hi⟩
      exact ⟨rules, b, hr, ((h.2 s b).mp hb).1, hi⟩
    · rintro ⟨rules', b, hr', hb, hi⟩
      obtain rfl := hr.unique hr'
      exact ⟨b, (h.2 s b).mpr ⟨hb, hsp⟩, hi⟩
  constructor
  · exact fun hn hne hsr hi => hn ((hd hsr).mpr ⟨hne, hi⟩) hsr
  · exact fun hn hdr hsr => hn ((hd hsr).mp hdr).1 hsr ((hd hsr).mp hdr).2

-- After its own rules, a directory holds of each child what is left when that is reached in turn.
lemma Left.swept_cons (h : d.Left origins name p c) (hc : c.WellFormed)
    (hr : d.HasRules origins name p rules) (ha : d.Active origins name p) (n : String) (r : Path)
    (b : Binding) :
    (c.swept rules).tree.at? (n :: r) = some b ↔
      d.at? (p ++ [n] ++ r) = some b ∧ d.Spared origins name (p ++ [n]) (p ++ [n] ++ r) := by
  rw [h.swept hc hr, spared_concat_iff, ← List.append_cons]
  simp only [ha, true_imp_iff, List.prefix_append_right_inj]

lemma Left.child (h : d.Left origins name p c) (hc : c.WellFormed)
    (hr : d.HasRules origins name p rules) (ha : d.Active origins name p) {n : String} {x : Dir}
    (hx : (c.swept rules).tree.child n = some x.toEntry) :
    d.Left origins name (p ++ [n]) x := by
  refine ⟨fun q hq hne => ha.of_prefix ((List.prefix_concat_iff.mp hq).resolve_left hne),
    fun r b => ?_⟩
  rw [← h.swept_cons hc hr ha, at?_cons, hx]
  rfl

lemma Left.not_active (h : d.Left origins name p c) (hc : c.WellFormed)
    (hr : d.HasRules origins name p rules) (ha : d.Active origins name p) {n : String}
    (hn : ∀ x : Dir, (c.swept rules).tree.child n ≠ some x.toEntry) :
    ¬ d.Active origins name (p ++ [n]) := by
  intro hact
  obtain ⟨_, ⟨a, origin, hat⟩, hs⟩ := Dir.active_iff.mp hact
  have hb := (h.swept_cons hc hr ha n [name] _).mpr ⟨hat, hs⟩
  rw [at?_cons] at hb
  obtain ⟨e, he, hb⟩ := Option.bind_eq_some_iff.mp hb
  cases e with
  | file a origin => cases hb
  | dir a l cs => exact hn ⟨a, l, cs⟩ he

def Settles (origins : Origins) (name : String) (d : Dir) (p : Path) (t : Dir) : Prop :=
  (∀ r b, t.at? r = some b ↔ d.at? (p ++ r) = some b ∧ d.Survives origins name (p ++ r)) ∧
    ∀ q, p <+: q → d.Active origins name q → ∃ rules, d.HasRules origins name q rules

lemma Left.settles_of_not_active (h : d.Left origins name p c) (ha : ¬ d.Active origins name p) :
    d.Settles origins name p c := by
  refine ⟨fun r b => ?_, fun q hq hact => absurd (hact.of_prefix hq) ha⟩
  rw [survives_iff_spared ha (List.prefix_append p r)]
  exact h.2 r b

lemma Left.at?_pruneBelow {prune : Dir → Outcome Unit} (h : d.Left origins name p c)
    (hc : c.WellFormed) (hr : d.HasRules origins name p rules) (ha : d.Active origins name p)
    (hok : (pruneBelow prune (c.swept rules).tree).result = .ok ())
    (hp : ∀ n x, (c.swept rules).tree.child n = some (Dir.toEntry x) →
      d.Settles origins name (p ++ [n]) (prune x).tree) (r : Path) (b : Binding) :
    (pruneBelow prune (c.swept rules).tree).tree.at? r = some b ↔
      d.at? (p ++ r) = some b ∧ d.Survives origins name (p ++ r) := by
  cases r with
  | nil =>
    have hs := h.swept hc hr [] b
    simp only [List.prefix_nil] at hs
    rw [at?_nil]
    refine (at?_nil (c.swept rules).tree ▸ hs).trans (and_congr_right fun _ => ?_)
    rw [List.append_nil]
    exact ⟨And.left, fun hs => ⟨hs, fun s hne he => absurd he hne⟩⟩
  | cons n r =>
    rw [List.append_cons]
    by_cases hn : ∃ x : Dir, (c.swept rules).tree.child n = some x.toEntry
    · obtain ⟨x, hx⟩ := hn
      rw [at?_pruneBelow_of_dir hok hx]
      exact (hp n x hx).1 r b
    · have hn := not_exists.mp hn
      have hpre := List.prefix_append (p ++ [n]) r
      rw [at?_pruneBelow_of_other hok hn, h.swept_cons hc hr ha,
        survives_iff_spared (h.not_active hc hr ha hn) hpre]

lemma Left.exists_rules {prune : Dir → Outcome Unit} (h : d.Left origins name p c)
    (hc : c.WellFormed) (hr : d.HasRules origins name p rules) (ha : d.Active origins name p)
    (hp : ∀ n x, (c.swept rules).tree.child n = some (Dir.toEntry x) →
      d.Settles origins name (p ++ [n]) (prune x).tree) (hq : p <+: q)
    (hact : d.Active origins name q) :
    ∃ rules, d.HasRules origins name q rules := by
  obtain ⟨q, rfl⟩ := hq
  cases q with
  | nil =>
    rw [List.append_nil]
    exact ⟨rules, hr⟩
  | cons n q =>
    rw [List.append_cons] at hact ⊢
    have hpre := List.prefix_append (p ++ [n]) q
    by_cases hn : ∃ x : Dir, (c.swept rules).tree.child n = some x.toEntry
    · obtain ⟨x, hx⟩ := hn
      exact (hp n x hx).2 _ hpre hact
    · exact absurd (hact.of_prefix hpre) (h.not_active hc hr ha (not_exists.mp hn))

lemma prune_settles (h : d.Left origins name p c) (hc : c.WellFormed)
    (hok : (c.prune origins name).result = .ok ()) :
    d.Settles origins name p (c.prune origins name).tree := by
  induction hk : c.toEntry.height using Nat.strong_induction_on generalizing p c with
  | _ k ih =>
    subst hk
    rw [prune_eq origins name hc] at hok ⊢
    cases hr : c.ownRules origins name with
    | error e =>
      rw [hr] at hok
      cases hok
    | ok own =>
      rw [hr] at hok
      cases own with
      | none =>
        refine h.settles_of_not_active fun ha => ?_
        obtain ⟨a, origin, hat⟩ := h.active_iff.mp ha
        exact ownRules_eq_none hr a origin hat
      | some rules =>
        obtain ⟨a, origin, data, hat, hread, hof⟩ := ownRules_eq_some hr
        have ha := h.active_iff.mpr ⟨a, origin, hat⟩
        have hrules : d.HasRules origins name p rules :=
          ⟨a, origin, data, ((h.2 _ _).mp hat).1, hread, hof⟩
        have hs := (swept_without hc rules).1
        have hw := swept_wellFormed hc rules
        dsimp only at hok ⊢
        rw [Outcome.andThen, hs] at hok ⊢
        have hbelow (n : String) (x : Dir) (hx : (c.swept rules).tree.child n = some x.toEntry) :
            d.Settles origins name (p ++ [n]) (x.prune origins name).tree := by
          have hm := hw.mem_of_child hx
          have hlt := (height_lt_of_mem hm).trans_le ((swept_partOf rules c).height_le hc hw)
          have hxok := (pruneEach_ok hok).1 n x.attrs x.listing x.children hm
          exact ih _ hlt (h.child hc hrules ha hx) (hw.below _ hm) hxok rfl
        exact ⟨h.at?_pruneBelow hc hrules ha hok hbelow,
          fun q => h.exists_rules hc hrules ha hbelow⟩

lemma left_nil (d : Dir) : d.Left origins name [] d := by
  refine ⟨fun q hq hne => absurd (List.prefix_nil.mp hq) hne, fun r b => ?_⟩
  simp only [List.nil_append, spared_nil, and_true]

/-- Where pruning succeeds, an entry is left just as it was if no active directory above ignores it
or anything on the way to it, and nothing else is left. So nothing brings back what lies below
something that is ignored, even if the rules take away their own file, and rules below a directory
without rules do not count. -/
theorem applyIgnore_survivors (h : d.WellFormed)
    (hok : (d.applyIgnore origins name).result = .ok ()) :
    (∀ p b, (d.applyIgnore origins name).tree.at? p = some b ↔
      d.at? p = some b ∧ d.Survives origins name p) ∧
    (∀ p, d.Active origins name p → ∃ rules, d.HasRules origins name p rules) ∧
    (∀ p s q : Path, d.Active origins name p → s ≠ [] → d.Ignores origins name p s → p ++ s <+: q →
      (d.applyIgnore origins name).tree.at? q = none) ∧
    ∀ p q : Path, (∀ a origin, d.at? (p ++ [name]) ≠ some (.file a origin)) → p <+: q →
      ∀ b, (d.applyIgnore origins name).tree.at? q = some b ↔
        d.at? q = some b ∧ d.Spared origins name p q := by
  have hprune : (d.prune origins name).result = .ok () := by
    change ((d.prune origins name).andThen fun _ d => ⟨.ok (), d.relist⟩).result = _ at hok
    rw [Outcome.andThen] at hok
    split at hok
    · assumption
    · cases hok
  have htree (p : Path) : (d.applyIgnore origins name).tree.at? p =
      (d.prune origins name).tree.at? p := by
    change ((d.prune origins name).andThen fun _ d => ⟨.ok (), d.relist⟩).tree.at? p = _
    rw [Outcome.andThen, hprune]
    change (Dir.toEntry _).at? p = _
    rw [toEntry_relist, Entry.at?_relist]
    rfl
  obtain ⟨hbound, hrules⟩ := prune_settles (left_nil d) h hprune
  have hiff (p : Path) (b : Binding) : (d.applyIgnore origins name).tree.at? p = some b ↔
      d.at? p = some b ∧ d.Survives origins name p := htree p ▸ hbound p b
  refine ⟨hiff, fun p => hrules p List.nil_prefix, fun p s q ha hs hi hq => ?_,
    fun p q hno hq b => ?_⟩
  · by_contra hne
    obtain ⟨b, hb⟩ := Option.ne_none_iff_exists'.mp hne
    have hsp := ((hiff q b).mp hb).2.spared (p ++ s)
    exact hsp p (List.prefix_append p s)
      (fun he => hs (List.self_eq_append_right.mp he)) ha s hs hq hi
  · have ha : ¬ d.Active origins name p := by
      intro ha
      obtain ⟨a, origin, hat⟩ := (Dir.active_iff.mp ha).2.1
      exact hno a origin hat
    rw [← survives_iff_spared ha hq]
    exact hiff q b

/-! Rules that give up their own file, and rules that do not count but shield from others. -/

def shielding : Dir := ⟨.ofDir, some [".i", "b", "b/y", "c", "c/d", "c/d/.i", "c/d/z"],
  [(".i", .file .ofFile [1]), ("b", .dir .ofDir none [("y", .file .ofFile [2])]),
    ("c", .dir .ofDir none
      [("d", .dir .ofDir none [(".i", .file .ofFile [3]), ("z", .file .ofFile [4])])])]⟩

def shielded : Dir := ⟨.ofDir, none,
  [("c", .dir .ofDir none
    [("d", .dir .ofDir none [(".i", .file .ofFile [3]), ("z", .file .ofFile [4])])])]⟩

def ignoreFiles : Origins := fun origin =>
  .ok (if origin = [1] then textBytes "/b\n!/b/y\n/.i\n"
    else if origin = [3] then textBytes "/z" else [])

def ownIgnored : Ignore.Rules :=
  [⟨[.literal 'b'], false, false⟩, ⟨[.literal 'b', .literal '/', .literal 'y'], true, false⟩,
    ⟨[.literal '.', .literal 'i'], false, false⟩]

lemma shielding_wellFormed : shielding.WellFormed := by
  have hd :
      Entry.WellFormed (.dir .ofDir none [(".i", .file .ofFile [3]),
      ("z", .file .ofFile [4])]) := by
    refine .dir (by decide) (by decide) (by simp) fun c hc => ?_
    simp only [List.mem_cons, List.not_mem_nil, or_false] at hc
    rcases hc with rfl | rfl <;> exact .file
  refine .dir (by decide) (by decide) (fun ps hps => ?_) fun c hc => ?_
  · rw [← Option.some_inj.mp hps]
    cbv
  · simp only [shielding, List.mem_cons, List.not_mem_nil, or_false] at hc
    rcases hc with rfl | rfl | rfl
    · exact .file
    · refine .dir (by decide) (by decide) (by simp) fun c hc => ?_
      rw [List.mem_singleton.mp hc]
      exact .file
    · refine .dir (by decide) (by decide) (by simp) fun c hc => ?_
      rw [List.mem_singleton.mp hc]
      exact hd

lemma ownRules_shielding : shielding.ownRules ignoreFiles ".i" = .ok (some ownIgnored) := by cbv

lemma applyIgnore_shielding : (shielding.applyIgnore ignoreFiles ".i").result = .ok () := by
  have hs : shielding.swept ownIgnored = ⟨.ok (), shielded⟩ := rfl
  change ((shielding.prune ignoreFiles ".i").andThen _).result = _
  rw [prune_eq _ _ shielding_wellFormed, ownRules_shielding]
  dsimp only
  rw [hs]
  rfl

theorem applyIgnore_survivors_shielding :
    (shielding.applyIgnore ignoreFiles ".i").tree.at? ["b", "y"] = none ∧
      (shielding.applyIgnore ignoreFiles ".i").tree.at? [".i"] = none ∧
      (shielding.applyIgnore ignoreFiles ".i").tree.at? ["c", "d", "z"] =
        some (.file .ofFile [4]) := by
  obtain ⟨hiff, _, hgone, hshield⟩ :=
    applyIgnore_survivors shielding_wellFormed applyIgnore_shielding
  have hr : shielding.HasRules ignoreFiles ".i" [] ownIgnored :=
    ⟨.ofFile, [1], _, rfl, rfl, by cbv⟩
  have ha : shielding.Active ignoreFiles ".i" [] :=
    Dir.active_iff.mpr ⟨fun q hq hne => absurd (List.prefix_nil.mp hq) hne, ⟨.ofFile, [1], rfl⟩,
      spared_nil _⟩
  refine ⟨hgone [] ["b"] _ ha (by decide) ⟨ownIgnored, .dir .ofDir, hr, rfl, by cbv⟩ (by decide),
    hgone [] [".i"] _ ha (by decide) ⟨ownIgnored, .file .ofFile [1], hr, rfl, by cbv⟩
      (by decide), ?_⟩
  refine (hshield ["c"] ["c", "d", "z"] (fun a origin h => by cases h) (by decide) _).mpr ⟨rfl, ?_⟩
  rintro t ht hne _ s hs hts ⟨rules, b, hr', hb, hi⟩
  obtain rfl : t = [] := List.prefix_nil.mp ((List.prefix_concat_iff.mp ht).resolve_left hne)
  obtain rfl := hr.unique hr'
  rw [List.nil_append, ← List.mem_inits] at hts
  have hc : ownIgnored.ignores (Path.render ["c"]) true = false := by cbv
  have hd : ownIgnored.ignores (Path.render ["c", "d"]) true = false := by cbv
  have hz : ownIgnored.ignores (Path.render ["c", "d", "z"]) false = false := by cbv
  simp only [List.inits, List.map_cons, List.map_nil, List.mem_cons, List.not_mem_nil, or_false]
    at hts
  rcases hts with rfl | rfl | rfl | rfl
  · exact hs rfl
  · cases hb
    cases hc.symm.trans hi
  · cases hb
    cases hd.symm.trans hi
  · cases hb
    cases hz.symm.trans hi

end Dir

end TarRecipe
