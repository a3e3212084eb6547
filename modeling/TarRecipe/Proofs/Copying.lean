import Mathlib
import TarRecipe.Proofs.Selection
import TarRecipe.Proofs.Tree.Layers
import TarRecipe.Proofs.Tree.Search

/-! Copies of several entries, which may go over one another. -/

namespace TarRecipe

open Outcome

namespace Directive

variable (source : Dir) (patterns : List String) (dest : String)

def IntoDirectory : Prop :=
  Path.endsInSlash dest = true ∨ ∃ p q, p ≠ q ∧ source.Selects patterns p ∧
    source.Selects patterns q

open scoped Classical in
noncomputable def destination (p : Path) : Path :=
  if IntoDirectory source patterns dest then Path.parse (dest ++ "/" ++ p.name) else Path.parse dest

/-- The selected entry at `p` brings this to the path `q`. -/
def Provides (p q : Path) (b : Binding) : Prop :=
  source.Selects patterns p ∧ ∃ r, q = destination source patterns dest p ++ r ∧
    source.at? (p ++ r) = some b

def Joins (d : Dir) (q : Path) (b : Binding) : Prop :=
  d.at? q = some b ∨ ∃ p, Provides source patterns dest p q b

structure Fits (d : Dir) : Prop where
  reaches (p : Path) : source.Selects patterns p → d.Reaches (destination source patterns dest p)
  root (p : Path) : source.Selects patterns p → destination source patterns dest p = [] →
    ∀ a origin, source.at? p ≠ some (.file a origin)
  kinds (q : Path) (b b' : Binding) : Joins source patterns dest d q b →
    Joins source patterns dest d q b' → b.kind = b'.kind

structure Copied (d t : Dir) : Prop where
  file {p q : Path} {a : Attrs} {origin : Bytes} :
    Provides source patterns dest p q (.file a origin) →
    ∃ p a origin, Provides source patterns dest p q (.file a origin) ∧
      t.at? q = some (.file a origin) ∧
      ∀ p' b, Provides source patterns dest p' q b →
        p' = p ∨ textBytes p'.render < textBytes p.render
  kept {p q : Path} {a a' : Attrs} : Provides source patterns dest p q (.dir a) →
    d.at? q = some (.dir a') → t.at? q = some (.dir a')
  made {p q : Path} {a : Attrs} : Provides source patterns dest p q (.dir a) → d.at? q = none →
    ∃ p a, Provides source patterns dest p q (.dir a) ∧ t.at? q = some (.dir a) ∧
      ∀ p' b, Provides source patterns dest p' q b →
        p' = p ∨ textBytes p.render < textBytes p'.render
  missing {p q : Path} : source.Selects patterns p → q.Above (destination source patterns dest p) →
    d.at? q = none → t.at? q = some (.dir .ofDir)
  same {q : Path} : (∀ p b, ¬ Provides source patterns dest p q b) →
    (∀ p, source.Selects patterns p → q.Above (destination source patterns dest p) →
      d.at? q ≠ none) → t.at? q = d.at? q

variable {source : Dir} {patterns : List String} {dest : String} {d : Dir} {p q : Path}

/-! ## Destinations -/

lemma target_of_slash (h : Path.endsInSlash dest = true) (hc : p.Clean) (hp : p ≠ []) :
    Path.parse (target dest p.render) = Path.parse dest ++ [p.name] := by
  rw [target, if_pos h, Path.parse_render hc, Path.parse_join,
    Path.parse_append_name _ (hc.name hp)]

lemma parse_target {texts : List String}
    (h : 1 < texts.length ↔ ∃ p q, p ≠ q ∧ source.Selects patterns p ∧ source.Selects patterns q)
    (hc : p.Clean) (hp : p ≠ []) :
    Path.parse (target (asDirectory dest texts) p.render) = destination source patterns dest p := by
  rw [destination, IntoDirectory, ← h, Path.parse_append_name _ (hc.name hp)]
  by_cases hd : Path.endsInSlash dest = true
  · rw [asDirectory, if_neg (by simp [hd]), target_of_slash hd hc hp, if_pos (.inl hd)]
  · by_cases hl : 1 < texts.length
    · have hs : Path.endsInSlash (dest ++ "/") = true := by simp [Path.endsInSlash]
      rw [asDirectory, if_pos ⟨hl, by simpa using hd⟩, target_of_slash hs hc hp,
        Path.parse_append_slash, if_pos (.inr hl)]
    · rw [asDirectory, if_neg fun h => hl h.1, target, if_neg hd, if_neg (not_or.mpr ⟨hd, hl⟩)]

open scoped Classical in
noncomputable def landing (source : Dir) (patterns : List String) (dest : String) : Path :=
  if IntoDirectory source patterns dest then Path.parse dest else (Path.parse dest).parent

lemma parent_destination (hc : p.Clean) (hp : p ≠ []) :
    (destination source patterns dest p).parent = landing source patterns dest := by
  rw [destination, landing, Path.parse_append_name _ (hc.name hp)]
  split
  · exact List.dropLast_concat
  · rfl

/-! ## Copies as layers -/

noncomputable def brought (source : Dir) (patterns : List String) (dest : String) (p q : Path) :
    Option Binding :=
  (source.find? p).bind fun e => e.offered (destination source patterns dest p) q

lemma brought_eq_some_iff (hp : source.Selects patterns p) {b : Binding} :
    brought source patterns dest p q = some b ↔ Provides source patterns dest p q b := by
  obtain ⟨e, he⟩ := Option.ne_none_iff_exists'.mp (Dir.at?_eq_none_iff.not.mp hp.2.1)
  have hat (r : Path) : source.at? (p ++ r) = e.at? r := by
    rw [Dir.at?_append, he, Option.bind_some]
  rw [brought, he, Option.bind_some, Provides]
  simp only [hat, hp, true_and]
  constructor
  · intro hb
    by_cases hq : destination source patterns dest p <+: q
    · obtain ⟨r, rfl⟩ := hq
      exact ⟨r, rfl, by rwa [Dir.offered_append] at hb⟩
    · rw [Entry.offered, if_neg hq] at hb
      cases hb
  · rintro ⟨r, rfl, hr⟩
    rwa [Dir.offered_append]

lemma copyOne_lays (hs : source.WellFormed) (hp : source.Selects patterns p) {text : String}
    (ht : Path.parse (target text p.render) = destination source patterns dest p) (d : Dir) :
    d.Lays (landing source patterns dest) (fun q => [brought source patterns dest p q])
      (copyOne source text p.render d) := by
  have hc := hp.clean hs
  obtain ⟨e, he⟩ := Option.ne_none_iff_exists'.mp (Dir.at?_eq_none_iff.not.mp hp.2.1)
  have hget : source.getEntry p.render = .ok e := by
    rw [Dir.getEntry_eq_ok_iff, Path.parse_render hc]
    exact ⟨hp.1, he⟩
  have hadd := Dir.add_lays (Entry.WellFormed.find? hs he) (target text p.render) d
  rw [ht, parent_destination hc hp.1] at hadd
  simpa only [copyOne, hget, brought, he, Option.bind_some] using hadd

lemma relist_lays {above : Path} {offers : Path → List (Option Binding)} {o : Outcome Unit}
    (h : d.Lays above offers o) :
    d.Lays above offers (o.andThen fun _ t => relist t) := by
  obtain ⟨r, t⟩ := o
  cases r with
  | error e => exact h
  | ok x =>
    refine ⟨h.ok_iff, fun _ q => ?_⟩
    exact (Entry.at?_relist t.toEntry q).trans (h.bound rfl q)

lemma one_lt_length_iff {ps : List Path} (h : ps.Pairwise fun p q => p.render < q.render) :
    1 < ps.length ↔ ∃ p q, p ≠ q ∧ p ∈ ps ∧ q ∈ ps := by
  match ps with
  | [] => simp
  | [p] => simp [eq_comm]
  | p :: q :: ps =>
    refine iff_of_true (by simp) ⟨p, q, ?_, by simp, by simp⟩
    rintro rfl
    exact lt_irrefl _ ((List.pairwise_cons.mp h).1 p List.mem_cons_self)

structure Enumerates (source : Dir) (patterns : List String) (ps : List Path) : Prop where
  mem_iff (p : Path) : p ∈ ps ↔ source.Selects patterns p
  ascending : ps.Pairwise fun p q => p.render < q.render

lemma copy_lays (hs : source.WellFormed) (hne : patterns ≠ [])
    (hr : ∀ pattern ∈ patterns, Glob.Readable pattern) (dest : String) (d : Dir) :
    (∀ p, ¬ source.Selects patterns p) ∧ copy.run source (patterns ++ [dest]) d = ⟨.ok (), d⟩ ∨
    ∃ ps : List Path, ps ≠ [] ∧ Enumerates source patterns ps ∧
      d.Lays (landing source patterns dest)
        (fun q => ps.map fun p => brought source patterns dest p q)
        (copy.run source (patterns ++ [dest]) d) := by
  obtain ⟨globs, hg⟩ := Glob.exists_compileAll hr
  obtain ⟨ps, hsel, hps, hlt⟩ := Dir.exists_select_listed hs hg
  obtain ⟨pattern, patterns, rfl⟩ := List.exists_cons_of_ne_nil hne
  rw [run, runCopy, List.dropLast_concat, List.getLast?_concat]
  dsimp only
  rw [hg]
  dsimp only
  rw [hsel]
  cases ps with
  | nil =>
    left
    exact ⟨fun p hp => List.not_mem_nil ((hps p).mpr hp), rfl⟩
  | cons p ps =>
    right
    refine ⟨p :: ps, List.cons_ne_nil p ps, ⟨hps, hlt⟩, relist_lays ?_⟩
    rw [forEach_map]
    refine Dir.forEach_lays (List.cons_ne_nil p ps) (fun p' hp' d => ?_) d
    have hp := (hps p').mp hp'
    refine copyOne_lays hs hp (parse_target ?_ (hp.clean hs) hp.1) d
    rw [List.length_map, one_lt_length_iff hlt]
    simp only [hps]

/-! ## What meets at one path -/

variable {ps : List Path} {b : Binding} {o : Outcome Unit}

-- What is copied lies below the directory it goes to, so that nothing was made where it arrives.
lemma filled_of_provides (hs : source.WellFormed) (h : Provides source patterns dest p q b)
    (d : Dir) :
    d.filled (landing source patterns dest) q = d.at? q := by
  obtain ⟨hp, r, rfl, _⟩ := h
  rw [← parent_destination (hp.clean hs) hp.1, Dir.filled_parent_append]

lemma mem_brought_iff (h : Enumerates source patterns ps) :
    some b ∈ ps.map (fun p => brought source patterns dest p q) ↔
      ∃ p, Provides source patterns dest p q b := by
  rw [List.mem_map]
  constructor
  · rintro ⟨p, hp, hb⟩
    exact ⟨p, (brought_eq_some_iff ((h.mem_iff p).mp hp)).mp hb⟩
  · rintro ⟨p, hb⟩
    exact ⟨p, (h.mem_iff p).mpr hb.1, (brought_eq_some_iff hb.1).mpr hb⟩

lemma pairwise_sameKind_iff {xs : List (Option Binding)} :
    xs.Pairwise SameKind ↔ ∀ b b', some b ∈ xs → some b' ∈ xs → b.kind = b'.kind := by
  constructor
  · intro h b b' hb hb'
    exact some_sameKind_some.mp (List.Pairwise.forall_of_forall
      (fun x _ => SameKind.refl x) h hb hb')
  · intro h
    refine List.pairwise_of_forall_mem_list fun x hx y hy b b' hb hb' => ?_
    exact h b b' (hb ▸ hx) (hb' ▸ hy)

lemma kinds_iff (hs : source.WellFormed) (h : Enumerates source patterns ps) (d : Dir) (q : Path) :
    (d.filled (landing source patterns dest) q :: ps.map
      fun p => brought source patterns dest p q).Pairwise SameKind ↔
      ∀ b b', Joins source patterns dest d q b → Joins source patterns dest d q b' →
        b.kind = b'.kind := by
  simp only [pairwise_sameKind_iff, List.mem_cons, mem_brought_iff h, Joins]
  by_cases hq : ∃ p b, Provides source patterns dest p q b
  · obtain ⟨p, b, hb⟩ := hq
    simp only [filled_of_provides hs hb d, eq_comm]
  · have hnone (b : Binding) : ¬ ∃ p, Provides source patterns dest p q b :=
      fun ⟨p, hb⟩ => hq ⟨p, b, hb⟩
    simp only [hnone, or_false]
    constructor <;> intro _ b b' hb hb'
    · rw [Option.some_inj.mp (hb.symm.trans hb')]
    · rw [Option.some_inj.mp (hb.trans hb'.symm)]

-- A file that comes to the root meets the directory that is there.
lemma Fits.of_kinds
    (h : ∀ p, source.Selects patterns p → d.Reaches (destination source patterns dest p))
    (hk : ∀ q b b', Joins source patterns dest d q b → Joins source patterns dest d q b' →
      b.kind = b'.kind) :
    Fits source patterns dest d := by
  refine ⟨h, fun p hp hroot a origin hat => ?_, hk⟩
  have hb : Provides source patterns dest p [] (.file a origin) := by
    refine ⟨hp, [], ?_, ?_⟩
    · rw [hroot, List.append_nil]
    · rw [List.append_nil, hat]
  cases hk [] (.dir d.attrs) (.file a origin) (.inl (Dir.at?_nil d)) (.inr ⟨p, hb⟩)

lemma fits_iff (hs : source.WellFormed) (hne : ps ≠ []) (h : Enumerates source patterns ps)
    (d : Dir) :
    (¬ d.FileOn (landing source patterns dest) ∧
      ∀ q, (d.filled (landing source patterns dest) q :: ps.map
      fun p => brought source patterns dest p q).Pairwise SameKind) ↔
        Fits source patterns dest d := by
  have hreach {p : Path} (hp : source.Selects patterns p) :
      d.Reaches (destination source patterns dest p) ↔
        ¬ d.FileOn (landing source patterns dest) := by
    rw [Dir.reaches_iff_parent, parent_destination (hp.clean hs) hp.1]
  simp only [kinds_iff hs h d]
  constructor
  · rintro ⟨hf, hk⟩
    exact .of_kinds (fun p hp => (hreach hp).mpr hf) hk
  · intro hfits
    obtain ⟨p, hp⟩ := List.exists_mem_of_ne_nil ps hne
    have hp := (h.mem_iff p).mp hp
    exact ⟨(hreach hp).mp (hfits.reaches p hp), hfits.kinds⟩

/-! ## What is left -/

lemma above_iff_landing (hs : source.WellFormed) (hp : source.Selects patterns p) :
    q.Above (destination source patterns dest p) ↔ q ≠ [] ∧ q <+: landing source patterns dest := by
  rw [← parent_destination (hp.clean hs) hp.1]
  by_cases hd : destination source patterns dest p = []
  · rw [hd]
    constructor
    · exact fun h => ⟨h.1, h.2.1⟩
    · exact fun h => absurd (List.prefix_nil.mp h.2) h.1
  · exact Path.above_iff hd

lemma eq_or_lt_of_ascending {before after : List Path} {x : Path}
    (h : (before ++ x :: after).Pairwise fun p q => p.render < q.render)
    (hp : p ∈ before ++ x :: after) :
    (p ∉ after → p = x ∨ textBytes p.render < textBytes x.render) ∧
      (p ∉ before → p = x ∨ textBytes x.render < textBytes p.render) := by
  obtain ⟨_, htail, hbefore⟩ := List.pairwise_append.mp h
  rw [List.mem_append, List.mem_cons] at hp
  constructor <;> intro hn
  · rcases hp with hp | rfl | hp
    · exact .inr (textBytes_lt_textBytes (hbefore p hp x List.mem_cons_self))
    · exact .inl rfl
    · exact absurd hp hn
  · rcases hp with hp | rfl | hp
    · exact absurd hp hn
    · exact .inl rfl
    · exact .inr (textBytes_lt_textBytes ((List.pairwise_cons.mp htail).1 p hp))

lemma mem_of_provides (h : Enumerates source patterns ps)
    (hb : Provides source patterns dest p q b) :
    p ∈ ps ∧ brought source patterns dest p q ≠ none :=
  ⟨(h.mem_iff p).mpr hb.1, by simp [(brought_eq_some_iff hb.1).mpr hb]⟩

lemma exists_provider_at {before after : List Path} {x : Path}
    (h : Enumerates source patterns (before ++ x :: after))
    (hx : brought source patterns dest x q ≠ none) :
    ∃ c, brought source patterns dest x q = some c ∧ Provides source patterns dest x q c ∧
      ∀ p b, Provides source patterns dest p q b → brought source patterns dest p q ≠ none ∧
        (p ∉ after → p = x ∨ textBytes p.render < textBytes x.render) ∧
        (p ∉ before → p = x ∨ textBytes x.render < textBytes p.render) := by
  obtain ⟨c, hc⟩ := Option.ne_none_iff_exists'.mp hx
  have hsel := (h.mem_iff x).mp (List.mem_append_right _ List.mem_cons_self)
  refine ⟨c, hc, (brought_eq_some_iff hsel).mp hc, fun p b hb => ?_⟩
  obtain ⟨hp, hne⟩ := mem_of_provides h hb
  exact ⟨hne, eq_or_lt_of_ascending h.ascending hp⟩

lemma copied_of_lays (hs : source.WellFormed) (hne : ps ≠ []) (h : Enumerates source patterns ps)
    (hl : d.Lays (landing source patterns dest)
      (fun q => ps.map fun p => brought source patterns dest p q) o)
    (hok : o.result = .ok ()) : Copied source patterns dest d o.tree := by
  obtain ⟨_, hk⟩ := hl.ok_iff.mp hok
  have hkind {p p' q : Path} {b b' : Binding} (hb : Provides source patterns dest p q b)
      (hb' : Provides source patterns dest p' q b') : b.kind = b'.kind :=
    (kinds_iff hs h d q).mp (hk q) b b' (.inr ⟨p, hb⟩) (.inr ⟨p', hb'⟩)
  have hdir (q : Path) (a : Attrs)
      (ha : d.filled (landing source patterns dest) q = some (.dir a)) :
      o.tree.at? q = some (.dir a) := by
    have hq := hk q
    rw [ha] at hq
    rw [hl.bound hok, ha]
    exact foldl_joint_dir (List.pairwise_cons.mp hq).1
  constructor
  case file =>
    intro p q a origin hb
    -- each file takes the place of the one before it, so the last one stays
    obtain ⟨before, x, after, rfl, hx, hafter⟩ :=
      exists_last (P := fun x => brought source patterns dest x q ≠ none)
      ⟨p, mem_of_provides h hb⟩
    obtain ⟨c, hc, hcx, horder⟩ := exists_provider_at h hx
    cases c with
    | dir a' => cases hkind hb hcx
    | file a' origin' =>
      refine ⟨x, a', origin', hcx, ?_, fun p' b hb' => ?_⟩
      · rw [hl.bound hok]
        exact foldl_layers_file (f := fun p => brought source patterns dest p q) hc hafter _
      · obtain ⟨hne, hlast, _⟩ := horder p' b hb'
        exact hlast fun hm => hafter p' hm hne
  case kept =>
    intro p q a a' hb hat
    exact hdir q a' (by rw [filled_of_provides hs hb, hat])
  case made =>
    intro p q a hb hat
    -- a directory keeps its attributes when others join it, so those of the first one stay
    obtain ⟨before, x, after, rfl, hx, hbefore⟩ :=
      exists_first (P := fun x => brought source patterns dest x q ≠ none)
      ⟨p, mem_of_provides h hb⟩
    obtain ⟨c, hc, hcx, horder⟩ := exists_provider_at h hx
    cases c with
    | file a' origin' => cases hkind hb hcx
    | dir a' =>
      refine ⟨x, a', hcx, ?_, fun p' b hb' => ?_⟩
      · rw [hl.bound hok, filled_of_provides hs hb, hat]
        have htail := (List.pairwise_cons.mp (hk q)).2
        exact foldl_layers_dir (f := fun p => brought source patterns dest p q) htail hc hbefore
      · obtain ⟨hne, _, hfirst⟩ := horder p' b hb'
        exact hfirst fun hm => hbefore p' hm hne
  case missing =>
    intro p q hp hq hat
    refine hdir q .ofDir ?_
    rw [Dir.filled, if_pos ⟨((above_iff_landing hs hp).mp hq).2, hat⟩]
  case same =>
    intro q hno hq
    have hnone : ∀ y ∈ ps.map (fun p => brought source patterns dest p q), y = none := by
      refine List.forall_mem_map.mpr fun p hp => Option.eq_none_iff_forall_ne_some.mpr
        fun b hb => ?_
      exact hno p b ((brought_eq_some_iff ((h.mem_iff p).mp hp)).mp hb)
    rw [hl.bound hok, foldl_joint_none hnone, Dir.filled, if_neg]
    rintro ⟨hpre, hat⟩
    obtain ⟨p, hp⟩ := List.exists_mem_of_ne_nil ps hne
    have hp := (h.mem_iff p).mp hp
    have hqn : q ≠ [] := by
      rintro rfl
      cases hat
    exact hq p hp ((above_iff_landing hs hp).mpr ⟨hqn, hpre⟩) hat

lemma copy_ok_iff (hs : source.WellFormed) (hne : patterns ≠ [])
    (hr : ∀ pattern ∈ patterns, Glob.Readable pattern) (dest : String) (d : Dir) :
    (copy.run source (patterns ++ [dest]) d).result = .ok () ↔
      (∀ p, ¬ source.Selects patterns p) ∨ Fits source patterns dest d := by
  rcases copy_lays hs hne hr dest d with ⟨hnone, hrun⟩ | ⟨ps, hps, hmem, hl⟩
  · rw [hrun]
    exact iff_of_true rfl (.inl hnone)
  · obtain ⟨p, hp⟩ := List.exists_mem_of_ne_nil ps hps
    have hsome : ¬ ∀ p, ¬ source.Selects patterns p := fun hnone => hnone p ((hmem.mem_iff p).mp hp)
    rw [hl.ok_iff, fits_iff hs hps hmem, or_iff_right hsome]

lemma copy_copied (hs : source.WellFormed) (hne : patterns ≠ [])
    (hr : ∀ pattern ∈ patterns, Glob.Readable pattern) (dest : String) (d : Dir)
    (hok : (copy.run source (patterns ++ [dest]) d).result = .ok ()) :
    Copied source patterns dest d (copy.run source (patterns ++ [dest]) d).tree := by
  rcases copy_lays hs hne hr dest d with ⟨hnone, hrun⟩ | ⟨ps, hps, hmem, hl⟩
  · rw [hrun]
    have hno (p q : Path) (b : Binding) : ¬ Provides source patterns dest p q b :=
      fun hb => hnone p hb.1
    exact ⟨fun hb => absurd hb (hno _ _ _), fun hb => absurd hb (hno _ _ _),
      fun hb => absurd hb (hno _ _ _),
      fun hp => absurd hp (hnone _), fun _ _ => rfl⟩
  · exact copied_of_lays hs hps hmem hl hok

/-- Copies go through if nothing is selected or nothing is in the way. What is left are the files of
the greatest and the directories of the least path that provide them, but directories that were
there and all else have stayed. -/
theorem copy_last_wins (hs : source.WellFormed) (hne : patterns ≠ [])
    (hr : ∀ pattern ∈ patterns, Glob.Readable pattern) (dest : String) (d : Dir) :
    ((copy.run source (patterns ++ [dest]) d).result = .ok () ↔
      (∀ p, ¬ source.Selects patterns p) ∨ Fits source patterns dest d) ∧
    ((copy.run source (patterns ++ [dest]) d).result = .ok () →
      Copied source patterns dest d (copy.run source (patterns ++ [dest]) d).tree) :=
  ⟨copy_ok_iff hs hne hr dest d, copy_copied hs hne hr dest d⟩

/-! Two directories of one name become one, with the second's file and the first's attributes. -/

def twins : Dir :=
  ⟨.ofDir, none,
    [("d", .dir ⟨0o700, "root", "root"⟩ none [("f", .file .ofFile [1])]),
     ("e", .dir .ofDir none [("d", .dir .ofDir none [("f", .file .ofFile [2])])])]⟩

lemma twins_wellFormed : twins.WellFormed := by
  have hname : Path.IsName "d" ∧ Path.IsName "e" ∧ Path.IsName "f" := by decide
  have hlt : "d" < "e" := by decide
  have hone {name : String} {e : Entry} (hn : Path.IsName name) (he : e.WellFormed) (a : Attrs) :
      Entry.WellFormed (.dir a none [(name, e)]) :=
    .dir (by simp [Children.Ascending]) (by simp [hn]) (by simp) (by simp [he])
  have hd (a : Attrs) (origin : Bytes) :
      Entry.WellFormed (.dir a none [("f", .file .ofFile origin)]) :=
    hone hname.2.2 .file a
  have he := hone hname.1 (hd .ofDir [2]) .ofDir
  exact .dir (List.pairwise_pair.mpr hlt) (by simp [twins, hname]) (by simp [twins])
    (by simp [twins, hd, he])

theorem copy_last_wins_twins :
    (copy.run twins ["d", "?/d", "/"] .empty).result = .ok () ∧
      (copy.run twins ["d", "?/d", "/"] .empty).tree.at? ["d", "f"] = some (.file .ofFile [2]) ∧
      (∃ p a origin, Provides twins ["d", "?/d"] "/" p ["d", "f"] (.file a origin) ∧
        (copy.run twins ["d", "?/d", "/"] .empty).tree.at? ["d", "f"] = some (.file a origin) ∧
        ∀ p' b, Provides twins ["d", "?/d"] "/" p' ["d", "f"] b →
        p' = p ∨ textBytes p'.render < textBytes p.render) ∧
      (copy.run twins ["d", "?/d", "/"] .empty).tree.at? ["d"] =
        some (.dir ⟨0o700, "root", "root"⟩) := by
  have hd : Glob.compile "d" = .ok ⟨[.literal 'd']⟩ := by cbv
  have hany : Glob.compile "?/d" = .ok ⟨[.anyOne, .literal '/', .literal 'd']⟩ := by cbv
  have hr : ∀ pattern ∈ ["d", "?/d"], Glob.Readable pattern :=
    List.forall_mem_cons.mpr ⟨⟨_, hd⟩, List.forall_mem_singleton.mpr ⟨_, hany⟩⟩
  have hok : (copy.run twins ["d", "?/d", "/"] .empty).result = .ok () := by cbv
  obtain ⟨_, hcopied⟩ := copy_last_wins twins_wellFormed (List.cons_ne_nil _ _) hr "/" .empty
  have hfirst : Provides twins ["d", "?/d"] "/" ["d"] ["d", "f"] (.file .ofFile [1]) := by
    refine ⟨⟨by decide, by decide, "d", List.mem_cons_self, (Glob.matches_iff hd).mpr (by cbv)⟩,
      ["f"], ?_, rfl⟩
    rw [destination, if_pos (.inl (by decide)), Path.parse_append_name "/" (by decide)]
    decide
  exact ⟨hok, by cbv, (hcopied hok).file hfirst, by cbv⟩

end Directive

end TarRecipe
