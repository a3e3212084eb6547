import Mathlib.Data.List.Basic
import Mathlib.Tactic.Common
import TarRecipe.Proofs.Disk.Change

/-! Where the segments of a path lead. -/

namespace TarRecipe.Disk

structure IsStep (name : Bytes) : Prop where
  goes : ¬ (name = [] ∨ name = [Pathname.dot])
  ne_dots : name ≠ [Pathname.dot, Pathname.dot]
  length_le : ¬ maxName < name.length

/-- From the directory `above`, the segments lead to the directory `d`, and `l` of the links that
may be followed are left. -/
inductive Leads (root : Node) : Nat → Place → List Bytes → Nat → Place → Prop
  | done {links above} : Leads root links above [] links above
  | stay {links above name rest l d} : name = [] ∨ name = [Pathname.dot] →
    Leads root links above rest l d →
    Leads root links above (name :: rest) l d
  | up {links above rest l d} : Leads root links above.tail rest l d →
    Leads root links above ([Pathname.dot, Pathname.dot] :: rest) l d
  | down {links above name rest l d perm entries} : IsStep name →
    root.at? (name :: above).reverse = some (.directory perm entries) →
    Leads root links (name :: above) rest l d →
    Leads root links above (name :: rest) l d
  | link {links above name rest l d target} : IsStep name →
    root.at? (name :: above).reverse = some (.link target) →
    Leads root links (if target.isAbsolute then [] else above) (target.segments ++ rest) l d →
    Leads root (links + 1) above (name :: rest) l d

inductive Finds (root : Node) (last : Bool) : Nat → Place → List Bytes → Found → Prop
  | here {links above node} : root.at? above.reverse = some node →
    Finds root last links above [] (.node above.reverse node)
  | stay {links above name rest found} : name = [] ∨ name = [Pathname.dot] →
    Finds root last links above rest found →
    Finds root last links above (name :: rest) found
  | up {links above rest found} : Finds root last links above.tail rest found →
    Finds root last links above ([Pathname.dot, Pathname.dot] :: rest) found
  | down {links above name rest found perm entries} : IsStep name →
    root.at? (name :: above).reverse = some (.directory perm entries) →
    Finds root last links (name :: above) rest found →
    Finds root last links above (name :: rest) found
  | link {links above name rest found target} : IsStep name →
    root.at? (name :: above).reverse = some (.link target) → (rest = [] → last = true) →
    Finds root last links (if target.isAbsolute then [] else above)
      (target.segments ++ rest) found →
    Finds root last (links + 1) above (name :: rest) found
  | stop {links above name node} : IsStep name → root.at? (name :: above).reverse = some node →
    (∀ perm entries, node ≠ .directory perm entries) →
    (last = true → ∀ target, node ≠ .link target) →
    Finds root last links above [name] (.node (name :: above).reverse node)
  | absent {links above name} : IsStep name → root.at? (name :: above).reverse = none →
    Finds root last links above [name] (.absent (name :: above).reverse)
  | absentDirectory {links above name rest} : IsStep name →
    root.at? (name :: above).reverse = none → rest ≠ [] → rest.all (· = []) = true →
    Finds root last links above (name :: rest) .absentDirectory

variable {root root' : Node} {last : Bool} {links l l' : Nat} {above d d' place t : Place}
  {name : Bytes} {rest ss ss' ts : List Bytes} {found : Found} {perm : UInt32}
  {entries : List (Bytes × Node)}

/-! ## One segment -/

lemma follow_nil (root : Node) (last : Bool) (links : Nat) (above : Place) :
    follow root last links above [] =
      match root.at? above.reverse with
      | some node => .ok (.node above.reverse node)
      | none => .error .missing := by
  unfold follow
  rfl

lemma follow_stay (h : name = [] ∨ name = [Pathname.dot]) (rest : List Bytes) :
    follow root last links above (name :: rest) = follow root last links above rest := by
  rw [follow, if_pos h]

lemma follow_up (root : Node) (last : Bool) (links : Nat) (above : Place) (rest : List Bytes) :
    follow root last links above ([Pathname.dot, Pathname.dot] :: rest) =
      follow root last links above.tail rest := by
  rw [follow, if_neg (by decide), if_pos rfl]

lemma follow_step (h : IsStep name) (rest : List Bytes) :
    follow root last links above (name :: rest) =
      match root.at? (name :: above).reverse with
      | some (.directory ..) => follow root last links (name :: above) rest
      | some (.link target) =>
        if rest = [] ∧ !last then .ok (.node (name :: above).reverse (.link target))
        else
          match links with
          | 0 => .error .tooManyLinks
          | links + 1 => follow root last links (if target.isAbsolute then [] else above)
            (target.segments ++ rest)
      | some node =>
        if rest = [] then .ok (.node (name :: above).reverse node) else .error .notDirectory
      | none =>
        if rest = [] then .ok (.absent (name :: above).reverse)
        else if rest.all (· = []) then .ok .absentDirectory
        else .error .missing := by
  rw [follow]
  exact (if_neg h.goes).trans ((if_neg h.ne_dots).trans (if_neg h.length_le))

/-! ## Lookups that succeed -/

lemma Finds.follow (h : Finds root last links above ss found) :
    follow root last links above ss = .ok found := by
  induction h with
  | here hat => rw [follow_nil, hat]
  | stay hn _ ih => rw [follow_stay hn, ih]
  | up _ ih => rw [follow_up, ih]
  | down hs hat _ ih =>
    rw [follow_step hs, hat]
    exact ih
  | link hs hat hgo _ ih =>
    rw [follow_step hs, hat]
    refine (if_neg ?_).trans ih
    rintro ⟨hnil, hl⟩
    rw [hgo hnil] at hl
    cases hl
  | @stop _ _ _ node hs hat hnd hnl =>
    rw [follow_step hs, hat]
    cases node with
    | directory perm entries => exact absurd rfl (hnd perm entries)
    | link target =>
      cases last with
      | false => rfl
      | true => exact absurd rfl (hnl rfl target)
    | file => rfl
    | special => rfl
  | absent hs hat =>
    rw [follow_step hs, hat]
    rfl
  | absentDirectory hs hat hne hall =>
    rw [follow_step hs, hat]
    exact (if_neg hne).trans (if_pos hall)

lemma finds_of_step (hn : IsStep name) (h : follow root last links above (name :: rest) = .ok found)
    (hdown : follow root last links (name :: above) rest = .ok found →
      Finds root last links (name :: above) rest found)
    (hlink : ∀ l < links, ∀ above ss, follow root last l above ss = .ok found →
      Finds root last l above ss found) :
    Finds root last links above (name :: rest) found := by
  rw [follow_step hn] at h
  cases hat : root.at? (name :: above).reverse with
  | none =>
    rw [hat] at h
    dsimp only at h
    split_ifs at h with hend hall
    · subst hend
      rw [← Except.ok.inj h]
      exact .absent hn hat
    · rw [← Except.ok.inj h]
      exact .absentDirectory hn hat hend hall
  | some node =>
    rw [hat] at h
    have hstop (hrest : rest = []) (hf : Found.node (name :: above).reverse node = found)
        (hnd : ∀ perm entries, node ≠ .directory perm entries) (hnl : last = true → ∀ target,
          node ≠ .link target) :
        Finds root last links above (name :: rest) found := by
      subst hrest hf
      exact .stop hn hat hnd hnl
    cases node with
    | directory perm entries => exact .down hn hat (hdown h)
    | link target =>
      dsimp only at h
      by_cases hlast : rest = [] ∧ (!last) = true
      · rw [if_pos hlast] at h
        refine hstop hlast.1 (Except.ok.inj h) nofun fun hl => ?_
        rw [hl] at hlast
        cases hlast.2
      · rw [if_neg hlast] at h
        cases links with
        | zero => cases h
        | succ l =>
          refine .link hn hat (fun hnil => ?_) (hlink l (Nat.lt_succ_self l) _ _ h)
          simpa [hnil] using hlast
    | file perm data =>
      dsimp only at h
      split_ifs at h with hend
      exact hstop hend (Except.ok.inj h) nofun fun _ => nofun
    | special opened =>
      dsimp only at h
      split_ifs at h with hend
      exact hstop hend (Except.ok.inj h) nofun fun _ => nofun

lemma finds_of_follow (h : follow root last links above ss = .ok found) :
    Finds root last links above ss found := by
  -- a target can be longer than the path that goes through the link, so the links are counted first
  induction links using Nat.strongRecOn generalizing above ss with
  | ind links ihl =>
    induction ss generalizing above with
    | nil =>
      rw [follow_nil] at h
      cases hat : root.at? above.reverse with
      | none =>
        rw [hat] at h
        cases h
      | some node =>
        rw [hat] at h
        rw [← Except.ok.inj h]
        exact .here hat
    | cons name ss ih =>
      by_cases hgoes : name = [] ∨ name = [Pathname.dot]
      · rw [follow_stay hgoes] at h
        exact .stay hgoes (ih h)
      by_cases hdots : name = [Pathname.dot, Pathname.dot]
      · subst hdots
        rw [follow_up] at h
        exact .up (ih h)
      by_cases hlong : maxName < name.length
      · rw [Disk.follow, if_neg hgoes, if_neg hdots, if_pos hlong] at h
        cases h
      exact finds_of_step ⟨hgoes, hdots, hlong⟩ h ih fun l hl _ _ => ihl l hl

/-! ## Ways to directories -/

lemma Leads.follow_append (h : Leads root links above ss l d) (ht : ts ≠ [] ∨ last = true) :
    follow root last links above (ss ++ ts) = follow root last l d ts := by
  induction h with
  | done => rfl
  | stay hn _ ih => rw [List.cons_append, follow_stay hn, ih]
  | up _ ih => rw [List.cons_append, follow_up, ih]
  | down hn hat _ ih =>
    rw [List.cons_append, follow_step hn, hat]
    exact ih
  | @link _ _ _ rest _ _ _ hn hat _ ih =>
    have hgo : ¬ (rest ++ ts = [] ∧ (!last) = true) := by
      rintro ⟨hnil, hl⟩
      rcases ht with ht | rfl
      · exact ht (List.append_eq_nil_iff.mp hnil).2
      · cases hl
    rw [List.cons_append, follow_step hn, hat]
    dsimp only
    rw [if_neg hgo, ← List.append_assoc, ih]

def Found.Behind (last : Bool) (ts : List Bytes) (found : Found) : Prop :=
  (∃ name ∈ ts, name ≠ []) ∨ last = true ∧ ∃ place perm entries,
    found = .node place (.directory perm entries)

lemma Found.Behind.exists_of_all (h : found.Behind last ts) (ss : List Bytes)
    (hs : (ss ++ ts).all (· = []) = true) :
    ∃ place perm entries, found = .node place (.directory perm entries) := by
  rcases h with ⟨name, hm, hne⟩ | ⟨-, hd⟩
  · exact absurd (by simpa using List.all_eq_true.mp hs name (List.mem_append_right ss hm)) hne
  · exact hd

lemma exists_leads (h : follow root last links above (ss ++ ts) = .ok found)
    (hb : found.Behind last ts) :
    ∃ l d, Leads root links above ss l d ∧ follow root last l d ts = .ok found := by
  have hf := finds_of_follow h
  clear h
  generalize hw : ss ++ ts = whole at hf
  -- along the lookup of the whole, until the first segments are used up
  induction hf generalizing ss with
  | @here links above node hat =>
    obtain ⟨rfl, rfl⟩ := List.append_eq_nil_iff.mp hw
    exact ⟨links, above, .done, (Finds.here hat).follow⟩
  | @stay links above name rest found hn hf ih =>
    rcases List.append_eq_cons_iff.mp hw with ⟨rfl, rfl⟩ | ⟨ss, rfl, rfl⟩
    · exact ⟨links, above, .done, (Finds.stay hn hf).follow⟩
    · obtain ⟨l, d, hl, hgo⟩ := ih hb rfl
      exact ⟨l, d, .stay hn hl, hgo⟩
  | @up links above rest found hf ih =>
    rcases List.append_eq_cons_iff.mp hw with ⟨rfl, rfl⟩ | ⟨ss, rfl, rfl⟩
    · exact ⟨links, above, .done, (Finds.up hf).follow⟩
    · obtain ⟨l, d, hl, hgo⟩ := ih hb rfl
      exact ⟨l, d, .up hl, hgo⟩
  | @down links above name rest found perm entries hs hat hf ih =>
    rcases List.append_eq_cons_iff.mp hw with ⟨rfl, rfl⟩ | ⟨ss, rfl, rfl⟩
    · exact ⟨links, above, .done, (Finds.down hs hat hf).follow⟩
    · obtain ⟨l, d, hl, hgo⟩ := ih hb rfl
      exact ⟨l, d, .down hs hat hl, hgo⟩
  | @link links above name rest found target hs hat hgoes hf ih =>
    rcases List.append_eq_cons_iff.mp hw with ⟨rfl, rfl⟩ | ⟨ss, rfl, rfl⟩
    · exact ⟨links + 1, above, .done, (Finds.link hs hat hgoes hf).follow⟩
    · obtain ⟨l, d, hl, hgo⟩ := ih hb (List.append_assoc ..)
      exact ⟨l, d, .link hs hat hl, hgo⟩
  | @stop links above name node hs hat hnd hnl =>
    rcases List.append_eq_cons_iff.mp hw with ⟨rfl, rfl⟩ | ⟨ss, rfl, hnil⟩
    · exact ⟨links, above, .done, (Finds.stop hs hat hnd hnl).follow⟩
    · obtain ⟨_, perm, entries, hd⟩ := hb.exists_of_all ss (by rw [← hnil]; rfl)
      exact absurd (Found.node.inj hd).2 (hnd perm entries)
  | @absent links above name hs hat =>
    rcases List.append_eq_cons_iff.mp hw with ⟨rfl, rfl⟩ | ⟨ss, rfl, hnil⟩
    · exact ⟨links, above, .done, (Finds.absent hs hat).follow⟩
    · obtain ⟨_, _, _, hd⟩ := hb.exists_of_all ss (by rw [← hnil]; rfl)
      cases hd
  | @absentDirectory links above name rest hs hat hne hall =>
    rcases List.append_eq_cons_iff.mp hw with ⟨rfl, rfl⟩ | ⟨ss, rfl, rfl⟩
    · exact ⟨links, above, .done, (Finds.absentDirectory hs hat hne hall).follow⟩
    · obtain ⟨_, _, _, hd⟩ := hb.exists_of_all ss hall
      cases hd

lemma Leads.unique (h : Leads root links above ss l d) (h' : Leads root links above ss l' d') :
    l = l' ∧ d = d' := by
  have hdots {name : Bytes} (hn : name = [] ∨ name = [Pathname.dot]) :
      name ≠ [Pathname.dot, Pathname.dot] := by
    rcases hn with rfl | rfl <;> decide
  -- a segment and what is at its place leave no choice of the step
  induction h generalizing l' d' with
  | done =>
    cases h'
    exact ⟨rfl, rfl⟩
  | stay hn _ ih =>
    cases h' with
    | stay _ h' => exact ih h'
    | up => exact absurd rfl (hdots hn)
    | down hs => exact absurd hn hs.goes
    | link hs => exact absurd hn hs.goes
  | up _ ih =>
    cases h' with
    | stay hn => exact absurd rfl (hdots hn)
    | up h' => exact ih h'
    | down hs => exact absurd rfl hs.ne_dots
    | link hs => exact absurd rfl hs.ne_dots
  | down hs hat _ ih =>
    cases h' with
    | stay hn => exact absurd hn hs.goes
    | up => exact absurd rfl hs.ne_dots
    | down _ _ h' => exact ih h'
    | link _ hat' => cases hat.symm.trans hat'
  | link hs hat _ ih =>
    cases h' with
    | stay hn => exact absurd hn hs.goes
    | up => exact absurd rfl hs.ne_dots
    | down _ hat' => cases hat.symm.trans hat'
    | link _ hat' h' =>
      cases hat.symm.trans hat'
      exact ih h'

def spoken (ss : List Bytes) : List Bytes := ss.filter fun s => s ≠ [] ∧ s ≠ [Pathname.dot]

lemma spoken_append (ss ts : List Bytes) : spoken (ss ++ ts) = spoken ss ++ spoken ts :=
  List.filter_append ..

lemma Leads.stays (hs : ∀ s ∈ ss, s = [] ∨ s = [Pathname.dot]) (h : Leads root links above ts l d) :
    Leads root links above (ss ++ ts) l d := by
  induction ss with
  | nil => exact h
  | cons s ss ih =>
    rw [List.forall_mem_cons] at hs
    exact .stay hs.1 (ih hs.2)

lemma quiet_of_spoken_eq_nil (h : spoken ss = []) : ∀ s ∈ ss, s = [] ∨ s = [Pathname.dot] := by
  intro s hs
  have hq := List.filter_eq_nil_iff.mp h s hs
  rwa [decide_eq_true_eq, not_and_or, not_not, not_not] at hq

lemma exists_of_spoken_eq_cons (hn : ¬ (name = [] ∨ name = [Pathname.dot]))
    (h : spoken ss = spoken (name :: rest)) :
    ∃ ts ss', ss = ts ++ name :: ss' ∧ (∀ s ∈ ts, s = [] ∨ s = [Pathname.dot]) ∧
      spoken ss' = spoken rest := by
  rw [not_or] at hn
  have hname : spoken (name :: rest) = name :: spoken rest :=
    List.filter_cons_of_pos (decide_eq_true hn)
  obtain ⟨ts, ss', hs, ht, -, hr⟩ := List.filter_eq_cons_iff.mp (h.trans hname)
  exact ⟨ts, ss', hs, quiet_of_spoken_eq_nil (List.filter_eq_nil_iff.mpr ht), hr⟩

lemma Leads.of_spoken_eq (h : Leads root links above ss l d) (he : spoken ss' = spoken ss) :
    Leads root links above ss' l d := by
  induction h generalizing ss' with
  | done =>
    rw [← List.append_nil ss']
    exact .stays (quiet_of_spoken_eq_nil he) .done
  | stay hn _ ih =>
    refine ih (he.trans (List.filter_cons_of_neg ?_))
    rwa [decide_eq_true_eq, not_and_or, not_not, not_not]
  | up _ ih =>
    obtain ⟨ts, rest, rfl, ht, hr⟩ := exists_of_spoken_eq_cons (by decide) he
    exact .stays ht (.up (ih hr))
  | down hs hat _ ih =>
    obtain ⟨ts, rest, rfl, ht, hr⟩ := exists_of_spoken_eq_cons hs.goes he
    exact .stays ht (.down hs hat (ih hr))
  | link hs hat _ ih =>
    obtain ⟨ts, rest, rfl, ht, hr⟩ := exists_of_spoken_eq_cons hs.goes he
    refine .stays ht (.link hs hat (ih ?_))
    rw [spoken_append, spoken_append, hr]

structure Node.Blocks (node : Node) : Prop where
  not_directory : ∀ perm entries, node ≠ .directory perm entries
  not_link : ∀ target, node ≠ .link target

structure SameWays (t : Place) (root root' : Node) : Prop where
  sameBut : Node.SameBut t root root'
  blocks : ∀ node, root.at? t = some node → node.Blocks

namespace SameWays

variable {node : Node} {target : Pathname} (h : SameWays t root root')
include h

lemma shapeAt (hat : root.at? place = some node) (hb : ¬ node.Blocks) :
    root'.shapeAt place = some node.shape := by
  have hne : place ≠ t := fun he => hb (h.blocks node (he ▸ hat))
  rw [← h.sameBut place hne, Node.shapeAt, hat]
  rfl

lemma directory (hat : root.at? place = some (.directory perm entries)) :
    ∃ entries', root'.at? place = some (.directory perm entries') := by
  obtain ⟨node, hnode, hsh⟩ :=
    Option.map_eq_some_iff.mp (h.shapeAt hat fun hb => hb.not_directory _ _ rfl)
  obtain ⟨entries', rfl⟩ := Node.exists_of_shape_eq_directory hsh
  exact ⟨entries', hnode⟩

lemma link (hat : root.at? place = some (.link target)) : root'.at? place = some (.link target) :=
  Node.at?_of_shapeAt (h.shapeAt hat fun hb => hb.not_link _ rfl) nofun

end SameWays

lemma Leads.congr (h : Leads root links above ss l d) (hs : SameWays t root root') :
    Leads root' links above ss l d := by
  induction h with
  | done => exact .done
  | stay hn _ ih => exact .stay hn ih
  | up _ ih => exact .up ih
  | down hn hat _ ih =>
    obtain ⟨entries', hat'⟩ := hs.directory hat
    exact .down hn hat' ih
  | link hn hat _ ih => exact .link hn (hs.link hat) ih

def Found.EndsAt (t : Place) (found : Found) : Prop :=
  found = .absent t ∨ ∃ node, found = .node t node

lemma Found.EndsAt.eq_of_node {node : Node} (h : (Found.node place node).EndsAt t) : place = t := by
  rcases h with h | ⟨node', h⟩
  · cases h
  · exact (Found.node.inj h).1

lemma Found.EndsAt.eq_of_absent (h : (Found.absent place).EndsAt t) : place = t := by
  rcases h with h | ⟨node, h⟩
  · exact Found.absent.inj h
  · cases h

lemma Finds.congr {node : Node} (h : Finds root true links above ss found) (he : found.EndsAt t)
    (hs : SameWays t root root') (hat : root'.at? t = some node) (hb : node.Blocks) :
    Finds root' true links above ss (.node t node) := by
  induction h with
  | here =>
    obtain rfl := he.eq_of_node
    exact .here hat
  | stay hn _ ih => exact .stay hn (ih he)
  | up _ ih => exact .up (ih he)
  | down hn hd _ ih =>
    obtain ⟨entries', hd'⟩ := hs.directory hd
    exact .down hn hd' (ih he)
  | link hn hl hlast _ ih => exact .link hn (hs.link hl) hlast (ih he)
  | stop hn =>
    obtain rfl := he.eq_of_node
    exact .stop hn hat hb.not_directory fun _ => hb.not_link
  | absent hn =>
    obtain rfl := he.eq_of_absent
    exact .stop hn hat hb.not_directory fun _ => hb.not_link
  | absentDirectory =>
    rcases he with he | ⟨node, he⟩
    · cases he
    · cases he

lemma isDirectoryAt_tail (h : root.IsDirectoryAt above.reverse) :
    root.IsDirectoryAt above.tail.reverse := by
  cases above with
  | nil => exact h
  | cons name above => exact Node.IsDirectoryAt.of_append (List.reverse_cons ▸ h)

lemma isDirectoryAt_target (h : root.IsDirectoryAt above.reverse) (target : Pathname) :
    root.IsDirectoryAt (if target.isAbsolute then [] else above : Place).reverse := by
  split_ifs
  · exact h.root
  · exact h

lemma Leads.directory (h : Leads root links above ss l d) (hd : root.IsDirectoryAt above.reverse) :
    root.IsDirectoryAt d.reverse := by
  induction h with
  | done => exact hd
  | stay _ _ ih => exact ih hd
  | up _ ih => exact ih (isDirectoryAt_tail hd)
  | down _ hat _ ih => exact ih ⟨_, _, hat⟩
  | link _ _ _ ih => exact ih (isDirectoryAt_target hd _)

lemma Finds.exists_name (h : Finds root true links above ss found) (he : found.EndsAt t)
    (hd : root.IsDirectoryAt above.reverse) (ht : ¬ root.IsDirectoryAt t) :
    ∃ dir name, t = dir ++ [name] ∧ root.IsDirectoryAt dir ∧ ∀ node, root.at? t = some node →
      node.Blocks := by
  induction h with
  | here =>
    obtain rfl := he.eq_of_node
    exact absurd hd ht
  | stay _ _ ih => exact ih he hd
  | up _ ih => exact ih he (isDirectoryAt_tail hd)
  | down _ hat _ ih => exact ih he ⟨_, _, hat⟩
  | link _ _ _ _ ih => exact ih he (isDirectoryAt_target hd _)
  | stop _ hat hnd hnl =>
    obtain rfl := he.eq_of_node
    refine ⟨_, _, List.reverse_cons, hd, fun node hnode => ?_⟩
    obtain rfl := Option.some.inj (hat.symm.trans hnode)
    exact ⟨hnd, hnl rfl⟩
  | absent _ hat =>
    obtain rfl := he.eq_of_absent
    refine ⟨_, _, List.reverse_cons, hd, fun node hnode => ?_⟩
    cases hat.symm.trans hnode
  | absentDirectory =>
    rcases he with he | ⟨node, he⟩
    · cases he
    · cases he

/-! ## Paths -/

structure Fits (p : Pathname) : Prop where
  no_zero : 0 ∉ p
  ne_nil : p ≠ []
  length_le : p.length ≤ maxPath

def start (disk : Disk) (p : Pathname) : Place := if p.isAbsolute then [] else disk.current.reverse

variable {disk disk' : Disk} {p : Pathname}

lemma start_congr (h : disk'.current = disk.current) (p : Pathname) :
    disk'.start p = disk.start p := by
  rw [start, start, h]

lemma isDirectoryAt_start (h : disk.root.IsDirectoryAt disk.current) (p : Pathname) :
    disk.root.IsDirectoryAt (disk.start p).reverse := by
  rw [start]
  split_ifs
  · exact h.root
  · rw [List.reverse_reverse]
    exact h

lemma find_eq (h : Fits p) (disk : Disk) (last : Bool) :
    disk.find last p = follow disk.root last maxLinks (disk.start p) p.segments := by
  rw [find, if_neg h.no_zero, if_neg h.ne_nil, if_neg (Nat.not_lt.mpr h.length_le)]
  rfl

lemma fits_of_find (h : disk.find last p = .ok found) : Fits p := by
  by_contra hf
  rw [find] at h
  split_ifs at h with hz hn hl
  all_goals exact hf ⟨hz, hn, Nat.not_lt.mp hl⟩

def foundAt (root : Node) (place : Place) : Found :=
  (root.at? place).elim (.absent place) (.node place)

lemma foundAt_eq_node_iff {node : Node} :
    foundAt root place = .node t node ↔ place = t ∧ root.at? place = some node := by
  rw [foundAt]
  cases root.at? place with
  | none => exact iff_of_false nofun nofun
  | some node' =>
    change Found.node place node' = _ ↔ _
    rw [Found.node.injEq, Option.some.injEq]

lemma Finds.eq_foundAt (h : Finds root last links above ss found) (he : found.EndsAt t) :
    found = foundAt root t := by
  induction h with
  | here hat =>
    obtain rfl := he.eq_of_node
    rw [foundAt, hat]
    rfl
  | stay _ _ ih => exact ih he
  | up _ ih => exact ih he
  | down _ _ _ ih => exact ih he
  | link _ _ _ _ ih => exact ih he
  | stop _ hat =>
    obtain rfl := he.eq_of_node
    rw [foundAt, hat]
    rfl
  | absent _ hat =>
    obtain rfl := he.eq_of_absent
    rw [foundAt, hat]
    rfl
  | absentDirectory =>
    rcases he with he | ⟨node, he⟩
    · cases he
    · cases he

lemma follow_name (hs : IsStep name)
    (hl : last = true → ∀ target, root.at? (above.reverse ++ [name]) ≠ some (.link target)) :
    follow root last links above [name] = .ok (foundAt root (above.reverse ++ [name])) := by
  rw [follow_step hs, foundAt, List.reverse_cons]
  cases hat : root.at? (above.reverse ++ [name]) with
  | none => rfl
  | some node =>
    cases node with
    | directory perm entries =>
      dsimp only
      rw [follow_nil, List.reverse_cons, hat]
      rfl
    | link target =>
      cases last with
      | false => rfl
      | true => exact absurd hat (hl rfl target)
    | file => rfl
    | special => rfl

lemma find_concat (hf : Fits p) (hseg : p.segments = ss ++ [name])
    (hl : Leads disk.root maxLinks (disk.start p) ss l d) :
    disk.find last p = follow disk.root last l d [name] := by
  rw [find_eq hf, hseg, hl.follow_append (.inl (List.cons_ne_nil name []))]

lemma exists_leads_of_find (h : disk.find last p = .ok found) (hseg : p.segments = ss ++ [name])
    (hn : name ≠ []) :
    ∃ l d, Leads disk.root maxLinks (disk.start p) ss l d ∧
      follow disk.root last l d [name] = .ok found := by
  rw [find_eq (fits_of_find h), hseg] at h
  exact exists_leads h (.inl ⟨name, List.mem_singleton_self name, hn⟩)

end TarRecipe.Disk
