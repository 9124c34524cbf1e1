import Gatekeeper.Machine.Disk
import Gatekeeper.Proofs.Text.Utf8

set_option autoImplicit false

/-!
# Reading a file that was put in place

A resolution of a path that succeeds is a derivation (`Disk.Leads`), one rule for each kind of step.
From it follows that what is made at free places is not in the way of a path (`Disk.Leads.extends`),
and that a path leads to the file that was put there, also where it was a link that the file has
replaced (`Disk.read_install`).
-/

namespace Gatekeeper.Machine.Disk

/-! ## Resolutions -/

/-- Whether a step is a name in a directory. -/
structure IsName (n : String) : Prop where
  notStay : n ≠ "."
  notUp : n ≠ ".."
  short : ¬maxName < n.utf8ByteSize

/-- Where the steps of a link's target begin. -/
def linkStart (target : String) (loc : Location) : Location :=
  if Path.isAbsolute target then [] else loc

/-- Where steps lead from a directory. -/
inductive Leads (d : Disk) (follow : Bool) : Nat → Location → List String → Place → Prop
  | done {links : Nat} {loc : Location} :
      Leads d follow links loc [] (.entry loc ((d.get? loc).getD (.dir true)))
  | stay {links : Nat} {loc : Location} {rest : List String} {p : Place}
      (later : Leads d follow links loc rest p) : Leads d follow links loc ("." :: rest) p
  | up {links : Nat} {loc : Location} {rest : List String} {p : Place}
      (later : Leads d follow links loc.dropLast rest p) : Leads d follow links loc (".." :: rest) p
  | vacant {links : Nat} {loc : Location} {n : String} (name : IsName n)
      (here : d.get? (loc ++ [n]) = none) : Leads d follow links loc [n] (.vacant (loc ++ [n]))
  | dir {links : Nat} {loc : Location} {n : String} {rest : List String} {p : Place} {w : Bool}
      (name : IsName n) (here : d.get? (loc ++ [n]) = some (.dir w))
      (later : Leads d follow links (loc ++ [n]) rest p) : Leads d follow links loc (n :: rest) p
  | file {links : Nat} {loc : Location} {n : String} {f : File} (name : IsName n)
      (here : d.get? (loc ++ [n]) = some (.file f)) :
      Leads d follow links loc [n] (.entry (loc ++ [n]) (.file f))
  | link {links : Nat} {loc : Location} {n target : String} (name : IsName n)
      (here : d.get? (loc ++ [n]) = some (.link target)) (stop : follow = false) :
      Leads d follow links loc [n] (.entry (loc ++ [n]) (.link target))
  | along {links : Nat} {loc : Location} {n target : String} {rest : List String} {p : Place}
      (name : IsName n) (here : d.get? (loc ++ [n]) = some (.link target))
      (go : rest ≠ [] ∨ follow = true) (nonempty : target ≠ "")
      (later : Leads d follow links (linkStart target loc) (steps target ++ rest) p) :
      Leads d follow (links + 1) loc (n :: rest) p

variable {d d' : Disk} {follow : Bool} {links : Nat} {loc : Location}
  {names : List String} {p : Place}

/-- **A resolution that succeeds is a derivation.** -/
theorem leads_of_walk (walk : d.walk follow links loc names = .ok p) :
    d.Leads follow links loc names p := by
  -- along the resolution: each case that goes on or succeeds is a rule
  fun_induction d.walk follow links loc names with
  | case1 links loc =>
      cases walk
      exact .done
  | case2 links loc name rest stay ih => exact beq_iff_eq.mp stay ▸ .stay (ih walk)
  | case3 links loc name rest _ up ih => exact beq_iff_eq.mp up ▸ .up (ih walk)
  | case4 => cases walk
  | case5 links loc name rest stay up long here free last =>
      cases walk
      rw [List.isEmpty_iff.mp last]
      exact .vacant ⟨by simpa using stay, by simpa using up, long⟩ free
  | case6 => cases walk
  | case7 links loc name rest stay up long here w dir ih =>
      exact .dir ⟨by simpa using stay, by simpa using up, long⟩ dir (ih walk)
  | case8 links loc name rest stay up long here f file last =>
      cases walk
      rw [List.isEmpty_iff.mp last]
      exact .file ⟨by simpa using stay, by simpa using up, long⟩ file
  | case9 => cases walk
  | case10 links loc name rest stay up long here target link last =>
      cases walk
      obtain ⟨last, stop⟩ := Bool.and_eq_true_iff.mp last
      rw [List.isEmpty_iff.mp last]
      exact .link ⟨by simpa using stay, by simpa using up, long⟩ link (by simpa using stop)
  | case11 => cases walk
  | case12 => cases walk
  | case13 loc name rest stay up long here target link go links nonempty ih =>
      have go : rest ≠ [] ∨ follow = true := by
        by_cases last : rest = []
        · rw [last] at go
          exact .inr (by simpa using go)
        · exact .inl last
      exact .along ⟨by simpa using stay, by simpa using up, long⟩ link go (by simpa using nonempty)
        (ih walk)

/-- A derivation is a resolution that succeeds. -/
theorem Leads.walk (leads : d.Leads follow links loc names p) :
    d.walk follow links loc names = .ok p := by
  induction leads with
  | done => rw [Disk.walk]
  | stay later ih =>
      rw [Disk.walk, if_pos (beq_self_eq_true _)]
      exact ih
  | up later ih =>
      rw [Disk.walk, if_neg (by decide), if_pos (beq_self_eq_true _)]
      exact ih
  | vacant name here => simp [Disk.walk, name.notStay, name.notUp, name.short, here]
  | dir name here later ih => simpa [Disk.walk, name.notStay, name.notUp, name.short, here] using ih
  | file name here => simp [Disk.walk, name.notStay, name.notUp, name.short, here]
  | link name here stop => simp [Disk.walk, name.notStay, name.notUp, name.short, here, stop]
  | @along links loc n target rest p name here go nonempty later ih =>
      have go : ¬(rest = [] ∧ follow = false) := by
        rintro ⟨last, stop⟩
        rcases go with more | followed
        · exact more last
        · rw [stop] at followed
          cases followed
      rw [linkStart] at ih
      simpa [Disk.walk, name.notStay, name.notUp, name.short, here, go, nonempty] using ih

theorem walk_eq_ok_iff :
    d.walk follow links loc names = .ok p ↔ d.Leads follow links loc names p :=
  ⟨leads_of_walk, Leads.walk⟩

section Step

variable {n : String} {rest : List String}

theorem leads_stay : d.Leads follow links loc ("." :: rest) p ↔
    d.Leads follow links loc rest p := by
  rw [← walk_eq_ok_iff, ← walk_eq_ok_iff, Disk.walk, if_pos (beq_self_eq_true _)]

theorem leads_up :
    d.Leads follow links loc (".." :: rest) p ↔ d.Leads follow links loc.dropLast rest p := by
  rw [← walk_eq_ok_iff, ← walk_eq_ok_iff, Disk.walk, if_neg (by decide),
    if_pos (beq_self_eq_true _)]

theorem leads_dir {w : Bool} (name : IsName n) (here : d.get? (loc ++ [n]) = some (.dir w)) :
    d.Leads follow links loc (n :: rest) p ↔ d.Leads follow links (loc ++ [n]) rest p := by
  rw [← walk_eq_ok_iff, ← walk_eq_ok_iff]
  simp [Disk.walk, name.notStay, name.notUp, name.short, here]

/-- A file is the end of a path. -/
theorem leads_file {f : File} (name : IsName n) (here : d.get? (loc ++ [n]) = some (.file f))
    (leads : d.Leads follow links loc (n :: rest) p) : rest = [] := by
  have walk := leads.walk
  simp only [Disk.walk, name.notStay, name.notUp, name.short, here, beq_iff_eq, if_false] at walk
  by_cases last : rest = []
  · exact last
  · rw [if_neg (by simpa using last)] at walk
    cases walk

/-- A link is followed to where it leads. -/
theorem leads_link {target : String} (name : IsName n)
    (here : d.get? (loc ++ [n]) = some (.link target)) (go : rest ≠ [] ∨ follow = true)
    (leads : d.Leads follow links loc (n :: rest) p) :
    ∃ k, links = k + 1 ∧ d.Leads follow k (linkStart target loc) (steps target ++ rest) p := by
  have walk := leads.walk
  have go : ¬(rest.isEmpty && !follow) = true := by
    rcases go with more | followed
    · simp [more]
    · simp [followed]
  simp only [Disk.walk, name.notStay, name.notUp, name.short, here, beq_iff_eq, if_false, if_neg go]
    at walk
  cases links with
  | zero => cases walk
  | succ k =>
      by_cases empty : target = ""
      · simp [empty] at walk
      · simp only [if_neg empty] at walk
        exact ⟨k, rfl, leads_of_walk walk⟩

end Step

/-- A path leads to one place at most. -/
theorem Leads.unique {p' : Place} (leads : d.Leads follow links loc names p)
    (leads' : d.Leads follow links loc names p') : p = p' :=
  Except.ok.inj (leads.walk.symm.trans leads'.walk)

/-! ## Trees -/

/-- Whether everything on a disk lies in a directory. -/
structure IsTree (d : Disk) : Prop where
  root : ∃ w, d.get? [] = some (.dir w)
  parent : ∀ loc n e, d.get? (loc ++ [n]) = some e → ∃ w, d.get? loc = some (.dir w)

/-- Whether there is a directory at a location. -/
def IsDirAt (d : Disk) (loc : Location) : Prop := ∃ w, d.get? loc = some (.dir w)

theorem IsTree.dropLast (tree : d.IsTree) (dir : d.IsDirAt loc) : d.IsDirAt loc.dropLast := by
  obtain ⟨w, here⟩ := dir
  rcases List.eq_nil_or_concat loc with rfl | ⟨above, n, rfl⟩
  · exact tree.root
  · rw [List.concat_eq_append] at here ⊢
    rw [List.dropLast_concat]
    exact tree.parent above n _ here

theorem IsTree.linkStart (tree : d.IsTree) (dir : d.IsDirAt loc) (target : String) :
    d.IsDirAt (linkStart target loc) := by
  unfold Disk.linkStart
  split
  · exact tree.root
  · exact dir

/-- What a path leads to is there. -/
theorem Leads.get? {l : Location} {e : Entry} (dir : d.IsDirAt loc) (tree : d.IsTree)
    (leads : d.Leads follow links loc names (.entry l e)) : d.get? l = some e := by
  generalize same : Place.entry l e = p at leads
  induction leads with
  | done =>
      obtain ⟨w, here⟩ := dir
      cases same
      rw [here]
      rfl
  | stay later ih => exact ih dir same
  | up later ih => exact ih (tree.dropLast dir) same
  | vacant name here => cases same
  | dir name here later ih => exact ih ⟨_, here⟩ same
  | file name here =>
      cases same
      exact here
  | link name here stop =>
      cases same
      exact here
  | along name here go nonempty later ih => exact ih (tree.linkStart dir _) same

/-- What is vacant is free. -/
theorem Leads.get?_vacant {l : Location} (leads : d.Leads follow links loc names (.vacant l)) :
    d.get? l = none := by
  generalize same : Place.vacant l = p at leads
  induction leads with
  | done => cases same
  | stay later ih => exact ih same
  | up later ih => exact ih same
  | vacant name here =>
      cases same
      exact here
  | dir name here later ih => exact ih same
  | file name here => cases same
  | link name here stop => cases same
  | along name here go nonempty later ih => exact ih same

/-- What is no link is found whether or not links are followed at the end. -/
theorem Leads.followed (leads : d.Leads false links loc names p)
    (noLink : ∀ l t, p ≠ .entry l (.link t)) : d.Leads true links loc names p := by
  induction leads with
  | done => exact .done
  | stay later ih => exact .stay (ih noLink)
  | up later ih => exact .up (ih noLink)
  | vacant name here => exact .vacant name here
  | dir name here later ih => exact .dir name here (ih noLink)
  | file name here => exact .file name here
  | link name here _ => exact absurd rfl (noLink _ _)
  | along name here go nonempty later ih => exact .along name here (.inr rfl) nonempty (ih noLink)

/-- What is found when links are followed at the end is found, or a link to it, when they are
not. -/
theorem Leads.unfollowed (leads : d.Leads true links loc names p) :
    ∃ p, d.Leads false links loc names p := by
  induction leads with
  | done => exact ⟨_, .done⟩
  | stay later ih => exact ih.imp fun _ there => .stay there
  | up later ih => exact ih.imp fun _ there => .up there
  | vacant name here => exact ⟨_, .vacant name here⟩
  | dir name here later ih => exact ih.imp fun _ there => .dir name here there
  | file name here => exact ⟨_, .file name here⟩
  | link name here stop => exact ⟨_, .link name here rfl⟩
  | @along links loc n target rest p name here go nonempty later ih =>
      by_cases last : rest = []
      · rw [last]
        exact ⟨_, .link name here rfl⟩
      · exact ih.imp fun _ there => .along name here (.inl last) nonempty there

/-! ## Links at the end of a path -/

/-- Where a path ends with a link, following it goes on from there. -/
theorem Leads.target {l : Location} {t : String} (tree : d.IsTree) (dir : d.IsDirAt loc)
    (leads : d.Leads false links loc names (.entry l (.link t)))
    (followed : d.Leads true links loc names p) :
    ∃ n, d.Leads true n (linkStart t l.dropLast) (steps t) p ∧ d.IsDirAt l.dropLast := by
  -- by induction on the derivation that stops at the link; the other one takes the same steps
  generalize same : Place.entry l (.link t) = q at leads
  induction leads with
  | done =>
      obtain ⟨w, here⟩ := dir
      rw [here] at same
      cases same
  | stay later ih => exact ih dir (leads_stay.mp followed) same
  | up later ih => exact ih (tree.dropLast dir) (leads_up.mp followed) same
  | vacant name here => cases same
  | dir name here later ih => exact ih ⟨_, here⟩ ((leads_dir name here).mp followed) same
  | file name here => cases same
  | link name here _ =>
      cases same
      obtain ⟨k, -, goes⟩ := leads_link name here (.inr rfl) followed
      rw [List.append_nil] at goes
      rw [List.dropLast_concat]
      exact ⟨k, goes, dir⟩
  | along name here go nonempty later ih =>
      obtain ⟨k, more, goes⟩ := leads_link name here (.inr rfl) followed
      cases more
      exact ih (tree.linkStart dir _) goes same

/-- No path goes on behind a file. -/
theorem Leads.not_behind_file {l : Location} {f : File} {rest : List String} (tree : d.IsTree)
    (dir : d.IsDirAt loc) (leads : d.Leads true links loc names (.entry l (.file f)))
    (more : rest ≠ []) (k : Nat) (p : Place) : ¬d.Leads follow k loc (names ++ rest) p := by
  generalize same : Place.entry l (.file f) = q at leads
  induction leads generalizing k with
  | done =>
      obtain ⟨w, here⟩ := dir
      rw [here] at same
      cases same
  | stay later ih => exact fun behind => ih dir k same (leads_stay.mp behind)
  | up later ih => exact fun behind => ih (tree.dropLast dir) k same (leads_up.mp behind)
  | vacant name here => cases same
  | dir name here later ih =>
      exact fun behind => ih ⟨_, here⟩ k same ((leads_dir name here).mp behind)
  | file name here => exact fun behind => more (leads_file name here behind)
  | link name here stop => cases stop
  | @along links loc n target between p' name here go nonempty later ih =>
      intro behind
      obtain ⟨k', -, goes⟩ := leads_link name here
        (.inl (List.append_ne_nil_of_right_ne_nil between more)) behind
      rw [← List.append_assoc] at goes
      exact ih (tree.linkStart dir _) k' same goes

/-! ## Other disks -/

/-- What is on a disk stays on another one. -/
def Extends (d d' : Disk) : Prop := ∀ loc e, d.get? loc = some e → d'.get? loc = some e

/-- **What is new is not in the way.** -/
theorem Leads.extends {l : Location} {e : Entry} (tree : d.IsTree) (dir : d.IsDirAt loc)
    (more : Extends d d') (leads : d.Leads follow links loc names (.entry l e)) :
    d'.Leads follow links loc names (.entry l e) := by
  generalize same : Place.entry l e = p at leads
  induction leads with
  | done =>
      obtain ⟨w, here⟩ := dir
      have there := more _ _ here
      rw [here, ← there]
      exact .done
  | stay later ih => exact .stay (ih dir same)
  | up later ih => exact .up (ih (tree.dropLast dir) same)
  | vacant name here => cases same
  | dir name here later ih => exact .dir name (more _ _ here) (ih ⟨_, here⟩ same)
  | file name here => exact .file name (more _ _ here)
  | link name here stop => exact .link name (more _ _ here) stop
  | along name here go nonempty later ih =>
      exact .along name (more _ _ here) go nonempty (ih (tree.linkStart dir _) same)

/-- **A file in the place of a file or a link**: the path leads there. -/
theorem Leads.replaced {l x : Location} {e : Entry} {f g : File} (tree : d.IsTree)
    (dir : d.IsDirAt loc) (leads : d.Leads false links loc names (.entry l e))
    (followed : d.Leads true links loc names (.entry x (.file f)))
    (others : ∀ y, y ≠ l → ∀ e, d.get? y = some e → d'.get? y = some e)
    (own : d'.get? l = some (.file g)) : d'.Leads true links loc names (.entry l (.file g)) := by
  have there : d.get? l = some e := leads.get? dir tree
  have noDir : ∀ w, e ≠ .dir w := by
    rintro w rfl
    cases (leads.followed nofun).unique followed
  -- by induction on the derivation that stops at the end; none of its places but the last is
  -- replaced
  generalize same : Place.entry l e = p at leads
  induction leads with
  | done =>
      obtain ⟨w, here⟩ := dir
      rw [here] at same
      cases same
      exact absurd rfl (noDir w)
  | stay later ih => exact .stay (ih dir (leads_stay.mp followed) same)
  | up later ih => exact .up (ih (tree.dropLast dir) (leads_up.mp followed) same)
  | vacant name here => cases same
  | @dir links loc n rest p w name here later ih =>
      have other : loc ++ [n] ≠ l := by
        rintro rfl
        rw [there] at here
        exact noDir w (Option.some.inj here)
      exact .dir name (others _ other _ here)
        (ih ⟨_, here⟩ ((leads_dir name here).mp followed) same)
  | file name here =>
      cases same
      exact .file name own
  | link name here stop =>
      cases same
      exact .file name own
  | @along links loc n target rest p name here go nonempty later ih =>
      obtain ⟨k, enough, goes⟩ := leads_link name here (.inr rfl) followed
      cases enough
      have other : loc ++ [n] ≠ l := by
        rintro rfl
        -- the link would lead to the file, and the path goes on behind it
        rw [there] at here
        cases here
        subst same
        have last :
            d.Leads false (links + 1) loc (n :: rest) (.entry (loc ++ [n]) (.link target)) :=
          .along name there go nonempty later
        obtain ⟨m, target_, -⟩ := last.target tree dir (.along name there (.inr rfl) nonempty goes)
        rw [List.dropLast_concat] at target_
        have more : rest ≠ [] := go.resolve_right (by decide)
        exact target_.not_behind_file tree (tree.linkStart dir _) more links _ goes
      exact .along name (others _ other _ here) (.inr rfl) nonempty
        (ih (tree.linkStart dir _) goes same)

/-! ## Files put in place -/

@[simp] theorem get?_put_self (d : Disk) (loc : Location) (e : Entry) :
    (d.put loc e).get? loc = some e := by
  simp [get?, put]

theorem lookup_filter_other {other : Location} (apart : other ≠ loc)
    (entries : List (Location × Entry)) :
    (entries.filter (·.1 != loc)).lookup other = entries.lookup other := by
  induction entries with
  | nil => rfl
  | cons entry entries ih =>
      obtain ⟨l, e⟩ := entry
      by_cases gone : l = loc
      · have passed : (other == l) = false := by simpa [gone] using apart
        rw [List.filter_cons_of_neg (by simp [gone]), ih]
        simp [List.lookup_cons, passed]
      · rw [List.filter_cons_of_pos (by simpa using gone)]
        simp only [List.lookup_cons, ih]

theorem get?_put_other {other : Location} (d : Disk) (e : Entry) (apart : other ≠ loc) :
    (d.put loc e).get? other = d.get? other := by
  have passed : (other == loc) = false := by simpa using apart
  simp only [get?, put, List.lookup_cons, passed, lookup_filter_other apart]

/-- What is made at a free place leaves the rest. -/
theorem extends_put (e : Entry) (free : d.get? loc = none) : Extends d (d.put loc e) := by
  intro l e' here
  have apart : l ≠ loc := by
    rintro rfl
    rw [free] at here
    cases here
  rw [get?_put_other d e apart]
  exact here

theorem Extends.trans {d'' : Disk} (first : Extends d d') (second : Extends d' d'') :
    Extends d d'' :=
  fun loc e here => second loc e (first loc e here)

/-- Whether a path may be resolved at all. -/
structure IsPath (p : String) : Prop where
  noNul : ¬p.toList.contains '\x00' = true
  nonempty : ¬(p == "") = true
  short : ¬maxPath ≤ p.utf8ByteSize

section Find

variable {cwd : Location} {path : String}

theorem find_eq_ok_iff : d.find cwd path follow = .ok p ↔
    IsPath path ∧ d.Leads follow maxLinks (linkStart path cwd) (steps path) p := by
  rw [find]
  by_cases nul : path.toList.contains '\x00' = true
  · rw [if_pos nul]
    exact ⟨nofun, fun ⟨isPath, _⟩ => absurd nul isPath.noNul⟩
  by_cases empty : (path == "") = true
  · rw [if_neg nul, if_pos empty]
    exact ⟨nofun, fun ⟨isPath, _⟩ => absurd empty isPath.nonempty⟩
  by_cases long : maxPath ≤ path.utf8ByteSize
  · rw [if_neg nul, if_neg empty, if_pos long]
    exact ⟨nofun, fun ⟨isPath, _⟩ => absurd long isPath.short⟩
  · rw [if_neg nul, if_neg empty, if_neg long, walk_eq_ok_iff]
    exact ⟨fun leads => ⟨⟨nul, empty, long⟩, leads⟩, And.right⟩

theorem isDir_iff_find :
    d.isDir cwd path = true ↔ ∃ l w, d.find cwd path true = .ok (.entry l (.dir w)) := by
  rw [isDir, entry?]
  cases d.find cwd path true with
  | error cause => exact ⟨nofun, nofun⟩
  | ok place =>
      cases place with
      | vacant l => exact ⟨nofun, nofun⟩
      | entry l e => cases e <;> simp

theorem occupied_iff_find :
    d.occupied cwd path = true ↔ ∃ l e, d.find cwd path true = .ok (.entry l e) := by
  rw [occupied, entry?]
  split
  · next l e found => exact ⟨fun _ => ⟨l, e, found⟩, fun _ => rfl⟩
  · next none_ => exact ⟨nofun, fun ⟨l, e, found⟩ => absurd found (none_ l e)⟩

/-- What a path leads to is found as before when there is more on the disk. -/
theorem find_extends {l : Location} {e : Entry} (tree : d.IsTree) (dir : d.IsDirAt cwd)
    (more : Extends d d') (found : d.find cwd path follow = .ok (.entry l e)) :
    d'.find cwd path follow = .ok (.entry l e) := by
  obtain ⟨isPath, leads⟩ := find_eq_ok_iff.mp found
  exact find_eq_ok_iff.mpr ⟨isPath, leads.extends tree (tree.linkStart dir path) more⟩

/-- A directory is made at a free place in a directory. -/
theorem makeDir_eq_ok (made : d.makeDir cwd path = .ok d') :
    ∃ l, d.find cwd path false = .ok (.vacant l) ∧ d.writable l.dropLast = true ∧
      d' = d.put l (.dir true) := by
  rw [makeDir] at made
  cases found : d.find cwd path false with
  | error e =>
      rw [found] at made
      cases made
  | ok place =>
      rw [found] at made
      cases place with
      | entry l e => cases made
      | vacant l =>
          change (if _ then _ else _) = _ at made
          split at made
          · next writable =>
            cases made
            exact ⟨l, rfl, writable, rfl⟩
          · cases made

theorem isDirAt_of_writable (writable : d.writable loc = true) : d.IsDirAt loc := by
  unfold Disk.writable at writable
  split at writable
  · next w here => exact ⟨w, here⟩
  · cases writable

theorem IsDirAt.extends (dir : d.IsDirAt loc) (more : Extends d d') : d'.IsDirAt loc := by
  obtain ⟨w, here⟩ := dir
  exact ⟨w, more _ _ here⟩

/-- A tree stays one. -/
theorem IsTree.put_dir {l : Location} (tree : d.IsTree) (free : d.get? l = none)
    (parent : d.IsDirAt l.dropLast) : (d.put l (.dir true)).IsTree := by
  have more := extends_put (.dir true) free
  refine ⟨IsDirAt.extends tree.root more, fun loc n e here => ?_⟩
  by_cases new : loc ++ [n] = l
  · rw [← new, List.dropLast_concat] at parent
    exact parent.extends more
  · rw [get?_put_other _ _ new] at here
    exact IsDirAt.extends (tree.parent loc n e here) more

/-- **Making directories** leaves what is there, and the disk a tree. -/
theorem makeDir_spec (made : d.makeDir cwd path = .ok d') :
    Extends d d' ∧ (d.IsTree → d'.IsTree) := by
  obtain ⟨l, found, writable, rfl⟩ := makeDir_eq_ok made
  have free := (find_eq_ok_iff.mp found).2.get?_vacant
  exact ⟨extends_put _ free, fun tree => tree.put_dir free (isDirAt_of_writable writable)⟩

/-- **What every directory that is made keeps, making directories keeps**, whether or not all of
them can be made. -/
theorem growTree_induct {P : Disk → Prop} {paths : List String} (start : P d)
    (step : ∀ d₁ d₂ p, p ∈ paths → P d₁ → d₁.makeDir cwd p = .ok d₂ → P d₂) :
    P (d.growTree cwd paths).1 := by
  induction paths with
  | nil => exact start
  | cons p parents ih =>
      have above := ih fun d₁ d₂ p member => step d₁ d₂ p (List.mem_cons_of_mem _ member)
      rw [growTree]
      split
      · next d₂ made => exact step d d₂ p List.mem_cons_self start made
      · split
        · next grown =>
          rw [grown] at above
          exact above
        · next d₁ grown =>
          rw [grown] at above
          split
          · next d₂ made => exact step d₁ d₂ p List.mem_cons_self above made
          · exact above
      · exact start

theorem makeTree_eq_ok_iff {paths : List String} :
    d.makeTree cwd paths = .ok d' ↔ d.growTree cwd paths = (d', none) := by
  rw [makeTree]
  split
  · next d₁ grown =>
    rw [grown]
    exact ⟨fun same => by rw [Except.ok.inj same], fun same => by rw [(Prod.mk.inj same).1]⟩
  · next d₁ e grown =>
    rw [grown]
    exact ⟨nofun, fun same => nomatch (Prod.mk.inj same).2⟩

theorem growTree_spec (d : Disk) (cwd : Location) (paths : List String) :
    Extends d (d.growTree cwd paths).1 ∧ (d.IsTree → (d.growTree cwd paths).1.IsTree) := by
  refine @growTree_induct d cwd (fun d' => Extends d d' ∧ (d.IsTree → d'.IsTree)) paths
    ⟨fun _ _ here => here, id⟩ ?_
  rintro d₁ d₂ p - ⟨more, tree⟩ made
  obtain ⟨more', tree'⟩ := makeDir_spec made
  exact ⟨more.trans more', tree' ∘ tree⟩

theorem makeTree_spec {paths : List String} (made : d.makeTree cwd paths = .ok d') :
    Extends d d' ∧ (d.IsTree → d'.IsTree) := by
  have spec := growTree_spec d cwd paths
  rwa [makeTree_eq_ok_iff.mp made] at spec

/-- What is read is a readable file. -/
theorem read_eq_ok {old : List UInt8} (read : d.read cwd path = .ok old) :
    ∃ x f, d.find cwd path true = .ok (.entry x (.file f)) ∧ f.readable = true ∧ f.bytes = old := by
  rw [Disk.read] at read
  cases place : d.find cwd path true with
  | error e =>
      rw [place] at read
      cases read
  | ok p =>
      rw [place] at read
      match p, read with
      | .entry x (.file f), read =>
          change (if _ then _ else _) = _ at read
          split at read
          · next readable =>
            cases read
            exact ⟨x, f, rfl, readable, rfl⟩
          · cases read

/-- A file is read as before when directories have been made. -/
theorem read_extends {old : List UInt8} (tree : d.IsTree) (dir : d.IsDirAt cwd)
    (more : Extends d d') (read : d.read cwd path = .ok old) : d'.read cwd path = .ok old := by
  obtain ⟨x, f, found, readable, bytes⟩ := read_eq_ok read
  rw [Disk.read, find_extends tree dir more found]
  change (if f.readable = true then Except.ok f.bytes else _) = _
  rw [if_pos readable, bytes]

/-- Whether the file that a path leads to can be replaced by another one. -/
structure Replaceable (d : Disk) (cwd : Location) (path : String) : Prop where
  name : path.toList.getLast? ≠ some '/'
  place : ∃ loc e, d.find cwd path false = .ok (.entry loc e) ∧ d.writable loc.dropLast = true

/-- What stands in the place of a file is no directory. -/
theorem not_dir_of_read {old : List UInt8} {e : Entry} (read : d.read cwd path = .ok old)
    (found : d.find cwd path false = .ok (.entry loc e)) (w : Bool) : e ≠ .dir w := by
  rintro rfl
  obtain ⟨x, f, followed, -, -⟩ := read_eq_ok read
  cases ((find_eq_ok_iff.mp found).2.followed nofun).unique (find_eq_ok_iff.mp followed).2

/-- Where a file comes to be that is put at a place: nothing is there, or no directory. -/
inductive Receives (l : Location) : Place → Prop
  | vacant : Receives l (.vacant l)
  | entry (e : Entry) (noDir : ∀ w, e ≠ .dir w) : Receives l (.entry l e)

theorem Receives.unique {l l' : Location} (receives : Receives l p) (receives' : Receives l' p) :
    l = l' := by
  cases receives <;> cases receives' <;> rfl

/-- **What putting a file in place does.** -/
theorem install_eq_ok_iff {bytes : List UInt8} : d.install cwd path bytes = .ok d' ↔
    path.toList.getLast? ≠ some '/' ∧ ∃ p l, d.find cwd path false = .ok p ∧ Receives l p ∧
      d.writable l.dropLast = true ∧ d' = d.put l (.file { bytes }) := by
  rw [install]
  by_cases slash : path.toList.getLast? = some '/'
  · rw [if_pos (by simpa using slash)]
    exact ⟨fun failed => absurd failed (by simp), fun h => absurd slash h.1⟩
  rw [if_neg (by simpa using slash)]
  cases found : d.find cwd path false with
  | error e =>
      constructor
      · intro failed
        cases failed
      · rintro ⟨-, p, l, none_, -⟩
        cases none_
  | ok p =>
      have puts {l : Location} (receives : Receives l p) :
          (if d.writable l.dropLast then Except.ok (d.put l (.file { bytes }))
            else .error IoError.denied) = .ok d' ↔
          path.toList.getLast? ≠ some '/' ∧ ∃ p' l', (Except.ok p : Except IoError Place) = .ok p' ∧
            Receives l' p' ∧ d.writable l'.dropLast = true ∧ d' = d.put l' (.file { bytes }) := by
        constructor
        · intro installed
          split at installed
          · next writable =>
            cases installed
            exact ⟨slash, p, l, rfl, receives, writable, rfl⟩
          · cases installed
        · rintro ⟨-, p', l', same, receives', writable, rfl⟩
          cases same
          cases receives.unique receives'
          exact if_pos writable
      cases p with
      | vacant l => exact puts .vacant
      | entry l e =>
          cases e with
          | dir w =>
              constructor
              · intro failed
                cases failed
              · rintro ⟨-, p', l', same, receives, -⟩
                cases same
                cases receives with
                | entry e noDir => exact absurd rfl (noDir w)
          | file f => exact puts (.entry _ fun w same => by cases same)
          | link target => exact puts (.entry _ fun w same => by cases same)

/-- A file that can be replaced still can be when directories have been made. -/
theorem exists_install {old : List UInt8} (tree : d.IsTree) (dir : d.IsDirAt cwd)
    (replaceable : d.Replaceable cwd path) (read : d.read cwd path = .ok old) (more : Extends d d')
    (bytes : List UInt8) : ∃ d'', d'.install cwd path bytes = .ok d'' := by
  obtain ⟨loc, e, found, writable⟩ := replaceable.place
  have found' := find_extends tree dir more found
  have writable' : d'.writable loc.dropLast = true := by
    unfold Disk.writable at writable ⊢
    cases here : d.get? loc.dropLast with
    | none =>
        rw [here] at writable
        cases writable
    | some e =>
        rw [here] at writable
        rw [more _ _ here]
        exact writable
  exact ⟨_, install_eq_ok_iff.mpr
    ⟨replaceable.name, _, loc, found', .entry e (not_dir_of_read read found), writable', rfl⟩⟩

/-- **A file that was put in place of another one is read back.** -/
theorem read_install {old bytes : List UInt8} (tree : d.IsTree) (dir : d.IsDirAt cwd)
    (read : d.read cwd path = .ok old) (installed : d.install cwd path bytes = .ok d') :
    d'.read cwd path = .ok bytes := by
  obtain ⟨x, f, followed, -, -⟩ := read_eq_ok read
  obtain ⟨isPath, followed⟩ := find_eq_ok_iff.mp followed
  obtain ⟨-, p, l, found, receives, -, rfl⟩ := install_eq_ok_iff.mp installed
  have leads := (find_eq_ok_iff.mp found).2
  cases receives with
  | vacant => cases (leads.followed nofun).unique followed
  | entry e noDir =>
      have there : (d.put l (.file { bytes })).Leads true maxLinks (linkStart path cwd) (steps path)
          (.entry l (.file { bytes })) := by
        refine leads.replaced tree (tree.linkStart dir path) followed (fun y other e here => ?_)
          (get?_put_self _ _ _)
        rw [get?_put_other _ _ other]
        exact here
      rw [Disk.read, find_eq_ok_iff.mpr ⟨isPath, there⟩]
      rfl

end Find

/-! ## A disk with one file -/

/-- The disk with one file, in the root directory. -/
def single (name : String) (bytes : List UInt8) : Disk := ⟨[([name], .file { bytes })]⟩

section Single

variable {name : String} {bytes : List UInt8}

theorem get?_single_file : (single name bytes).get? [name] = some (.file { bytes }) := by
  simp [get?, single]

theorem isTree_single : (single name bytes).IsTree := by
  have root : (single name bytes).get? [] = some (.dir true) := rfl
  refine ⟨⟨true, root⟩, fun loc n e here => ?_⟩
  by_cases own : loc ++ [n] = [name]
  · have above : loc = [] := (List.append_inj' (show loc ++ [n] = [] ++ [name] from own) rfl).1
    rw [above]
    exact ⟨true, root⟩
  · simp [get?, single, List.lookup_cons, beq_eq_false_iff_ne.mpr own] at here

theorem isDirAt_single : (single name bytes).IsDirAt [] := ⟨true, rfl⟩

/-- Whether a path is a name that leads to what has the name. -/
structure IsFileName (name : String) : Prop where
  isPath : IsPath name
  isName : IsName name
  relative : Path.isAbsolute name = false
  steps : steps name = [name]

/-- The name of the file leads to it. -/
theorem find_single (named : IsFileName name) (follow : Bool) :
    (single name bytes).find [] name follow = .ok (.entry [name] (.file { bytes })) := by
  refine find_eq_ok_iff.mpr ⟨named.isPath, ?_⟩
  rw [named.steps, linkStart, named.relative]
  exact .file named.isName get?_single_file

theorem replaceable_single (named : IsFileName name) (noSlash : name.toList.getLast? ≠ some '/') :
    (single name bytes).Replaceable [] name :=
  ⟨noSlash, [name], _, find_single named false, rfl⟩

theorem readText_single (named : IsFileName name) (content : String) :
    (single name (Text.Utf8.encode content.toList)).readText [] name = .ok content := by
  rw [readText, Disk.read, find_single named true]
  simp [Except.bind, Text.Utf8.decode_encode]

end Single

end Gatekeeper.Machine.Disk
