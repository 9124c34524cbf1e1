import Gatekeeper.Proofs.Machine.Ancestors

set_option autoImplicit false

/-!
# Making the directories of a file

Where a path leads to a place, every directory on its way is there, and none is made
(`Disk.growTree_of_find`). Otherwise those that are made are new and empty, so that the path leads
to nothing afterwards, unless it comes back from one of them by `..` (`Disk.find_growTree_iff`).
-/

namespace Gatekeeper.Machine.Disk

variable {d d' : Disk} {follow : Bool} {links : Nat} {loc l : Location} {p : Place}
  {before before' after : List String}

/-! ## The first steps of a path -/

/-- **Induction over the first steps** of a path that goes on. -/
theorem Leads.induct_before {motive : Nat → Location → List String → Prop} (more : after ≠ [])
    (nil : ∀ links loc, d.Leads follow links loc after p → motive links loc [])
    (stay : ∀ links loc before, motive links loc before → motive links loc ("." :: before))
    (up : ∀ links loc before, motive links loc.dropLast before → motive links loc (".." :: before))
    (dir : ∀ links loc n w before, IsName n → d.get? (loc ++ [n]) = some (.dir w) →
      motive links (loc ++ [n]) before → motive links loc (n :: before))
    (along : ∀ links loc n target before, IsName n → d.get? (loc ++ [n]) = some (.link target) →
      target ≠ "" → motive links (linkStart target loc) (steps target ++ before) →
      motive (links + 1) loc (n :: before))
    (leads : d.Leads follow links loc (before ++ after) p) : motive links loc before := by
  -- by induction on the links that may still be followed, and then on the steps
  induction links using Nat.strongRecOn generalizing loc before with
  | ind links shorter =>
    induction before generalizing loc with
    | nil => exact nil links loc leads
    | cons n before ih =>
        have goesOn := List.append_ne_nil_of_right_ne_nil before more
        generalize split : before ++ after = rest at goesOn
        rw [List.cons_append, split] at leads
        cases leads with
        | stay later => exact stay links loc before (ih (split ▸ later))
        | up later => exact up links loc before (ih (split ▸ later))
        | vacant => exact absurd rfl goesOn
        | dir name here later => exact dir links loc n _ before name here (ih (split ▸ later))
        | file => exact absurd rfl goesOn
        | link => exact absurd rfl goesOn
        | along name here _ nonempty later =>
            rw [← split, ← List.append_assoc] at later
            exact along _ loc n _ before name here nonempty (shorter _ (Nat.lt_succ_self _) later)

theorem leads_stays {dots names : List String} (stays : ∀ n ∈ dots, n = ".") :
    d.Leads follow links loc (dots ++ names) p ↔ d.Leads follow links loc names p := by
  induction dots with
  | nil => rfl
  | cons n dots ih =>
      rw [stays n List.mem_cons_self, List.cons_append, leads_stay]
      exact ih fun m member => stays m (List.mem_cons_of_mem _ member)

/-- Steps with the same names, whatever stays there are between them, begin with the same name. -/
theorem exists_stays {n : String} {names : List String} (moves : n ≠ ".")
    (same : (n :: before).filter (· != ".") = names.filter (· != ".")) :
    ∃ dots rest, names = dots ++ n :: rest ∧ (∀ m ∈ dots, m = ".") ∧
      before.filter (· != ".") = rest.filter (· != ".") := by
  rw [List.filter_cons_of_pos (by simpa using moves)] at same
  obtain ⟨dots, rest, split, stays, -, later⟩ := List.filter_eq_cons_iff.mp same.symm
  exact ⟨dots, rest, split, fun m member => by simpa using stays m member, later.symm⟩

/-- **Steps that stay do not count** where a path goes on. -/
theorem Leads.respelled (more : after ≠ [])
    (same : before.filter (· != ".") = before'.filter (· != "."))
    (leads : d.Leads follow links loc (before ++ after) p) :
    d.Leads follow links loc (before' ++ after) p := by
  refine leads.induct_before (motive := fun links loc before => ∀ before',
    before.filter (· != ".") = before'.filter (· != ".") →
      d.Leads follow links loc (before' ++ after) p)
    more ?nil ?stay ?up ?dir ?along before' same
  case nil =>
    intro links loc leads before' same
    refine (leads_stays fun n member => ?_).mpr leads
    simpa using List.filter_eq_nil_iff.mp same.symm n member
  case stay =>
    intro links loc before ih before' same
    exact ih before' same
  case up =>
    intro links loc before ih before' same
    obtain ⟨dots, rest, rfl, stays, later⟩ := exists_stays (by decide) same
    rw [List.append_assoc, leads_stays stays]
    exact .up (ih _ later)
  case dir =>
    intro links loc n w before name here ih before' same
    obtain ⟨dots, rest, rfl, stays, later⟩ := exists_stays name.notStay same
    rw [List.append_assoc, leads_stays stays]
    exact .dir name here (ih _ later)
  case along =>
    intro links loc n target before name here nonempty ih before' same
    obtain ⟨dots, rest, rfl, stays, later⟩ := exists_stays name.notStay same
    have goesOn := List.append_ne_nil_of_right_ne_nil rest more
    rw [List.append_assoc, leads_stays stays, List.cons_append]
    refine .along name here (.inl goesOn) nonempty ?_
    rw [← List.append_assoc]
    exact ih _ (by rw [List.filter_append, List.filter_append, later])

/-- **A path goes through directories.** -/
theorem Leads.dir_before (tree : d.IsTree) (dir : d.IsDirAt loc) (more : after ≠ [])
    (leads : d.Leads follow links loc (before ++ after) p) :
    ∃ l w, d.Leads true links loc before (.entry l (.dir w)) := by
  refine leads.induct_before (motive := fun links loc before => d.IsDirAt loc →
    ∃ l w, d.Leads true links loc before (.entry l (.dir w))) more ?nil ?stay ?up ?dir ?along dir
  case nil =>
    rintro links loc - ⟨w, here⟩
    refine ⟨loc, w, ?_⟩
    have done : d.Leads true links loc [] _ := .done
    rwa [here] at done
  case stay =>
    intro links loc before ih dir
    obtain ⟨l, w, there⟩ := ih dir
    exact ⟨l, w, .stay there⟩
  case up =>
    intro links loc before ih dir
    obtain ⟨l, w, there⟩ := ih (tree.dropLast dir)
    exact ⟨l, w, .up there⟩
  case dir =>
    intro links loc n w before name here ih _
    obtain ⟨l, w, there⟩ := ih ⟨w, here⟩
    exact ⟨l, w, .dir name here there⟩
  case along =>
    intro links loc n target before name here nonempty ih dir
    obtain ⟨l, w, there⟩ := ih (tree.linkStart dir target)
    exact ⟨l, w, .along name here (.inr rfl) nonempty there⟩

/-! ## Behind a new directory -/

/-- A path goes on behind a directory that was made at a free place. -/
theorem Leads.behind (leads : d.Leads false links loc before (.vacant l)) (kept : Extends d d')
    {w : Bool} (new : d'.get? l = some (.dir w))
    (goesOn : d'.Leads follow links loc (before ++ after) p) :
    ∃ k, d'.Leads follow k l after p := by
  generalize same : Place.vacant l = q at leads
  induction leads with
  | done => cases same
  | stay later ih => exact ih (leads_stay.mp goesOn) same
  | up later ih => exact ih (leads_up.mp goesOn) same
  | vacant name here =>
      cases same
      exact ⟨_, (leads_dir name new).mp goesOn⟩
  | dir name here later ih => exact ih ((leads_dir name (kept _ _ here)).mp goesOn) same
  | file name here => cases same
  | link name here stop => cases same
  | along name here go nonempty later ih =>
      have more := go.resolve_right Bool.false_ne_true
      obtain ⟨k, enough, goesOn⟩ := leads_link name (kept _ _ here)
        (.inl (List.append_ne_nil_of_left_ne_nil more after)) goesOn
      cases enough
      exact ih (by rwa [List.append_assoc]) same

/-- In an empty directory there is nothing. -/
theorem not_leads_of_empty (empty : ∀ n, d.get? (l ++ [n]) = none)
    (onwards : ".." ∉ after) (more : after.filter (· != ".") ≠ []) (x : Location) (e : Entry) :
    ¬d.Leads follow links l after (.entry x e) := by
  induction after with
  | nil => exact absurd rfl more
  | cons n after ih =>
      intro leads
      have later : ".." ∉ after := fun inside => onwards (List.mem_cons_of_mem _ inside)
      generalize there : Place.entry x e = q at leads
      cases leads with
      | stay rest => exact ih later more (there ▸ rest)
      | up rest => exact onwards List.mem_cons_self
      | vacant name here => cases there
      | dir name here rest => cases (empty n).symm.trans here
      | file name here => cases (empty n).symm.trans here
      | link name here => cases (empty n).symm.trans here
      | along name here => cases (empty n).symm.trans here

/-! ## Paths that other paths go through -/

section Find

variable {cwd : Location} {path q : String} {behind : List String} {paths : List String}

/-- A path takes the steps of one that it goes through, and then others. -/
theorem exists_steps (cwd : Location) (isAbove : Path.IsAbove q path behind) (more : behind ≠ []) :
    ∃ after, after ≠ [] ∧ after.filter (· != ".") = behind ∧ ∀ (d : Disk) follow p,
      d.Leads follow maxLinks (linkStart path cwd) (steps path) p →
      d.Leads follow maxLinks (linkStart q cwd) (steps q ++ after) p := by
  have names := filter_steps path
  rw [isAbove.names, ← filter_steps q] at names
  obtain ⟨before, after, split, same, rfl⟩ := List.filter_eq_append_iff.mp names
  have goesOn : after ≠ [] := by
    rintro rfl
    exact more rfl
  refine ⟨after, goesOn, rfl, fun d follow p leads => ?_⟩
  have start : linkStart q cwd = linkStart path cwd := by
    rw [linkStart, linkStart, isAbove.isAbsolute]
  rw [split] at leads
  rw [start]
  exact leads.respelled goesOn same

/-- **Where a path leads to a place, the directories on its way are there.** -/
theorem isDir_of_find (tree : d.IsTree) (dir : d.IsDirAt cwd) (isAbove : Path.IsAbove q path behind)
    (more : behind ≠ []) (found : d.find cwd path follow = .ok p) : d.isDir cwd q = true := by
  obtain ⟨isPath, leads⟩ := find_eq_ok_iff.mp found
  obtain ⟨after, goesOn, -, respelled⟩ := exists_steps cwd isAbove more
  obtain ⟨l, w, there⟩ := (respelled d follow p leads).dir_before tree (tree.linkStart dir q) goesOn
  rw [isDir, entry?, find_eq_ok_iff.mpr ⟨isAbove.isPath isPath, there⟩]

/-- **Behind a directory that was just made there is nothing**, for a path that does not come
back. -/
theorem find_of_makeDir (tree : d.IsTree) (isAbove : Path.IsAbove q path behind)
    (more : behind ≠ []) (onwards : ".." ∉ behind) (made : d.makeDir cwd q = .ok d')
    (follow : Bool) (x : Location) (e : Entry) : d'.find cwd path follow ≠ .ok (.entry x e) := by
  intro found
  obtain ⟨-, leads⟩ := find_eq_ok_iff.mp found
  obtain ⟨l, free, -, rfl⟩ := makeDir_eq_ok made
  obtain ⟨-, vacant⟩ := find_eq_ok_iff.mp free
  obtain ⟨after, -, rfl, respelled⟩ := exists_steps cwd isAbove more
  obtain ⟨k, goesOn⟩ := vacant.behind (extends_put _ vacant.get?_vacant) (get?_put_self d l _)
    (respelled _ follow _ leads)
  refine not_leads_of_empty (fun n => ?_) (fun inside => ?_) more x e goesOn
  · rw [get?_put_other d _ (by simp)]
    cases there : d.get? (l ++ [n]) with
    | none => rfl
    | some e =>
        obtain ⟨w, here⟩ := tree.parent l n e there
        cases vacant.get?_vacant.symm.trans here
  · exact onwards (List.mem_filter.mpr ⟨inside, by decide⟩)

/-- A directory that is there is not made. -/
theorem makeDir_of_isDir (dir : d.isDir cwd q = true) :
    d.makeDir cwd q = .error .alreadyExists := by
  obtain ⟨l, w, found⟩ := isDir_iff_find.mp dir
  obtain ⟨isPath, leads⟩ := find_eq_ok_iff.mp found
  obtain ⟨place, unfollowed⟩ := leads.unfollowed
  rw [makeDir, find_eq_ok_iff.mpr ⟨isPath, unfollowed⟩]
  cases place with
  | entry l e => rfl
  | vacant l => cases (unfollowed.followed fun _ _ same => by cases same).unique leads

theorem growTree_of_isDir (dirs : ∀ q ∈ paths, d.isDir cwd q = true) :
    d.growTree cwd paths = (d, none) := by
  cases paths with
  | nil => rfl
  | cons q parents =>
      have dir := dirs q List.mem_cons_self
      rw [growTree, makeDir_of_isDir dir]
      exact congrArg _ (if_pos dir)

/-- Where the directories cannot be made, one of them is missing. -/
theorem exists_not_isDir {e : IoError} (failed : d.growTree cwd paths = (d', some e)) :
    ∃ q ∈ paths, d'.isDir cwd q = false := by
  have ends {d₁ : Disk} {q : String} {e₁ : IoError}
      (last : (d₁, if d₁.isDir cwd q then none else some e₁) = (d', some e)) :
      d'.isDir cwd q = false := by
    split at last
    · cases last
    · next notDir =>
      cases last
      simpa using notDir
  induction paths with
  | nil => cases failed
  | cons q parents ih =>
      rw [growTree] at failed
      split at failed
      · cases failed
      · split at failed
        · next grown =>
          obtain ⟨r, member, missing⟩ := ih (grown.trans failed)
          exact ⟨r, List.mem_cons_of_mem _ member, missing⟩
        · split at failed
          · cases failed
          · exact ⟨q, List.mem_cons_self, ends failed⟩
      · exact ⟨q, List.mem_cons_self, ends failed⟩

/-- What is new is a directory. -/
theorem get?_growTree {x : Location} {e : Entry}
    (there : (d.growTree cwd paths).1.get? x = some e) : d.get? x = some e ∨ e = .dir true := by
  refine @growTree_induct d cwd
    (fun d' => ∀ e, d'.get? x = some e → d.get? x = some e ∨ e = .dir true)
    paths (fun _ here => .inl here) ?_ e there
  intro d₁ d₂ q _ before made e there
  obtain ⟨l, -, -, rfl⟩ := makeDir_eq_ok made
  by_cases own : x = l
  · rw [own, get?_put_self] at there
    exact .inr (Option.some.inj there).symm
  · rw [get?_put_other d₁ _ own] at there
    exact before e there

end Find

/-! ## The directories of a file -/

section File

variable {cwd : Location} {path : String}

/-- **Where a path leads to a place, no directory is made.** -/
theorem growTree_of_find (tree : d.IsTree) (dir : d.IsDirAt cwd)
    (found : d.find cwd path follow = .ok p) :
    d.growTree cwd (Path.ancestors path).tail = (d, none) := by
  refine growTree_of_isDir fun q member => ?_
  obtain ⟨-, behind, -, -, more, -, isAbove⟩ := Path.exists_above member
  exact isDir_of_find tree dir isAbove more found

/-- Whether a path comes back by `..` from where nothing is. -/
def ComesBack (d : Disk) (cwd : Location) (path : String) : Prop :=
  ∃ above behind, Path.components path = above ++ behind ∧ above ≠ [] ∧ ".." ∈ behind ∧
    ∀ x e, d.find cwd (Path.ofComponents above) false ≠ .ok (.entry x e)

/-- **The directories that are made lead nowhere.** -/
theorem find_growTree_iff (tree : d.IsTree) (dir : d.IsDirAt cwd) (onwards : ¬ComesBack d cwd path)
    (follow : Bool) (x : Location) (e : Entry) :
    (d.growTree cwd (Path.ancestors path).tail).1.find cwd path follow = .ok (.entry x e) ↔
      d.find cwd path follow = .ok (.entry x e) := by
  -- of every disk on the way: it is the first one, or the path leads to nothing on it
  have grown := @growTree_induct d cwd (fun d' => (Extends d d' ∧ d'.IsTree) ∧
    (d' = d ∨ ∀ x e, d'.find cwd path follow ≠ .ok (.entry x e))) (Path.ancestors path).tail
    ⟨⟨fun _ _ here => here, tree⟩, .inl rfl⟩ ?_
  · constructor
    · intro found
      rcases grown.2 with same | nothing
      · rwa [same] at found
      · exact absurd found (nothing x e)
    · intro found
      rwa [growTree_of_find tree dir found]
  · rintro d₁ d₂ q member ⟨⟨more, tree₁⟩, -⟩ made
    obtain ⟨more', tree₂⟩ := makeDir_spec made
    refine ⟨⟨more.trans more', tree₂ tree₁⟩, .inr fun x e => ?_⟩
    obtain ⟨above, behind, split, nonempty, goesOn, rfl, isAbove⟩ := Path.exists_above member
    -- the directory was not there at first, for what was there still is
    have missing : ∀ y e, d.find cwd (Path.ofComponents above) false ≠ .ok (.entry y e) := by
      intro y e found
      obtain ⟨l, free, -, -⟩ := makeDir_eq_ok made
      cases free.symm.trans (find_extends tree dir more found)
    exact find_of_makeDir tree₁ isAbove goesOn
      (fun back => onwards ⟨above, behind, split, nonempty, back, missing⟩) made follow x e

end File

end Gatekeeper.Machine.Disk
