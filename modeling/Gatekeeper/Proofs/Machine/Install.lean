import Gatekeeper.Proofs.Machine.Disk

set_option autoImplicit false

/-!
# Files put in place one after another

A file that is put at a path takes the place of what was there. Whether the path leads to it
afterwards depends on the rest of the disk only: the file is in the way of a path that comes by its
place once more, and otherwise it is where the path ends (`Leads.meets`). So where a second file can
be put at the path, the first one was there, and the second one alone would have been put at the
same place (`Disk.install_install`).
-/

namespace Gatekeeper.Machine.Disk

variable {d d₁ d₂ : Disk} {links : Nat} {loc l : Location} {names : List String} {p : Place}

/-! ## Where a path ends -/

/-- Whether a disk is another one with more on it, and a file in the place of what was somewhere. -/
structure Fills (d : Disk) (l : Location) (g : File) (d' : Disk) : Prop where
  others : ∀ y, y ≠ l → ∀ e, d.get? y = some e → d'.get? y = some e
  own : d'.get? l = some (.file g)

theorem fills_put (d : Disk) (l : Location) (g : File) : Fills d l g (d.put l (.file g)) where
  others y other e here := by rwa [get?_put_other d _ other]
  own := get?_put_self d l _

theorem Fills.extends {d' d'' : Disk} {g : File} (fills : Fills d l g d') (more : Extends d' d'') :
    Fills d l g d'' where
  others y other e here := more y e (fills.others y other e here)
  own := more l _ fills.own

/-- A file that takes the place of another one. -/
theorem Fills.put {d' : Disk} {f : File} (fills : Fills d l f d') (g : File) :
    Fills d l g (d'.put l (.file g)) where
  others y other e here := by
    rw [get?_put_other d' _ other]
    exact fills.others y other e here
  own := get?_put_self d' l _

/-- What receives a file is no directory. -/
theorem Receives.get?_ne_dir (receives : Receives l p) (tree : d.IsTree) (dir : d.IsDirAt loc)
    (leads : d.Leads false links loc names p) (w : Bool) : d.get? l ≠ some (.dir w) := by
  cases receives with
  | vacant =>
      rw [leads.get?_vacant]
      nofun
  | entry e noDir =>
      rw [leads.get? dir tree]
      exact fun same => noDir w (Option.some.inj same)

/-- **Where a path ends with a file in the place**: there, or nowhere, whatever the file. -/
theorem Leads.meets (tree : d.IsTree) (dir : d.IsDirAt loc)
    (leads : d.Leads false links loc names p) (receives : Receives l p) :
    (∀ g d', Fills d l g d' → ∀ follow, d'.Leads follow links loc names (.entry l (.file g))) ∨
      ∀ g d', Fills d l g d' → ∀ follow p, ¬d'.Leads follow links loc names p := by
  have noDir := receives.get?_ne_dir tree dir leads
  -- along the path, as it was resolved on the disk without the file
  induction leads with
  | done =>
      -- the path ends in a directory, which receives no file
      obtain ⟨w, here⟩ := dir
      rw [here] at receives
      cases receives with
      | entry e noDir => exact absurd rfl (noDir w)
  | stay later ih =>
      refine (ih dir receives).imp (fun ends g d' fills follow => ?_)
        fun stuck g d' fills follow p => ?_
      · exact .stay (ends g d' fills follow)
      · exact fun leads => stuck g d' fills follow p (leads_stay.mp leads)
  | up later ih =>
      refine (ih (tree.dropLast dir) receives).imp (fun ends g d' fills follow => ?_)
        fun stuck g d' fills follow p => ?_
      · exact .up (ends g d' fills follow)
      · exact fun leads => stuck g d' fills follow p (leads_up.mp leads)
  | vacant name here =>
      cases receives
      exact .inl fun g d' fills follow => .file name fills.own
  | @dir links loc n rest p w name here later ih =>
      have other : loc ++ [n] ≠ l := fun same => noDir w (same ▸ here)
      refine (ih ⟨w, here⟩ receives).imp (fun ends g d' fills follow => ?_)
        fun stuck g d' fills follow p => ?_
      · exact .dir name (fills.others _ other _ here) (ends g d' fills follow)
      · exact fun leads => stuck g d' fills follow p
          ((leads_dir name (fills.others _ other _ here)).mp leads)
  | file name here =>
      cases receives
      exact .inl fun g d' fills follow => .file name fills.own
  | link name here stop =>
      cases receives
      exact .inl fun g d' fills follow => .file name fills.own
  | @along links loc n target rest p name here go nonempty later ih =>
      have more : rest ≠ [] := go.resolve_right Bool.false_ne_true
      by_cases own : loc ++ [n] = l
      · -- the link gives way to the file, and the path goes on behind it
        refine .inr fun g d' fills follow p leads => more ?_
        exact leads_file name (own ▸ fills.own) leads
      · refine (ih (tree.linkStart dir target) receives).imp (fun ends g d' fills follow => ?_)
          fun stuck g d' fills follow p leads => ?_
        · exact .along name (fills.others _ own _ here) (.inl more) nonempty
            (ends g d' fills follow)
        · obtain ⟨k, enough, goes⟩ := leads_link name (fills.others _ own _ here) (.inl more) leads
          cases enough
          exact stuck g d' fills follow p goes

/-! ## Two files -/

section Install

variable {cwd : Location} {path : String}

/-- **The second of two files**: where one can be put at a path after another one, the first was
read at the path, and any file that is put there without the first is. -/
theorem install_install {first second : List UInt8} {d₁' : Disk} (tree : d.IsTree)
    (dir : d.IsDirAt cwd) (installed : d.install cwd path first = .ok d₁) (more : Extends d₁ d₁')
    (again : d₁'.install cwd path second = .ok d₂) :
    d₁.read cwd path = .ok first ∧ d₁'.read cwd path = .ok first ∧
      d₂.read cwd path = .ok second ∧
      ∀ bytes, ∃ d₃, d.install cwd path bytes = .ok d₃ ∧ d₃.read cwd path = .ok bytes := by
  obtain ⟨slash, p, l, found, receives, writable, rfl⟩ := install_eq_ok_iff.mp installed
  obtain ⟨-, p', l', found', receives', -, rfl⟩ := install_eq_ok_iff.mp again
  obtain ⟨isPath, leads⟩ := find_eq_ok_iff.mp found
  have fills := (fills_put d l { bytes := first }).extends more
  -- the second file found its place, so the path does not end nowhere
  have ends := (leads.meets tree (tree.linkStart dir path) receives).resolve_right fun stuck =>
    stuck _ _ fills _ _ (find_eq_ok_iff.mp found').2
  have reads (bytes : List UInt8) (d' : Disk) (fills : Fills d l { bytes } d') :
      d'.read cwd path = .ok bytes := by
    rw [Disk.read, find_eq_ok_iff.mpr ⟨isPath, ends _ d' fills true⟩]
    rfl
  have same : l' = l := by
    cases (ends _ _ fills false).unique (find_eq_ok_iff.mp found').2
    cases receives'
    rfl
  subst same
  refine ⟨reads _ _ (fills_put d _ _), reads _ _ fills, reads _ _ (fills.put _), fun bytes => ?_⟩
  exact ⟨_, install_eq_ok_iff.mpr ⟨slash, p, _, found, receives, writable, rfl⟩,
    reads _ _ (fills_put d _ _)⟩

end Install

end Gatekeeper.Machine.Disk
