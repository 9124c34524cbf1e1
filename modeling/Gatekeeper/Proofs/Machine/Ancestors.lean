import Gatekeeper.Machine.Disk
import Gatekeeper.Proofs.Machine.Disk
import Gatekeeper.Proofs.Text.Run
import Mathlib.Data.List.Flatten
import Mathlib.Data.String.Basic

set_option autoImplicit false

/-!
# The directories on the way of a path

The path of a directory above a file is put together from the first components of the path of the
file. It begins at the same place, takes the first of its names and is spelled with letters of it
(`Path.isAbove_ofComponents`); so where the file's path may be resolved, it may be too
(`Path.IsAbove.isPath`), and the steps that the two ask for agree but for `.` (`Disk.filter_steps`).
-/

namespace Gatekeeper

namespace Path

open Text

/-- Whether something can stand between two slashes of a path. -/
structure IsPiece (n : String) : Prop where
  nonempty : n ≠ ""
  noSlash : '/' ∉ n.toList

variable {p path n s : String} {ns : List String}

/-! ## Pieces -/

theorem isPiece_of_mem_names (member : n ∈ names p) : IsPiece n := by
  obtain ⟨isPiece, kind⟩ := List.mem_filter.mp member
  obtain ⟨t, inside, rfl⟩ := List.mem_map.mp isPiece
  obtain ⟨nonempty, -⟩ := Bool.and_eq_true_iff.mp kind
  refine ⟨by simpa using nonempty, ?_⟩
  rw [String.toList_ofList]
  exact not_mem_of_mem_splitOn inside

theorem map_toList_pieces (p : String) : (pieces p).map String.toList = p.toList.splitOn '/' := by
  simp [pieces, Function.comp_def]

/-- A path is its pieces with slashes between them. -/
theorem intercalate_pieces (p : String) :
    ['/'].intercalate ((pieces p).map String.toList) = p.toList := by
  rw [map_toList_pieces, List.intercalate_splitOn]

theorem pieces_eq (nonempty : ns ≠ []) (noSlash : ∀ n ∈ ns, '/' ∉ n.toList)
    (spelled : p.toList = ['/'].intercalate (ns.map String.toList)) : pieces p = ns := by
  have split : p.toList.splitOn '/' = ns.map String.toList := by
    rw [spelled]
    exact List.splitOn_intercalate '/' (by simpa using noSlash) (by simpa using nonempty)
  simp [pieces, split, Function.comp_def]

/-! ## Letters -/

theorem intercalate_sublist {c : Char} {few many : List (List Char)} (sublist : few.Sublist many) :
    ([c].intercalate few).Sublist ([c].intercalate many) := by
  induction sublist with
  | slnil => exact List.Sublist.refl _
  | @cons few many s sublist ih =>
      cases many with
      | nil =>
          cases sublist
          exact List.nil_sublist _
      | cons t many =>
          rw [List.intercalate_cons_cons]
          exact List.sublist_append_of_sublist_right ih
  | @cons_cons few many s sublist ih =>
      rw [intercalate_cons, intercalate_cons]
      exact (List.Sublist.flatMap sublist _).append_left s

/-! ## Paths that are put together -/

theorem not_isAbsolute_of_isPiece (piece : IsPiece n) : isAbsolute n = false := by
  rw [isAbsolute, beq_eq_false_iff_ne]
  exact fun first => piece.noSlash (List.mem_of_mem_head? first)

/-- Whether the next name goes behind a slash that is still to be put. -/
structure IsOpen (s : String) : Prop where
  nonempty : s ≠ ""
  noSlash : s.toList.getLast? ≠ some '/'

theorem toList_join (piece : IsPiece n) (isOpen : IsOpen s) :
    (join s n).toList = s.toList ++ '/' :: n.toList := by
  rw [join, if_neg (by simp [not_isAbsolute_of_isPiece piece]),
    if_neg (by simpa using ⟨isOpen.nonempty, isOpen.noSlash⟩)]
  simp

theorem isOpen_of_isPiece (piece : IsPiece n) {before : List Char}
    (spelled : s.toList = before ++ n.toList) : IsOpen s := by
  have letters : n.toList ≠ [] := by simpa using piece.nonempty
  constructor
  · rintro rfl
    exact letters (List.append_eq_nil_iff.mp spelled.symm).2
  · rw [spelled, List.getLast?_append_of_ne_nil _ letters]
    exact fun last => piece.noSlash (List.mem_of_getLast? last)

theorem toList_foldl_join (arePieces : ∀ n ∈ ns, IsPiece n) (isOpen : IsOpen s) :
    (ns.foldl join s).toList = s.toList ++ ns.flatMap fun n => '/' :: n.toList := by
  induction ns generalizing s with
  | nil => simp
  | cons n ns ih =>
      have piece := arePieces n List.mem_cons_self
      have spelled := toList_join piece isOpen
      rw [List.foldl_cons, ih (fun m member => arePieces m (List.mem_cons_of_mem _ member))
        (isOpen_of_isPiece piece (show _ = (s.toList ++ ['/']) ++ n.toList by simp [spelled])),
        spelled]
      simp

/-- Pieces put together below a directory, or from nothing. -/
theorem toList_foldl_join_start (arePieces : ∀ n ∈ ns, IsPiece n)
    (start : s = "" ∨ s.toList.getLast? = some '/') :
    (ns.foldl join s).toList = s.toList ++ ['/'].intercalate (ns.map String.toList) := by
  cases ns with
  | nil => simp
  | cons n ns =>
      have piece := arePieces n List.mem_cons_self
      have joined : join s n = s ++ n := by
        rw [join, if_neg (by simp [not_isAbsolute_of_isPiece piece]), if_pos (by simpa using start)]
      have spelled : (join s n).toList = s.toList ++ n.toList := by
        rw [joined, String.toList_append]
      have others := fun m member => arePieces m (List.mem_cons_of_mem n member)
      rw [List.foldl_cons, toList_foldl_join others (isOpen_of_isPiece piece spelled), spelled,
        List.map_cons, intercalate_cons, List.flatMap_map]
      simp

theorem pieces_ofComponents (nonempty : ns ≠ []) (arePieces : ∀ n ∈ ns, IsPiece n) :
    pieces (ofComponents ns) = ns := by
  refine pieces_eq nonempty (fun n member => (arePieces n member).noSlash) ?_
  rw [ofComponents, toList_foldl_join_start arePieces (.inl rfl)]
  simp

theorem pieces_ofComponents_root (nonempty : ns ≠ []) (arePieces : ∀ n ∈ ns, IsPiece n) :
    pieces (ofComponents ("/" :: ns)) = "" :: ns := by
  refine pieces_eq (List.cons_ne_nil _ _) (fun n member => ?_) ?_
  · rcases List.mem_cons.mp member with rfl | inside
    · exact List.not_mem_nil
    · exact (arePieces n inside).noSlash
  · change (ns.foldl join "/").toList = _
    obtain ⟨n, others, rfl⟩ := List.exists_cons_of_ne_nil nonempty
    rw [toList_foldl_join_start arePieces (.inr rfl), List.map_cons, List.map_cons, List.map_cons,
      List.intercalate_cons_cons]
    rfl

/-! ## The first components of a path -/

theorem isAbsolute_iff : isAbsolute p = true ↔ (pieces p).head? = some "" ∧ p ≠ "" := by
  rw [isAbsolute, pieces, beq_iff_eq, ne_eq, ← String.toList_eq_nil_iff]
  cases p.toList with
  | nil => simp
  | cons c s =>
      rw [List.splitOn_cons_eq_if_modifyHead]
      obtain ⟨first, others, split⟩ := List.exists_cons_of_ne_nil (List.splitOn_ne_nil '/' s)
      by_cases slash : c = '/' <;> simp [slash, split]

/-- Whether a path is one that another path goes through, with names behind it. -/
structure IsAbove (p path : String) (behind : List String) : Prop where
  nonempty : p ≠ ""
  names : names path = names p ++ behind
  isAbsolute : isAbsolute p = isAbsolute path
  letters : p.toList.Sublist path.toList

/-- A path that is spelled with some of the pieces of another one. -/
theorem isAbove_of_pieces {behind : List String} (split : names path = names p ++ behind)
    (absolute : isAbsolute p = isAbsolute path) (nonempty : p ≠ "")
    (sublist : (pieces p).Sublist (pieces path)) : IsAbove p path behind where
  nonempty := nonempty
  names := split
  isAbsolute := absolute
  letters := by
    rw [← intercalate_pieces p, ← intercalate_pieces path]
    exact intercalate_sublist (sublist.map _)

section Names

variable {behind : List String}

theorem filter_names (inside : ∀ n ∈ ns, n ∈ names path) :
    ns.filter (fun n => n != "" && n != ".") = ns :=
  List.filter_eq_self.mpr fun n member => (List.mem_filter.mp (inside n member)).2

theorem mem_names (split : names path = ns ++ behind) (n : String) (member : n ∈ ns) :
    n ∈ names path :=
  split ▸ List.mem_append_left _ member

/-- The first names of a path stand behind what it begins with. -/
theorem cons_sublist_pieces {start : String} {more : List String}
    (starts : pieces path = start :: more)
    (noName : ¬(start != "" && start != ".") = true) (split : names path = ns ++ behind) :
    (start :: ns).Sublist (pieces path) := by
  have kept : names path = more.filter fun n => n != "" && n != "." := by
    rw [names, starts]
    exact List.filter_cons_of_neg noName
  rw [starts]
  refine List.Sublist.cons_cons start ((List.sublist_append_left ns behind).trans ?_)
  rw [← split, kept]
  exact List.filter_sublist

theorem ne_empty_of_pieces (other : pieces p ≠ [""]) : p ≠ "" := by
  rintro rfl
  exact other rfl

theorem isAbove_absolute (absolute : isAbsolute path = true) (split : names path = ns ++ behind) :
    IsAbove (ofComponents ("/" :: ns)) path behind := by
  by_cases root : ns = []
  · subst root
    obtain ⟨rest, letters⟩ := List.head?_eq_some_iff.mp (beq_iff_eq.mp absolute)
    exact ⟨by decide, split, by rw [absolute]; rfl, letters ▸ (List.nil_sublist rest).cons_cons '/'⟩
  · have inside := mem_names split
    have own := pieces_ofComponents_root root fun n member => isPiece_of_mem_names (inside n member)
    have nonempty : ofComponents ("/" :: ns) ≠ "" := ne_empty_of_pieces (by simpa [own] using root)
    obtain ⟨more, starts⟩ := List.head?_eq_some_iff.mp (isAbsolute_iff.mp absolute).1
    refine isAbove_of_pieces ?_ ?_ nonempty ?_
    · rw [split, names, own, List.filter_cons_of_neg (by decide), filter_names inside]
    · rw [absolute, isAbsolute_iff, own]
      exact ⟨rfl, nonempty⟩
    · rw [own]
      exact cons_sublist_pieces starts (by decide) split

theorem isAbove_relative (relative : isAbsolute path = false) (nonempty : ns ≠ [])
    (arePieces : ∀ n ∈ ns, IsPiece n) (sublist : ns.Sublist (pieces path))
    (split : names path = ns.filter (fun n => n != "" && n != ".") ++ behind) :
    IsAbove (ofComponents ns) path behind := by
  have own := pieces_ofComponents nonempty arePieces
  obtain ⟨n, others, rfl⟩ := List.exists_cons_of_ne_nil nonempty
  have named := (arePieces n List.mem_cons_self).nonempty
  refine isAbove_of_pieces ?_ ?_ (ne_empty_of_pieces ?_) ?_
  · rw [split, names, own]
  · rw [relative, ← Bool.not_eq_true, isAbsolute_iff, own]
    exact fun start => named (Option.some.inj start.1)
  · rw [own]
    exact fun same => named (List.head_eq_of_cons_eq same)
  · rwa [own]

/-- **The first components of a path make one that it goes through.** The cases are those of the
components: with the root in front, with a `.`, and with nothing but names. -/
theorem isAbove_ofComponents {above : List String} (split : components path = above ++ behind)
    (nonempty : above ≠ []) : IsAbove (ofComponents above) path behind := by
  rw [components] at split
  split at split
  · next absolute =>
    obtain ⟨start, ns, rfl⟩ := List.exists_cons_of_ne_nil nonempty
    obtain ⟨rfl, taken⟩ := List.cons_eq_cons.mp split
    exact isAbove_absolute absolute taken
  · next relative =>
    rw [Bool.not_eq_true] at relative
    split at split
    · next dot =>
      obtain ⟨start, ns, rfl⟩ := List.exists_cons_of_ne_nil nonempty
      obtain ⟨rfl, taken⟩ := List.cons_eq_cons.mp split
      have inside := mem_names taken
      obtain ⟨more, starts⟩ := List.head?_eq_some_iff.mp (beq_iff_eq.mp dot)
      refine isAbove_relative relative nonempty (fun n member => ?_)
        (cons_sublist_pieces starts (by decide) taken) ?_
      · rcases List.mem_cons.mp member with rfl | member
        · exact ⟨by decide, by decide⟩
        · exact isPiece_of_mem_names (inside n member)
      · rw [List.filter_cons_of_neg (by decide), filter_names inside]
        exact taken
    · have inside := mem_names split
      refine isAbove_relative relative nonempty
        (fun n member => isPiece_of_mem_names (inside n member)) ?_ ?_
      · exact (split ▸ List.sublist_append_left above behind).trans List.filter_sublist
      · rw [filter_names inside, split]

/-- A path that another one goes through may be resolved where that one may be. -/
theorem IsAbove.isPath (isAbove : IsAbove p path behind)
    (isPath : Machine.Disk.IsPath path) : Machine.Disk.IsPath p where
  noNul := by
    have noNul := isPath.noNul
    rw [List.contains_iff_mem] at noNul ⊢
    exact fun inside => noNul (isAbove.letters.subset inside)
  nonempty := by simpa using isAbove.nonempty
  short := by
    have shorter := String.utf8Len_le_of_sublist isAbove.letters
    rw [← String.utf8ByteSize_ofList, ← String.utf8ByteSize_ofList, String.ofList_toList,
      String.ofList_toList] at shorter
    exact fun long => isPath.short (long.trans shorter)

end Names

/-! ## The paths of directories -/

/-- The paths of the directories above a file are made of the first components of its path. -/
theorem exists_above (member : p ∈ (ancestors path).tail) :
    ∃ above behind, components path = above ++ behind ∧ above ≠ [] ∧ behind ≠ [] ∧
      p = ofComponents above ∧ IsAbove p path behind := by
  rw [ancestors, ← List.map_tail, List.tail_range] at member
  obtain ⟨k, inside, rfl⟩ := List.mem_map.mp member
  have bounds := List.mem_range'_1.mp inside
  have split := (List.take_append_drop ((components path).length - k) (components path)).symm
  have above : (components path).take ((components path).length - k) ≠ [] :=
    List.ne_nil_of_length_pos (by rw [List.length_take]; omega)
  have behind : (components path).drop ((components path).length - k) ≠ [] :=
    List.ne_nil_of_length_pos (by rw [List.length_drop]; omega)
  exact ⟨_, _, split, above, behind, rfl, isAbove_ofComponents split above⟩

end Path

namespace Machine.Disk

/-- The steps that a path asks for are its names, but for `.`. -/
theorem filter_steps (path : String) : (steps path).filter (· != ".") = Path.names path := by
  have stays (slash : Bool) : (if slash then ["."] else []).filter (· != ".") = [] := by
    cases slash <;> rfl
  rw [steps, List.filter_append, List.filter_filter, stays, List.append_nil, Path.names]
  exact List.filter_congr fun n _ => Bool.and_comm _ _

end Machine.Disk

end Gatekeeper
