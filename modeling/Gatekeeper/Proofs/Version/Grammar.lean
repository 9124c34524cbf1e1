import Gatekeeper.Proofs.Text.Trim
import Gatekeeper.Proofs.Version.Written

set_option autoImplicit false

/-!
# What is read as a version

Before a text is read as a version it is taken apart (`Anatomy`): blanks, a mark and a local part
come off, and what is left begins with a release. There is one way to do this (`anatomy_iff`), and
the parts decide what is read: a text is a version if it has a release and all components of the
release fit, and otherwise the first part that is missing or does not fit is reported.

Main statement: `parsing_is_exact`.
-/

namespace Gatekeeper.Version

open Text

variable {s t u p r : List Char}

/-! ## The parts of a text -/

/-- `t` is `s` without the blanks at its ends. -/
def IsTrimmed (s t : List Char) : Prop :=
  ∃ before after, s = before ++ (t ++ after) ∧ (∀ c ∈ before, isBlank c) ∧
    (∀ c ∈ after, isBlank c) ∧ (∀ c ∈ t.head?, isBlank c = false) ∧
    ∀ c ∈ t.getLast?, isBlank c = false

/-- `u` is `t` without one leading `v` or `V`. -/
def IsUnmarked (t u : List Char) : Prop :=
  t = 'v' :: u ∨ t = 'V' :: u ∨ (t = u ∧ ∀ c ∈ t.head?, c ≠ 'v' ∧ c ≠ 'V')

/-- `p` is `u` up to its first plus. -/
def IsPublic (u p : List Char) : Prop :=
  ∃ rest, u = p ++ rest ∧ '+' ∉ p ∧ ∀ c ∈ rest.head?, c = '+'

/-- `r` is the longest beginning of `p` that consists of digits and dots, without the dots at its
end. -/
def IsRelease (p r : List Char) : Prop :=
  ∃ dots rest, p = r ++ (dots ++ rest) ∧ (∀ c ∈ r, isDigit c ∨ c = '.') ∧ (∀ c ∈ dots, c = '.') ∧
    (∀ c ∈ r.getLast?, c ≠ '.') ∧ ∀ c ∈ rest.head?, isDigit c = false ∧ c ≠ '.'

/-- The parts of the text `s`: what is left without blanks at its ends, without a mark, and without
a local part, and the release at the start of that. -/
structure Anatomy (s t u p r : List Char) : Prop where
  trimmed : IsTrimmed s t
  unmarked : IsUnmarked t u
  isPublic : IsPublic u p
  release : IsRelease p r

theorem isTrimmed_iff : IsTrimmed s t ↔ t = trim s := by
  constructor
  · rintro ⟨before, after, rfl, blankBefore, blankAfter, first, last⟩
    by_cases empty : t = []
    · rw [empty, eq_comm, trim_eq_nil_iff]
      exact List.forall_mem_append.mpr ⟨blankBefore, blankAfter⟩
    · exact (trim_append blankBefore blankAfter empty first last).symm
  · rintro rfl
    exact exists_trim s

theorem isUnmarked_iff : IsUnmarked t u ↔ u = dropMark t := by
  constructor
  · rintro (rfl | rfl | ⟨rfl, bare⟩)
    · rfl
    · rfl
    · unfold dropMark
      split
      · exact absurd rfl (bare 'v' rfl).1
      · exact absurd rfl (bare 'V' rfl).2
      · rfl
  · rintro rfl
    unfold dropMark
    split
    · exact .inl rfl
    · exact .inr (.inl rfl)
    · next small large =>
      refine .inr (.inr ⟨rfl, fun c first => ?_⟩)
      obtain ⟨rest, rfl⟩ := List.head?_eq_some_iff.mp first
      exact ⟨fun same => small rest (by rw [same]), fun same => large rest (by rw [same])⟩

theorem isPublic_iff : IsPublic u p ↔ p = u.takeWhile (· != '+') := by
  constructor
  · rintro ⟨rest, rfl, noPlus, plus⟩
    refine (takeWhile_run (fun c member => ?_) fun c first => by simp [plus c first]).symm
    rw [bne_iff_ne]
    exact fun same => noPlus (same ▸ member)
  · rintro rfl
    obtain ⟨run, rest, rfl, noPlus, stop⟩ := exists_run (· != '+') u
    rw [takeWhile_run noPlus stop]
    refine ⟨rest, rfl, fun member => absurd rfl (bne_iff_ne.mp (noPlus '+' member)),
      fun c first => ?_⟩
    simpa using stop c first

theorem isReleaseChar_iff {c : Char} : isReleaseChar c = true ↔ isDigit c ∨ c = '.' := by
  rw [isReleaseChar, Bool.or_eq_true, beq_iff_eq]

theorem isReleaseChar_eq_false_iff {c : Char} :
    isReleaseChar c = false ↔ isDigit c = false ∧ c ≠ '.' := by
  rw [isReleaseChar, Bool.or_eq_false_iff, beq_eq_false_iff_ne]

theorem isRelease_iff : IsRelease p r ↔ r = releasePart p := by
  constructor
  · rintro ⟨dots, rest, rfl, own, areDots, last, stop⟩
    have run : ∀ c ∈ r ++ dots, isReleaseChar c := List.forall_mem_append.mpr
      ⟨fun c member => isReleaseChar_iff.mpr (own c member),
        fun c member => isReleaseChar_iff.mpr (.inr (areDots c member))⟩
    rw [← List.append_assoc, releasePart,
      takeWhile_run run fun c first => isReleaseChar_eq_false_iff.mpr (stop c first)]
    exact (dropEndWhile_append (fun c dot => beq_iff_eq.mpr (areDots c dot))
      fun c end_ => beq_eq_false_iff_ne.mpr (last c end_)).symm
  · rintro rfl
    obtain ⟨run, rest, rfl, own, stop⟩ := exists_run isReleaseChar p
    obtain ⟨dots, kept, reversed, areDots, last⟩ := exists_run (· == '.') run.reverse
    have parts : run = kept.reverse ++ dots.reverse := by
      rw [← List.reverse_append, ← reversed, List.reverse_reverse]
    have released : releasePart (run ++ rest) = kept.reverse := by
      rw [releasePart, takeWhile_run own stop, dropEndWhile, reversed, dropWhile_run areDots last]
    rw [released]
    refine ⟨dots.reverse, rest, by rw [parts, List.append_assoc], fun c member => ?_,
      fun c member => ?_, fun c end_ => ?_,
      fun c first => isReleaseChar_eq_false_iff.mp (stop c first)⟩
    · exact isReleaseChar_iff.mp (own c (parts ▸ List.mem_append_left _ member))
    · exact beq_iff_eq.mp (areDots c (List.mem_reverse.mp member))
    · rw [List.getLast?_reverse] at end_
      exact beq_eq_false_iff_ne.mp (last c end_)

/-- **A text has one anatomy.** -/
theorem anatomy_iff : Anatomy s t u p r ↔
    t = trim s ∧ u = dropMark t ∧ p = u.takeWhile (· != '+') ∧ r = releasePart p := by
  rw [← isTrimmed_iff, ← isUnmarked_iff, ← isPublic_iff, ← isRelease_iff]
  exact ⟨fun ⟨trimmed, unmarked, isPublic, release⟩ => ⟨trimmed, unmarked, isPublic, release⟩,
    fun ⟨trimmed, unmarked, isPublic, release⟩ => ⟨trimmed, unmarked, isPublic, release⟩⟩

theorem exists_anatomy (s : List Char) : ∃ t u p r, Anatomy s t u p r :=
  ⟨_, _, _, _, anatomy_iff.mpr ⟨rfl, rfl, rfl, rfl⟩⟩

theorem Anatomy.unique {t' u' p' r' : List Char} (anatomy : Anatomy s t u p r)
    (other : Anatomy s t' u' p' r') : t' = t ∧ u' = u ∧ p' = p ∧ r' = r := by
  obtain ⟨rfl, rfl, rfl, rfl⟩ := anatomy_iff.mp anatomy
  obtain ⟨rfl, rfl, rfl, rfl⟩ := anatomy_iff.mp other
  exact ⟨rfl, rfl, rfl, rfl⟩

/-- In nothing there is no release. -/
theorem Anatomy.release_eq_nil (anatomy : Anatomy s t u p r) (empty : t = []) : r = [] := by
  obtain ⟨-, rfl, rfl, rfl⟩ := anatomy_iff.mp anatomy
  rw [empty]
  rfl

/-! ## Components -/

/-- What a component of a release must be, which consists of digits anyway: there is a digit, and
the number fits 64 bits. -/
def IsComponent (n : List Char) : Prop := n ≠ [] ∧ valueOf 10 n < word

instance (n : List Char) : Decidable (IsComponent n) :=
  inferInstanceAs (Decidable (n ≠ [] ∧ valueOf 10 n < word))

/-- `c` is the first piece that cannot be a component. -/
def FirstFault (ns : List (List Char)) (c : List Char) : Prop :=
  ∃ before after, ns = before ++ c :: after ∧ (∀ n ∈ before, IsComponent n) ∧ ¬IsComponent c

/-- The pieces of a release consist of digits. -/
theorem Anatomy.digits (anatomy : Anatomy s t u p r) : ∀ n ∈ r.splitOn '.', ∀ c ∈ n, isDigit c := by
  obtain ⟨dots, rest, -, own, -⟩ := anatomy.release
  intro n piece c member
  refine (own c (subset_of_mem_splitOn piece member)).resolve_right ?_
  rintro rfl
  exact not_mem_of_mem_splitOn piece member

section Components

variable {n : List Char} {ns : List (List Char)}

theorem IsComponent.digits64? (component : IsComponent n) (digits : ∀ c ∈ n, isDigit c) :
    digits64? n = some (valueOf 10 n) :=
  IsNumber.digits64? ⟨component.1, digits, component.2⟩

theorem digits64?_eq_none_of_not (fault : ¬IsComponent n) : digits64? n = none := by
  rw [Text.digits64?]
  split
  · rfl
  · next kind =>
    have some_digit : n ≠ [] := by
      rintro rfl
      exact kind rfl
    exact if_neg fun fits => fault ⟨some_digit, fits⟩

/-- **A release is read** if all its pieces are components. -/
theorem readRelease_of_components (digits : ∀ n ∈ ns, ∀ c ∈ n, isDigit c)
    (components : ∀ n ∈ ns, IsComponent n) : readRelease ns = .ok (ns.map (valueOf 10)) :=
  ReleaseText.readRelease_numbers fun n member =>
    ⟨(components n member).1, digits n member, (components n member).2⟩

/-- **If not, the first fault is reported.** -/
theorem readRelease_of_firstFault (digits : ∀ n ∈ ns, ∀ c ∈ n, isDigit c) {c : List Char}
    (fault : FirstFault ns c) : readRelease ns = .error c := by
  obtain ⟨before, after, rfl, components, fault⟩ := fault
  induction before with
  | nil => rw [List.nil_append, readRelease, digits64?_eq_none_of_not fault]
  | cons n before ih =>
      have first := (components n List.mem_cons_self).digits64? (digits n List.mem_cons_self)
      have later := ih (fun m member => digits m (List.mem_cons_of_mem _ member))
        fun m member => components m (List.mem_cons_of_mem _ member)
      rw [List.cons_append, readRelease, first, later]
      rfl

/-- There is a first fault if there is any. -/
theorem components_or_firstFault (ns : List (List Char)) :
    (∀ n ∈ ns, IsComponent n) ∨ ∃ c, FirstFault ns c := by
  induction ns with
  | nil => exact .inl (List.forall_mem_nil _)
  | cons n ns ih =>
      by_cases component : IsComponent n
      · rcases ih with components | ⟨c, before, after, rfl, components, fault⟩
        · exact .inl (List.forall_mem_cons.mpr ⟨component, components⟩)
        · exact .inr ⟨c, n :: before, after, rfl, List.forall_mem_cons.mpr ⟨component, components⟩,
            fault⟩
      · exact .inr ⟨n, [], ns, rfl, List.forall_mem_nil _, component⟩

end Components

/-! ## What is read -/

section Reading

variable {s : String}

theorem parse_eq (anatomy : Anatomy s.toList t u p r) : parse s =
    if t = [] then .error .empty
    else if r = [] then .error (.noRelease (String.ofList t))
    else
      match readRelease (r.splitOn '.') with
      | .error c => .error (.badComponent (String.ofList t) (String.ofList c))
      | .ok numbers => .ok ⟨numbers, (readTag (p.dropWhile isReleaseChar)).1,
          (readTag (p.dropWhile isReleaseChar)).2, String.ofList t⟩ := by
  obtain ⟨rfl, rfl, rfl, rfl⟩ := anatomy_iff.mp anatomy
  rw [parse]
  simp only [List.isEmpty_iff]
  rfl

/-- A text with a release all of whose pieces are components is a version. -/
theorem parse_of_components (anatomy : Anatomy s.toList t u p r) (release : r ≠ [])
    (components : ∀ n ∈ r.splitOn '.', IsComponent n) : parse s =
      .ok ⟨(r.splitOn '.').map (valueOf 10), (readTag (p.dropWhile isReleaseChar)).1,
        (readTag (p.dropWhile isReleaseChar)).2, String.ofList t⟩ := by
  rw [parse_eq anatomy, if_neg (mt anatomy.release_eq_nil release), if_neg release,
    readRelease_of_components anatomy.digits components]

theorem parse_of_firstFault (anatomy : Anatomy s.toList t u p r) (release : r ≠ []) {c : List Char}
    (fault : FirstFault (r.splitOn '.') c) :
    parse s = .error (.badComponent (String.ofList t) (String.ofList c)) := by
  rw [parse_eq anatomy, if_neg (mt anatomy.release_eq_nil release), if_neg release,
    readRelease_of_firstFault anatomy.digits fault]

theorem parse_of_no_release (anatomy : Anatomy s.toList t u p r) (some_char : t ≠ [])
    (empty : r = []) : parse s = .error (.noRelease (String.ofList t)) := by
  rw [parse_eq anatomy, if_neg some_char, if_pos empty]

theorem parse_of_nothing (anatomy : Anatomy s.toList t u p r) (empty : t = []) :
    parse s = .error .empty := by
  rw [parse_eq anatomy, if_pos empty]

/-- **The parts of a text decide what is read**, and there is a part for each outcome. -/
theorem reading (anatomy : Anatomy s.toList t u p r) :
    (t = [] ∧ r = [] ∧ parse s = .error .empty) ∨
    (t ≠ [] ∧ r = [] ∧ parse s = .error (.noRelease (String.ofList t))) ∨
    (r ≠ [] ∧ ∃ c, FirstFault (r.splitOn '.') c ∧
      parse s = .error (.badComponent (String.ofList t) (String.ofList c))) ∨
    (r ≠ [] ∧ (∀ n ∈ r.splitOn '.', IsComponent n) ∧ ∃ v, parse s = .ok v) := by
  by_cases empty : t = []
  · exact .inl ⟨empty, anatomy.release_eq_nil empty, parse_of_nothing anatomy empty⟩
  by_cases release : r = []
  · exact .inr (.inl ⟨empty, release, parse_of_no_release anatomy empty release⟩)
  rcases components_or_firstFault (r.splitOn '.') with components | ⟨c, fault⟩
  · exact .inr (.inr (.inr
      ⟨release, components, _, parse_of_components anatomy release components⟩))
  · exact .inr (.inr (.inl ⟨release, c, fault, parse_of_firstFault anatomy release fault⟩))

theorem parse_eq_empty_iff (anatomy : Anatomy s.toList t u p r) :
    parse s = .error .empty ↔ t = [] := by
  refine ⟨fun read => ?_, parse_of_nothing anatomy⟩
  rcases reading anatomy with ⟨empty, -⟩ | ⟨-, -, other⟩ | ⟨-, c, -, other⟩ | ⟨-, -, v, other⟩
  · exact empty
  all_goals cases read.symm.trans other

theorem parse_eq_noRelease_iff (anatomy : Anatomy s.toList t u p r) {text : String} :
    parse s = .error (.noRelease text) ↔ text = String.ofList t ∧ t ≠ [] ∧ r = [] := by
  constructor
  · intro read
    rcases reading anatomy with ⟨-, -, other⟩ | ⟨some_char, release, same⟩ | ⟨-, c, -, other⟩ |
      ⟨-, -, v, other⟩
    · cases read.symm.trans other
    · cases read.symm.trans same
      exact ⟨rfl, some_char, release⟩
    all_goals cases read.symm.trans other
  · rintro ⟨rfl, some_char, release⟩
    exact parse_of_no_release anatomy some_char release

theorem parse_eq_badComponent_iff (anatomy : Anatomy s.toList t u p r) {text component : String} :
    parse s = .error (.badComponent text component) ↔ text = String.ofList t ∧ r ≠ [] ∧
      ∃ c, component = String.ofList c ∧ FirstFault (r.splitOn '.') c := by
  constructor
  · intro read
    rcases reading anatomy with ⟨-, -, other⟩ | ⟨-, -, other⟩ | ⟨release, c, fault, same⟩ |
      ⟨-, -, v, other⟩
    · cases read.symm.trans other
    · cases read.symm.trans other
    · cases read.symm.trans same
      exact ⟨rfl, release, c, rfl, fault⟩
    · cases read.symm.trans other
  · rintro ⟨rfl, release, c, rfl, fault⟩
    exact parse_of_firstFault anatomy release fault

/-- **A text is a version** if it has a release and all its pieces are components. -/
theorem exists_parse_iff (anatomy : Anatomy s.toList t u p r) :
    (∃ v, parse s = .ok v) ↔ r ≠ [] ∧ ∀ n ∈ r.splitOn '.', IsComponent n := by
  constructor
  · rintro ⟨v, read⟩
    rcases reading anatomy with ⟨-, -, other⟩ | ⟨-, -, other⟩ | ⟨-, c, -, other⟩ |
      ⟨release, components, -⟩
    · cases read.symm.trans other
    · cases read.symm.trans other
    · cases read.symm.trans other
    · exact ⟨release, components⟩
  · rintro ⟨release, components⟩
    exact ⟨_, parse_of_components anatomy release components⟩

/-- Blanks at the ends do not matter. -/
theorem parse_trim (s : String) : parse (String.ofList (trim s.toList)) = parse s := by
  have same : trim (trim s.toList) = trim s.toList :=
    (trim_trimEnd (trimStart s.toList)).trans (trim_trimStart s.toList)
  rw [parse, parse, String.toList_ofList, same]

/-- A version has the numbers of its release, and its text is read as the same version. -/
theorem of_parse_eq_ok (anatomy : Anatomy s.toList t u p r) {v : Version} (read : parse s = .ok v) :
    v.release = (r.splitOn '.').map (valueOf 10) ∧ v.text = String.ofList t ∧
      parse v.text = .ok v := by
  obtain ⟨release, components⟩ := (exists_parse_iff anatomy).mp ⟨v, read⟩
  have text : t = trim s.toList := isTrimmed_iff.mp anatomy.trimmed
  have parts := parse_of_components anatomy release components
  cases read.symm.trans parts
  refine ⟨rfl, rfl, ?_⟩
  rw [← parts, ← parse_trim s, text]

/-- The release with the given numbers, as it is written. -/
def ReleaseText.ofNumbers (n : Nat) (ns : List Nat) (fit : ∀ m ∈ n :: ns, m < word) :
    ReleaseText where
  first := writeNat n
  others := ns.map writeNat
  isNumber m member := by
    obtain ⟨k, member', rfl⟩ := List.mem_map.mp (show m ∈ (n :: ns).map writeNat from member)
    exact isNumber_writeNat (fit k member')

theorem ReleaseText.numbers_ofNumbers {n : Nat} {ns : List Nat} (fit : ∀ m ∈ n :: ns, m < word) :
    (ofNumbers n ns fit).numbers = n :: ns := by
  have read_back : valueOf 10 ∘ writeNat = id := funext valueOf_writeNat
  have pieces : (ofNumbers n ns fit).first :: (ofNumbers n ns fit).others =
      (n :: ns).map writeNat := rfl
  rw [numbers, pieces, List.map_map, read_back, List.map_id]

/-- There is nothing to trim off a release. -/
theorem ReleaseText.trim_text (r : ReleaseText) : trim r.text = r.text := by
  have solid : ∀ c ∈ r.text, isBlank c = false := by
    intro c member
    rcases isReleaseChar_iff.mp (r.isReleaseChar_of_mem member) with digit | rfl
    · exact isBlank_eq_false_of_isDigit digit
    · decide
  obtain ⟨d, rest, begins, -⟩ := r.exists_text_eq_cons
  have kept : trim ([] ++ (r.text ++ [])) = r.text :=
    trim_append (List.forall_mem_nil _) (List.forall_mem_nil _) (by simp [begins])
      (fun c first => solid c (List.mem_of_mem_head? first))
      fun c last => solid c (List.mem_of_mem_getLast? last)
  rwa [List.nil_append, List.append_nil] at kept

/-- **Numbers that are written as a release are read as it**, and as nothing else. -/
theorem parse_ofRelease {ns : List Nat} (some_number : ns ≠ []) (fit : ∀ n ∈ ns, n < word) :
    parse (ofRelease ns).text = .ok (ofRelease ns) := by
  obtain ⟨n, ns, rfl⟩ := List.exists_cons_of_ne_nil some_number
  let r := ReleaseText.ofNumbers n ns fit
  have written : (ofRelease (n :: ns)).text = String.ofList r.text := by
    rw [ofRelease, List.map_cons, intercalate_cons]
    rfl
  obtain ⟨text, read⟩ := parse_release r
  obtain ⟨t, u, p, r', anatomy⟩ := exists_anatomy (String.ofList r.text).toList
  obtain ⟨-, same, -⟩ := of_parse_eq_ok anatomy read
  have same : text = String.ofList t := same
  rw [isTrimmed_iff.mp anatomy.trimmed, String.toList_ofList, r.trim_text, ← written] at same
  rw [written, read, same, ReleaseText.numbers_ofNumbers]
  rfl

end Reading

/-! ## The main statement -/

/-- **What is read as a version.** Every text `s` has one anatomy: `t` is what is left without
blanks at the ends, `r` the release in it. It is read as follows:

* There is nothing to read if and only if `t` is empty.
* There is no release if and only if `t` is not empty and `r` is. The report shows `t`.
* A component is at fault if and only if there is a release, and it is the first piece of the
  release that is empty or does not fit 64 bits. The report shows `t` and the piece.
* In all other cases, and only then, the text is a version. It has the values of the pieces for
  numbers, and its text is `t`, which is read as the same version again.

Numbers that fit 64 bits and are written as a release are read as that release, and as nothing
else. -/
theorem parsing_is_exact :
    (∀ s : String, ∃ t u p r : List Char, Anatomy s.toList t u p r ∧
      (∀ t' u' p' r', Anatomy s.toList t' u' p' r' → t' = t ∧ u' = u ∧ p' = p ∧ r' = r) ∧
      (parse s = .error .empty ↔ t = []) ∧
      (∀ text, parse s = .error (.noRelease text) ↔ text = String.ofList t ∧ t ≠ [] ∧ r = []) ∧
      (∀ text component, parse s = .error (.badComponent text component) ↔
        text = String.ofList t ∧ r ≠ [] ∧
          ∃ c, component = String.ofList c ∧ FirstFault (r.splitOn '.') c) ∧
      ((∃ v, parse s = .ok v) ↔ r ≠ [] ∧ ∀ n ∈ r.splitOn '.', IsComponent n) ∧
      ∀ v, parse s = .ok v → v.release = (r.splitOn '.').map (valueOf 10) ∧
        v.text = String.ofList t ∧ parse v.text = .ok v) ∧
    ∀ ns : List Nat, ns ≠ [] → (∀ n ∈ ns, n < word) →
      parse (ofRelease ns).text = .ok (ofRelease ns) := by
  refine ⟨fun s => ?_, fun ns some_number fit => parse_ofRelease some_number fit⟩
  obtain ⟨t, u, p, r, anatomy⟩ := exists_anatomy s.toList
  exact ⟨t, u, p, r, anatomy, fun _ _ _ _ other => anatomy.unique other, parse_eq_empty_iff anatomy,
    fun _ => parse_eq_noRelease_iff anatomy, fun _ _ => parse_eq_badComponent_iff anatomy,
    exists_parse_iff anatomy, fun _ read => of_parse_eq_ok anatomy read⟩

/-- A release with an empty piece in it and noise around it, and the greatest number that fits. -/
theorem parsing_is_exact_gap :
    parse " v1..2+x\n" = .error (.badComponent "v1..2+x" "") ∧
      parse (ofRelease [3, 18446744073709551615]).text =
        .ok (ofRelease [3, 18446744073709551615]) := by
  obtain ⟨texts, releases⟩ := parsing_is_exact
  refine ⟨?_, releases _ (by decide) (by decide)⟩
  obtain ⟨t, u, p, r, -, unique, -, -, faults, -⟩ := texts " v1..2+x\n"
  have anatomy : Anatomy " v1..2+x\n".toList "v1..2+x".toList "1..2+x".toList "1..2".toList
      "1..2".toList := by
    refine ⟨⟨[' '], ['\n'], ?_, ?_, ?_, ?_, ?_⟩, .inl ?_, ⟨"+x".toList, ?_, ?_, ?_⟩,
      ⟨[], [], ?_, ?_, ?_, ?_, ?_⟩⟩
    all_goals decide
  obtain ⟨rfl, rfl, rfl, rfl⟩ := unique _ _ _ _ anatomy
  exact (faults _ _).mpr ⟨by decide, by decide, [], by decide, [['1']], [['2']], by decide,
    by decide, by decide⟩

end Gatekeeper.Version
