import Gatekeeper.Proofs.Text.Decimal
import Gatekeeper.Proofs.Text.Trim
import Gatekeeper.Version.Order

set_option autoImplicit false

/-!
# Versions as they are written

A release is written as numbers with dots between them (`ReleaseText`), and what follows it, behind
separators or at once, is a tag that starts with a letter (`Tag`). Around both there may be what is
not read at all: blanks, a mark in front and a local part behind (`Noise`). Reading takes the text
apart again (`parse_around`): the release up to the first character that is neither a digit nor a
dot, and the tag without the separators before it, in lower case (`readTag_separators`).
-/

namespace Gatekeeper.Version

open Text

variable {c : Char} {s t : List Char}

/-! ## Characters -/

theorem isLetter_iff : isLetter c = true ↔
    (65 ≤ c.toNat ∧ c.toNat ≤ 90) ∨ (97 ≤ c.toNat ∧ c.toNat ≤ 122) := by
  delta isLetter Char.isAlpha Char.isUpper Char.isLower
  simp [UInt32.le_iff_toNat_le]

theorem isSeparator_iff : isSeparator c = true ↔ c = '-' ∨ c = '.' ∨ c = '_' := by
  simp [isSeparator, or_assoc]

theorem isDigit_eq_false_of_isLetter (letter : isLetter c) : isDigit c = false := by
  rw [Bool.eq_false_iff, ne_eq, isDigit_iff]
  have code := isLetter_iff.mp letter
  omega

theorem isSeparator_eq_false_of_isLetter (letter : isLetter c) : isSeparator c = false := by
  rw [Bool.eq_false_iff, ne_eq, isSeparator_iff]
  rintro (rfl | rfl | rfl) <;> cases letter

theorem isReleaseChar_eq_false_of_isLetter (letter : isLetter c) : isReleaseChar c = false := by
  rw [isReleaseChar, isDigit_eq_false_of_isLetter letter, Bool.false_or, beq_eq_false_iff_ne]
  rintro rfl
  cases letter

theorem isBlank_eq_false_of_isLetter (letter : isLetter c) : isBlank c = false := by
  have code := isLetter_iff.mp letter
  simp [isBlank]
  omega

theorem isLetter_eq_false_of_isDigit (digit : isDigit c) : isLetter c = false := by
  rw [Bool.eq_false_iff]
  intro letter
  rw [isDigit_eq_false_of_isLetter letter] at digit
  cases digit

theorem isSeparator_eq_false_of_isDigit (digit : isDigit c) : isSeparator c = false := by
  rw [Bool.eq_false_iff, ne_eq, isSeparator_iff]
  rintro (rfl | rfl | rfl) <;> cases digit

theorem isReleaseChar_of_isDigit (digit : isDigit c) : isReleaseChar c = true := by
  rw [isReleaseChar, digit, Bool.true_or]

theorem isLetter_eq_false_of_isSeparator (separator : isSeparator c) : isLetter c = false := by
  rcases isSeparator_iff.mp separator with rfl | rfl | rfl <;> decide

theorem isDigit_eq_false_of_isSeparator (separator : isSeparator c) : isDigit c = false := by
  rcases isSeparator_iff.mp separator with rfl | rfl | rfl <;> decide

theorem isBlank_eq_false_of_isSeparator (separator : isSeparator c) : isBlank c = false := by
  rcases isSeparator_iff.mp separator with rfl | rfl | rfl <;> decide

theorem ne_plus_of_isSeparator (separator : isSeparator c) : c ≠ '+' := by
  rcases isSeparator_iff.mp separator with rfl | rfl | rfl <;> decide

/-- What is no letter has no case. -/
theorem toLower_of_not_isLetter (other : isLetter c = false) : c.toLower = c := by
  unfold Char.toLower
  split
  · next upper =>
    have letter : isLetter c = true := isLetter_iff.mpr
      (.inl ⟨UInt32.le_iff_toNat_le.mp upper.1, UInt32.le_iff_toNat_le.mp upper.2⟩)
    rw [letter] at other
    cases other
  · rfl

theorem isLetter_toLower (c : Char) : isLetter c.toLower = isLetter c := by
  unfold Char.toLower
  split
  · next upper =>
    obtain ⟨low, high⟩ := upper
    have low' : 65 ≤ c.toNat := UInt32.le_iff_toNat_le.mp low
    have high' : c.toNat ≤ 90 := UInt32.le_iff_toNat_le.mp high
    have shifted : (c.val + ('a'.val - 'A'.val)).toNat = c.toNat + 32 := by
      have code : c.val.toNat = c.toNat := rfl
      have distance : ('a'.val - 'A'.val).toNat = 32 := rfl
      rw [UInt32.toNat_add, distance]
      omega
    rw [isLetter_iff.mpr (.inl ⟨low', high'⟩), isLetter_iff, Char.toNat_mk, shifted]
    omega
  · rfl

theorem map_toLower_of_not_isLetter (other : ∀ c ∈ s, isLetter c = false) :
    s.map Char.toLower = s :=
  (List.map_congr_left fun c member => toLower_of_not_isLetter (other c member)).trans
    (List.map_id s)

/-- In whatever case a text is written, it begins with a letter or it does not. -/
theorem head?_isLetter_of_map_toLower (same : s.map Char.toLower = t.map Char.toLower)
    (letter : ∀ c ∈ t.head?, isLetter c) : ∀ c ∈ s.head?, isLetter c := by
  intro c first
  have heads := congrArg List.head? same
  rw [List.head?_map, List.head?_map, Option.mem_def.mp first, Option.map_some] at heads
  obtain ⟨d, first', lower⟩ := Option.map_eq_some_iff.mp heads.symm
  rw [← isLetter_toLower, ← lower, isLetter_toLower]
  exact letter d first'

/-! ## Releases -/

/-- A release as it is written: numbers that fit 64 bits, with dots between them. -/
structure ReleaseText where
  first : List Char
  others : List (List Char)
  isNumber : ∀ n ∈ first :: others, IsNumber n

namespace ReleaseText

variable (r : ReleaseText)

/-- The text of a release. -/
def text : List Char := r.first ++ r.others.flatMap ('.' :: ·)

/-- The numbers of a release. -/
def numbers : List Nat := (r.first :: r.others).map (valueOf 10)

/-- Components that are zero, as they are put behind a release. -/
def zeros (count : Nat) : List Char := (List.replicate count ['0']).flatMap ('.' :: ·)

/-- A release with components that are zero behind it. -/
def pad (count : Nat) : ReleaseText where
  first := r.first
  others := r.others ++ List.replicate count ['0']
  isNumber n member := by
    rcases List.mem_append.mp (show n ∈ (r.first :: r.others) ++
      List.replicate count ['0'] from member)
      with own | zero
    · exact r.isNumber n own
    · rw [List.eq_of_mem_replicate zero]
      decide

theorem text_pad (count : Nat) : (r.pad count).text = r.text ++ zeros count := by
  rw [text, pad, List.flatMap_append, ← List.append_assoc]
  rfl

theorem numbers_pad (count : Nat) :
    (r.pad count).numbers = r.numbers ++ List.replicate count 0 := by
  have zero : valueOf 10 ['0'] = 0 := by decide
  rw [numbers, pad, ← List.cons_append, List.map_append, List.map_replicate, zero]
  rfl

theorem isReleaseChar_of_mem (member : c ∈ r.text) : isReleaseChar c = true := by
  rcases List.mem_append.mp member with inside | inside
  · exact isReleaseChar_of_isDigit ((r.isNumber _ List.mem_cons_self).digits c inside)
  · obtain ⟨n, other, dotted⟩ := List.mem_flatMap.mp inside
    rcases List.mem_cons.mp dotted with rfl | inside
    · rfl
    · exact isReleaseChar_of_isDigit ((r.isNumber n (List.mem_cons_of_mem _ other)).digits c inside)

theorem exists_text_eq_cons : ∃ d rest, r.text = d :: rest ∧ isDigit d := by
  have number := r.isNumber _ List.mem_cons_self
  obtain ⟨d, rest, first⟩ := List.exists_cons_of_ne_nil number.some_digit
  refine ⟨d, rest ++ r.others.flatMap ('.' :: ·), by rw [text, first, List.cons_append], ?_⟩
  exact number.digits d (first ▸ List.mem_cons_self)

/-- A release ends with a digit. -/
theorem getLast?_text : ∀ c ∈ r.text.getLast?, (c == '.') = false := by
  have digits (before : List Char) {n : List Char} (number : IsNumber n) :
      ∀ c ∈ (before ++ n).getLast?, (c == '.') = false := by
    intro c last
    obtain ⟨d, ending⟩ := Option.ne_none_iff_exists'.mp
      (mt List.getLast?_eq_none_iff.mp number.some_digit)
    rw [List.getLast?_append, ending, Option.some_or] at last
    rw [← Option.some.inj last, beq_eq_false_iff_ne]
    rintro rfl
    cases number.digits '.' (List.mem_of_mem_getLast? ending)
  rcases List.eq_nil_or_concat r.others with none_ | ⟨init, n, others⟩
  · have number := digits [] (r.isNumber _ List.mem_cons_self)
    rwa [text, none_, List.flatMap_nil, List.append_nil]
  · rw [List.concat_eq_append] at others
    have member : n ∈ r.first :: r.others := by simp [others]
    have number := digits (r.first ++ init.flatMap ('.' :: ·) ++ ['.']) (r.isNumber n member)
    simpa [text, others] using number

/-- The components of a release are what stands between its dots. -/
theorem splitOn_text : r.text.splitOn '.' = r.first :: r.others := by
  have noDot : ∀ n ∈ r.first :: r.others, '.' ∉ n := by
    intro n member dot
    cases (r.isNumber n member).digits '.' dot
  rw [text, ← intercalate_cons]
  exact List.splitOn_intercalate '.' noDot (List.cons_ne_nil _ _)

theorem readRelease_numbers {ns : List (List Char)} (isNumber : ∀ n ∈ ns, IsNumber n) :
    readRelease ns = .ok (ns.map (valueOf 10)) := by
  induction ns with
  | nil => rfl
  | cons n ns ih =>
      rw [readRelease, (isNumber n List.mem_cons_self).digits64?,
        ih fun m member => isNumber m (List.mem_cons_of_mem _ member)]
      rfl

variable {dots rest : List Char}

/-- What is read of a release stops at the first other character. -/
theorem dropWhile_text (areDots : ∀ c ∈ dots, c = '.')
    (stop : ∀ c ∈ rest.head?, isReleaseChar c = false) :
    (r.text ++ (dots ++ rest)).dropWhile isReleaseChar = rest := by
  rw [← List.append_assoc]
  refine dropWhile_run (fun c member => ?_) stop
  rcases List.mem_append.mp member with own | dot
  · exact r.isReleaseChar_of_mem own
  · rw [areDots c dot]
    rfl

/-- Dots behind a release do not belong to it. -/
theorem releasePart_text (areDots : ∀ c ∈ dots, c = '.')
    (stop : ∀ c ∈ rest.head?, isReleaseChar c = false) :
    releasePart (r.text ++ (dots ++ rest)) = r.text := by
  have taken : (r.text ++ (dots ++ rest)).takeWhile isReleaseChar = r.text ++ dots := by
    rw [← List.append_assoc]
    refine takeWhile_run (fun c member => ?_) stop
    rcases List.mem_append.mp member with own | dot
    · exact r.isReleaseChar_of_mem own
    · rw [areDots c dot]
      rfl
  rw [releasePart, taken]
  exact dropEndWhile_append (fun c dot => beq_iff_eq.mpr (areDots c dot)) r.getLast?_text

end ReleaseText

/-! ## What is around a version -/

/-- What may be around a version without being read: blanks, a mark in front, a local part
behind. -/
structure Noise where
  before : List Char := []
  mark : List Char := []
  localPart : List Char := []
  after : List Char := []
  blankBefore : ∀ c ∈ before, isBlank c := by decide
  isMark : mark = [] ∨ mark = ['v'] ∨ mark = ['V'] := by decide
  isLocal : ∀ c ∈ localPart.head?, c = '+' := by decide
  blankAfter : ∀ c ∈ after, isBlank c := by decide

namespace Noise

/-- A text with something around it. -/
def around (n : Noise) (s : List Char) : List Char :=
  n.before ++ (n.mark ++ (s ++ n.localPart) ++ n.after)

theorem around_nothing (s : List Char) : ({} : Noise).around s = s := by simp [around]

/-- Whether a text is read as a version to its end: it starts with a digit, and there is nothing in
it that would be trimmed off or that begins a local part. -/
structure Inner (s : List Char) : Prop where
  digit : ∃ d rest, s = d :: rest ∧ isDigit d
  solid : ∀ c ∈ s, isBlank c = false
  noPlus : '+' ∉ s

variable {n : Noise}

theorem trim_around (n : Noise) (inner : Inner s) :
    ∃ l, trim (n.around s) = n.mark ++ (s ++ l) ∧ ∀ c ∈ l.head?, c = '+' := by
  obtain ⟨d, rest, rfl, digit⟩ := inner.digit
  have solid : ∀ c ∈ n.mark ++ (d :: rest), isBlank c = false := by
    refine List.forall_mem_append.mpr ⟨?_, inner.solid⟩
    rcases n.isMark with mark | mark | mark <;> rw [mark] <;> decide
  have first : ∀ c ∈ (n.mark ++ (d :: rest)).head?, isBlank c = false :=
    fun c first => solid c (List.mem_of_mem_head? first)
  rw [around, trim_blanks _ _ _ n.blankBefore n.blankAfter, ← List.append_assoc]
  cases part : n.localPart with
  | nil =>
      refine ⟨[], ?_, nofun⟩
      have kept : trim ([] ++ (n.mark ++ d :: rest ++ [])) = n.mark ++ d :: rest :=
        trim_append nofun nofun (by simp) first
          fun c last => solid c (List.mem_of_mem_getLast? last)
      simpa using kept
  | cons c l =>
      obtain rfl : c = '+' := n.isLocal c (by rw [part]; rfl)
      refine ⟨'+' :: trimEnd l, ?_, fun c first => (Option.some.inj first).symm⟩
      have start : trimStart (n.mark ++ d :: rest) = n.mark ++ d :: rest :=
        trimStart_append (s := []) nofun first
      rw [trim_append_cons (by decide), start, List.append_assoc]

/-- **Of a text with noise around it the text is read.** -/
theorem publicPart_around (n : Noise) (inner : Inner s) :
    trim (n.around s) ≠ [] ∧ publicPart (trim (n.around s)) = s := by
  obtain ⟨l, trimmed, plus⟩ := trim_around n inner
  obtain ⟨d, rest, rfl, digit⟩ := inner.digit
  have unmarked : dropMark (n.mark ++ (d :: rest ++ l)) = d :: rest ++ l := by
    rcases n.isMark with mark | mark | mark <;> rw [mark]
    · rw [List.nil_append, List.cons_append]
      unfold dropMark
      split
      · next same => cases (List.cons.inj same).1 ▸ digit
      · next same => cases (List.cons.inj same).1 ▸ digit
      · rfl
    · rfl
    · rfl
  refine ⟨by simp [trimmed], ?_⟩
  rw [trimmed, publicPart, unmarked]
  refine takeWhile_run (fun c member => ?_) fun c first => by simp [plus c first]
  rw [bne_iff_ne]
  rintro rfl
  exact inner.noPlus member

end Noise

/-- **What is read of a release with something behind it**, whatever is around them. -/
theorem parse_around (n : Noise) (r : ReleaseText) {dots rest : List Char}
    (areDots : ∀ c ∈ dots, c = '.') (stop : ∀ c ∈ rest.head?, isReleaseChar c = false)
    (solid : ∀ c ∈ rest, isBlank c = false) (noPlus : '+' ∉ rest) :
    ∃ text, parse (String.ofList (n.around (r.text ++ (dots ++ rest)))) =
      .ok ⟨r.numbers, (readTag rest).1, (readTag rest).2, text⟩ := by
  obtain ⟨d, tail, begins, digit⟩ := r.exists_text_eq_cons
  have release : ∀ c ∈ r.text ++ dots, isReleaseChar c = true := by
    refine List.forall_mem_append.mpr ⟨fun c member => r.isReleaseChar_of_mem member,
      fun c dot => ?_⟩
    rw [areDots c dot]
    rfl
  have inner : Noise.Inner (r.text ++ (dots ++ rest)) := by
    refine ⟨⟨d, tail ++ (dots ++ rest), by rw [begins, List.cons_append], digit⟩, ?_, ?_⟩
    all_goals rw [← List.append_assoc]
    · refine List.forall_mem_append.mpr ⟨fun c member => ?_, solid⟩
      rcases Bool.or_eq_true_iff.mp (release c member) with digit | dot
      · exact isBlank_eq_false_of_isDigit digit
      · rw [beq_iff_eq.mp dot]
        decide
    · intro member
      rcases List.mem_append.mp member with plus | plus
      · exact absurd (release '+' plus) (by decide)
      · exact noPlus plus
  obtain ⟨some_char, public_⟩ := n.publicPart_around inner
  have nonempty : ¬(trim (n.around (r.text ++ (dots ++ rest)))).isEmpty = true := by
    simpa using some_char
  have some_digit : ¬r.text.isEmpty = true := by simp [begins]
  refine ⟨String.ofList (trim (n.around (r.text ++ (dots ++ rest)))), ?_⟩
  rw [parse, String.toList_ofList]
  simp only [if_neg nonempty, public_, r.releasePart_text areDots stop, if_neg some_digit,
    r.splitOn_text, ReleaseText.readRelease_numbers r.isNumber, r.dropWhile_text areDots stop]
  rfl

/-! ## Tags -/

/-- What may stand behind a release: nothing, or a text without blanks and plus signs that starts
with a letter. -/
structure Tag where
  text : List Char
  letter : ∀ c ∈ text.head?, isLetter c
  solid : ∀ c ∈ text, isBlank c = false
  noPlus : '+' ∉ text

/-- No tag. -/
def Tag.empty : Tag := ⟨[], nofun, nofun, nofun⟩

theorem Tag.text_empty : Tag.empty.text = [] := rfl

/-- The pre-release tag and the post-release number in a tag in lower case. -/
def tagParts (lower : List Char) : Option (List Char) × Option Nat :=
  (if (splitPost lower).1.isEmpty then none else some (splitPost lower).1, (splitPost lower).2)

variable {separators : List Char}

/-- Separators with a tag behind them are no number. -/
theorem implicitPost?_separators (areSeparators : ∀ c ∈ separators, isSeparator c)
    (letter : ∀ c ∈ t.head?, isLetter c) : implicitPost? (separators ++ t) = none := by
  have kind : ∀ c ∈ (separators ++ t).head?, c = '-' ∨ isSeparator c ∨ isLetter c := by
    intro c first
    rw [List.head?_append] at first
    rcases Option.or_eq_some_iff.mp first with first | ⟨-, first⟩
    · exact .inr (.inl (areSeparators c (List.mem_of_mem_head? first)))
    · exact .inr (.inr (letter c first))
  cases separators with
  | nil =>
      unfold implicitPost?
      split
      · next same => cases letter '-' (by rw [show t = _ from same]; rfl)
      · rfl
  | cons c separators =>
      rw [List.cons_append]
      unfold implicitPost?
      split
      · next rest same =>
        obtain ⟨-, rfl⟩ := List.cons.inj same
        -- the first character behind the minus is a separator or a letter
        have first : ∀ d ∈ (separators ++ t).head?, isSeparator d ∨ isLetter d := by
          intro d first
          rw [List.head?_append] at first
          rcases Option.or_eq_some_iff.mp first with first | ⟨-, first⟩
          · exact .inl (areSeparators d (List.mem_cons_of_mem _ (List.mem_of_mem_head? first)))
          · exact .inr (letter d first)
        refine readNat64?_eq_none (fun d member => ?_) fun d member => ?_
        · exact (first d member).elim isDigit_eq_false_of_isSeparator isDigit_eq_false_of_isLetter
        · rintro rfl
          exact (first '+' member).elim (by decide) (by decide)
      · rfl

/-- **Separators before a tag do not belong to it**, and a tag is read in lower case. -/
theorem readTag_separators (areSeparators : ∀ c ∈ separators, isSeparator c)
    (letter : ∀ c ∈ t.head?, isLetter c) :
    readTag (separators ++ t) = tagParts (t.map Char.toLower) := by
  have dropped : (separators ++ t).dropWhile isSeparator = t :=
    dropWhile_run areSeparators fun c first => isSeparator_eq_false_of_isLetter (letter c first)
  rw [readTag, implicitPost?_separators areSeparators letter, dropped]
  rfl

/-- **What is read of a release with a tag behind it**, with separators between them, whatever is
around them. -/
theorem parse_tagged (n : Noise) (r : ReleaseText) (t : Tag)
    (areSeparators : ∀ c ∈ separators, isSeparator c) :
    ∃ text, parse (String.ofList (n.around (r.text ++ (separators ++ t.text)))) =
      .ok ⟨r.numbers, (tagParts (t.text.map Char.toLower)).1,
        (tagParts (t.text.map Char.toLower)).2, text⟩ := by
  obtain ⟨dots, rest, rfl, areDots, noDot⟩ := exists_run (· == '.') separators
  have restSeparators : ∀ c ∈ rest, isSeparator c :=
    fun c member => areSeparators c (List.mem_append_right _ member)
  have stop : ∀ c ∈ (rest ++ t.text).head?, isReleaseChar c = false := by
    intro c first
    rw [List.head?_append] at first
    rcases Option.or_eq_some_iff.mp first with first | ⟨-, first⟩
    · rw [isReleaseChar, noDot c first, Bool.or_false]
      exact isDigit_eq_false_of_isSeparator (restSeparators c (List.mem_of_mem_head? first))
    · exact isReleaseChar_eq_false_of_isLetter (t.letter c first)
  have solid : ∀ c ∈ rest ++ t.text, isBlank c = false :=
    List.forall_mem_append.mpr
      ⟨fun c member => isBlank_eq_false_of_isSeparator (restSeparators c member), t.solid⟩
  have noPlus : '+' ∉ rest ++ t.text := by
    intro member
    rcases List.mem_append.mp member with plus | plus
    · exact ne_plus_of_isSeparator (restSeparators _ plus) rfl
    · exact t.noPlus plus
  have read := parse_around n r (fun c member => beq_iff_eq.mp (areDots c member)) stop solid noPlus
  rwa [readTag_separators restSeparators t.letter, ← List.append_assoc dots] at read

/-- The same with nothing around them. -/
theorem parse_separated (r : ReleaseText) (t : Tag)
    (areSeparators : ∀ c ∈ separators, isSeparator c) :
    ∃ text, parse (String.ofList (r.text ++ (separators ++ t.text))) =
      .ok ⟨r.numbers, (tagParts (t.text.map Char.toLower)).1,
        (tagParts (t.text.map Char.toLower)).2, text⟩ := by
  have read := parse_tagged {} r t areSeparators
  rwa [Noise.around_nothing] at read

theorem parse_plain (r : ReleaseText) (t : Tag) :
    ∃ text, parse (String.ofList (r.text ++ t.text)) =
      .ok ⟨r.numbers, (tagParts (t.text.map Char.toLower)).1,
        (tagParts (t.text.map Char.toLower)).2, text⟩ := by
  have read := parse_separated r t (List.forall_mem_nil _)
  rwa [List.nil_append] at read

/-- A release with nothing behind it. -/
theorem parse_release (r : ReleaseText) :
    ∃ text, parse (String.ofList r.text) = .ok ⟨r.numbers, none, none, text⟩ := by
  have nothing : tagParts (Tag.empty.text.map Char.toLower) = (none, none) := by
    rw [Tag.text_empty, tagParts, splitPost, List.map_nil, splitPostFrom]
    rfl
  have read := parse_plain r .empty
  rwa [nothing, Tag.text_empty, List.append_nil] at read

/-! ## Post-releases -/

/-- The words that announce a post-release are letters. -/
theorem isLetter_of_isPostMarker {m : List Char} (marker : isPostMarker m) :
    m ≠ [] ∧ ∀ c ∈ m, isLetter c := by
  simp only [isPostMarker, Bool.or_eq_true, beq_iff_eq] at marker
  rcases marker with (rfl | rfl) | rfl <;> decide

theorem isLetter_of_isPostMarker_map {m : List Char} (marker : isPostMarker (m.map Char.toLower)) :
    m ≠ [] ∧ ∀ c ∈ m, isLetter c := by
  obtain ⟨some_letter, letters⟩ := isLetter_of_isPostMarker marker
  refine ⟨fun empty => some_letter (by rw [empty]; rfl), fun c member => ?_⟩
  rw [← isLetter_toLower]
  exact letters _ (List.mem_map_of_mem member)

variable {m rest : List Char}

/-- **A word that announces a post-release** is where a tag is split. -/
theorem splitPostFrom_marker (marker : isPostMarker m) (stop : ∀ c ∈ rest.head?, isLetter c = false)
    (before : List Char) : splitPostFrom before (m ++ rest) =
      (dropEndWhile isSeparator before.reverse, some (postNumber rest)) := by
  obtain ⟨some_letter, letters⟩ := isLetter_of_isPostMarker marker
  obtain ⟨c, m, rfl⟩ := List.exists_cons_of_ne_nil some_letter
  have later : ∀ d ∈ m, isLetter d := fun d member => letters d (List.mem_cons_of_mem _ member)
  rw [List.cons_append, splitPostFrom, if_pos (letters c List.mem_cons_self),
    takeWhile_run later stop, dropWhile_run later stop]
  exact if_pos marker

/-- The number of a post-release stands behind separators. -/
theorem postNumber_separators {n : List Char} (areSeparators : ∀ c ∈ separators, isSeparator c)
    (digits : ∀ c ∈ n, isDigit c) : postNumber (separators ++ n) = (digits64? n).getD 0 := by
  have dropped : (separators ++ n).dropWhile isSeparator = n :=
    dropWhile_run areSeparators fun c first =>
      isSeparator_eq_false_of_isDigit (digits c (List.mem_of_mem_head? first))
  have taken : n.takeWhile isDigit = n := List.takeWhile_eq_self_iff.mpr digits
  rw [postNumber, dropped, taken]

/-- A word that announces a post-release, in any case, with separators and digits behind it. -/
def postTag (m between n : List Char) (marker : isPostMarker (m.map Char.toLower))
    (areSeparators : ∀ c ∈ between, isSeparator c) (digits : ∀ c ∈ n, isDigit c) : Tag where
  text := m ++ (between ++ n)
  letter c first := by
    obtain ⟨some_letter, letters⟩ := isLetter_of_isPostMarker_map marker
    rw [List.head?_append, Option.or_of_isSome (by simpa using some_letter)] at first
    exact letters c (List.mem_of_mem_head? first)
  solid := List.forall_mem_append.mpr
    ⟨fun c member =>
        isBlank_eq_false_of_isLetter ((isLetter_of_isPostMarker_map marker).2 c member),
      List.forall_mem_append.mpr
        ⟨fun c member => isBlank_eq_false_of_isSeparator (areSeparators c member),
          fun c member => isBlank_eq_false_of_isDigit (digits c member)⟩⟩
  noPlus member := by
    rcases List.mem_append.mp member with plus | plus
    · cases (isLetter_of_isPostMarker_map marker).2 '+' plus
    · rcases List.mem_append.mp plus with plus | plus
      · exact ne_plus_of_isSeparator (areSeparators _ plus) rfl
      · cases digits '+' plus

/-- **What is read of a post-release**: its number, which is zero if the digits do not fit. -/
theorem splitPostFrom_postTag {m between n : List Char} (marker : isPostMarker (m.map Char.toLower))
    (areSeparators : ∀ c ∈ between, isSeparator c) (digits : ∀ c ∈ n, isDigit c)
    (before : List Char) :
    splitPostFrom before ((postTag m between n marker areSeparators digits).text.map Char.toLower) =
      (dropEndWhile isSeparator before.reverse, some ((digits64? n).getD 0)) := by
  have noLetter : ∀ c ∈ between ++ n, isLetter c = false := List.forall_mem_append.mpr
    ⟨fun c member => isLetter_eq_false_of_isSeparator (areSeparators c member),
      fun c member => isLetter_eq_false_of_isDigit (digits c member)⟩
  rw [postTag, List.map_append, map_toLower_of_not_isLetter noLetter,
    splitPostFrom_marker marker fun c first => noLetter c (List.mem_of_mem_head? first),
    postNumber_separators areSeparators digits]

end Gatekeeper.Version
