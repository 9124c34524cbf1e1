import Gatekeeper.Proofs.Version.Bracket
import Gatekeeper.Proofs.Version.Spelling
import Mathlib.Data.List.SplitBy

set_option autoImplicit false

/-!
# Numbers of any size in versions

Digits are a number, however many there are (`Numeral`). What is kept of them depends on whether the
number fits 64 bits. If it does not, then behind a word that announces a post-release it counts as
zero (`parse_postText`), behind a minus it is a tag and no number at all (`parse_dashText`), and in
a tag it is a word, which is compared with another one character by character (`compare_ofRun`). So
versions are in the order of their numbers if these fit, and need not be otherwise.

Main statements: `numbers_compare_if_they_fit`, `not_numbers_compare`.
-/

namespace Gatekeeper.Version

open Text

/-! ## Numerals -/

/-- Digits, as many as there are. -/
structure Numeral where
  text : List Char
  some_digit : text ≠ [] := by decide
  digits : ∀ c ∈ text, isDigit c := by decide

namespace Numeral

variable (n : Numeral)

/-- The number that the digits are. -/
def value : Nat := valueOf 10 n.text

/-- Whether the number fits 64 bits. -/
def Fits : Prop := n.value < word

instance : Decidable n.Fits := inferInstanceAs (Decidable (n.value < word))

/-- Whether one numeral precedes another one character by character. -/
def Precedes (m n : Numeral) : Prop := List.compareLex Ord.compare m.text n.text = .lt

instance (m n : Numeral) : Decidable (m.Precedes n) :=
  inferInstanceAs (Decidable (List.compareLex Ord.compare m.text n.text = .lt))

/-- The number that counts behind a word that announces a post-release. -/
def counted : Nat := if n.Fits then n.value else 0

theorem noSeparator : ∀ c ∈ n.text, isSeparator c = false :=
  fun c member => isSeparator_eq_false_of_isDigit (n.digits c member)

theorem noLetter : ∀ c ∈ n.text, isLetter c = false :=
  fun c member => isLetter_eq_false_of_isDigit (n.digits c member)

theorem noBlank : ∀ c ∈ n.text, isBlank c = false :=
  fun c member => isBlank_eq_false_of_isDigit (n.digits c member)

theorem noPlus : '+' ∉ n.text := fun member => absurd (n.digits '+' member) (by decide)

variable {n}

theorem isNumber (fits : n.Fits) : IsNumber n.text := ⟨n.some_digit, n.digits, fits⟩

theorem digits64?_of_not_fits (large : ¬n.Fits) : digits64? n.text = none := by
  have some_digit : n.text.isEmpty = false := by simpa using n.some_digit
  have all_digits : n.text.all isDigit = true := List.all_eq_true.mpr n.digits
  rw [digits64?, some_digit, all_digits]
  exact if_neg large

theorem digits64?_getD : (digits64? n.text).getD 0 = n.counted := by
  by_cases fits : n.Fits
  · rw [(isNumber fits).digits64?, counted, if_pos fits]
    rfl
  · rw [digits64?_of_not_fits fits, counted, if_neg fits]
    rfl

/-- Numerals of one length precede one another as their numbers do. -/
theorem precedes_of_length_eq {m : Numeral} (long : m.text.length = n.text.length)
    (less : m.value < n.value) : m.Precedes n := by
  rw [Precedes, compareLex_digits m.digits n.digits long]
  exact Nat.compare_eq_lt.mpr less

end Numeral

/-! ## Numerals in tags -/

variable {s t : List Char} {kind : Bool}

/-- Characters that are all digits, or all other characters, are one run. -/
theorem runs_of_kind (some_char : s ≠ []) (all : ∀ c ∈ s, isDigit c = kind) : runs s = [s] := by
  refine List.splitBy_of_isChain some_char (List.Pairwise.isChain ?_)
  refine List.pairwise_of_forall_mem_list fun a first b second => ?_
  rw [all a first, all b second, beq_self_eq_true]

/-- A tag without separators in it is split into its runs. -/
theorem tagRuns_of_not_isSeparator (solid : ∀ c ∈ s, isSeparator c = false) :
    tagRuns s = runs s := by
  rw [tagRuns, List.splitOnP_eq_singleton solid, List.flatMap_singleton]

theorem segments_numeral (n : Numeral) : segments n.text = [.ofRun n.text] := by
  rw [segments, tagRuns_of_not_isSeparator n.noSeparator, runs_of_kind n.some_digit n.digits]
  rfl

/-- How a release candidate is announced. -/
def candidate : List Char := "rc".toList

theorem segments_candidate (n : Numeral) :
    segments (candidate ++ n.text) = [.word candidate, .ofRun n.text] := by
  have solid : ∀ c ∈ candidate ++ n.text, isSeparator c = false :=
    List.forall_mem_append.mpr ⟨by decide, n.noSeparator⟩
  have apart : ∀ a ∈ candidate.getLast?, ∀ b ∈ n.text.head?, (isDigit a == isDigit b) = false := by
    intro a last b first
    rw [n.digits b (List.mem_of_mem_head? first), ← Option.some.inj last]
    rfl
  have split : runs (candidate ++ n.text) = runs candidate ++ runs n.text :=
    List.splitBy_append apart
  rw [segments, tagRuns_of_not_isSeparator solid, split, runs_of_kind n.some_digit n.digits]
  rfl

/-- A number that fits is a number in a tag. -/
theorem ofRun_of_fits {n : Numeral} (fits : n.Fits) : Segment.ofRun n.text = .number n.value := by
  rw [Segment.ofRun, (Numeral.isNumber fits).digits64?]
  rfl

/-- One that does not fit is a word. -/
theorem ofRun_of_not_fits {n : Numeral} (large : ¬n.Fits) :
    Segment.ofRun n.text = .word n.text := by
  rw [Segment.ofRun, Numeral.digits64?_of_not_fits large]

section Pair

variable {m n : Numeral} (less : m.value < n.value)

include less

/-- What is below a number that fits does fit. -/
theorem Numeral.Fits.of_lt (fits : n.Fits) : m.Fits := Nat.lt_trans less fits

/-- **Numbers in tags** are in their order if the smaller one fits. Otherwise both are words. -/
theorem compare_ofRun :
    Segment.compare (.ofRun m.text) (.ofRun n.text) = .lt ↔ m.Fits ∨ m.Precedes n := by
  by_cases fits : m.Fits
  · rw [ofRun_of_fits fits]
    refine iff_of_true ?_ (.inl fits)
    by_cases fits' : n.Fits
    · rw [ofRun_of_fits fits']
      exact Nat.compare_eq_lt.mpr less
    · rw [ofRun_of_not_fits fits']
      rfl
  · have large : ¬n.Fits := fun fits' => fits (fits'.of_lt less)
    rw [ofRun_of_not_fits fits, ofRun_of_not_fits large]
    exact (or_iff_right fits).symm

end Pair

/-- A comparison of lists with one element each. -/
theorem compareLex_singleton {a b : Segment} :
    List.compareLex Segment.compare [a] [b] = Segment.compare a b := by
  rw [List.compareLex_cons_cons, List.compareLex_nil_nil, Ordering.then_eq]

theorem comparePre_numerals (m n : Numeral) : comparePre (some m.text) (some n.text) =
    Segment.compare (.ofRun m.text) (.ofRun n.text) := by
  rw [comparePre, segments_numeral, segments_numeral, compareLex_singleton]

theorem comparePre_candidates (m n : Numeral) :
    comparePre (some (candidate ++ m.text)) (some (candidate ++ n.text)) =
      Segment.compare (.ofRun m.text) (.ofRun n.text) := by
  have same_word : Segment.compare (.word candidate) (.word candidate) = .eq :=
    Std.ReflCmp.compare_self
  rw [comparePre, segments_candidate, segments_candidate, List.compareLex_cons_cons, same_word,
    Ordering.eq_then, compareLex_singleton]

/-! ## Numerals behind a release -/

section Texts

variable (r : ReleaseText) (n : Numeral)

/-- A post-release with its number behind a word. -/
def postText : String := String.ofList (r.text ++ ".post".toList ++ n.text)

/-- A post-release with its number behind a minus. -/
def dashText : String := String.ofList (r.text ++ '-' :: n.text)

/-- A release candidate. -/
def candidateText : String := String.ofList (r.text ++ (candidate ++ n.text))

/-- **Behind a word** that announces a post-release there is always a number. -/
theorem parse_postText :
    ∃ text, parse (postText r n) = .ok ⟨r.numbers, none, some n.counted, text⟩ := by
  obtain ⟨text, read⟩ :=
    @parse_post n.text r ['.'] "post".toList [] (by decide) (by decide)
      (List.forall_mem_nil _) n.digits
  rw [n.digits64?_getD, List.append_nil, List.append_assoc r.text] at read
  exact ⟨text, read⟩

variable {n}

theorem parse_dashText_of_fits (fits : n.Fits) :
    ∃ text, parse (dashText r n) = .ok ⟨r.numbers, none, some n.value, text⟩ :=
  parse_dash r (Numeral.isNumber fits)

theorem splitPostFrom_of_not_isLetter {before : List Char}
    (noLetter : ∀ c ∈ s, isLetter c = false) :
    splitPostFrom before s = (before.reverse ++ s, none) := by
  induction s generalizing before with
  | nil => rw [splitPostFrom, List.append_nil]
  | cons c s ih =>
      have other : ¬isLetter c = true := by simp [noLetter c List.mem_cons_self]
      rw [splitPostFrom, if_neg other,
        ih fun d member => noLetter d (List.mem_cons_of_mem _ member), List.reverse_cons,
        List.append_assoc]
      rfl

variable (n) in
theorem toLower_numeral : n.text.map Char.toLower = n.text :=
  map_toLower_of_not_isLetter n.noLetter

variable (n) in
theorem splitPost_numeral : splitPost n.text = (n.text, none) :=
  splitPostFrom_of_not_isLetter n.noLetter

/-- **Behind a minus** a number that does not fit is a tag. -/
theorem parse_dashText_of_not_fits (large : ¬n.Fits) :
    ∃ text, parse (dashText r n) = .ok ⟨r.numbers, some n.text, none, text⟩ := by
  have stop : ∀ c ∈ ('-' :: n.text).head?, isReleaseChar c = false := fun c first => by
    rw [← Option.some.inj first]
    decide
  have solid : ∀ c ∈ '-' :: n.text, isBlank c = false :=
    List.forall_mem_cons.mpr ⟨by decide, n.noBlank⟩
  have noPlus : '+' ∉ '-' :: n.text := List.not_mem_cons_of_ne_of_not_mem (by decide) n.noPlus
  have no_number : implicitPost? ('-' :: n.text) = none := by
    rw [implicitPost?, readNat64?_digits n.digits, Numeral.digits64?_of_not_fits large]
  have bare : ('-' :: n.text).dropWhile isSeparator = n.text :=
    dropWhile_run (s := ['-']) (by decide) fun c first =>
      n.noSeparator c (List.mem_of_mem_head? first)
  have tag : readTag ('-' :: n.text) = (some n.text, none) := by
    rw [readTag, no_number, bare, toLower_numeral, splitPost_numeral]
    simp [n.some_digit]
  have read := parse_around {} r (List.forall_mem_nil _) stop solid noPlus
  rwa [Noise.around_nothing, List.nil_append, tag] at read

/-- In either case the text is read. -/
theorem exists_dashText (n : Numeral) : ∃ v, parse (dashText r n) = .ok v := by
  by_cases fits : n.Fits
  · obtain ⟨text, read⟩ := parse_dashText_of_fits r fits
    exact ⟨_, read⟩
  · obtain ⟨text, read⟩ := parse_dashText_of_not_fits r fits
    exact ⟨_, read⟩

variable (n)

/-- The tag of a release candidate. -/
def candidateTag : Tag where
  text := candidate ++ n.text
  letter c first := by
    rw [← Option.some.inj first]
    decide
  solid := List.forall_mem_append.mpr ⟨by decide, n.noBlank⟩
  noPlus := List.not_mem_append (by decide) n.noPlus

/-- **A release candidate** keeps its digits, whether they fit or not. -/
theorem parse_candidateText : ∃ text, parse (candidateText r n) =
    .ok ⟨r.numbers, some (candidate ++ n.text), none, text⟩ := by
  have lower : (candidate ++ n.text).map Char.toLower = candidate ++ n.text := by
    rw [List.map_append, toLower_numeral]
    rfl
  have stop : ∀ c ∈ n.text.head?, isLetter c = false :=
    fun c first => n.noLetter c (List.mem_of_mem_head? first)
  have split : splitPost (candidate ++ n.text) = (candidate ++ n.text, none) := by
    have skipped := splitPostFrom_skip (t := candidate) (by decide) stop []
    rw [splitPostFrom_of_not_isLetter n.noLetter] at skipped
    exact skipped
  have parts : tagParts ((candidate ++ n.text).map Char.toLower) =
      (some (candidate ++ n.text), none) := by
    rw [lower, tagParts, split]
    rfl
  have read := parse_plain r (candidateTag n)
  rwa [show (candidateTag n).text = candidate ++ n.text from rfl, parts] at read

end Texts

/-! ## The order of the numbers -/

section Order

variable (r : ReleaseText) {m n : Numeral}

/-- Post-releases of one release compare as their numbers. -/
theorem compare_posts {release : List Nat} {a b : Nat} {x y : String} :
    compare ⟨release, none, some a, x⟩ ⟨release, none, some b, y⟩ = Ord.compare a b :=
  compare_same_release

/-- Pre-releases of one release compare as their tags. -/
theorem compare_tags {release : List Nat} {s t : List Char} {x y : String} :
    compare ⟨release, some s, none, x⟩ ⟨release, some t, none, y⟩ =
      comparePre (some s) (some t) := by
  rw [compare_same_release, comparePost, Ordering.then_eq]

section

variable (less : m.value < n.value)

include less

/-- **The order of post-releases** is that of the numbers that count, and the greater number counts
if it fits. -/
theorem counted_lt_iff : m.counted < n.counted ↔ n.Fits := by
  by_cases fits : n.Fits
  · rw [Numeral.counted, Numeral.counted, if_pos fits, if_pos (fits.of_lt less)]
    exact iff_of_true less fits
  · rw [Numeral.counted.eq_def n, if_neg fits]
    exact iff_of_false (Nat.not_lt_zero _) fits

theorem compare_postTexts {a b : Version} (readM : parse (postText r m) = .ok a)
    (readN : parse (postText r n) = .ok b) : compare a b = .lt ↔ n.Fits := by
  obtain ⟨text, read⟩ := parse_postText r m
  obtain ⟨text', read'⟩ := parse_postText r n
  cases readM.symm.trans read
  cases readN.symm.trans read'
  rw [compare_posts, Nat.compare_eq_lt]
  exact counted_lt_iff less

/-- **The order of numbers behind a minus.** If only the smaller one fits, it comes last: it is a
post-release, and the other one is a pre-release. -/
theorem compare_dashTexts {a b : Version} (readM : parse (dashText r m) = .ok a)
    (readN : parse (dashText r n) = .ok b) :
    compare a b = .lt ↔ n.Fits ∨ ¬m.Fits ∧ m.Precedes n := by
  by_cases fits : m.Fits
  · obtain ⟨text, read⟩ := parse_dashText_of_fits r fits
    cases readM.symm.trans read
    by_cases fits' : n.Fits
    · obtain ⟨text', read'⟩ := parse_dashText_of_fits r fits'
      cases readN.symm.trans read'
      rw [compare_posts, Nat.compare_eq_lt]
      exact iff_of_true less (.inl fits')
    · obtain ⟨text', read'⟩ := parse_dashText_of_not_fits r fits'
      cases readN.symm.trans read'
      rw [compare_same_release]
      exact iff_of_false nofun fun order => order.elim fits' fun both => both.1 fits
  · have large : ¬n.Fits := fun fits' => fits (fits'.of_lt less)
    obtain ⟨text, read⟩ := parse_dashText_of_not_fits r fits
    obtain ⟨text', read'⟩ := parse_dashText_of_not_fits r large
    cases readM.symm.trans read
    cases readN.symm.trans read'
    rw [compare_tags, comparePre_numerals, compare_ofRun less]
    exact ⟨fun order => .inr ⟨fits, order.resolve_left fits⟩,
      fun order => .inr (order.resolve_left large).2⟩

/-- **The order of release candidates.** -/
theorem compare_candidateTexts {a b : Version} (readM : parse (candidateText r m) = .ok a)
    (readN : parse (candidateText r n) = .ok b) :
    compare a b = .lt ↔ m.Fits ∨ m.Precedes n := by
  obtain ⟨text, read⟩ := parse_candidateText r m
  obtain ⟨text', read'⟩ := parse_candidateText r n
  cases readM.symm.trans read
  cases readN.symm.trans read'
  rw [compare_tags, comparePre_candidates]
  exact compare_ofRun less

end

/-- The two spellings of a post-release are equal versions if the number fits. If not, the one with
a minus is a pre-release. -/
theorem same_dashText_postText {dash post plain : Version}
    (readDash : parse (dashText r m) = .ok dash) (readPost : parse (postText r m) = .ok post)
    (readPlain : parse (String.ofList r.text) = .ok plain) :
    (same dash post = true ↔ m.Fits) ∧ (m.Fits → dash.post.isSome ∧ dash.pre = none) ∧
      (¬m.Fits → dash.pre.isSome ∧ dash.post = none ∧ compare dash plain = .lt) := by
  obtain ⟨text, read⟩ := parse_postText r m
  cases readPost.symm.trans read
  by_cases fits : m.Fits
  · obtain ⟨text', read'⟩ := parse_dashText_of_fits r fits
    cases readDash.symm.trans read'
    refine ⟨iff_of_true ?_ fits, fun _ => ⟨rfl, rfl⟩, fun large => absurd fits large⟩
    rw [same_iff, compare_posts, Numeral.counted, if_pos fits]
    exact Std.ReflCmp.compare_self
  · obtain ⟨text', read'⟩ := parse_dashText_of_not_fits r fits
    obtain ⟨text₀, readPlain'⟩ := parse_release r
    cases readDash.symm.trans read'
    cases readPlain.symm.trans readPlain'
    refine ⟨iff_of_false ?_ fits, fun fits' => absurd fits' fits, fun _ => ⟨rfl, rfl, ?_⟩⟩
    · rw [same_iff, compare_same_release]
      exact nofun
    · rw [compare_same_release]
      rfl

/-- Whether two numbers stand for themselves in the versions that a release makes with them. -/
def NumbersCompare (r : ReleaseText) (m n : Numeral) : Prop :=
  ∀ postM postN dashM dashN candidateM candidateN : Version,
    parse (postText r m) = .ok postM → parse (postText r n) = .ok postN →
    parse (dashText r m) = .ok dashM → parse (dashText r n) = .ok dashN →
    parse (candidateText r m) = .ok candidateM → parse (candidateText r n) = .ok candidateN →
    compare postM postN = .lt ∧ compare dashM dashN = .lt ∧ compare candidateM candidateN = .lt ∧
      same dashM postM = true ∧ (postM.post.isSome ∧ postM.pre = none) ∧
      (dashM.post.isSome ∧ dashM.pre = none)

theorem numbersCompare_iff (less : m.value < n.value) : NumbersCompare r m n ↔ n.Fits := by
  obtain ⟨text₀, readPlain⟩ := parse_release r
  obtain ⟨text₁, readPost⟩ := parse_postText r m
  constructor
  · intro law
    obtain ⟨text₂, readPostN⟩ := parse_postText r n
    obtain ⟨dashM, readDashM⟩ := exists_dashText r m
    obtain ⟨dashN, readDashN⟩ := exists_dashText r n
    obtain ⟨text₃, readCandidateM⟩ := parse_candidateText r m
    obtain ⟨text₄, readCandidateN⟩ := parse_candidateText r n
    obtain ⟨posts, -⟩ :=
      law _ _ _ _ _ _ readPost readPostN readDashM readDashN readCandidateM readCandidateN
    exact (compare_postTexts r less readPost readPostN).mp posts
  · intro fits postM postN dashM dashN candidateM candidateN readPostM readPostN readDashM readDashN
      readCandidateM readCandidateN
    have fits' : m.Fits := fits.of_lt less
    obtain ⟨equal, isPost, -⟩ := same_dashText_postText r readDashM readPostM readPlain
    cases readPostM.symm.trans readPost
    exact ⟨(compare_postTexts r less readPost readPostN).mpr fits,
      (compare_dashTexts r less readDashM readDashN).mpr (.inl fits),
      (compare_candidateTexts r less readCandidateM readCandidateN).mpr (.inl fits'),
      equal.mpr fits', ⟨rfl, rfl⟩, isPost fits'⟩

/-- **Numbers compare if they fit.** For every release and any two numbers, of any size, the
versions that the release makes with them are read, and all of them compare as the numbers if and
only if the greater number fits. One by one:

* The post-releases are in the order of the numbers if and only if the greater one fits.
* So are the versions with the numbers behind a minus, unless neither number fits and the digits
  happen to be in that order character by character.
* The release candidates are in the order of the numbers if the smaller one fits, or if the digits
  are in that order character by character, as they are if there are as many of them.
* A number behind a word is always a post-release. One behind a minus is the same post-release if it
  fits, and otherwise a pre-release below the release itself. -/
theorem numbers_compare_if_they_fit (less : m.value < n.value) :
    ∃ postM postN dashM dashN candidateM candidateN plain : Version,
      parse (postText r m) = .ok postM ∧ parse (postText r n) = .ok postN ∧
      parse (dashText r m) = .ok dashM ∧ parse (dashText r n) = .ok dashN ∧
      parse (candidateText r m) = .ok candidateM ∧ parse (candidateText r n) = .ok candidateN ∧
      parse (String.ofList r.text) = .ok plain ∧ (NumbersCompare r m n ↔ n.Fits) ∧
      (compare postM postN = .lt ↔ n.Fits) ∧
      (compare dashM dashN = .lt ↔ n.Fits ∨ ¬m.Fits ∧ m.Precedes n) ∧
      (compare candidateM candidateN = .lt ↔ m.Fits ∨ m.Precedes n) ∧
      (m.text.length = n.text.length → compare candidateM candidateN = .lt) ∧
      (postM.post.isSome ∧ postM.pre = none) ∧
      (same dashM postM = true ↔ m.Fits) ∧ (m.Fits → dashM.post.isSome ∧ dashM.pre = none) ∧
      (¬m.Fits → dashM.pre.isSome ∧ dashM.post = none ∧ compare dashM plain = .lt) := by
  obtain ⟨text₁, readPostM⟩ := parse_postText r m
  obtain ⟨text₂, readPostN⟩ := parse_postText r n
  obtain ⟨dashM, readDashM⟩ := exists_dashText r m
  obtain ⟨dashN, readDashN⟩ := exists_dashText r n
  obtain ⟨text₃, readCandidateM⟩ := parse_candidateText r m
  obtain ⟨text₄, readCandidateN⟩ := parse_candidateText r n
  obtain ⟨text₀, readPlain⟩ := parse_release r
  have candidates := compare_candidateTexts r less readCandidateM readCandidateN
  refine ⟨_, _, _, _, _, _, _, readPostM, readPostN, readDashM, readDashN, readCandidateM,
    readCandidateN, readPlain, numbersCompare_iff r less,
    compare_postTexts r less readPostM readPostN, compare_dashTexts r less readDashM readDashN,
    candidates, fun long => ?_, ⟨rfl, rfl⟩, same_dashText_postText r readDashM readPostM readPlain⟩
  exact candidates.mpr (.inr (Numeral.precedes_of_length_eq long less))

end Order

/-- The least number that does not fit. -/
def tooLarge : Numeral where
  text := "18446744073709551616".toList

/-- Two numbers that do not fit: the greater one has more digits, and begins with smaller ones. -/
theorem numbers_compare_if_they_fit_beyond :
    ∃ postM postN candidateM candidateN : Version,
      parse "1.0.post18446744073709551616" = .ok postM ∧
      parse "1.0.post100000000000000000000" = .ok postN ∧
      parse "1.0rc18446744073709551616" = .ok candidateM ∧
      parse "1.0rc100000000000000000000" = .ok candidateN ∧
      compare postM postN ≠ .lt ∧ compare candidateM candidateN ≠ .lt := by
  let r : ReleaseText := ⟨['1'], [['0']], by decide⟩
  let n : Numeral := { text := "100000000000000000000".toList }
  obtain ⟨postM, postN, -, -, candidateM, candidateN, -, readPostM, readPostN, -, -, readCandidateM,
    readCandidateN, -, -, posts, -, candidates, -⟩ :=
    numbers_compare_if_they_fit r (show tooLarge.value < n.value by decide)
  refine ⟨postM, postN, candidateM, candidateN, readPostM, readPostN, readCandidateM,
    readCandidateN, fun order => absurd (posts.mp order) (by decide), fun order => ?_⟩
  exact (candidates.mp order).elim (by decide) (by decide)

/-- **The numbers in versions need not compare.** One and the least number that does not fit are in
the other order as post-releases. -/
theorem not_numbers_compare :
    ¬∀ (r : ReleaseText) (m n : Numeral), m.value < n.value → NumbersCompare r m n := by
  intro law
  let r : ReleaseText := ⟨['1'], [['0']], by decide⟩
  let one : Numeral := { text := ['1'] }
  have less : one.value < tooLarge.value := by decide
  exact absurd ((numbersCompare_iff r less).mp (law r one tooLarge less)) (by decide)

end Gatekeeper.Version
