import Gatekeeper.Proofs.Version.Order
import Gatekeeper.Proofs.Version.Written

set_option autoImplicit false

/-!
# Pre- and post-releases lie about their release

A tag in which no word announces a post-release (`Announces`) is a pre-release from end to end
(`splitPostFrom_skip`), and a post-release of it has the same runs (`segments_dropEndWhile`). So the
versions with one release are in the order pre-release, its post-releases, release, post-releases,
and a version with a smaller or a greater release (`ReleaseBelow`) is below or above all of them.

Main statement: `releases_bracket`.
-/

namespace Gatekeeper.Version

open Text

/-! ## Smaller releases -/

/-- Whether a release is below another one: the number is smaller at the first place where they
differ. Numbers that are missing count as zero. -/
def ReleaseBelow (as bs : List Nat) : Prop :=
  ∃ i, as.getD i 0 < bs.getD i 0 ∧ ∀ j < i, as.getD j 0 = bs.getD j 0

theorem getD_succ (as : List Nat) (i : Nat) : as.getD (i + 1) 0 = as.tail.getD i 0 := by
  cases as <;> rfl

theorem getD_zero (as : List Nat) : as.getD 0 0 = as.headD 0 := by cases as <;> rfl

/-- The first place decides, or the others do. -/
theorem releaseBelow_iff {as bs : List Nat} : ReleaseBelow as bs ↔
    as.headD 0 < bs.headD 0 ∨ (as.headD 0 = bs.headD 0 ∧ ReleaseBelow as.tail bs.tail) := by
  constructor
  · rintro ⟨i, smaller, equal⟩
    cases i with
    | zero => exact .inl (by rwa [getD_zero, getD_zero] at smaller)
    | succ i =>
        have first := equal 0 (Nat.succ_pos i)
        rw [getD_zero, getD_zero] at first
        rw [getD_succ, getD_succ] at smaller
        refine .inr ⟨first, i, smaller, fun j before => ?_⟩
        have next := equal (j + 1) (Nat.succ_lt_succ before)
        rwa [getD_succ, getD_succ] at next
  · rintro (smaller | ⟨first, i, smaller, equal⟩)
    · exact ⟨0, by rwa [getD_zero, getD_zero], nofun⟩
    · refine ⟨i + 1, by rwa [getD_succ, getD_succ], fun j before => ?_⟩
      cases j with
      | zero => rwa [getD_zero, getD_zero]
      | succ j =>
          rw [getD_succ, getD_succ]
          exact equal j (Nat.lt_of_succ_lt_succ before)

theorem not_releaseBelow_nil : ¬ReleaseBelow [] [] := fun ⟨_, smaller, _⟩ => Nat.lt_irrefl _ smaller

/-- **The order of releases is the one of their numbers.** Two releases are compared up to the
longer one, so the induction is on a bound for both. -/
theorem compareRelease_eq_lt_iff {as bs : List Nat} :
    compareRelease as bs = .lt ↔ ReleaseBelow as bs := by
  induction size : max as.length bs.length generalizing as bs with
  | zero =>
      have emptyA : as = [] := List.length_eq_zero_iff.mp (by omega)
      have emptyB : bs = [] := List.length_eq_zero_iff.mp (by omega)
      rw [emptyA, emptyB]
      rw [@Std.ReflCmp.compare_self _ compareRelease]
      exact ⟨nofun, fun below => absurd below not_releaseBelow_nil⟩
  | succ n ih =>
      have tails : max as.tail.length bs.tail.length = n := by
        rw [List.length_tail, List.length_tail]
        omega
      rw [compareRelease_eq, Ordering.then_eq_lt, ih tails, Nat.compare_eq_lt, Nat.compare_eq_eq]
      exact releaseBelow_iff.symm

/-! ## Tags that announce no post-release -/

/-- Whether a word that announces a post-release stands in a text, in any case and with no other
letters before or behind it. -/
def Announces (s : List Char) : Prop :=
  ∃ before m after, s = before ++ (m ++ after) ∧ isPostMarker (m.map Char.toLower) ∧
    (∀ c ∈ before.getLast?, isLetter c = false) ∧ ∀ c ∈ after.head?, isLetter c = false

/-- A word in a text is given by its place and its length. -/
theorem announces_iff {s : List Char} : Announces s ↔
    ∃ i < s.length + 1, ∃ k < s.length + 1,
      isPostMarker (((s.drop i).take k).map Char.toLower) ∧
      (∀ c ∈ (s.take i).getLast?, isLetter c = false) ∧
      ∀ c ∈ ((s.drop i).drop k).head?, isLetter c = false := by
  constructor
  · rintro ⟨before, m, after, rfl, marker, apart, stop⟩
    have size : (before ++ (m ++ after)).length = before.length + (m.length + after.length) := by
      rw [List.length_append, List.length_append]
    refine ⟨before.length, by omega, m.length, by omega, ?_⟩
    rw [List.drop_left, List.take_left, List.take_left, List.drop_left]
    exact ⟨marker, apart, stop⟩
  · rintro ⟨i, -, k, -, marker, apart, stop⟩
    refine ⟨s.take i, (s.drop i).take k, (s.drop i).drop k, ?_, marker, apart, stop⟩
    rw [List.take_append_drop, List.take_append_drop]

instance (s : List Char) : Decidable (Announces s) := decidable_of_iff _ announces_iff.symm

/-- A word that is announced behind other text is announced in the whole, unless it becomes
longer. -/
theorem Announces.append {s : List Char} (announces : Announces s) (lead : List Char)
    (ends : (∀ c ∈ lead.getLast?, isLetter c = false) ∨ ∀ c ∈ s.head?, isLetter c = false) :
    Announces (lead ++ s) := by
  obtain ⟨before, m, after, rfl, marker, apart, stop⟩ := announces
  refine ⟨lead ++ before, m, after, by rw [List.append_assoc], marker, fun c last => ?_, stop⟩
  rw [List.getLast?_append] at last
  cases ending : before.getLast? with
  | some d =>
      rw [ending, Option.some_or] at last
      exact apart c (ending ▸ last)
  | none =>
      rw [ending, Option.none_or] at last
      refine ends.elim (fun ends => ends c last) fun starts => ?_
      -- the word would be at the start of a text that starts with no letter
      obtain ⟨some_letter, letters⟩ := isLetter_of_isPostMarker_map marker
      obtain ⟨d, m, rfl⟩ := List.exists_cons_of_ne_nil some_letter
      have no_letter : isLetter d = false :=
        starts d (by rw [List.getLast?_eq_none_iff.mp ending]; rfl)
      rw [letters d List.mem_cons_self] at no_letter
      cases no_letter

/-- **Reading on behind a tag that announces nothing.** The induction is on the length of the tag,
for a word is passed as a whole. -/
theorem splitPostFrom_skip {t rest : List Char} (silent : ¬Announces t)
    (stop : ∀ c ∈ rest.head?, isLetter c = false) (before : List Char) :
    splitPostFrom before (t.map Char.toLower ++ rest) =
      splitPostFrom ((t.map Char.toLower).reverse ++ before) rest := by
  induction size : t.length using Nat.strongRecOn generalizing t before with
  | _ n ih =>
      cases t with
      | nil => rfl
      | cons c t =>
          cases kind : isLetter c with
          | false =>
              have silent' : ¬Announces t := fun announces =>
                silent (announces.append [c] (.inl fun d last => Option.some.inj last ▸ kind))
              have shorter : t.length < n := by rw [← size, List.length_cons]; omega
              rw [List.map_cons, List.cons_append, splitPostFrom,
                if_neg (by rw [isLetter_toLower, kind]; exact Bool.false_ne_true),
                ih _ shorter silent' _ rfl, List.reverse_cons, List.append_assoc]
              rfl
          | true =>
              obtain ⟨run, later, rfl, letters, apart⟩ := exists_run isLetter t
              have letters' : ∀ d ∈ run.map Char.toLower, isLetter d := by
                intro d member
                obtain ⟨e, member', rfl⟩ := List.mem_map.mp member
                rw [isLetter_toLower]
                exact letters e member'
              have stop' : ∀ d ∈ (later.map Char.toLower ++ rest).head?, isLetter d = false := by
                intro d first
                cases later with
                | nil => exact stop d first
                | cons e later =>
                    rw [← Option.some.inj first, isLetter_toLower]
                    exact apart e rfl
              have word : ¬isPostMarker ((c :: run).map Char.toLower) = true := fun marker =>
                silent ⟨[], c :: run, later, rfl, marker, by simp, apart⟩
              have silent' : ¬Announces later := fun announces =>
                silent (announces.append (c :: run) (.inr apart))
              have shorter : later.length < n := by
                rw [← size, List.length_cons, List.length_append]
                omega
              rw [List.map_cons, List.map_append, List.cons_append, List.append_assoc,
                splitPostFrom, if_pos (by rw [isLetter_toLower, kind]),
                takeWhile_run letters' stop', dropWhile_run letters' stop']
              refine (if_neg word).trans ?_
              rw [ih _ shorter silent' _ rfl, List.reverse_cons, List.reverse_cons,
                List.reverse_append]
              simp only [List.append_assoc]

/-! ## The runs of a tag -/

/-- A separator at the end of a tag adds no run. -/
theorem segments_append_separators {s separators : List Char}
    (areSeparators : ∀ c ∈ separators, isSeparator c) :
    segments (s ++ separators) = segments s := by
  induction separators generalizing s with
  | nil => rw [List.append_nil]
  | cons c separators ih =>
      have one : segments (s ++ [c]) = segments s := by
        rw [segments, tagRuns, List.splitOnP_append_cons s [] (areSeparators c List.mem_cons_self),
          List.splitOnP_nil, List.flatMap_append]
        have nothing : [([] : List Char)].flatMap runs = [] := rfl
        rw [nothing, List.append_nil]
        rfl
      have later :=
        ih (s := s ++ [c]) fun d member => areSeparators d (List.mem_cons_of_mem _ member)
      rwa [List.append_assoc, one] at later

theorem segments_dropEndWhile (s : List Char) :
    segments (dropEndWhile isSeparator s) = segments s := by
  obtain ⟨run, rest, reversed, areSeparators, stop⟩ := exists_run isSeparator s.reverse
  have parts : s = rest.reverse ++ run.reverse := by
    rw [← List.reverse_append, ← reversed, List.reverse_reverse]
  have dropped : dropEndWhile isSeparator s = rest.reverse := by
    rw [dropEndWhile, reversed, dropWhile_run areSeparators stop]
  rw [dropped, parts]
  exact (segments_append_separators fun c member =>
    areSeparators c (List.mem_reverse.mp member)).symm

/-! ## The versions with one release -/

section Bracket

variable {t : Tag} {n : List Char}

/-- A tag without a post-release is a pre-release. -/
theorem tagParts_silent (some_char : t.text ≠ []) (silent : ¬Announces t.text) :
    tagParts (t.text.map Char.toLower) = (some (t.text.map Char.toLower), none) := by
  have split : splitPost (t.text.map Char.toLower) = (t.text.map Char.toLower, none) := by
    have skipped := @splitPostFrom_skip t.text [] silent (by simp) []
    rw [List.append_nil, List.append_nil, splitPostFrom, List.reverse_reverse] at skipped
    exact skipped
  rw [tagParts, split, if_neg (by simpa using some_char)]

/-- A number with the word that announces a post-release. -/
def numberedPost (n : List Char) (digits : ∀ c ∈ n, isDigit c) : Tag :=
  postTag "post".toList [] n (by decide) nofun digits

theorem dot_numberedPost (digits : ∀ c ∈ n, isDigit c) :
    ['.'] ++ (numberedPost n digits).text = ".post".toList ++ n := rfl

/-- A tag with a post-release behind it. -/
def Tag.withPost (t : Tag) (some_char : t.text ≠ []) (n : List Char) (digits : ∀ c ∈ n, isDigit c) :
    Tag where
  text := t.text ++ ('.' :: (numberedPost n digits).text)
  letter c first := by
    rw [List.head?_append, Option.or_of_isSome (by simpa using some_char)] at first
    exact t.letter c first
  solid := List.forall_mem_append.mpr
    ⟨t.solid, List.forall_mem_cons.mpr ⟨by decide, (numberedPost n digits).solid⟩⟩
  noPlus member := by
    rcases List.mem_append.mp member with plus | plus
    · exact t.noPlus plus
    · rcases List.mem_cons.mp plus with same | plus
      · cases same
      · exact (numberedPost n digits).noPlus plus

theorem Tag.text_withPost (some_char : t.text ≠ []) (digits : ∀ c ∈ n, isDigit c) :
    (t.withPost some_char n digits).text = t.text ++ (".post".toList ++ n) := rfl

/-- **The post-release of a pre-release** has the runs of the tag, and a number. -/
theorem tagParts_withPost (some_char : t.text ≠ []) (silent : ¬Announces t.text)
    (digits : ∀ c ∈ n, isDigit c) :
    ∃ pre number, tagParts ((t.withPost some_char n digits).text.map Char.toLower) =
        (some pre, some number) ∧ segments pre = segments (t.text.map Char.toLower) := by
  have dot : isSeparator '.' = true := rfl
  have reversed : ('.' :: ((t.text.map Char.toLower).reverse ++ [])).reverse =
      t.text.map Char.toLower ++ ['.'] := by simp
  have split : splitPost ((t.withPost some_char n digits).text.map Char.toLower) =
      (dropEndWhile isSeparator (t.text.map Char.toLower ++ ['.']),
        some ((digits64? n).getD 0)) := by
    have stop : ∀ c ∈ ('.' :: (numberedPost n digits).text.map Char.toLower).head?,
        isLetter c = false := fun c first => Option.some.inj first ▸ rfl
    have skipped := splitPostFrom_skip silent stop []
    rw [splitPostFrom, if_neg (by decide), numberedPost, splitPostFrom_postTag, reversed] at skipped
    rw [splitPost, Tag.withPost, List.map_append, List.map_cons]
    exact skipped
  have runs : segments (dropEndWhile isSeparator (t.text.map Char.toLower ++ ['.'])) =
      segments (t.text.map Char.toLower) := by
    rw [segments_dropEndWhile]
    exact segments_append_separators fun c member => List.mem_singleton.mp member ▸ dot
  have nonempty : ¬(dropEndWhile isSeparator (t.text.map Char.toLower ++ ['.'])).isEmpty =
      true := by
    -- the first letter of the tag is no separator
    obtain ⟨c, rest, text⟩ := List.exists_cons_of_ne_nil some_char
    have letter : isLetter c.toLower = true := by
      rw [isLetter_toLower]
      exact t.letter c (by rw [text]; rfl)
    intro empty
    have dropped := List.reverse_eq_nil_iff.mp (List.isEmpty_iff.mp empty)
    have separator := List.dropWhile_eq_nil_iff.mp dropped c.toLower (by simp [text])
    rw [isSeparator_eq_false_of_isLetter letter] at separator
    cases separator
  exact ⟨_, _, by rw [tagParts, split, if_neg nonempty], runs⟩

theorem tagParts_numberedPost (digits : ∀ c ∈ n, isDigit c) :
    tagParts ((numberedPost n digits).text.map Char.toLower) =
      (none, some ((digits64? n).getD 0)) := by
  rw [tagParts, splitPost, numberedPost, splitPostFrom_postTag]
  rfl

theorem compare_of_releaseBelow {a b : Version} (below : ReleaseBelow a.release b.release) :
    compare a b = .lt := by
  rw [compare, compareRelease_eq_lt_iff.mpr below]
  rfl

/-- Of two versions with one release the tags decide, and then the post-releases. -/
theorem compare_same_release {release : List Nat} {p q : Option (List Char)} {m k : Option Nat}
    {x y : String} : compare ⟨release, p, m, x⟩ ⟨release, q, k, y⟩ =
      (comparePre p q).then (comparePost m k) := by
  rw [compare, @Std.ReflCmp.compare_self _ compareRelease]
  rfl

/-- **Pre- and post-releases lie about their release.** For every release, every tag in which no
word announces a post-release, and all digits: the release with the tag is below its post-release,
that below the release, and that below its post-release; and every version with a smaller release,
whatever else it has, is below them all, and every version with a greater one above them all. -/
theorem releases_bracket (r : ReleaseText) (t : Tag) (some_char : t.text ≠ [])
    (silent : ¬Announces t.text) (digits : ∀ c ∈ n, isDigit c) :
    ∃ pre prePost plain post : Version,
      parse (String.ofList (r.text ++ t.text)) = .ok pre ∧
      parse (String.ofList (r.text ++ t.text ++ ".post".toList ++ n)) = .ok prePost ∧
      parse (String.ofList r.text) = .ok plain ∧
      parse (String.ofList (r.text ++ ".post".toList ++ n)) = .ok post ∧
      compare pre prePost = .lt ∧ compare prePost plain = .lt ∧ compare plain post = .lt ∧
      (∀ v : Version, ReleaseBelow v.release r.numbers → compare v pre = .lt) ∧
      ∀ v : Version, ReleaseBelow r.numbers v.release → compare post v = .lt := by
  have dot : ∀ c ∈ ['.'], isSeparator c := fun c member => List.mem_singleton.mp member ▸ rfl
  -- the four texts are read
  obtain ⟨text, readPre⟩ := parse_plain r t
  obtain ⟨text', readPrePost⟩ := parse_plain r (t.withPost some_char n digits)
  obtain ⟨text₀, readPlain⟩ := parse_plain r .empty
  obtain ⟨text₁, readPost⟩ := parse_separated r (numberedPost n digits) dot
  obtain ⟨pre, number, partsPrePost, runs⟩ := tagParts_withPost some_char silent digits
  have partsPlain : tagParts (Tag.empty.text.map Char.toLower) = (none, none) := by
    rw [Tag.text_empty, tagParts, splitPost, List.map_nil, splitPostFrom]
    rfl
  rw [tagParts_silent some_char silent] at readPre
  rw [partsPrePost, Tag.text_withPost, ← List.append_assoc, ← List.append_assoc] at readPrePost
  rw [partsPlain, Tag.text_empty, List.append_nil] at readPlain
  rw [tagParts_numberedPost, dot_numberedPost, ← List.append_assoc] at readPost
  refine ⟨_, _, _, _, readPre, readPrePost, readPlain, readPost, ?_, ?_, ?_, fun v below => ?_,
    fun v above => ?_⟩
  · have sameRuns : comparePre (some (t.text.map Char.toLower)) (some pre) = .eq := by
      rw [comparePre, runs]
      exact Std.ReflCmp.compare_self
    rw [compare_same_release, sameRuns]
    rfl
  · rw [compare_same_release]
    rfl
  · rw [compare_same_release]
    rfl
  · exact compare_of_releaseBelow below
  · exact compare_of_releaseBelow above

/-- A tag that begins with a word like the one that announces a post-release, and a number that does
not fit 64 bits. -/
theorem releases_bracket_postal :
    ∃ pre prePost plain post : Version,
      parse "1.0Postal1-" = .ok pre ∧ parse "1.0Postal1-.post99999999999999999999" = .ok prePost ∧
      parse "1.0" = .ok plain ∧ parse "1.0.post99999999999999999999" = .ok post ∧
      compare ⟨[0, 9, 9], none, some 9, "0.9.9.post9"⟩ pre = .lt ∧ compare pre prePost = .lt ∧
      compare prePost plain = .lt ∧ compare plain post = .lt ∧
      compare post ⟨[1, 0, 0, 1], some ['a'], none, "1.0.0.1a"⟩ = .lt := by
  obtain ⟨pre, prePost, plain, post, readPre, readPrePost, readPlain, readPost, first,
    second, third, below, above⟩ := releases_bracket ⟨['1'], [['0']], by decide⟩
      ⟨"Postal1-".toList, by decide, by decide, by decide⟩ (by decide) (by decide)
      (show ∀ c ∈ "99999999999999999999".toList, isDigit c = true by decide)
  refine ⟨pre, prePost, plain, post, readPre, readPrePost, readPlain, readPost, below _ ?_, first,
    second, third, above _ ?_⟩
  · exact ⟨0, by decide, nofun⟩
  · exact ⟨3, by decide, by decide⟩

end Bracket

end Gatekeeper.Version
