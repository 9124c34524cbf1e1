import Gatekeeper.Proofs.Version.Order
import Gatekeeper.Proofs.Version.Written

set_option autoImplicit false

/-!
# The spellings of a version

A version can be written in many ways: with blanks around it, a mark in front and a local part
behind, with zeros behind its release, with separators before its tag, and in any case (`Spelling`).
None of it changes the version that is read, and neither does the way in which a post-release is
announced.

Main statement: `spelling_is_noise`.
-/

namespace Gatekeeper.Version

open Text

/-! ## Equal versions -/

/-- Numbers that are missing count as zero. -/
theorem compareRelease_zeros (ns : List Nat) (count : Nat) :
    compareRelease ns (ns ++ List.replicate count 0) = .eq := by
  induction ns with
  | nil =>
      rw [List.nil_append]
      induction count with
      | zero => exact Std.ReflCmp.compare_self
      | succ count ih =>
          rw [List.replicate_succ, compareRelease, ih]
          rfl
  | cons n ns ih =>
      rw [List.cons_append, compareRelease, ih, @Std.ReflCmp.compare_self _ Ord.compare _ n]
      rfl

/-- Versions with releases that are equal up to zeros and with the same tag are equal. -/
theorem same_of_zeros {a b : Version} (count : Nat)
    (release : b.release = a.release ++ List.replicate count 0) (pre : b.pre = a.pre)
    (post : b.post = a.post) : same a b = true := by
  rw [same_iff, compare, release, pre, post, compareRelease_zeros,
    @Std.ReflCmp.compare_self _ comparePre, @Std.ReflCmp.compare_self _ comparePost]
  rfl

/-! ## Spellings -/

section Spelling

variable {r : ReleaseText} {t : Tag}

/-- What is no letter is in a text whenever it is in the text in another case. -/
theorem mem_of_map_toLower {s s' : List Char} {c : Char}
    (cased : s.map Char.toLower = s'.map Char.toLower) (other : isLetter c = false)
    (member : c ∈ s) : c ∈ s' := by
  have lower : c ∈ s'.map Char.toLower := by
    rw [← cased, ← toLower_of_not_isLetter other]
    exact List.mem_map_of_mem member
  obtain ⟨d, member', rfl⟩ := List.mem_map.mp lower
  rw [isLetter_toLower] at other
  rwa [toLower_of_not_isLetter other]

/-- A way to write the version with a release and a tag: with noise around it, zeros behind the
release, separators before the tag, and the tag in any case. -/
structure Spelling (r : ReleaseText) (t : Tag) extends Noise where
  zeros : Nat := 0
  separators : List Char := []
  tag : List Char
  areSeparators : ∀ c ∈ separators, isSeparator c := by decide
  cased : tag.map Char.toLower = t.text.map Char.toLower

namespace Spelling

/-- What is written. -/
def text (s : Spelling r t) : String :=
  String.ofList (s.around (r.text ++ ReleaseText.zeros s.zeros ++ (s.separators ++ s.tag)))

/-- The tag in another case is a tag. -/
def recased (s : Spelling r t) : Tag where
  text := s.tag
  letter := head?_isLetter_of_map_toLower s.cased t.letter
  solid c member := by
    cases kind : isLetter c with
    | true => exact isBlank_eq_false_of_isLetter kind
    | false => exact t.solid c (mem_of_map_toLower s.cased kind member)
  noPlus member := t.noPlus (mem_of_map_toLower s.cased (by decide) member)

/-- **What is read of a spelling**: the release, with the zeros behind it, and the parts of the
tag. -/
theorem parse_text (s : Spelling r t) :
    ∃ text, parse s.text = .ok ⟨r.numbers ++ List.replicate s.zeros 0,
      (tagParts (t.text.map Char.toLower)).1, (tagParts (t.text.map Char.toLower)).2, text⟩ := by
  have read := parse_tagged s.toNoise (r.pad s.zeros) s.recased s.areSeparators
  rwa [r.text_pad, r.numbers_pad, show s.recased.text = s.tag from rfl, s.cased] at read

end Spelling

end Spelling

/-! ## Post-releases -/

section Post

variable {r : ReleaseText} {n : List Char}

/-- A number behind a minus is a post-release. -/
theorem parse_dash (r : ReleaseText) (number : IsNumber n) :
    ∃ text, parse (String.ofList (r.text ++ '-' :: n)) =
      .ok ⟨r.numbers, none, some (valueOf 10 n), text⟩ := by
  have stop : ∀ c ∈ ('-' :: n).head?, isReleaseChar c = false := fun c first => by
    rw [← Option.some.inj first]
    decide
  have solid : ∀ c ∈ '-' :: n, isBlank c = false := List.forall_mem_cons.mpr
    ⟨by decide, fun c member => isBlank_eq_false_of_isDigit (number.digits c member)⟩
  have noPlus : '+' ∉ '-' :: n := by
    intro member
    rcases List.mem_cons.mp member with same | plus
    · cases same
    · cases number.digits '+' plus
  have implicit : readTag ('-' :: n) = (none, some (valueOf 10 n)) := by
    rw [readTag, implicitPost?, readNat64?_digits number.digits, number.digits64?]
  have read := parse_around {} r (List.forall_mem_nil _) stop solid noPlus
  rwa [Noise.around_nothing, List.nil_append, implicit] at read

/-- So is a number behind a word that announces one. -/
theorem parse_post (r : ReleaseText) {before m between : List Char}
    (separatorsBefore : ∀ c ∈ before, isSeparator c) (marker : isPostMarker (m.map Char.toLower))
    (separatorsBetween : ∀ c ∈ between, isSeparator c) (digits : ∀ c ∈ n, isDigit c) :
    ∃ text, parse (String.ofList (r.text ++ before ++ m ++ between ++ n)) =
      .ok ⟨r.numbers, none, some ((digits64? n).getD 0), text⟩ := by
  have read :=
    parse_separated r (postTag m between n marker separatorsBetween digits) separatorsBefore
  have parts :
      tagParts ((postTag m between n marker separatorsBetween digits).text.map Char.toLower) =
        (none, some ((digits64? n).getD 0)) := by
    rw [tagParts, splitPost, splitPostFrom_postTag]
    rfl
  rw [parts, postTag] at read
  simpa only [List.append_assoc] using read

end Post

/-- **Spelling is noise.** A release with a tag, or none, is a version, and every spelling of it is
read as an equal one: with blanks around it, one mark in front, the tag in any case, separators
between the release and the tag, zeros behind the release, and a local part. And so are a release
with a number behind a minus and the release with the number behind any word that announces a
post-release, in any case, with any separators on both sides of the word. -/
theorem spelling_is_noise (r : ReleaseText) :
    (∀ t : Tag, ∃ v, parse (String.ofList (r.text ++ t.text)) = .ok v ∧
      ∀ s : Spelling r t, ∃ w, parse s.text = .ok w ∧ same v w = true) ∧
    ∀ n, IsNumber n → ∃ v, parse (String.ofList (r.text ++ '-' :: n)) = .ok v ∧
      ∀ before m between : List Char, (∀ c ∈ before, isSeparator c) →
        isPostMarker (m.map Char.toLower) → (∀ c ∈ between, isSeparator c) →
        ∃ w, parse (String.ofList (r.text ++ before ++ m ++ between ++ n)) = .ok w ∧
          same v w = true := by
  constructor
  · intro t
    obtain ⟨text, read⟩ := parse_plain r t
    refine ⟨_, read, fun s => ?_⟩
    obtain ⟨text', read'⟩ := s.parse_text
    exact ⟨_, read', same_of_zeros s.zeros rfl rfl rfl⟩
  · intro n number
    obtain ⟨text, read⟩ := parse_dash r number
    refine ⟨_, read, fun before m between separatorsBefore marker separatorsBetween => ?_⟩
    obtain ⟨text', read'⟩ := parse_post r separatorsBefore marker separatorsBetween number.digits
    rw [number.digits64?] at read'
    exact ⟨_, read', same_of_zeros 0 (List.append_nil _).symm rfl rfl⟩

/-- A release candidate with noise all around it, and a post-release whose number has a zero in
front. -/
theorem spelling_is_noise_candidate :
    (∃ v w, parse "3.4rc1" = .ok v ∧ parse " V3.4.0.0-_.Rc1+cu118 x\n" = .ok w ∧ same v w = true) ∧
      ∃ v w, parse "3.4-07" = .ok v ∧ parse "3.4._rEv-07" = .ok w ∧ same v w = true := by
  let r : ReleaseText := ⟨['3'], [['4']], by decide⟩
  let t : Tag := ⟨['r', 'c', '1'], by decide, by decide, by decide⟩
  let s : Spelling r t :=
    { before := [' '], mark := ['V'], localPart := "+cu118 x".toList, after := ['\n'], zeros := 2,
      separators := ['-', '_', '.'], tag := ['R', 'c', '1'], cased := by decide }
  have plain : String.ofList (r.text ++ t.text) = "3.4rc1" := by decide
  have noisy : s.text = " V3.4.0.0-_.Rc1+cu118 x\n" := by decide
  have dash : String.ofList (r.text ++ '-' :: ['0', '7']) = "3.4-07" := by decide
  have word : String.ofList (r.text ++ ['.', '_'] ++ ['r', 'E', 'v'] ++ ['-'] ++ ['0', '7']) =
      "3.4._rEv-07" := by decide
  obtain ⟨tags, posts⟩ := spelling_is_noise r
  obtain ⟨v, read, spelled⟩ := tags t
  obtain ⟨w, read', equal⟩ := spelled s
  obtain ⟨v', dashed, announced⟩ := posts ['0', '7'] (by decide)
  obtain ⟨w', read'', equal'⟩ :=
    announced ['.', '_'] ['r', 'E', 'v'] ['-'] (by decide) (by decide) (by decide)
  rw [plain] at read
  rw [noisy] at read'
  rw [dash] at dashed
  rw [word] at read''
  exact ⟨⟨v, w, read, read', equal⟩, ⟨v', w', dashed, read'', equal'⟩⟩

end Gatekeeper.Version
