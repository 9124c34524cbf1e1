import Gatekeeper.Proofs.Text.Offset
import Gatekeeper.Proofs.Version.Runs
import Gatekeeper.Version.Bytes

set_option autoImplicit false

/-!
# Versions are cut between characters

The bytes of a character are letters or digits only if the character is one itself, so the offsets
at which the texts of versions are cut are boundaries. The search for the word that announces a
post-release passes over other characters byte by byte, and so stands inside a character at times,
but never when it cuts (`Reached`). The search for the runs of a piece goes from boundary to
boundary (`Found`).

Main statement: `texts_are_cut_between_characters`.
-/

namespace Gatekeeper.Version.Bytes

open Text

variable {s tag before run rest : List Char} {start : Nat}

/-! ## Kinds of bytes and characters -/

theorem isDigitByte_eq (c : Char) (b : UInt8) (member : b ∈ String.utf8EncodeChar c) :
    isDigitByte b = isDigit c := by
  rw [Bool.eq_iff_iff, isDigitByte_iff, isDigit_iff]
  exact kind_iff_of_mem (fun n => 48 ≤ n ∧ n ≤ 57) (fun n digit => by omega) member

theorem isLetterByte_eq (c : Char) (b : UInt8) (member : b ∈ String.utf8EncodeChar c) :
    isLetterByte b = isLetter c := by
  rw [Bool.eq_iff_iff, isLetterByte_iff, isLetter_iff]
  exact kind_iff_of_mem (fun n => (65 ≤ n ∧ n ≤ 90) ∨ (97 ≤ n ∧ n ≤ 122))
    (fun n letter => by omega) member

/-! ## The two sides of a leading run -/

theorem gives_lead (p : Char → Bool) (s : List Char) :
    (Scan.slice s 0 (lead p s)).Gives (s.takeWhile p) := by
  have front := Scan.Gives.slice_front (s.takeWhile p) (s.dropWhile p)
  rwa [List.takeWhile_append_dropWhile] at front

theorem gives_behind_lead (p : Char → Bool) (s : List Char) :
    (Scan.slice s (lead p s) (byteLength s)).Gives (s.dropWhile p) := by
  have back := Scan.Gives.slice_back (s.takeWhile p) (s.dropWhile p)
  rwa [List.takeWhile_append_dropWhile] at back

/-! ## The word that announces a post-release -/

/-- How a tag is split at a run of letters: there, if the run announces a post-release, or else
behind it. -/
theorem splitPostFrom_run (some_letter : run ≠ []) (letters : ∀ c ∈ run, isLetter c)
    (stop : ∀ c ∈ rest.head?, isLetter c = false) (before : List Char) :
    splitPostFrom before (run ++ rest) =
      if isPostMarker run then (dropEndWhile isSeparator before.reverse, some (postNumber rest))
      else splitPostFrom (run.reverse ++ before) rest := by
  obtain ⟨c, others, rfl⟩ := List.exists_cons_of_ne_nil some_letter
  have later : ∀ d ∈ others, isLetter d := fun d member => letters d (List.mem_cons_of_mem _ member)
  rw [List.cons_append, splitPostFrom, if_pos (letters c List.mem_cons_self),
    takeWhile_run later stop, dropWhile_run later stop]

/-- A byte that is no letter is passed over, also in the middle of a character. -/
theorem markerTurn_byte {b : UInt8} (there : (Utf8.encode tag)[start]? = some b)
    (other : isLetterByte b = false) : (markerTurn tag start).Gives (.goOn (start + 1)) := by
  have inside : start < byteLength tag := (List.getElem?_eq_some_iff.mp there).1
  rw [markerTurn, if_pos inside]
  refine (Scan.Gives.byte there).bind ?_
  rw [if_neg (by simp [other])]
  exact .pure _

theorem markerTurn_end (tag : List Char) :
    (markerTurn tag (byteLength tag)).Gives (.done (tag, none)) := by
  rw [markerTurn, if_neg (Nat.lt_irrefl _)]
  exact .pure _

/-- A run of letters is taken out. If it announces a post-release, the tag is cut before and behind
it, and again behind the number; if not, the search goes on at its end. -/
theorem markerTurn_run (before : List Char) (some_letter : run ≠ [])
    (letters : ∀ c ∈ run, isLetter c) (stop : ∀ c ∈ rest.head?, isLetter c = false) :
    (markerTurn (before ++ (run ++ rest)) (byteLength before)).Gives
      (if isPostMarker run then .done (dropEndWhile isSeparator before, some (postNumber rest))
        else .goOn (byteLength (before ++ run))) := by
  have inside := byteLength_lt_append before (List.append_ne_nil_of_left_ne_nil some_letter rest)
  obtain ⟨b, letter, looked, found⟩ :=
    Scan.Gives.run isLetterByte_eq before some_letter letters stop
  rw [markerTurn, if_pos inside]
  refine looked.bind ?_
  rw [if_pos letter]
  refine found.bind ((Scan.Gives.slice before run rest).bind ?_)
  by_cases marker : isPostMarker run
  · have behind := Scan.Gives.slice_back (before ++ run) rest
    rw [List.append_assoc] at behind
    rw [if_pos marker, if_pos marker]
    refine (Scan.Gives.slice_front before (run ++ rest)).bind
      (behind.bind ((gives_lead _ _).bind ?_))
    rw [readNat64?_digits fun d member => List.mem_takeWhile_imp member]
    exact .pure _
  · rw [if_neg marker, if_neg marker]
    exact .pure _

/-- Where the search for the word stands: behind the characters `before`, or inside the last of
them, with only bytes left to pass over that are no letters. The rest of the tag decides the
answer. -/
def Reached (tag : List Char) (answer : List Char × Option Nat) (start : Nat) : Prop :=
  ∃ before rest passed skipped, tag = before ++ rest ∧ Utf8.encode before = passed ++ skipped ∧
    passed.length = start ∧ (∀ b ∈ skipped, isLetterByte b = false) ∧
    splitPostFrom before.reverse rest = answer

/-- It may stand at a boundary. -/
theorem reached_boundary (before : List Char) {answer : List Char × Option Nat}
    (decides : splitPostFrom before.reverse rest = answer) :
    Reached (before ++ rest) answer (byteLength before) :=
  ⟨before, rest, Utf8.encode before, [], rfl, (List.append_nil _).symm, rfl, List.forall_mem_nil _,
    decides⟩

variable {answer : List Char × Option Nat}

/-- A byte that is left to pass over is passed over. -/
theorem markerTurn_skipped {passed skipped : List UInt8} {b : UInt8}
    (bytes : Utf8.encode before = passed ++ b :: skipped)
    (noLetter : ∀ c ∈ b :: skipped, isLetterByte c = false)
    (decides : splitPostFrom before.reverse rest = answer) :
    Scan.Progress (markerTurn (before ++ rest)) answer (Reached (before ++ rest) answer)
      (byteLength (before ++ rest) - ·) passed.length := by
  have there : (Utf8.encode (before ++ rest))[passed.length]? = some b := by
    rw [encode_append, bytes, List.append_assoc, List.getElem?_append_right (Nat.le_refl _),
      Nat.sub_self]
    rfl
  have inside : passed.length < byteLength (before ++ rest) :=
    (List.getElem?_eq_some_iff.mp there).1
  have later : ∀ c ∈ skipped, isLetterByte c = false :=
    fun c member => noLetter c (List.mem_cons_of_mem _ member)
  refine .inr ⟨_, markerTurn_byte there (noLetter b List.mem_cons_self), ?_,
    Nat.sub_lt_sub_left inside (Nat.lt_succ_self _)⟩
  refine ⟨before, rest, passed ++ [b], skipped, rfl, ?_, by simp, later, decides⟩
  rw [bytes, List.append_assoc]
  rfl

/-- A run of letters is passed over as a whole, unless it gives the answer. -/
theorem markerTurn_letters (some_letter : run ≠ []) (letters : ∀ c ∈ run, isLetter c)
    (stop : ∀ c ∈ rest.head?, isLetter c = false)
    (decides : splitPostFrom before.reverse (run ++ rest) = answer) :
    Scan.Progress (markerTurn (before ++ (run ++ rest))) answer
      (Reached (before ++ (run ++ rest)) answer) (byteLength (before ++ (run ++ rest)) - ·)
      (byteLength before) := by
  have gives := markerTurn_run before some_letter letters stop
  rw [splitPostFrom_run some_letter letters stop] at decides
  by_cases marker : isPostMarker run
  · rw [if_pos marker, List.reverse_reverse] at decides
    rw [if_pos marker, decides] at gives
    exact .inl gives
  · rw [if_neg marker, ← List.reverse_append] at decides
    rw [if_neg marker] at gives
    have reached := reached_boundary (before ++ run) decides
    rw [List.append_assoc] at reached
    exact .inr ⟨_, gives, reached, Nat.sub_lt_sub_left
      (byteLength_lt_append before (List.append_ne_nil_of_left_ne_nil some_letter rest))
      (byteLength_lt_append before some_letter)⟩

/-- **Every turn of the search makes progress.** -/
theorem markerTurn_progress (reached : Reached tag answer start) :
    Scan.Progress (markerTurn tag) answer (Reached tag answer) (byteLength tag - ·) start := by
  obtain ⟨before, rest, passed, skipped, rfl, bytes, rfl, noLetter, decides⟩ := reached
  -- in the middle of a character its next byte is passed; at a boundary the next character counts
  cases skipped with
  | cons b skipped => exact markerTurn_skipped bytes noLetter decides
  | nil =>
      rw [List.append_nil] at bytes
      have place : passed.length = byteLength before := by rw [byteLength, bytes]
      cases rest with
      | nil =>
          rw [splitPostFrom, List.reverse_reverse] at decides
          rw [List.append_nil, ← decides, place]
          exact .inl (markerTurn_end before)
      | cons c rest =>
          cases kind : isLetter c with
          | false =>
              -- from here on the bytes of the next character are left to pass over
              obtain ⟨b, others, split⟩ :=
                List.exists_cons_of_ne_nil (String.utf8EncodeChar_ne_nil (c := c))
              have bytes' : Utf8.encode (before ++ [c]) = passed ++ b :: others := by
                rw [encode_append, bytes, encode_cons, split]
                exact congrArg (passed ++ ·) (List.append_nil _)
              have noLetter' : ∀ d ∈ b :: others, isLetterByte d = false := fun d member =>
                (isLetterByte_eq c d (split ▸ member)).trans kind
              have decides' : splitPostFrom (before ++ [c]).reverse rest = answer := by
                rw [splitPostFrom, if_neg (by simp [kind])] at decides
                rw [List.reverse_append]
                exact decides
              have progress := markerTurn_skipped bytes' noLetter' decides'
              rwa [List.append_assoc] at progress
          | true =>
              obtain ⟨others, rest, rfl, letters, stop⟩ := exists_run isLetter rest
              rw [place]
              exact markerTurn_letters (List.cons_ne_nil c others)
                (List.forall_mem_cons.mpr ⟨kind, letters⟩) stop decides

/-- **The split of a tag**, found byte by byte. -/
theorem splitPost_gives (tag : List Char) : (splitPost tag).Gives (Version.splitPost tag) :=
  .loop (fun _ reached => markerTurn_progress reached) (reached_boundary [] rfl)

/-! ## Runs -/

/-- A run stands for what it is read as. -/
theorem segment_eq {kind : Bool} (some_char : run ≠ []) (all : ∀ c ∈ run, isDigit c = kind) :
    segment kind run = .ofRun run := by
  obtain ⟨c, others, rfl⟩ := List.exists_cons_of_ne_nil some_char
  have first := all c List.mem_cons_self
  cases kind with
  | true =>
      rw [segment, readNat64?_digits all, Segment.ofRun]
      rfl
  | false =>
      have no_number : digits64? (c :: others) = none := digits64?_eq_none fun d head =>
        Option.some.inj head ▸ first
      rw [segment, Segment.ofRun, no_number]
      split <;> rfl

/-- Where the search for runs stands: at a boundary, with the segments before it found. -/
def Found (piece : List Char) (answer : List Segment) : Nat × List Segment → Prop
  | (start, found) => ∃ before rest, piece = before ++ rest ∧ byteLength before = start ∧
      found ++ (runs rest).map .ofRun = answer

theorem runTurn_end (piece : List Char) (found : List Segment) :
    (runTurn piece (byteLength piece, found)).Gives (.done found) := by
  rw [runTurn, if_neg (Nat.lt_irrefl _)]
  exact .pure _

/-- A run is taken out, and the search goes on at its end. -/
theorem runTurn_run {kind : Bool} (some_char : run ≠ []) (all : ∀ c ∈ run, isDigit c = kind)
    (stop : ∀ c ∈ rest.head?, isDigit c ≠ kind) (found : List Segment) :
    (runTurn (before ++ (run ++ rest)) (byteLength before, found)).Gives
      (.goOn (byteLength (before ++ run), found ++ [.ofRun run])) := by
  have inside := byteLength_lt_append before (List.append_ne_nil_of_left_ne_nil some_char rest)
  obtain ⟨b, first, looked, found_end⟩ :=
    @Scan.Gives.run rest (isDigitByte · == kind) (isDigit · == kind)
      (fun c b member => by rw [isDigitByte_eq c b member]) before run some_char
      (fun c member => beq_iff_eq.mpr (all c member))
      fun c first => beq_eq_false_iff_ne.mpr (stop c first)
  have numeric : isDigitByte b = kind := beq_iff_eq.mp first
  rw [runTurn, if_pos inside]
  refine looked.bind ?_
  simp only [numeric]
  refine found_end.bind ((Scan.Gives.slice before run rest).bind ?_)
  rw [segment_eq some_char all]
  exact .pure _

/-- **Every turn of the search for runs makes progress.** -/
theorem runTurn_progress {piece : List Char} {answer : List Segment} {state : Nat × List Segment}
    (found : Found piece answer state) :
    Scan.Progress (runTurn piece) answer (Found piece answer) (byteLength piece - ·.1) state := by
  obtain ⟨start, segments⟩ := state
  obtain ⟨before, rest, rfl, rfl, decides⟩ := found
  cases rest with
  | nil =>
      have complete : segments = answer := (List.append_nil segments).symm.trans decides
      rw [List.append_nil, ← complete]
      exact .inl (runTurn_end before segments)
  | cons c rest =>
      obtain ⟨others, rest, rfl, own, stop⟩ := exists_run (isDigit · == isDigit c) rest
      have some_char := List.cons_ne_nil c others
      have all : ∀ d ∈ c :: others, isDigit d = isDigit c :=
        List.forall_mem_cons.mpr ⟨rfl, fun d member => beq_iff_eq.mp (own d member)⟩
      have apart : ∀ d ∈ rest.head?, isDigit d ≠ isDigit c :=
        fun d first => beq_eq_false_iff_ne.mp (stop d first)
      refine .inr ⟨_, runTurn_run some_char all apart segments,
        ⟨before ++ c :: others, rest, ?_, rfl, ?_⟩, Nat.sub_lt_sub_left
          (byteLength_lt_append before (List.append_ne_nil_of_left_ne_nil some_char rest))
          (byteLength_lt_append before some_char)⟩
      · exact (List.append_assoc before (c :: others) rest).symm
      · rw [← decides, ← List.cons_append, runs_append some_char all apart, List.append_assoc]
        rfl

/-- **The segments of a piece**, found byte by byte. -/
theorem pieceSegments_gives (found : List Segment) (piece : List Char) :
    (pieceSegments found piece).Gives (found ++ (runs piece).map .ofRun) :=
  .loop (fun _ found => runTurn_progress found) ⟨[], piece, rfl, rfl, rfl⟩

theorem pieces_give (pieces : List (List Char)) (found : List Segment) :
    (pieces.foldlM pieceSegments found).Gives (found ++ (pieces.flatMap runs).map .ofRun) := by
  induction pieces generalizing found with
  | nil =>
      rw [List.flatMap_nil, List.map_nil, List.append_nil]
      exact .pure found
  | cons piece pieces ih =>
      rw [List.foldlM_cons, List.flatMap_cons, List.map_append, ← List.append_assoc]
      exact (pieceSegments_gives found piece).bind (ih _)

/-- Where there are no characters there are no runs. -/
theorem flatMap_runs_filter (pieces : List (List Char)) :
    (pieces.filter (!·.isEmpty)).flatMap runs = pieces.flatMap runs := by
  induction pieces with
  | nil => rfl
  | cons piece pieces ih =>
      cases piece with
      | nil => exact ih
      | cons c piece => rw [List.filter_cons_of_pos rfl, List.flatMap_cons, List.flatMap_cons, ih]

/-- **The segments of a tag**, found byte by byte. -/
theorem segments_give (tag : List Char) : (segments tag).Gives (Version.segments tag) := by
  have give := pieces_give ((tag.splitOnP isSeparator).filter (!·.isEmpty)) []
  rwa [flatMap_runs_filter, List.nil_append] at give

/-! ## Reading and comparing -/

theorem readTag_gives (s : List Char) : (readTag s).Gives (Version.readTag s) := by
  rw [readTag, Version.readTag]
  cases implicitPost? s with
  | some n => exact .pure _
  | none => exact (splitPost_gives _).bind (.pure _)

/-- **A version is read** by cutting its text at boundaries only. -/
theorem parse_gives (raw : String) : (parse raw).Gives (Version.parse raw) := by
  rw [parse, Version.parse]
  dsimp only
  by_cases nothing : (trim raw.toList).isEmpty
  · rw [if_pos nothing, if_pos nothing]
    exact .pure _
  · rw [if_neg nothing, if_neg nothing]
    refine (gives_lead _ _).bind ((gives_behind_lead _ _).bind ?_)
    rw [← releasePart]
    by_cases no_release : (releasePart (publicPart (trim raw.toList))).isEmpty
    · rw [if_pos no_release, if_pos no_release]
      exact .pure _
    · rw [if_neg no_release, if_neg no_release]
      cases readRelease ((releasePart (publicPart (trim raw.toList))).splitOn '.') with
      | error component => exact .pure _
      | ok numbers => exact (readTag_gives _).bind (.pure _)

theorem comparePre_gives (a b : Option (List Char)) :
    (comparePre a b).Gives (Version.comparePre a b) := by
  cases a with
  | none => cases b <;> exact .pure _
  | some a =>
      cases b with
      | none => exact .pure _
      | some b => exact (segments_give a).bind ((segments_give b).bind (.pure _))

/-- **Versions are compared** by cutting their tags at boundaries only. -/
theorem compare_gives (a b : Version) : (compare a b).Gives (Version.compare a b) := by
  rw [compare, Version.compare]
  cases compareRelease a.release b.release with
  | eq => exact (comparePre_gives a.pre b.pre).bind (.pure _)
  | lt => exact .pure _
  | gt => exact .pure _

end Gatekeeper.Version.Bytes

namespace Gatekeeper.Version

open Text

/-- **The texts of versions are cut between characters.** Whatever text is read as a version, and
whatever versions are compared, the computation on the bytes comes to an end with the answer: no
loop goes on forever, and nothing stops it. All offsets at which a text or its bytes are cut on the
way are boundaries of the text, and every single byte that is looked at is there. The same holds of
the search in a tag for the word that announces a post-release, and of the search for its segments.

The segments of a tag stand for its maximal runs of digits and of other characters, each at its
place: a run is a word or a number, and put together the runs are the tag without its separators. -/
theorem texts_are_cut_between_characters :
    (∀ raw : String, (Bytes.parse raw).Gives (parse raw)) ∧
    (∀ a b : Version, (Bytes.compare a b).Gives (Version.compare a b)) ∧
    (∀ tag, (Bytes.splitPost tag).Gives (splitPost tag)) ∧
    ∀ tag, (Bytes.segments tag).Gives (segments tag) ∧
      segments tag = (tagRuns tag).map Segment.ofRun ∧
      (tagRuns tag).flatten = tag.filter (!isSeparator ·) ∧
      ∀ earlier run later, tagRuns tag = earlier ++ run :: later →
        (Segment.ofRun run = .word run ∨
          IsNumber run ∧ Segment.ofRun run = .number (valueOf 10 run)) ∧
        ∃ before after, tag = before ++ (run ++ after) ∧ IsMaximalRun before run after ∧
          before.filter (!isSeparator ·) = earlier.flatten ∧
          after.filter (!isSeparator ·) = later.flatten := by
  refine ⟨Bytes.parse_gives, Bytes.compare_gives, Bytes.splitPost_gives,
    fun tag => ⟨Bytes.segments_give tag, rfl, (arrangement_tagRuns tag).flatten_eq, ?_⟩⟩
  intro earlier run later place
  obtain ⟨before, after, whole, first, second, kind, bounded⟩ :=
    (arrangement_tagRuns tag).exists_place place
  exact ⟨ofRun_eq run, before, after, whole, bounded.isMaximalRun, first, second⟩

/-- A tag with characters of several bytes next to its letters, digits and separators. -/
theorem texts_are_cut_between_characters_accented :
    (Bytes.parse "1.0-é12ß.post3€").Gives (parse "1.0-é12ß.post3€") ∧
      (Bytes.splitPost "é12ß.post3€".toList).Gives (splitPost "é12ß.post3€".toList) ∧
      (Bytes.segments "é12ß.7".toList).Gives [.word ['é'], .number 12, .word ['ß'], .number 7] ∧
      tagRuns "é12ß.7".toList = [['é'], ['1', '2']] ++ ['ß'] :: [['7']] ∧
      ∃ before after, "é12ß.7".toList = before ++ ('ß' :: after) ∧
        IsMaximalRun before ['ß'] after := by
  obtain ⟨read, -, split, tags⟩ := texts_are_cut_between_characters
  obtain ⟨found, segments_eq, -, places⟩ := tags "é12ß.7".toList
  have place : tagRuns "é12ß.7".toList = [['é'], ['1', '2']] ++ ['ß'] :: [['7']] := by decide
  obtain ⟨-, before, after, whole, maximal, -⟩ := places _ _ _ place
  rw [segments_eq, place] at found
  exact ⟨read _, split _, found, place, before, after, whole, maximal⟩

end Gatekeeper.Version
