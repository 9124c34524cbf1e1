import Gatekeeper.Proofs.Frame.Lines

set_option autoImplicit false

/-!
# Reading gets on

Whatever a call reports, it takes the first line of what is left (`ofLines_cons_isSuffix`), and no
more than the headers and the body that they announce (`length_le_ofLines`). So calls that go on
after faults come to the end of a stream (`reading_makes_progress`).
-/

namespace Gatekeeper.Frame

open Text

/-! ## Headers -/

/-- The lines of the headers: those up to the blank one, or all. -/
def headerLines : List (List UInt8) → List (List UInt8)
  | [] => []
  | line :: rest => if kind line = .blank then [line] else line :: headerLines rest

/-- The headers of the frame with which a stream begins. -/
def headerBlock (bytes : List UInt8) : List UInt8 := (headerLines (lines bytes)).flatten

/-- The length of the body that these headers announce. -/
def announced (bytes : List UInt8) : Option Nat := lastLength (headerLines (lines bytes))

/-- The most bytes that a body with the length takes. -/
def bodyBound (length : Option Nat) : Nat := min (length.getD 0) maxBody

/-! ## Single calls -/

variable {first : Bool} {length : Option Nat} {bytes rest : List UInt8}

theorem ofBody_isSuffix (length : Option Nat) (bytes : List UInt8) :
    (ofBody length bytes).2 <:+ bytes := by
  unfold ofBody
  split
  · exact List.suffix_rfl
  · split
    · exact List.suffix_rfl
    · split
      · exact List.drop_suffix _ _
      · exact List.nil_suffix

theorem length_le_ofBody (length : Option Nat) (bytes : List UInt8) :
    bytes.length ≤ (ofBody length bytes).2.length + bodyBound length := by
  unfold ofBody
  split
  · exact Nat.le_add_right _ _
  next n =>
    split
    · exact Nat.le_add_right _ _
    next small =>
      have bound : bodyBound (some n) = n := Nat.min_eq_left (Nat.le_of_not_lt small)
      rw [bound]
      split
      · rw [List.length_drop]
        omega
      · rw [List.length_nil]
        omega

theorem ofBody_isSome (length : Option Nat) (bytes : List UInt8) :
    (ofBody length bytes).1.isSome := by
  unfold ofBody
  split
  · rfl
  · split
    · rfl
    · split <;> rfl

/-- What is left is the end of what there was. -/
theorem ofLines_isSuffix (first : Bool) (length : Option Nat) (ls : List (List UInt8)) :
    (ofLines first length ls).2 <:+ ls.flatten := by
  induction ls generalizing first length with
  | nil => exact List.suffix_rfl
  | cons line ls ih =>
      have behind := List.suffix_append line ls.flatten
      rw [List.flatten_cons]
      rcases ofLines_cons first length line ls with ⟨_, f, read⟩ | ⟨_, read⟩ | ⟨_, read⟩
      · rw [read]
        exact behind
      · rw [read]
        exact (ofBody_isSuffix _ _).trans behind
      · rw [read]
        exact (ih _ _).trans behind

/-- **The first line is taken.** -/
theorem ofLines_cons_isSuffix (first : Bool) (length : Option Nat) (line : List UInt8)
    (ls : List (List UInt8)) : (ofLines first length (line :: ls)).2 <:+ ls.flatten := by
  rcases ofLines_cons first length line ls with ⟨_, f, read⟩ | ⟨_, read⟩ | ⟨_, read⟩
  · exact ⟨[], congrArg Prod.snd read⟩
  · rw [read]
    exact ofBody_isSuffix _ _
  · rw [read]
    exact ofLines_isSuffix _ _ _

/-- Within a frame, and at a line, there is a report. -/
theorem ofLines_isSome {first : Bool} {ls : List (List UInt8)} (length : Option Nat)
    (due : first = false ∨ ls ≠ []) : (ofLines first length ls).1.isSome := by
  induction ls generalizing first length with
  | nil =>
      rw [due.resolve_right (absurd rfl ·)]
      rfl
  | cons line ls ih =>
      rcases ofLines_cons first length line ls with ⟨_, f, read⟩ | ⟨_, read⟩ | ⟨_, read⟩
      · rw [read]
        rfl
      · rw [read]
        exact ofBody_isSome _ _
      · rw [read]
        exact ih _ (.inl rfl)

/-- **No more is taken than the headers and the body that they announce.** -/
theorem length_le_ofLines (first : Bool) (length : Option Nat) (ls : List (List UInt8)) :
    ls.flatten.length ≤ (ofLines first length ls).2.length + (headerLines ls).flatten.length +
      bodyBound ((lastLength (headerLines ls)).or length) := by
  induction ls generalizing first length with
  | nil => exact Nat.zero_le _
  | cons line ls ih =>
      rw [List.flatten_cons, List.length_append, headerLines]
      rcases ofLines_cons first length line ls with
        ⟨header, f, read⟩ | ⟨blank, read⟩ | ⟨header, read⟩
      · rw [read, if_neg header, List.flatten_cons, List.length_append]
        dsimp only
        omega
      · have body := length_le_ofBody length ls.flatten
        have none_given : lastLength [line] = none := by
          rw [lastLength_cons, blank]
          rfl
        rw [read, if_pos blank, none_given, Option.none_or, List.flatten_singleton]
        omega
      · have later := ih false ((kind line).length?.or length)
        have other : kind line ≠ .blank := fun blank => by
          rw [blank] at header
          exact header
        rw [read, if_neg other, lastLength_cons, Option.or_assoc, List.flatten_cons,
          List.length_append]
        omega

/-- A call on bytes takes some of them, and no more than its headers and its body. -/
theorem exists_taken (some_byte : bytes ≠ []) :
    ∃ taken, bytes = taken ++ (read bytes).2 ∧ 0 < taken.length ∧
      taken.length ≤ (headerBlock bytes).length + bodyBound (announced bytes) := by
  obtain ⟨line, ls, split, within, whole⟩ := exists_line some_byte
  obtain ⟨more, rest⟩ := ofLines_cons_isSuffix true none line ls
  have least := List.length_pos_iff.mpr within
  have most := length_le_ofLines true none (lines bytes)
  rw [← split, ← read_eq_ofLines] at rest
  rw [← read_eq_ofLines, flatten_lines, Option.or_none] at most
  have parts : bytes = (line ++ more) ++ (read bytes).2 := by
    rw [List.append_assoc, rest]
    exact whole
  have total := congrArg List.length parts
  rw [List.length_append] at total
  refine ⟨line ++ more, parts, ?_, ?_⟩
  · rw [List.length_append]
    omega
  · rw [headerBlock, announced]
    omega

/-- A call on bytes reports something. -/
theorem read_isSome (some_byte : bytes ≠ []) : (read bytes).1.isSome := by
  obtain ⟨line, ls, split, -⟩ := exists_line some_byte
  rw [read_eq_ofLines, split]
  exact ofLines_isSome none (.inr (List.cons_ne_nil _ _))

/-! ## Calls one after another -/

/-- What a call reports is the first of all reports. -/
theorem reports_of_next {d : Decoder} {o : Outcome} (called : d.next bytes = (some o, rest)) :
    (d.feed bytes).1 ++ (d.feed bytes).2.finish.toList = o :: readAll rest := by
  induction bytes generalizing d with
  | nil =>
      obtain ⟨finished, rfl⟩ := Prod.mk.inj called
      rw [Decoder.feed, finished]
      rfl
  | cons b bytes ih =>
      rw [Decoder.next] at called
      cases step : d.step b with
      | more d' =>
          rw [step] at called
          rw [Decoder.feed_cons_more step]
          exact ih called
      | report o' =>
          rw [step] at called
          cases called
          rw [Decoder.feed_cons_report step]
          rfl

/-- **Calls one after another return all reports, and then the end.** There are no more reports than
bytes. -/
theorem calls_eq (bytes : List UInt8) : (readAll bytes).length ≤ bytes.length ∧
    ∀ m, calls m bytes = ((readAll bytes).map some ++ List.replicate m none).take m := by
  -- by induction on what is left, which is less after every call
  induction size : bytes.length using Nat.strongRecOn generalizing bytes with
  | ind n ih =>
      subst size
      by_cases empty : bytes = []
      · subst empty
        have none_left : readAll [] = [] := rfl
        refine ⟨Nat.le_refl 0, fun m => ?_⟩
        rw [calls_nil, none_left, List.map_nil, List.nil_append, List.take_replicate, Nat.min_self]
      · obtain ⟨o, report⟩ := Option.isSome_iff_exists.mp (read_isSome empty)
        obtain ⟨taken, parts, least, -⟩ := exists_taken empty
        have shorter : (read bytes).2.length < bytes.length := by
          have total := congrArg List.length parts
          rw [List.length_append] at total
          omega
        have all : readAll bytes = o :: readAll (read bytes).2 :=
          reports_of_next (Prod.ext report rfl)
        obtain ⟨few, called⟩ := ih _ shorter _ rfl
        rw [all]
        refine ⟨Nat.le_trans (Nat.succ_le_succ few) shorter, fun m => ?_⟩
        cases m with
        | zero => rfl
        | succ m =>
            rw [calls, report, called m]
            simp only [List.map_cons, List.cons_append, List.take_succ_cons, List.cons.injEq,
              true_and, List.replicate_succ', ← List.append_assoc]
            rw [@List.take_append_of_le_length _ _ [none]]
            simp only [List.length_append, List.length_replicate]
            omega

/-- **Reading always gets on.** A call where nothing is left returns the end of the stream. A call
on bytes reports a value or a fault and takes at least one byte, and no more than the lines up to
the first blank one and as many bytes as the last length among these lines says, or `maxBody` bytes
if that is less. So the calls on a stream of `n` bytes, going on after faults, return at most `n`
reports, those of `readAll`, and from then on only the end of the stream. -/
theorem reading_makes_progress (bytes : List UInt8) :
    read [] = (none, []) ∧
      (bytes ≠ [] → (read bytes).1.isSome ∧
        ∃ taken, bytes = taken ++ (read bytes).2 ∧ 0 < taken.length ∧
          taken.length ≤
            (headerBlock bytes).length + min ((announced bytes).getD 0) maxBody) ∧
      (readAll bytes).length ≤ bytes.length ∧
      ∀ m, calls m bytes = ((readAll bytes).map some ++ List.replicate m none).take m :=
  ⟨rfl, fun some_byte => ⟨read_isSome some_byte, exists_taken some_byte⟩, calls_eq bytes⟩

/-- A header that is not UTF-8, and behind it headers that announce too long a body. -/
theorem reading_makes_progress_faults :
    let bytes := [255, 10] ++ Utf8.encode "Content-Length: 5000000\n\n".toList
    let faults := [Fault.garbledHeader (.invalid 1 0), .tooLarge 5000000]
    bytes ≠ [] ∧ (headerBlock bytes).length = 27 ∧ announced bytes = some 5000000 ∧
      (∃ taken, bytes = taken ++ (read bytes).2 ∧ 0 < taken.length ∧
        taken.length ≤ 27 + min 5000000 maxBody) ∧
      calls 4 bytes = (faults.map fun f => some (.fault f)) ++ [none, none] := by
  intro bytes faults
  have some_byte : bytes ≠ [] := by decide
  have block : (headerBlock bytes).length = 27 := by decide
  have given : announced bytes = some 5000000 := by decide
  have reports : readAll bytes = faults.map .fault := by rfl
  obtain ⟨-, call, -, called⟩ := reading_makes_progress bytes
  have taken := (call some_byte).2
  rw [block, given] at taken
  refine ⟨some_byte, block, given, taken, ?_⟩
  rw [called 4, reports]
  rfl

end Gatekeeper.Frame
