import Gatekeeper.Json.Reader
import Gatekeeper.Json.Writer
import Gatekeeper.Proofs.Automaton
import Gatekeeper.Proofs.Text.Decimal

set_option autoImplicit false

/-!
# Nesting of JSON values

The writer writes a value however deep its containers are nested, and the reader has at most
`maxDepth` of them open at once. Both are compared by their tokens: `Token.level?` is the number of
containers that are open after a token.

* The tokens that the reader takes never open too many (`Reader.level_run`).
* The text of a value opens as many as the value is deep, and closes them (`passes_write`). A string
  may hold anything, brackets as well, so what is said of a text is said of it between strings
  (`Passes`).

Main statement: the text of a value that is nested deeper is not read (`read?_write_eq_none`).
-/

namespace Gatekeeper.JsonNumber

open Text
open Json (isWordChar)

/-! ## Numbers are words -/

theorem isWordChar_of_isDigit {c : Char} (digit : isDigit c) : isWordChar c := by
  rw [isDigit_eq] at digit
  simp [isWordChar, Char.isAlphanum, digit]

theorem isWordChar_writeNat (n : Nat) : ∀ c ∈ writeNat n, isWordChar c :=
  fun _ written => isWordChar_of_isDigit (isDigit_of_mem_writeNat written)

theorem isWordChar_writePlain {digits : List Char} (word : ∀ c ∈ digits, isWordChar c)
    (point : Int) : ∀ c ∈ writePlain digits point, isWordChar c := by
  have zeros (n : Nat) : ∀ c ∈ List.replicate n '0', isWordChar c := by
    intro c member
    rw [List.eq_of_mem_replicate member]
    rfl
  have leading : ∀ c ∈ "0.".toList, isWordChar c := by decide
  have ending : ∀ c ∈ ".0".toList, isWordChar c := by decide
  rw [writePlain]
  split
  · exact List.forall_mem_append.mpr ⟨List.forall_mem_append.mpr ⟨leading, zeros _⟩, word⟩
  · dsimp only
    split
    · exact List.forall_mem_append.mpr ⟨List.forall_mem_append.mpr ⟨word, zeros _⟩, ending⟩
    · have before : ∀ c ∈ digits.take point.toNat, isWordChar c :=
        fun c member => word c (List.mem_of_mem_take member)
      have behind : ∀ c ∈ digits.drop point.toNat, isWordChar c :=
        fun c member => word c (List.mem_of_mem_drop member)
      exact List.forall_mem_append.mpr ⟨before, List.forall_mem_cons.mpr ⟨rfl, behind⟩⟩

theorem isWordChar_writeScientific {digits : List Char} (word : ∀ c ∈ digits, isWordChar c)
    (point : Int) : ∀ c ∈ writeScientific digits point, isWordChar c := by
  have exponent : ∀ c ∈ 'e' :: (if point - 1 < 0 then '-' else '+') :: writeNat (point - 1).natAbs,
      isWordChar c := by
    refine List.forall_mem_cons.mpr ⟨rfl, List.forall_mem_cons.mpr ⟨?_, isWordChar_writeNat _⟩⟩
    split <;> rfl
  rcases digits with _ | ⟨d, _ | ⟨r, rest⟩⟩
  · exact exponent
  · exact List.forall_mem_append.mpr ⟨word, exponent⟩
  · obtain ⟨first, later⟩ := List.forall_mem_cons.mp word
    have behind := List.forall_mem_append.mpr ⟨later, exponent⟩
    exact List.forall_mem_cons.mpr ⟨first, List.forall_mem_cons.mpr ⟨rfl, behind⟩⟩

/-- A number is a word. -/
theorem isWordChar_write (n : JsonNumber) : ∀ c ∈ n.write, isWordChar c := by
  cases n with
  | whole n =>
      rw [write, writeInt]
      split
      · exact List.forall_mem_cons.mpr ⟨rfl, isWordChar_writeNat _⟩
      · exact isWordChar_writeNat _
  | double x =>
      rw [write, writeDouble]
      refine List.forall_mem_append.mpr ⟨?_, ?_⟩
      · split <;> decide
      · split_ifs
        · decide
        · exact isWordChar_writePlain (isWordChar_writeNat _) _
        · exact isWordChar_writeScientific (isWordChar_writeNat _) _

end Gatekeeper.JsonNumber

namespace Gatekeeper.Json

open Text

variable {s t : List Char} {c : Char} {d e n : Nat} {f g : Nat → Option Nat}

/-! ## Containers that are open -/

/-- How many containers of a value are nested in one another. -/
def depth : Json → Nat
  | array items => inItems items + 1
  | object members => inMembers members + 1
  | _ => 0
where
  /-- The depth of the deepest item. -/
  inItems : List Json → Nat
    | [] => 0
    | v :: vs => max (depth v) (inItems vs)
  /-- The depth of the deepest member. -/
  inMembers : List (String × Json) → Nat
    | [] => 0
    | (_, v) :: ms => max (depth v) (inMembers ms)

/-- One more container is open, unless they are too many. -/
def opens (n : Nat) : Option Nat := if n < maxDepth then some (n + 1) else none

/-- The number of containers that are open after a token, unless they are too many. -/
def Token.level? (n : Nat) : Token → Option Nat
  | .openArray | .openObject => opens n
  | .closeArray | .closeObject => some (n - 1)
  | _ => some n

/-- The number of containers that are open behind a value of the given depth, unless they are too
many within it. -/
def fits (d n : Nat) : Option Nat := if d ≤ maxDepth - n then some n else none

/-! ## The reader -/

theorem Reader.level_start {frames : List Frame} {t : Token} {r : Reader}
    (took : Reader.start frames t = some r) (framed : n ≤ frames.length) :
    ∃ n', t.level? n = some n' ∧ n' ≤ r.frames.length := by
  have opened {frame expect} (took : Reader.push frames frame expect = some r) :
      ∃ n', opens n = some n' ∧ n' ≤ r.frames.length := by
    rw [Reader.push, Option.ite_none_right_eq_some] at took
    obtain ⟨room, ⟨⟩⟩ := took
    exact ⟨n + 1, if_pos (Nat.lt_of_le_of_lt framed room), Nat.succ_le_succ framed⟩
  cases t with
  | openArray | openObject => exact opened took
  | text | atom =>
      cases took
      exact ⟨n, rfl, framed⟩
  | _ => cases took

theorem Reader.level_continue {frames : List Frame} {v : Json} {t : Token} {r : Reader}
    (took : Reader.continue frames v t = some r) (framed : n ≤ frames.length) :
    ∃ n', t.level? n = some n' ∧ n' ≤ r.frames.length := by
  rcases frames with _ | ⟨_ | _, frames⟩ <;> cases t <;> cases took
  -- in an array, and then in an object, its end and a comma
  · exact ⟨n - 1, rfl, Nat.sub_le_of_le_add framed⟩
  · exact ⟨n, rfl, framed⟩
  · exact ⟨n - 1, rfl, Nat.sub_le_of_le_add framed⟩
  · exact ⟨n, rfl, framed⟩

/-- The reader has a frame for each container that is open, at least. -/
theorem Reader.level_step {r r' : Reader} {t : Token} (took : r.step t = some r')
    (framed : n ≤ r.frames.length) : ∃ n', t.level? n = some n' ∧ n' ≤ r'.frames.length := by
  obtain ⟨frames, expect⟩ := r
  have closed : n - 1 ≤ frames.tail.length := by
    rw [List.length_tail]
    exact Nat.sub_le_sub_right framed 1
  cases expect with
  | value => exact level_start took framed
  | after v => exact level_continue took framed
  | firstItem =>
      cases t with
      | closeArray =>
          cases took
          exact ⟨n - 1, rfl, closed⟩
      | _ => exact level_start took framed
  | firstName members =>
      cases t <;> cases took
      · exact ⟨n - 1, rfl, closed⟩
      · exact ⟨n, rfl, framed⟩
  | name members =>
      cases t <;> cases took
      exact ⟨n, rfl, framed⟩
  | colon members name =>
      cases t <;> cases took
      exact ⟨n, rfl, Nat.le_add_of_sub_le closed⟩

/-- **The reader never has too many containers open.** -/
theorem Reader.level_run {r r' : Reader} {ts : List Token}
    (took : runAll Reader.step r ts = some r') (framed : n ≤ r.frames.length) :
    ∃ n', runAll Token.level? n ts = some n' ∧ n' ≤ r'.frames.length := by
  induction ts generalizing n r with
  | nil =>
      cases took
      exact ⟨n, rfl, framed⟩
  | cons t ts ih =>
      rw [runAll_cons, Option.bind_eq_some_iff] at took
      obtain ⟨r'', first, rest⟩ := took
      obtain ⟨n'', open_first, framed''⟩ := level_step first framed
      obtain ⟨n', open_rest, framed'⟩ := ih rest framed''
      refine ⟨n', ?_, framed'⟩
      rw [runAll_cons, open_first]
      exact open_rest

/-! ## Texts between strings -/

/-- The number of containers that are open after the tokens so far, unless they have been too
many. -/
def Lexer.level? (l : Lexer) : Option Nat := runAll Token.level? 0 l.tokens.reverse

/-- No string is open. -/
def Lexer.IsOutside (l : Lexer) : Prop := ∀ chars state, l.opened ≠ .string chars state

theorem Lexer.isOutside_nothing (ts : List Token) : Lexer.IsOutside ⟨ts, .nothing⟩ :=
  fun _ _ => nofun

theorem Lexer.isOutside_word (ts : List Token) (chars : List Char) :
    Lexer.IsOutside ⟨ts, .word chars⟩ := fun _ _ => nofun

theorem Lexer.level?_cons (ts : List Token) (t : Token) (o : Open) :
    Lexer.level? ⟨t :: ts, o⟩ = (Lexer.level? ⟨ts, o⟩).bind fun n => t.level? n := by
  rw [level?, List.reverse_cons, runAll_append]
  simp only [runAll_singleton]
  rfl

/-- Outside of strings, a text changes the number of open containers by `f`. -/
def Passes (s : List Char) (f : Nat → Option Nat) : Prop :=
  ∀ l l' : Lexer, l.IsOutside → runAll Lexer.step l s = some l' →
    l'.IsOutside ∧ l'.level? = l.level?.bind f

theorem Passes.append (first : Passes s f) (rest : Passes t g) :
    Passes (s ++ t) fun n => (f n).bind g := by
  intro l l' outside took
  rw [runAll_append, Option.bind_eq_some_iff] at took
  obtain ⟨m, took_first, took_rest⟩ := took
  obtain ⟨outside', level⟩ := first l m outside took_first
  obtain ⟨outside'', level'⟩ := rest m l' outside' took_rest
  exact ⟨outside'', by rw [level', level, Option.bind_assoc]⟩

/-- A character that is no part of a word ends a word that is open. -/
theorem Lexer.between_of_step {l l' : Lexer} (outside : l.IsOutside) (took : l.step c = some l')
    (mark : isWordChar c = false) :
    ∃ ts, Lexer.level? ⟨ts, .nothing⟩ = l.level? ∧ Lexer.between ts c = some l' := by
  obtain ⟨ts, opened⟩ := l
  cases opened with
  | nothing => exact ⟨ts, rfl, took⟩
  | string chars state => exact absurd rfl (outside chars state)
  | word chars =>
      simp only [Lexer.step, mark, Bool.false_eq_true, if_false, Option.bind_eq_some_iff] at took
      obtain ⟨v, -, between⟩ := took
      exact ⟨.atom v :: ts,
        (level?_cons ts (.atom v) .nothing).trans (Option.bind_fun_some _), between⟩

theorem passes_wordChar (part : isWordChar c) : Passes [c] some := by
  intro l l' outside took
  rw [runAll_singleton] at took
  obtain ⟨ts, opened⟩ := l
  rw [Option.bind_fun_some]
  cases opened with
  | string chars state => exact absurd rfl (outside chars state)
  | word chars =>
      simp only [Lexer.step, part, if_true] at took
      cases took
      exact ⟨Lexer.isOutside_word _ _, rfl⟩
  | nothing =>
      simp only [Lexer.step, Lexer.between, part, if_true] at took
      split at took <;> cases took
      · exact ⟨Lexer.isOutside_nothing _, rfl⟩
      · exact ⟨Lexer.isOutside_word _ _, rfl⟩

/-- A number or a literal opens nothing. -/
theorem passes_word (word : ∀ c ∈ s, isWordChar c) : Passes s some := by
  induction s with
  | nil =>
      intro l l' outside took
      cases took
      exact ⟨outside, (Option.bind_fun_some _).symm⟩
  | cons c s ih =>
      have rest := ih fun d member => word d (List.mem_cons_of_mem _ member)
      exact (passes_wordChar (word c List.mem_cons_self)).append rest

theorem passes_mark {m : Token} (no_word : isWordChar c = false)
    (read : ∀ ts, Lexer.between ts c = some { tokens := m :: ts }) :
    Passes [c] fun n => m.level? n := by
  intro l l' outside took
  rw [runAll_singleton] at took
  obtain ⟨ts, level, between⟩ := Lexer.between_of_step outside took no_word
  rw [read] at between
  cases between
  exact ⟨Lexer.isOutside_nothing _, by rw [Lexer.level?_cons, level]⟩

/-! ## Strings -/

theorem hexDigit?_hexDigit (small : n < 16) : hexDigit? (hexDigit n) = some n :=
  have all : ∀ n < 16, hexDigit? (hexDigit n) = some n := by decide
  all n small

theorem step_hexDigit (small : n < 16) (ts : List Token) (chars : List Char) (value left : Nat) :
    Lexer.step ⟨ts, .string chars (.unit none value left)⟩ (hexDigit n) =
      (if left ≤ 1 then endUnit chars none (value * 16 + n)
        else some (chars, .unit none (value * 16 + n) (left - 1))).map
          fun (chars, state) => ⟨ts, .string chars state⟩ := by
  simp only [Lexer.step, stringStep, hexDigit?_hexDigit small, Option.bind_some]

/-- An escaped character is read as the character. -/
theorem run_escapeChar (ts : List Token) (chars : List Char) (c : Char) :
    runAll Lexer.step ⟨ts, .string chars .plain⟩ (escapeChar c) =
      some ⟨ts, .string (c :: chars) .plain⟩ := by
  rw [escapeChar]
  split_ifs with quote backslash back feed line ret tab control
  · rw [eq_of_beq quote]
    rfl
  · rw [eq_of_beq backslash]
    rfl
  · rw [eq_of_beq back]
    rfl
  · rw [eq_of_beq feed]
    rfl
  · rw [eq_of_beq line]
    rfl
  · rw [eq_of_beq ret]
    rfl
  · rw [eq_of_beq tab]
    rfl
  · have first : c.toNat / 16 < 16 := by omega
    have last : c.toNat % 16 < 16 := Nat.mod_lt _ (by decide)
    have code : (0 * 16 + c.toNat / 16) * 16 + c.toNat % 16 = c.toNat := by omega
    have opening : runAll Lexer.step ⟨ts, .string chars .plain⟩ ['\x5c', 'u', '0', '0'] =
        some ⟨ts, .string chars (.unit none 0 2)⟩ := rfl
    have no_half : endUnit chars none c.toNat = some (c :: chars, .plain) := by
      have not_high : isHigh c.toNat = false := by
        simp [isHigh]
        omega
      have not_low : isLow c.toNat = false := by
        simp [isLow]
        omega
      rw [endUnit, not_high, not_low, Char.ofNat_toNat]
      rfl
    change runAll _ _ (['\x5c', 'u', '0', '0'] ++ [_, _]) = _
    rw [runAll_append, opening, Option.bind_some, runAll_cons, step_hexDigit first,
      if_neg (by decide), Option.map_some, Option.bind_some, runAll_singleton, step_hexDigit last,
      if_pos (by decide), code, no_half]
    rfl
  · rw [runAll_singleton]
    simp [Lexer.step, stringStep, quote, backslash, control]

theorem run_escaped (ts : List Token) (chars s : List Char) :
    runAll Lexer.step ⟨ts, .string chars .plain⟩ (s.flatMap escapeChar) =
      some ⟨ts, .string (s.reverse ++ chars) .plain⟩ := by
  induction s generalizing chars with
  | nil => rfl
  | cons c s ih =>
      rw [List.flatMap_cons, runAll_append, run_escapeChar, Option.bind_some, ih, List.reverse_cons,
        List.append_assoc]
      rfl

/-- A written string is one token, whatever it holds. -/
theorem passes_writeText (s : String) : Passes (writeText s) some := by
  intro l l' outside took
  rw [writeText, List.cons_append, runAll_cons, Option.bind_eq_some_iff] at took
  obtain ⟨m, opening, took⟩ := took
  obtain ⟨ts, level, between⟩ := Lexer.between_of_step outside opening (by decide)
  have opened : m = ⟨ts, .string [] .plain⟩ := (Option.some.inj between).symm
  rw [opened, runAll_append, run_escaped, Option.bind_some, runAll_singleton] at took
  cases took
  rw [Lexer.level?_cons, ← level]
  exact ⟨Lexer.isOutside_nothing _, rfl⟩

/-! ## Values -/

theorem Passes.congr (passes : Passes s f) (same : ∀ n, f n = g n) : Passes s g := by
  rwa [← funext same]

theorem fits_zero (n : Nat) : some n = fits 0 n := by
  rw [fits, if_pos (Nat.zero_le _)]

theorem fits_next (n : Nat) :
    ((fits d n).bind fun n => (fits e n).map (· - 1)) = (fits (max d e) n).map (· - 1) := by
  unfold fits
  by_cases first : d ≤ maxDepth - n
  · by_cases rest : e ≤ maxDepth - n
    · rw [if_pos first, Option.bind_some, if_pos rest, if_pos (Nat.max_le.mpr ⟨first, rest⟩)]
    · rw [if_pos first, Option.bind_some, if_neg rest, if_neg fun all => rest (Nat.max_le.mp all).2]
  · rw [if_neg first, Option.bind_none, if_neg fun all => first (Nat.max_le.mp all).1]
    rfl

theorem fits_inner (n : Nat) :
    ((opens n).bind fun n => (fits d n).map (· - 1)) = fits (d + 1) n := by
  unfold opens fits
  by_cases room : n < maxDepth
  · have same : d ≤ maxDepth - (n + 1) ↔ d + 1 ≤ maxDepth - n := by omega
    rw [if_pos room, Option.bind_some]
    simp only [same]
    split <;> rfl
  · have full : ¬ d + 1 ≤ maxDepth - n := by omega
    rw [if_neg room, if_neg full]
    rfl

theorem fits_end (n : Nat) : some (n - 1) = (fits 0 n).map (· - 1) := by
  rw [← fits_zero]
  rfl

theorem passes_openArray : Passes ['['] opens :=
  passes_mark (m := .openArray) (by decide) fun _ => rfl

theorem passes_openObject : Passes ['\x7b'] opens :=
  passes_mark (m := .openObject) (by decide) fun _ => rfl

theorem passes_closeArray : Passes [']'] fun n => (fits 0 n).map (· - 1) :=
  have closing : Passes [']'] fun n => some (n - 1) :=
    passes_mark (m := .closeArray) (by decide) fun _ => rfl
  closing.congr fits_end

theorem passes_closeObject : Passes ['\x7d'] fun n => (fits 0 n).map (· - 1) :=
  have closing : Passes ['\x7d'] fun n => some (n - 1) :=
    passes_mark (m := .closeObject) (by decide) fun _ => rfl
  closing.congr fits_end

theorem passes_comma : Passes [','] some := passes_mark (m := .comma) (by decide) fun _ => rfl

theorem passes_member (name : String) (value : Passes s f) :
    Passes (writeText name ++ ':' :: s) f :=
  have colon : Passes [':'] some := passes_mark (m := .colon) (by decide) fun _ => rfl
  (passes_writeText name).append (colon.append value)

mutual

/-- **The text of a value opens as many containers as the value is deep, and closes them.** -/
theorem passes_write : ∀ v : Json, Passes v.write (fits v.depth)
  | null => (passes_word (by decide)).congr fits_zero
  | bool true => (passes_word (by decide)).congr fits_zero
  | bool false => (passes_word (by decide)).congr fits_zero
  | number n => (passes_word (JsonNumber.isWordChar_write n)).congr fits_zero
  | string s => (passes_writeText s).congr fits_zero
  | array [] => (passes_openArray.append passes_closeArray).congr fits_inner
  | array (v :: vs) =>
      have inner := ((passes_write v).append (passes_writeItems vs)).congr fits_next
      (passes_openArray.append inner).congr fits_inner
  | object [] => (passes_openObject.append passes_closeObject).congr fits_inner
  | object ((name, v) :: ms) =>
      have value := passes_member name (passes_write v)
      have inner := (value.append (passes_writeMembers ms)).congr fits_next
      (passes_openObject.append inner).congr fits_inner

/-- The items after the first, and the end of the array. -/
theorem passes_writeItems : ∀ vs : List Json,
    Passes (write.writeItems vs) fun n => (fits (depth.inItems vs) n).map (· - 1)
  | [] => passes_closeArray
  | v :: vs =>
      passes_comma.append (((passes_write v).append (passes_writeItems vs)).congr fits_next)

/-- The members after the first, and the end of the object. -/
theorem passes_writeMembers : ∀ ms : List (String × Json),
    Passes (write.writeMembers ms) fun n => (fits (depth.inMembers ms) n).map (· - 1)
  | [] => passes_closeObject
  | (name, v) :: ms =>
      have value := passes_member name (passes_write v)
      passes_comma.append ((value.append (passes_writeMembers ms)).congr fits_next)

end

/-- The end of the text adds no bracket. -/
theorem Lexer.level?_finish {l : Lexer} {ts : List Token} (finished : l.finish? = some ts) :
    runAll Token.level? 0 ts = l.level? := by
  obtain ⟨tokens, opened⟩ := l
  cases opened with
  | nothing =>
      cases finished
      rfl
  | string chars state => cases finished
  | word chars =>
      rw [Lexer.finish?, Option.map_eq_some_iff] at finished
      obtain ⟨v, -, rfl⟩ := finished
      exact (level?_cons tokens (.atom v) .nothing).trans (Option.bind_fun_some _)

/-- **The text of a value that is nested too deep is not read.** -/
theorem read?_write_eq_none {v : Json} (deep : maxDepth < v.depth) : read? v.write = none := by
  rw [read?, tokens?, Option.bind_assoc, Option.bind_eq_none_iff]
  intro l lexed
  rw [Option.bind_eq_none_iff]
  intro ts finished
  have too_deep : fits v.depth 0 = none := if_neg (Nat.not_le_of_lt deep)
  have level : l.level? = none :=
    (passes_write v {} l (Lexer.isOutside_nothing _) lexed).2.trans too_deep
  have unread : runAll Reader.step {} ts = none := by
    refine Option.eq_none_iff_forall_ne_some.mpr fun r took => ?_
    obtain ⟨n, open_at_end, -⟩ := Reader.level_run took (Nat.le_refl 0)
    rw [Lexer.level?_finish finished, level] at open_at_end
    cases open_at_end
  change (runAll Reader.step {} ts).bind Reader.finish? = none
  rw [unread]
  rfl

end Gatekeeper.Json
