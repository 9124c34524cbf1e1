import Gatekeeper.Environment
import Gatekeeper.Proofs.Text.Blank

set_option autoImplicit false

/-!
# The expansion of references is one pass

A pass over a text (`Pass`) keeps what stands before the first mark that opens a reference, puts the
value of the variable in the place of the reference, and goes on behind it: the value itself is not
looked at. It ends where no mark is left, or where a reference is not closed. Every text has one
pass, and it is the expansion (`pass_iff`), so what holds of the expansion of two texts that are put
together follows along the pass over the first (`expandFrom_append`, `expandFrom_append_open`).

Main statement: `expansion_is_one_pass`.
-/

namespace Gatekeeper.Environment

open Text

variable {env : Environment} {s t before name rest : List Char}

/-- Whether a text ends within a mark that opens a reference, and another one goes on with it. -/
def CutsMark (s t : List Char) : Prop := s.getLast? = some '$' ∧ t.head? = some '\x7b'

/-- Whether there is a mark in a text behind which nothing closes a reference. -/
def IsOpen (s : List Char) : Prop := ∃ before name, s = before ++ (openMark ++ name) ∧ '\x7d' ∉ name

/-! ## References -/

theorem expandFrom_openMark (s : List Char) :
    expandFrom env none (openMark ++ s) = expandFrom env (some []) s := by
  change expandFrom env none ('$' :: '\x7b' :: s) = _
  rw [expandFrom, if_pos (by decide)]

/-- Behind a mark everything up to the first closing brace is the name. `read` is what was read of
it, latest first. -/
theorem expandFrom_name (read : List Char) (named : '\x7d' ∉ name) :
    expandFrom env (some read) (name ++ '\x7d' :: rest) =
      env.valueOf (read.reverse ++ name) ++ expandFrom env none rest := by
  induction name generalizing read with
  | nil => rw [List.nil_append, expandFrom, if_pos (beq_self_eq_true _), List.append_nil]
  | cons c name ih =>
      obtain ⟨other, named⟩ := List.ne_and_not_mem_of_not_mem_cons named
      rw [List.cons_append, expandFrom, if_neg (by simpa using other.symm), ih _ named,
        List.reverse_cons, List.append_assoc]
      rfl

theorem expandFrom_unclosed (read : List Char) (named : '\x7d' ∉ name) :
    expandFrom env (some read) name = openMark ++ (read.reverse ++ name) := by
  induction name generalizing read with
  | nil => rw [expandFrom, List.append_nil]
  | cons c name ih =>
      obtain ⟨other, named⟩ := List.ne_and_not_mem_of_not_mem_cons named
      rw [expandFrom, if_neg (by simpa using other.symm), ih _ named, List.reverse_cons,
        List.append_assoc]
      rfl

/-- A reference gives way to the value of its variable. -/
theorem expandFrom_reference (named : '\x7d' ∉ name) :
    expandFrom env none (openMark ++ (name ++ '\x7d' :: rest)) =
      env.valueOf name ++ expandFrom env none rest := by
  rw [expandFrom_openMark, expandFrom_name [] named]
  rfl

/-- A reference that is not closed is kept with all that follows. -/
theorem expandFrom_open (named : '\x7d' ∉ name) :
    expandFrom env none (openMark ++ name) = openMark ++ name := by
  rw [expandFrom_openMark, expandFrom_unclosed [] named]
  rfl

/-- **A text without a mark is kept** in front of any other. -/
theorem expandFrom_plain (plain : ¬openMark <:+: s) (whole : ¬CutsMark s t) :
    expandFrom env none (s ++ t) = s ++ expandFrom env none t := by
  induction s with
  | nil => rfl
  | cons c s ih =>
      have plain' : ¬openMark <:+: s := fun found => plain (List.infix_cons found)
      -- a mark has two characters, so two are looked at: both in the text, or the last one of it
      -- and the first one of the other
      cases s with
      | nil =>
          -- the next character is the first one of the other text
          cases t with
          | nil => rfl
          | cons d t =>
              have apart : ¬(c == '$' && d == '\x7b') = true := by
                intro mark
                obtain ⟨dollar, brace⟩ := Bool.and_eq_true_iff.mp mark
                exact whole ⟨congrArg some (beq_iff_eq.mp dollar),
                  congrArg some (beq_iff_eq.mp brace)⟩
              change expandFrom env none (c :: d :: t) = c :: expandFrom env none (d :: t)
              rw [expandFrom, if_neg apart]
      | cons d s =>
          have apart : ¬(c == '$' && d == '\x7b') = true := by
            intro mark
            obtain ⟨dollar, brace⟩ := Bool.and_eq_true_iff.mp mark
            obtain rfl := beq_iff_eq.mp dollar
            obtain rfl := beq_iff_eq.mp brace
            exact plain ⟨[], s, rfl⟩
          have whole' : ¬CutsMark (d :: s) t := fun cut =>
            whole ⟨by rw [List.getLast?_cons_cons]; exact cut.1, cut.2⟩
          change expandFrom env none (c :: d :: (s ++ t)) = c :: (d :: s ++ expandFrom env none t)
          rw [expandFrom, if_neg apart]
          exact congrArg (c :: ·) (ih plain' whole')

/-! ## The pass -/

/-- A pass over a text, with the text that it leaves. -/
inductive Pass (env : Environment) : List Char → List Char → Prop
  | plain {s : List Char} (plain : ¬openMark <:+: s) : Pass env s s
  | reference {before name rest out : List Char} (plain : ¬openMark <:+: before)
      (named : '\x7d' ∉ name) (later : Pass env rest out) :
      Pass env (before ++ (openMark ++ (name ++ '\x7d' :: rest)))
        (before ++ (env.valueOf name ++ out))
  | unclosed {before name : List Char} (plain : ¬openMark <:+: before) (named : '\x7d' ∉ name) :
      Pass env (before ++ (openMark ++ name)) (before ++ (openMark ++ name))

theorem not_cutsMark_openMark : ¬CutsMark s (openMark ++ t) := by
  rintro ⟨-, brace⟩
  cases brace

/-- A pass leaves the expansion. -/
theorem Pass.eq {out : List Char} (pass : Pass env s out) : expandFrom env none s = out := by
  induction pass with
  | @plain s plain =>
      have kept : expandFrom env none (s ++ []) = s ++ expandFrom env none [] :=
        expandFrom_plain plain nofun
      rwa [List.append_nil, expandFrom, List.append_nil] at kept
  | reference plain named later ih =>
      rw [expandFrom_plain plain not_cutsMark_openMark, expandFrom_reference named, ih]
  | unclosed plain named =>
      rw [expandFrom_plain plain not_cutsMark_openMark, expandFrom_open named]

/-- A text without a mark, or what stands before the first one. -/
theorem plain_or_mark (s : List Char) : ¬openMark <:+: s ∨
    ∃ before rest, s = before ++ (openMark ++ rest) ∧ ¬openMark <:+: before := by
  induction s with
  | nil => exact .inl (by decide)
  | cons c s ih =>
      by_cases here : openMark <+: c :: s
      · obtain ⟨rest, whole⟩ := here
        exact .inr ⟨[], rest, whole.symm, by decide⟩
      · rcases ih with plain | ⟨before, rest, rfl, plain⟩
        · exact .inl fun found => (List.infix_cons_iff.mp found).elim here plain
        · refine .inr ⟨c :: before, rest, rfl, fun found => ?_⟩
          rcases List.infix_cons_iff.mp found with start | later
          · exact here (start.trans (List.prefix_append _ _))
          · exact plain later

/-- A name with what closes the reference, or nothing that does. -/
theorem closed_or_not (s : List Char) : '\x7d' ∉ s ∨
    ∃ name rest, s = name ++ '\x7d' :: rest ∧ '\x7d' ∉ name := by
  by_cases closed : '\x7d' ∈ s
  · exact .inr (List.eq_append_cons_of_mem closed)
  · exact .inl closed

/-- **There is a pass over every text**: what is left behind a reference is shorter. -/
theorem exists_pass (env : Environment) (s : List Char) : ∃ out, Pass env s out := by
  -- by induction on the length: each reference takes some of it
  induction size : s.length using Nat.strongRecOn generalizing s with
  | _ n ih =>
      rcases plain_or_mark s with plain | ⟨before, behind, rfl, plain⟩
      · exact ⟨s, .plain plain⟩
      rcases closed_or_not behind with named | ⟨name, rest, rfl, named⟩
      · exact ⟨_, .unclosed plain named⟩
      have shorter : rest.length < n := by
        simp only [List.length_append, List.length_cons] at size
        omega
      obtain ⟨out, later⟩ := ih _ shorter rest rfl
      exact ⟨_, .reference plain named later⟩

/-- **The expansion is what the pass leaves.** -/
theorem pass_iff {out : List Char} : Pass env s out ↔ expandFrom env none s = out := by
  refine ⟨Pass.eq, ?_⟩
  rintro rfl
  obtain ⟨out, pass⟩ := exists_pass env s
  rwa [pass.eq]

/-! ## Texts that are put together -/

theorem IsOpen.append (opens : IsOpen t) (s : List Char) : IsOpen (s ++ t) := by
  obtain ⟨before, name, rfl, named⟩ := opens
  exact ⟨s ++ before, name, by simp, named⟩

theorem CutsMark.append (cuts : CutsMark s t) (before : List Char) : CutsMark (before ++ s) t := by
  refine ⟨?_, cuts.2⟩
  rw [List.getLast?_append, cuts.1]
  rfl

/-- **What stands before is expanded on its own**, unless a reference is open at its end or a mark
is cut there. -/
theorem expandFrom_append (closed : ¬IsOpen s) (whole : ¬CutsMark s t) :
    expandFrom env none (s ++ t) = expandFrom env none s ++ expandFrom env none t := by
  obtain ⟨out, pass⟩ := exists_pass env s
  rw [pass.eq]
  induction pass with
  | plain plain => exact expandFrom_plain plain whole
  | @reference before name rest out plain named later ih =>
      have regroup : before ++ (openMark ++ (name ++ '\x7d' :: rest)) =
          before ++ openMark ++ name ++ ['\x7d'] ++ rest := by simp
      have closed' : ¬IsOpen rest := fun opens => closed (regroup ▸ opens.append _)
      have whole' : ¬CutsMark rest t := fun cuts => whole (regroup ▸ cuts.append _)
      have together : before ++ (openMark ++ (name ++ '\x7d' :: rest)) ++ t =
          before ++ (openMark ++ (name ++ '\x7d' :: (rest ++ t))) := by simp
      rw [together, expandFrom_plain plain not_cutsMark_openMark, expandFrom_reference named,
        ih closed' whole', List.append_assoc, List.append_assoc]
  | unclosed plain named => exact absurd ⟨_, _, rfl, named⟩ closed

/-- **A mark behind which nothing closes a reference is kept** with all that follows, whatever
stands before it. -/
theorem expandFrom_append_open (named : '\x7d' ∉ t) :
    expandFrom env none (s ++ (openMark ++ t)) = expandFrom env none s ++ (openMark ++ t) := by
  obtain ⟨out, pass⟩ := exists_pass env s
  rw [pass.eq]
  induction pass with
  | plain plain => rw [expandFrom_plain plain not_cutsMark_openMark, expandFrom_open named]
  | @reference before name rest out plain named' later ih =>
      have together : before ++ (openMark ++ (name ++ '\x7d' :: rest)) ++ (openMark ++ t) =
          before ++ (openMark ++ (name ++ '\x7d' :: (rest ++ (openMark ++ t)))) := by simp
      rw [together, expandFrom_plain plain not_cutsMark_openMark, expandFrom_reference named', ih,
        List.append_assoc, List.append_assoc]
  | @unclosed before name plain named' =>
      -- the reference is open already, and the mark belongs to its name
      have noBrace : '\x7d' ∉ name ++ (openMark ++ t) := by simp [named, named', openMark]
      rw [List.append_assoc, List.append_assoc, expandFrom_plain plain not_cutsMark_openMark,
        expandFrom_open noBrace]

/-! ## Texts -/

theorem toList_expand (env : Environment) (s : String) :
    (env.expand s).toList = expandFrom env none s.toList := by
  rw [expand, String.toList_ofList]

theorem toList_openMark : "$\x7b".toList = openMark := by decide

theorem valueOf_toList (env : Environment) (name : String) :
    env.valueOf name.toList = (if name = "" then "" else (env.get? name).getD "").toList := by
  rw [valueOf, String.ofList_toList]
  by_cases empty : name = ""
  · rw [if_pos empty, if_pos (by rw [empty]; rfl)]
    rfl
  · have some_char : ¬name.toList.isEmpty = true := by simpa using empty
    rw [if_neg empty, if_neg some_char]

/-- **The expansion of references is a single pass from left to right.** There is exactly one pass
over every text, and it leaves the expansion. A text without a mark stays as it is. Where no
reference is open, a reference gives way to the value of its variable, letter by letter, or to
nothing if the variable is not set or the name is empty, and the pass goes on behind it. A mark
behind which nothing closes a reference stays, with all that follows. Two texts are expanded one by
one, unless a reference is open at the end of the first one or a mark is cut there. -/
theorem expansion_is_one_pass (env : Environment) :
    (∀ (s : String) (out : List Char), Pass env s.toList out ↔ (env.expand s).toList = out) ∧
    (∀ s : String, ¬openMark <:+: s.toList → env.expand s = s) ∧
    (∀ s name t : String, ¬IsOpen s.toList → '\x7d' ∉ name.toList →
      env.expand (s ++ "$\x7b" ++ name ++ "\x7d" ++ t) =
        env.expand s ++ (if name = "" then "" else (env.get? name).getD "") ++ env.expand t) ∧
    (∀ s t : String, '\x7d' ∉ t.toList →
      env.expand (s ++ "$\x7b" ++ t) = env.expand s ++ "$\x7b" ++ t) ∧
    (∀ s t : String, ¬IsOpen s.toList → ¬CutsMark s.toList t.toList →
      env.expand (s ++ t) = env.expand s ++ env.expand t) := by
  refine ⟨fun s out => ?_, fun s plain => ?_, fun s name t closed named => ?_,
    fun s t named => ?_, fun s t closed whole => ?_⟩
  · rw [pass_iff, toList_expand]
  · apply String.toList_inj.mp
    rw [toList_expand]
    exact (Pass.plain plain).eq
  · apply String.toList_inj.mp
    have brace : "\x7d".toList = ['\x7d'] := by decide
    have text : (s ++ "$\x7b" ++ name ++ "\x7d" ++ t).toList =
        s.toList ++ (openMark ++ (name.toList ++ '\x7d' :: t.toList)) := by
      simp only [String.toList_append, toList_openMark, brace, List.append_assoc,
        List.singleton_append]
    rw [toList_expand, text, expandFrom_append closed not_cutsMark_openMark,
      expandFrom_reference named, valueOf_toList, String.toList_append, String.toList_append,
      toList_expand, toList_expand, List.append_assoc]
  · apply String.toList_inj.mp
    simp only [toList_expand, String.toList_append, toList_openMark, List.append_assoc]
    exact expandFrom_append_open named
  · apply String.toList_inj.mp
    rw [toList_expand, String.toList_append, expandFrom_append closed whole, String.toList_append,
      toList_expand, toList_expand]

/-- A reference with a mark in its name and a value with a reference in it, behind a lone dollar
sign, and a reference that is not closed. -/
theorem expansion_is_one_pass_nested :
    expand [("A$\x7bB", "$\x7bC\x7d"), ("C", "c")] ("$" ++ "$\x7b" ++ "A$\x7bB" ++
      "\x7d" ++ "$\x7bC") =
      "$$\x7bC\x7d$\x7bC" := by
  obtain ⟨-, plain, reference, unclosed, -⟩ :=
    expansion_is_one_pass [("A$\x7bB", "$\x7bC\x7d"), ("C", "c")]
  have noMark : ¬openMark <:+: "$".toList := by decide
  have closed : ¬IsOpen "$".toList := fun ⟨before, name, whole, _⟩ => noMark ⟨before, name, by
    rw [whole, List.append_assoc]⟩
  have tail := unclosed "" "C" (by decide)
  have empty : expand [("A$\x7bB", "$\x7bC\x7d"), ("C", "c")] "" = "" := plain "" (by decide)
  rw [empty] at tail
  rw [reference "$" "A$\x7bB" "$\x7bC" closed (by decide), plain "$" noMark]
  have tail' : expand [("A$\x7bB", "$\x7bC\x7d"), ("C", "c")] "$\x7bC" = "$\x7bC" := tail
  rw [tail']
  decide

end Gatekeeper.Environment
