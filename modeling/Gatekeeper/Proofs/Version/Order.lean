import Gatekeeper.Version.Order

set_option autoImplicit false

/-!
# The order of versions is one

Each part of a version is compared by a total order of its own: releases number by number with zeros
for ever after (`compareRelease`), tags run by run (`Segment.compare`, `comparePre`), post-release
numbers with none in front (`comparePost`). Where one comparison decides only what an earlier one
leaves open, transitivity goes through the pair (`isLE_then_trans`), which is used both along a
release and from part to part of a version.

Main statement: versions are ordered totally, and equality is what the order leaves undecided
(`order_is_total`).
-/

namespace Gatekeeper.Version

open Std (OrientedCmp TransCmp)

/-! ## One comparison after another -/

/-- If a comparison is transitive, and what decides its ties is, then so are the two together. -/
theorem isLE_then_trans {α : Type} {cmp : α → α → Ordering} [TransCmp cmp] {x y z : α}
    {p q r : Ordering} (below : ((cmp x y).then p).isLE) (above : ((cmp y z).then q).isLE)
    (ties : p.isLE → q.isLE → r.isLE) : ((cmp x z).then r).isLE := by
  rw [Ordering.isLE_then_iff_or] at below above ⊢
  rcases below with less | ⟨tie, below⟩
  · -- the first step decides, whatever the second one does
    have onwards : (cmp y z).isLE := by
      rcases above with less | ⟨tie, _⟩
      · exact Ordering.isLE_of_eq_lt less
      · exact Ordering.isLE_of_eq_eq tie
    exact Or.inl (TransCmp.lt_of_lt_of_isLE less onwards)
  · rcases above with less | ⟨tie', above⟩
    · exact Or.inl (TransCmp.lt_of_eq_of_lt tie less)
    · exact Or.inr ⟨TransCmp.eq_trans tie tie', ties below above⟩

/-! ## Releases -/

/-- A missing number counts as zero, at the first place as at any other. -/
theorem compareRelease_eq (as bs : List Nat) :
    compareRelease as bs =
      (Ord.compare (as.headD 0) (bs.headD 0)).then (compareRelease as.tail bs.tail) := by
  cases as with
  | nil =>
      cases bs with
      | nil => rw [List.tail_nil, compareRelease]; rfl
      | cons b bs => rw [compareRelease]; rfl
  | cons a as =>
      cases bs with
      | nil => rw [compareRelease]; rfl
      | cons b bs => rw [compareRelease]; rfl

theorem compareRelease_swap (as bs : List Nat) :
    compareRelease as bs = (compareRelease bs as).swap := by
  induction as generalizing bs with
  | nil =>
      induction bs with
      | nil => rw [compareRelease]; rfl
      | cons b bs ih =>
          rw [compareRelease_eq, compareRelease_eq (b :: bs), Ordering.swap_then,
            ← OrientedCmp.eq_swap]
          exact congrArg _ ih
  | cons a as ih =>
      rw [compareRelease_eq, compareRelease_eq bs, Ordering.swap_then, ← OrientedCmp.eq_swap]
      exact congrArg _ (ih bs.tail)

/-- Two releases are compared up to the longer one, so the induction is on a bound for all three. -/
theorem compareRelease_trans (n : Nat) {as bs cs : List Nat} (shortA : as.length ≤ n)
    (shortB : bs.length ≤ n) (shortC : cs.length ≤ n) (below : (compareRelease as bs).isLE)
    (above : (compareRelease bs cs).isLE) : (compareRelease as cs).isLE := by
  induction n generalizing as bs cs with
  | zero =>
      have emptyA : as = [] := List.length_eq_zero_iff.mp (by omega)
      have emptyC : cs = [] := List.length_eq_zero_iff.mp (by omega)
      rw [emptyA, emptyC, compareRelease]
      rfl
  | succ n ih =>
      rw [compareRelease_eq] at below above ⊢
      have tails : ∀ {ns : List Nat}, ns.length ≤ n + 1 → ns.tail.length ≤ n := by
        intro ns short
        rw [List.length_tail]
        omega
      exact isLE_then_trans below above (ih (tails shortA) (tails shortB) (tails shortC))

instance : TransCmp compareRelease where
  eq_swap := compareRelease_swap _ _
  isLE_trans {as bs cs} below above :=
    compareRelease_trans (max as.length (max bs.length cs.length)) (by omega) (by omega) (by omega)
      below above

/-! ## Tags and post-release numbers -/

instance : TransCmp Segment.compare where
  eq_swap {s t} := by
    cases s with
    | number m =>
        cases t with
        | number n => exact @OrientedCmp.eq_swap _ Ord.compare _ _ _
        | word w => rfl
    | word v =>
        cases t with
        | number n => rfl
        | word w => exact @OrientedCmp.eq_swap _ (List.compareLex Ord.compare) _ _ _
  isLE_trans {s t u} below above := by
    -- a word is never followed by a number, so the three are numbers first and words after them
    cases s with
    | number l =>
        cases u with
        | word w => rfl
        | number n =>
            cases t with
            | number m => exact @TransCmp.isLE_trans _ Ord.compare _ _ _ _ below above
            | word w => cases above
    | word v =>
        cases t with
        | number m => cases below
        | word w =>
            cases u with
            | number n => cases above
            | word x =>
                exact @TransCmp.isLE_trans _ (List.compareLex Ord.compare) _ _ _ _ below above

instance : TransCmp comparePre where
  eq_swap {a b} := by
    cases a with
    | none => cases b <;> rfl
    | some s =>
        cases b with
        | none => rfl
        | some t => exact @OrientedCmp.eq_swap _ (List.compareLex Segment.compare) _ _ _
  isLE_trans {a b c} below above := by
    cases c with
    | none => cases a <;> rfl
    | some u =>
        cases b with
        | none => cases above
        | some t =>
            cases a with
            | none => cases below
            | some s =>
                exact @TransCmp.isLE_trans _ (List.compareLex Segment.compare) _ _ _ _ below above

instance : TransCmp comparePost where
  eq_swap {a b} := by
    cases a with
    | none => cases b <;> rfl
    | some m =>
        cases b with
        | none => rfl
        | some n => exact @OrientedCmp.eq_swap _ Ord.compare _ _ _
  isLE_trans {a b c} below above := by
    cases a with
    | none => cases c <;> rfl
    | some l =>
        cases b with
        | none => cases below
        | some m =>
            cases c with
            | none => cases above
            | some n => exact @TransCmp.isLE_trans _ Ord.compare _ _ _ _ below above

/-! ## Versions -/

theorem compare_swap (a b : Version) : compare a b = (compare b a).swap := by
  have release := @OrientedCmp.eq_swap _ compareRelease _ a.release b.release
  have pre := @OrientedCmp.eq_swap _ comparePre _ a.pre b.pre
  have post := @OrientedCmp.eq_swap _ comparePost _ a.post b.post
  rw [compare, compare, release, pre, post, Ordering.swap_then, Ordering.swap_then]

theorem compare_trans {a b c : Version} (below : (compare a b).isLE)
    (above : (compare b c).isLE) : (compare a c).isLE :=
  isLE_then_trans below above fun below above =>
    isLE_then_trans below above fun below above => TransCmp.isLE_trans below above

instance : TransCmp compare where
  eq_swap := compare_swap _ _
  isLE_trans := compare_trans

variable {a b c : Version}

theorem same_iff : same a b = true ↔ compare a b = .eq := beq_iff_eq

theorem satisfies_iff : satisfies a b = true ↔ compare a b ≠ .lt := bne_iff_ne

/-- What satisfies a minimum is not below it. -/
theorem satisfies_iff_isLE : satisfies a b = true ↔ (compare b a).isLE := by
  rw [satisfies_iff, compare_swap a b, Ordering.isLE_iff_ne_gt]
  cases compare b a <;> decide

/-- **Versions are ordered totally, and equality is what the order leaves undecided.** For all
versions: the comparison the other way round has the opposite result; "not above" goes through from
one version to the next; two versions are equal if and only if neither comes first, which is an
equivalence, and equal versions compare alike with every other; a version satisfies a minimum if and
only if it is not below it, and then so does every version that is not below that one. -/
theorem order_is_total (a b c : Version) :
    compare b a = (compare a b).swap ∧
      (compare a b ≠ .gt → compare b c ≠ .gt → compare a c ≠ .gt) ∧
      (same a b = true ↔ compare a b = .eq) ∧
      same a a = true ∧ (same a b = true → same b a = true) ∧
      (same a b = true → same b c = true → same a c = true) ∧
      (same a b = true → compare a c = compare b c ∧ compare c a = compare c b) ∧
      (satisfies a c = true ↔ compare a c ≠ .lt) ∧
      (satisfies a c = true → compare b a ≠ .lt → satisfies b c = true) := by
  refine ⟨compare_swap b a, ?_, same_iff, ?_, ?_, ?_, ?_, satisfies_iff, ?_⟩
  · intro below above
    exact Ordering.isLE_iff_ne_gt.mp
      (compare_trans (Ordering.isLE_iff_ne_gt.mpr below) (Ordering.isLE_iff_ne_gt.mpr above))
  · exact same_iff.mpr Std.ReflCmp.compare_self
  · intro equal
    exact same_iff.mpr (OrientedCmp.eq_symm (same_iff.mp equal))
  · intro equal equal'
    exact same_iff.mpr (TransCmp.eq_trans (same_iff.mp equal) (same_iff.mp equal'))
  · intro equal
    have tie := same_iff.mp equal
    exact ⟨TransCmp.congr_left tie, TransCmp.congr_right tie⟩
  · intro enough above
    have step : satisfies b a = true := satisfies_iff.mpr above
    exact satisfies_iff_isLE.mpr
      (compare_trans (satisfies_iff_isLE.mp enough) (satisfies_iff_isLE.mp step))

/-- Two release candidates in the order of their numbers, and the release after them both. -/
theorem order_is_total_candidates :
    let a : Version := ⟨[1, 0], some ['r', 'c', '9'], none, "1.0rc9"⟩
    let b : Version := ⟨[1], some ['r', 'c', '1', '0'], none, "1rc10"⟩
    let c : Version := ⟨[1, 0, 0], none, none, "1.0.0"⟩
    compare a b = .lt ∧ compare b c = .lt ∧ compare a c ≠ .gt := by
  intro a b c
  have below : compare a b = .lt := by
    simp only [a, b, compare, compareRelease]
    decide
  have above : compare b c = .lt := by
    simp only [b, c, compare, compareRelease]
    decide
  refine ⟨below, above, (order_is_total a b c).2.1 ?_ ?_⟩
  · rw [below]
    decide
  · rw [above]
    decide

end Gatekeeper.Version
