/-
  Tolerances that tell zero from nonzero.

  A tableau is determined by its basis, and there are finitely many bases, so only finitely many numbers can
  turn up in the tableaux that present a problem.  A tolerance below the magnitude of all that are not zero makes
  every comparison with it exact.

  1. `ForSmall` — for every number above zero and below some bound.
  2. `Problem.ResolvedBy` — the tolerance separates zero from every other number, in every tableau that presents
     the problem, and `Problem.forSmall_resolvedBy` — every small tolerance does.
  3. `Presents.lt_entry_iff` … `Presents.lt_value_iff` — comparisons with such a tolerance are sign tests.
-/
import Mathlib.Data.Fintype.Card
import Mathlib.Data.Fintype.Lattice
import Mathlib.Data.Fintype.Pi
import Simplex.Proofs.Presentation

namespace Simplex

variable {F : Type} [Field F] [LinearOrder F]

/-! ## Small numbers -/

/-- For every number above zero and below some bound. -/
def ForSmall (p : F → Prop) : Prop := ∃ bound, 0 < bound ∧ ∀ eps, 0 < eps → eps < bound → p eps

namespace ForSmall

variable {p q : F → Prop}

/-- What follows from something that holds for small tolerances holds for them, too. -/
theorem mono (hp : ForSmall p) (h : ∀ eps, 0 < eps → p eps → q eps) : ForSmall q := by
  obtain ⟨bound, hpos, hb⟩ := hp
  exact ⟨bound, hpos, fun eps h0 hlt => h eps h0 (hb eps h0 hlt)⟩

/-- Two things that hold for small tolerances hold for them together. -/
theorem and (hp : ForSmall p) (hq : ForSmall q) : ForSmall fun eps => p eps ∧ q eps := by
  obtain ⟨b, hb, hbp⟩ := hp
  obtain ⟨c, hc, hcq⟩ := hq
  refine ⟨min b c, lt_min hb hc, fun eps h0 hlt => ⟨hbp eps h0 ?_, hcq eps h0 ?_⟩⟩
  · exact lt_of_lt_of_le hlt (min_le_left b c)
  · exact lt_of_lt_of_le hlt (min_le_right b c)

theorem of_forall [IsStrictOrderedRing F] (h : ∀ eps, p eps) : ForSmall p :=
  ⟨1, one_pos, fun eps _ _ => h eps⟩

/-- A small enough number is below all of finitely many bounds. -/
theorem all [IsStrictOrderedRing F] {ι : Type} [Finite ι] {p : ι → F → Prop}
    (h : ∀ i, ForSmall (p i)) : ForSmall fun eps => ∀ i, p i eps := by
  choose bound hpos hb using h
  cases isEmpty_or_nonempty ι with
  | inl _ => exact of_forall fun _ i => isEmptyElim i
  | inr _ =>
    obtain ⟨least, hleast⟩ := Finite.exists_min bound
    exact ⟨bound least, hpos least, fun eps h0 hlt i =>
      hb i eps h0 (lt_of_lt_of_le hlt (hleast i))⟩

/-- A number that is not zero is larger in magnitude than every small number. -/
theorem lt_abs [IsStrictOrderedRing F] (v : F) : ForSmall fun eps => v ≠ 0 → eps < |v| := by
  by_cases hv : v = 0
  · exact of_forall fun _ h => absurd hv h
  · exact ⟨|v|, abs_pos.2 hv, fun eps _ hlt _ => hlt⟩

end ForSmall

/-! ## Resolving a tableau -/

variable {L : Layout} {m : Nat}

/-- Every number of the tableau that a descent looks at is zero or larger in magnitude than `eps`. -/
structure Tableau.ResolvedBy (t : Tableau F L m) (eps : F) : Prop where
  entry : ∀ i j, t.isEligible j = true → t.entry i j ≠ 0 → eps < |t.entry i j|
  cost : ∀ j, t.isEligible j = true → t.cost j ≠ 0 → eps < |t.cost j|
  value : t.value ≠ 0 → eps < |t.value|

/-- The same in every tableau that presents the problem. -/
def Problem.ResolvedBy (P : Problem F L) (eps : F) : Prop :=
  ∀ (m : Nat) (t : Tableau F L m), t.Presents P → t.ResolvedBy eps

/-- One tableau has finitely many numbers, so all small tolerances resolve it. -/
theorem Tableau.forSmall_resolvedBy [IsStrictOrderedRing F] (t : Tableau F L m) :
    ForSmall t.ResolvedBy := by
  have he : ForSmall fun eps => ∀ i j, t.entry i j ≠ 0 → eps < |t.entry i j| :=
    ForSmall.all fun i => ForSmall.all fun j => ForSmall.lt_abs (t.entry i j)
  have hc : ForSmall fun eps => ∀ j, t.cost j ≠ 0 → eps < |t.cost j| :=
    ForSmall.all fun j => ForSmall.lt_abs (t.cost j)
  refine (he.and (hc.and (ForSmall.lt_abs t.value))).mono ?_
  intro eps _ h
  exact ⟨fun i j _ => h.1 i j, fun j _ => h.2.1 j, h.2.2⟩

/-- What resolves one tableau resolves every other one of the same problem with the same basis. -/
theorem Tableau.Presents.resolvedBy_of_basic_eq {P : Problem F L} {t u : Tableau F L m}
    (h : t.Presents P) (hu : u.Presents P) (hb : t.basic = u.basic) {eps : F}
    (hr : u.ResolvedBy eps) : t.ResolvedBy eps where
  entry i j hj := by
    rw [h.eligible] at hj
    rw [entry_eq h hu hb hj]
    exact hr.entry i j (by rw [hu.eligible, hj])
  cost j hj := by
    rw [h.eligible] at hj
    rw [cost_eq h hu hb hj]
    exact hr.cost j (by rw [hu.eligible, hj])
  value := by
    rw [value_eq h hu hb]
    exact hr.value

/-- Every small enough tolerance resolves the problem. -/
theorem Problem.forSmall_resolvedBy [IsStrictOrderedRing F] (P : Problem F L) :
    ForSmall P.ResolvedBy := by
  have hone : ∀ (m : Nat) (b : Fin m → Fin L.columns), ForSmall fun eps =>
      ∀ t : Tableau F L m, t.Presents P → t.basic = b → t.ResolvedBy eps := by
    intro m b
    by_cases hex : ∃ u : Tableau F L m, u.Presents P ∧ u.basic = b
    · obtain ⟨u, hu, hub⟩ := hex
      refine u.forSmall_resolvedBy.mono ?_
      intro eps _ hr t ht htb
      exact ht.resolvedBy_of_basic_eq hu (htb.trans hub.symm) hr
    · exact ForSmall.of_forall fun _ t ht htb => absurd ⟨t, ht, htb⟩ hex
  -- distinct basic columns: no more rows than columns, hence finitely many bases in all
  have hall : ForSmall fun eps => ∀ (m : Fin (L.columns + 1)) (b : Fin m → Fin L.columns)
      (t : Tableau F L m), t.Presents P → t.basic = b → t.ResolvedBy eps :=
    ForSmall.all fun m => ForSmall.all fun b => hone m b
  refine hall.mono ?_
  intro eps _ h m t ht
  have hm : m ≤ L.columns := by
    simpa using Fintype.card_le_of_injective t.basic ht.canonical.basic_injective
  exact h ⟨m, Nat.lt_succ_of_le hm⟩ t.basic t ht rfl

/-! ## Comparisons are sign tests -/

namespace Tableau.Presents

variable [IsStrictOrderedRing F] {P : Problem F L} {t : Tableau F L m} {eps : F} {j : Fin L.columns}

/-- Under a tolerance that resolves the problem, an entry is above it exactly if it is positive. -/
theorem lt_entry_iff (h : t.Presents P) (hr : P.ResolvedBy eps) (h0 : 0 < eps)
    (hj : P.allowed j = true) (i : Fin m) : eps < t.entry i j ↔ 0 < t.entry i j := by
  constructor
  · exact fun hlt => lt_trans h0 hlt
  · intro hpos
    have := (hr m t h).entry i j (by rw [h.eligible, hj]) (ne_of_gt hpos)
    rwa [abs_of_pos hpos] at this

/-- Entries are significant exactly if they are not zero. -/
theorem significant_entry_iff (h : t.Presents P) (hr : P.ResolvedBy eps) (h0 : 0 < eps)
    (hj : P.allowed j = true) (i : Fin m) :
    Scalar.significant eps (t.entry i j) = true ↔ t.entry i j ≠ 0 := by
  rw [significant_iff]
  constructor
  · intro hlt
    exact abs_pos.1 (lt_trans h0 hlt)
  · exact (hr m t h).entry i j (by rw [h.eligible, hj])

/-- Columns are profitable exactly if their relative cost is negative. -/
theorem cost_lt_iff (h : t.Presents P) (hr : P.ResolvedBy eps) (h0 : 0 < eps)
    (hj : P.allowed j = true) : t.cost j < -eps ↔ t.cost j < 0 := by
  constructor
  · intro hlt
    exact lt_trans hlt (neg_lt_zero.2 h0)
  · intro hneg
    have := (hr m t h).cost j (by rw [h.eligible, hj]) (ne_of_lt hneg)
    rw [abs_of_neg hneg] at this
    linarith

/-- The value is above the tolerance exactly if it is positive. -/
theorem lt_value_iff (h : t.Presents P) (hr : P.ResolvedBy eps) (h0 : 0 < eps) :
    eps < t.value ↔ 0 < t.value := by
  constructor
  · exact fun hlt => lt_trans h0 hlt
  · intro hpos
    have := (hr m t h).value (ne_of_gt hpos)
    rwa [abs_of_pos hpos] at this

end Tableau.Presents

end Simplex
