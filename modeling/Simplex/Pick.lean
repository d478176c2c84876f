/-
  Picking one element of a list.

  `pick better xs` walks through the list and replaces the element it holds only by one that is better, so of
  equally good elements the first one is kept.  Both choices of the simplex method are made this way: the
  column with the most negative relative cost, and the row with the least ratio.
-/

namespace Simplex

/-- The better of two, the one already held unless the new one is better. -/
def keepBetter {α : Type} (better : α → α → Bool) (held new : α) : α :=
  if better new held then new else held

/-- The best element of a list, the first one of equals. -/
def pick {α : Type} (better : α → α → Bool) : List α → Option α
  | [] => none
  | x :: rest => some (rest.foldl (keepBetter better) x)

theorem keepBetter_eq_or {α : Type} (better : α → α → Bool) (held new : α) :
    keepBetter better held new = held ∨ keepBetter better held new = new := by
  unfold keepBetter; split
  · exact Or.inr rfl
  · exact Or.inl rfl

/-- The scan never leaves the elements it has seen. -/
theorem foldl_keepBetter_mem {α : Type} (better : α → α → Bool) :
    ∀ (rest : List α) (x : α), rest.foldl (keepBetter better) x ∈ x :: rest
  | [], x => List.mem_cons_self ..
  | y :: rest, x => by
    have h := foldl_keepBetter_mem better rest (keepBetter better x y)
    rw [List.foldl_cons]
    rcases List.mem_cons.mp h with h | h
    · rcases keepBetter_eq_or better x y with hx | hy
      · rw [h, hx]; exact List.mem_cons_self ..
      · rw [h, hy]; exact List.mem_cons_of_mem _ (List.mem_cons_self ..)
    · exact List.mem_cons_of_mem _ (List.mem_cons_of_mem _ h)

theorem pick_mem {α : Type} {better : α → α → Bool} {xs : List α} {x : α}
    (h : pick better xs = some x) : x ∈ xs := by
  cases xs with
  | nil => cases h
  | cons y rest =>
    have hx : rest.foldl (keepBetter better) y = x := Option.some.inj h
    exact hx ▸ foldl_keepBetter_mem better rest y

theorem pick_eq_none_iff {α : Type} {better : α → α → Bool} {xs : List α} :
    pick better xs = none ↔ xs = [] := by
  cases xs with
  | nil => exact ⟨fun _ => rfl, fun _ => rfl⟩
  | cons y rest => exact ⟨fun h => (nomatch h), fun h => (nomatch h)⟩

/-! ## Nothing is better than what was picked -/

section Order

variable {α : Type} {better : α → α → Bool}

/-- What does not beat the element held does not beat the one held after one more comparison. -/
theorem not_better_keepBetter
    (trans : ∀ a b c, better a b = true → better b c = true → better a c = true) {y held : α}
    (hy : better y held = false) (new : α) : better y (keepBetter better held new) = false := by
  unfold keepBetter; split
  · rename_i hnew
    cases hbetter : better y new with
    | false => rfl
    | true => rw [trans y new held hbetter hnew] at hy; cases hy
  · exact hy

theorem not_better_foldl
    (trans : ∀ a b c, better a b = true → better b c = true → better a c = true) {y : α} :
    ∀ (rest : List α) (held : α), better y held = false →
      better y (rest.foldl (keepBetter better) held) = false
  | [], _, hy => hy
  | z :: rest, held, hy => by
    rw [List.foldl_cons]
    exact not_better_foldl trans rest _ (not_better_keepBetter trans hy z)

/-- No element that the scan has seen beats the one it ends with. -/
theorem not_better_foldl_of_mem (irrefl : ∀ a, better a a = false)
    (trans : ∀ a b c, better a b = true → better b c = true → better a c = true) {y : α} :
    ∀ (rest : List α) (x : α), y ∈ x :: rest →
      better y (rest.foldl (keepBetter better) x) = false
  | [], x, hy => by
    rw [List.mem_singleton.1 hy]
    exact irrefl x
  | z :: rest, x, hy => by
    rw [List.foldl_cons]
    rcases List.mem_cons.1 hy with hx | hz
    · rw [hx]
      exact not_better_foldl trans rest _ (not_better_keepBetter trans (irrefl x) z)
    · rcases List.mem_cons.1 hz with hz | hrest
      · -- the new element was compared with the one held
        rw [hz]
        refine not_better_foldl trans rest _ ?_
        unfold keepBetter; split
        · exact irrefl z
        · rename_i h
          exact Bool.of_not_eq_true h
      · exact not_better_foldl_of_mem irrefl trans rest _ (List.mem_cons_of_mem _ hrest)

theorem not_better_of_pick (irrefl : ∀ a, better a a = false)
    (trans : ∀ a b c, better a b = true → better b c = true → better a c = true)
    {xs : List α} {x y : α} (h : pick better xs = some x) (hy : y ∈ xs) : better y x = false := by
  cases xs with
  | nil => cases h
  | cons z rest =>
    have hx : rest.foldl (keepBetter better) z = x := Option.some.inj h
    rw [← hx]
    exact not_better_foldl_of_mem irrefl trans rest z hy

/-- Of equals the first one is kept: the scan ends with an element that beats all those before it. -/
theorem exists_append_foldl (trans : ∀ a b c, better a b = true → better b c = true → better a c = true) :
    ∀ (rest : List α) (x : α),
      (∀ b ∈ x :: rest, ∀ a c, better a c = true → better a b = true ∨ better b c = true) → ∃ before after,
        x :: rest = before ++ rest.foldl (keepBetter better) x :: after ∧
          ∀ y ∈ before, better (rest.foldl (keepBetter better) x) y = true
  | [], x, _ => ⟨[], [], rfl, fun _ hy => (nomatch hy)⟩
  | z :: rest, x, weak => by
    rw [List.foldl_cons]
    cases hz : better z x with
    | true =>
      have hkeep : keepBetter better x z = z := if_pos hz
      rw [hkeep]
      obtain ⟨before, after, hsplit, hbeats⟩ :=
        exists_append_foldl trans rest z fun b hb => weak b (List.mem_cons_of_mem _ hb)
      refine ⟨x :: before, after, by rw [hsplit, List.cons_append], fun y hy => ?_⟩
      rcases List.mem_cons.1 hy with rfl | hy
      · -- the new element stands first in what follows, or is beaten itself
        cases before with
        | nil => rw [← (List.cons.inj hsplit).1]; exact hz
        | cons b before =>
          have hb : z = b := (List.cons.inj hsplit).1
          exact trans _ z y (hbeats z (hb ▸ List.mem_cons_self ..)) hz
      · exact hbeats y hy
    | false =>
      have hkeep : keepBetter better x z = x := if_neg (by rw [hz]; exact Bool.false_ne_true)
      rw [hkeep]
      obtain ⟨before, after, hsplit, hbeats⟩ :=
        exists_append_foldl trans rest x fun b hb => weak b (List.cons_subset_cons _ (List.subset_cons_self ..) hb)
      cases before with
      | nil =>
        refine ⟨[], z :: rest, ?_, fun _ hy => (nomatch hy)⟩
        rw [← (List.cons.inj hsplit).1]
        rfl
      | cons b before =>
        obtain ⟨rfl, hrest⟩ := List.cons.inj hsplit
        have hx := hbeats x (List.mem_cons_self ..)
        refine ⟨x :: z :: before, after, ?_, fun y hy => ?_⟩
        · exact congrArg (fun l => x :: z :: l) hrest
        · rcases List.mem_cons.1 hy with rfl | hy
          · exact hx
          · rcases List.mem_cons.1 hy with rfl | hy
            · -- what does not beat the element held is beaten by all that do
              refine (weak y (List.mem_cons_of_mem _ (List.mem_cons_self ..)) _ x hx).resolve_right ?_
              rw [hz]
              exact Bool.false_ne_true
            · exact hbeats y (List.mem_cons_of_mem _ hy)

theorem exists_append_of_pick (trans : ∀ a b c, better a b = true → better b c = true → better a c = true)
    {xs : List α} (weak : ∀ b ∈ xs, ∀ a c, better a c = true → better a b = true ∨ better b c = true) {x : α}
    (h : pick better xs = some x) :
    ∃ before after, xs = before ++ x :: after ∧ ∀ y ∈ before, better x y = true := by
  cases xs with
  | nil => cases h
  | cons z rest =>
    have hx : rest.foldl (keepBetter better) z = x := Option.some.inj h
    rw [← hx]
    exact exists_append_foldl trans rest z weak

/-- In an ascending list, the lowest of equals is picked. -/
theorem le_of_pick {n : Nat} {better : Fin n → Fin n → Bool} {xs : List (Fin n)} {x k : Fin n}
    (trans : ∀ a b c, better a b = true → better b c = true → better a c = true)
    (weak : ∀ b ∈ xs, ∀ a c, better a c = true → better a b = true ∨ better b c = true)
    (hsorted : xs.Pairwise (· < ·)) (h : pick better xs = some x) (hk : k ∈ xs) (hxk : better x k = false) :
    x ≤ k := by
  obtain ⟨before, after, hsplit, hbeats⟩ := exists_append_of_pick trans weak h
  rw [hsplit] at hsorted hk
  rcases List.mem_append.1 hk with hbefore | hmem
  · rw [hbeats k hbefore] at hxk
    cases hxk
  · rcases List.mem_cons.1 hmem with rfl | hafter
    · exact Fin.le_refl k
    · exact Fin.le_of_lt ((List.pairwise_cons.1 (List.pairwise_append.1 hsorted).2.1).1 k hafter)

end Order

example : pick (fun a b : Nat => a < b) [3, 1, 4, 1] = some 1 := by decide

end Simplex
