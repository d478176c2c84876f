/-
  Computations that keep a journal.

  A run of the solver ends with a result or an error, and either way leaves behind the list of what happened
  on the way.  `Journal ω ε α` is that pair.  Sequencing appends the events of the second computation to those
  of the first one, and an error stops everything but keeps the events so far.

  The two projections are all there is to know about it: `result_bind` says that results are computed as if no
  journal were kept, and `events_bind_of_ok`, `events_bind_of_error` say what is recorded.
-/

namespace Simplex

/-- What happened, in order, and how it ended. -/
structure Journal (ω ε α : Type) where
  events : List ω
  result : Except ε α

namespace Journal

variable {ω ε ε' α β : Type}

/-- Record an event. -/
def note (event : ω) : Journal ω ε Unit := ⟨[event], .ok ()⟩

/-- Record some events. -/
def notes (events : List ω) : Journal ω ε Unit := ⟨events, .ok ()⟩

/-- End with an error. -/
def fail (error : ε) : Journal ω ε α := ⟨[], .error error⟩

/-- A result or an error, without any event. -/
def ofExcept (result : Except ε α) : Journal ω ε α := ⟨[], result⟩

/-- Look at errors differently. -/
def mapError (f : ε → ε') (x : Journal ω ε α) : Journal ω ε' α := ⟨x.events, x.result.mapError f⟩

/-- First one computation, then the next one with its result. -/
def andThen (x : Journal ω ε α) (f : α → Journal ω ε β) : Journal ω ε β :=
  match x.result with
  | .ok a => ⟨x.events ++ (f a).events, (f a).result⟩
  | .error e => ⟨x.events, .error e⟩

instance : Monad (Journal ω ε) where
  pure a := ⟨[], .ok a⟩
  bind := andThen

/-! ## The two projections -/

@[simp] theorem result_pure (a : α) : (pure a : Journal ω ε α).result = .ok a := rfl

@[simp] theorem events_pure (a : α) : (pure a : Journal ω ε α).events = [] := rfl

@[simp] theorem result_note (event : ω) : (note event : Journal ω ε Unit).result = .ok () := rfl

@[simp] theorem events_note (event : ω) : (note event : Journal ω ε Unit).events = [event] := rfl

@[simp] theorem result_notes (events : List ω) :
    (notes events : Journal ω ε Unit).result = .ok () := rfl

@[simp] theorem events_notes (events : List ω) :
    (notes events : Journal ω ε Unit).events = events := rfl

@[simp] theorem result_fail (error : ε) : (fail error : Journal ω ε α).result = .error error := rfl

@[simp] theorem events_fail (error : ε) : (fail error : Journal ω ε α).events = [] := rfl

@[simp] theorem result_ofExcept (result : Except ε α) :
    (ofExcept result : Journal ω ε α).result = result := rfl

@[simp] theorem events_ofExcept (result : Except ε α) :
    (ofExcept result : Journal ω ε α).events = [] := rfl

/-- Results are computed as if no journal were kept. -/
theorem result_bind (x : Journal ω ε α) (f : α → Journal ω ε β) :
    (x >>= f).result = (x.result >>= fun a => (f a).result) := by
  show (x.andThen f).result = _
  unfold andThen
  cases x.result <;> rfl

/-- After a part that ends well comes the next one. -/
theorem bind_of_ok {x : Journal ω ε α} {a : α} (h : x.result = .ok a) (f : α → Journal ω ε β) :
    x >>= f = ⟨x.events ++ (f a).events, (f a).result⟩ := by
  show x.andThen f = _
  unfold andThen
  rw [h]

/-- A part that fails ends the run; what was noted before stays. -/
theorem bind_of_error {x : Journal ω ε α} {e : ε} (h : x.result = .error e)
    (f : α → Journal ω ε β) : x >>= f = ⟨x.events, .error e⟩ := by
  show x.andThen f = _
  unfold andThen
  rw [h]

/-- A sequence ends with a result exactly when both of its parts do. -/
theorem result_bind_eq_ok_iff {x : Journal ω ε α} {f : α → Journal ω ε β} {b : β} :
    (x >>= f).result = .ok b ↔ ∃ a, x.result = .ok a ∧ (f a).result = .ok b := by
  rw [result_bind]
  cases x.result with
  | error e => exact ⟨fun h => (nomatch h), fun ⟨_, h, _⟩ => (nomatch h)⟩
  | ok a => exact ⟨fun h => ⟨a, rfl, h⟩, fun ⟨_, ha, h⟩ => Except.ok.inj ha ▸ h⟩

theorem result_bind_of_ok {x : Journal ω ε α} {a : α} (h : x.result = .ok a)
    (f : α → Journal ω ε β) : (x >>= f).result = (f a).result := by
  rw [result_bind, h]
  rfl

/-- Errors that are put in other words are errors still. -/
theorem result_mapError_eq_ok_iff {x : Journal ω ε α} {f : ε → ε'} {a : α} :
    (x.mapError f).result = .ok a ↔ x.result = .ok a := by
  show x.result.mapError f = .ok a ↔ _
  cases x.result with
  | error e => exact ⟨fun h => (nomatch h), fun h => (nomatch h)⟩
  | ok b =>
    constructor
    · intro h
      cases h
      rfl
    · intro h
      cases h
      rfl

/-- An event recorded first comes first. -/
@[simp] theorem note_bind (event : ω) (f : Unit → Journal ω ε β) :
    note event >>= f = ⟨event :: (f ()).events, (f ()).result⟩ := rfl

end Journal

example : ((do Journal.note 1; Journal.note 2; Journal.fail "stop"; Journal.note 3) :
    Journal Nat String Unit).events = [1, 2] := by decide

end Simplex
