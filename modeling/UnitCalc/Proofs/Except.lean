/-! Results that may be errors: when a sequence of computations succeeds, and how its errors come
about. -/

namespace UnitCalc

variable {ε ε' α α' β β' : Type}

/-- The binds of `do` notation, as a plain function. -/
theorem bind_eq (x : Except ε α) (f : α → Except ε β) : (x >>= f) = x.bind f := rfl

theorem bind_eq_ok {x : Except ε α} {f : α → Except ε β} {b : β} :
    x.bind f = .ok b ↔ ∃ a, x = .ok a ∧ f a = .ok b := by
  cases x with
  | error e => simp [Except.bind]
  | ok a => simp [Except.bind]

theorem bind_eq_error {x : Except ε α} {f : α → Except ε β} {e : ε} :
    x.bind f = .error e ↔ x = .error e ∨ ∃ a, x = .ok a ∧ f a = .error e := by
  cases x with
  | error e => simp [Except.bind]
  | ok a => simp [Except.bind]

theorem map_eq_ok {x : Except ε α} {f : α → β} {b : β} :
    x.map f = .ok b ↔ ∃ a, x = .ok a ∧ f a = b := by
  cases x with
  | error e => simp [Except.map]
  | ok a => simp [Except.map]

theorem map_eq_error {x : Except ε α} {f : α → β} {e : ε} : x.map f = .error e ↔ x = .error e := by
  cases x with
  | error e => simp [Except.map]
  | ok a => simp [Except.map]

theorem mapError_eq_ok {x : Except ε α} {f : ε → ε'} {a : α} :
    x.mapError f = .ok a ↔ x = .ok a := by
  cases x with
  | error e => exact ⟨nofun, nofun⟩
  | ok b =>
    show Except.ok b = .ok a ↔ Except.ok b = .ok a
    rw [Except.ok.injEq, Except.ok.injEq]

/-- A translation that changes none of the errors at hand does nothing. -/
theorem mapError_eq_self {x : Except ε α} {f : ε → ε} (h : ∀ e, x = .error e → f e = e) :
    x.mapError f = x := by
  cases x with
  | error e => exact congrArg Except.error (h e rfl)
  | ok a => rfl

theorem map_bind {γ : Type} (x : Except ε α) (f : α → Except ε β) (k : β → γ) :
    (x.bind f).map k = x.bind fun a => (f a).map k := by
  cases x <;> rfl

/-! ### Translated results -/

/-- A result with its value and its error translated. -/
def mapBoth (g : ε → ε') (h : α → β) : Except ε α → Except ε' β
  | .ok a => .ok (h a)
  | .error e => .error (g e)

@[simp] theorem mapBoth_ok (g : ε → ε') (h : α → β) (a : α) :
    mapBoth g h (.ok a) = .ok (h a) := rfl

@[simp] theorem mapBoth_error (g : ε → ε') (h : α → β) (e : ε) :
    mapBoth g h (.error e) = .error (g e) := rfl

/-- A sequence of computations is translated step by step. -/
theorem mapBoth_bind {g : ε → ε'} {h : α → α'} {h' : β → β'} {x : Except ε α}
    {k : α → Except ε β} {k' : α' → Except ε' β'}
    (hk : ∀ a, x = .ok a → k' (h a) = mapBoth g h' (k a)) :
    (mapBoth g h x).bind k' = mapBoth g h' (x.bind k) := by
  cases x with
  | error e => rfl
  | ok a => exact hk a rfl

theorem mapBoth_map {g : ε → ε'} {h : α → α'} {h' : β → β'} {k : α → β} {k' : α' → β'}
    (hk : ∀ a, k' (h a) = h' (k a)) (x : Except ε α) :
    (mapBoth g h x).map k' = mapBoth g h' (x.map k) := by
  cases x with
  | error e => rfl
  | ok a => exact congrArg Except.ok (hk a)

/-! ### Properties of results -/

/-- A value has one property, an error another. -/
def Meets (P : α → Prop) (Q : ε → Prop) : Except ε α → Prop
  | .ok a => P a
  | .error e => Q e

/-- The properties of a sequence of computations come from those of its steps. -/
theorem Meets.bind {P : α → Prop} {P' : β → Prop} {Q : ε → Prop} {x : Except ε α}
    {f : α → Except ε β} (h : Meets P Q x) (hf : ∀ a, P a → Meets P' Q (f a)) :
    Meets P' Q (x.bind f) := by
  cases x with
  | error e => exact h
  | ok a => exact hf a h

theorem Meets.ok {P : α → Prop} {Q : ε → Prop} {x : Except ε α} {a : α} (h : Meets P Q x)
    (hx : x = .ok a) : P a := by
  rw [hx] at h
  exact h

theorem Meets.error {P : α → Prop} {Q : ε → Prop} {x : Except ε α} {e : ε} (h : Meets P Q x)
    (hx : x = .error e) : Q e := by
  rw [hx] at h
  exact h

/-! ### Related results -/

/-- Which errors go together: two of them, or one whatever the other result is. -/
structure ErrorMatch (ε ε' : Type) where
  pair : ε → ε' → Prop
  left : ε → Prop
  right : ε' → Prop

namespace ErrorMatch

/-- Every error goes together with itself only, and has a property. -/
def same (Q : ε → Prop) : ErrorMatch ε ε :=
  ⟨fun e e' => Q e ∧ e = e', fun _ => False, fun _ => False⟩

/-- Errors go together with their translations. -/
def via (g : ε → ε') : ErrorMatch ε ε' := ⟨fun e e' => g e = e', fun _ => False, fun _ => False⟩

/-- Errors go together with everything. -/
def any : ErrorMatch ε ε' := ⟨fun _ _ => True, fun _ => True, fun _ => True⟩

end ErrorMatch

/-- Two results are related: two values by a relation, two errors that go together, or an error that
excuses any other result. -/
inductive Related (E : ErrorMatch ε ε') (R : α → α' → Prop) : Except ε α → Except ε' α' → Prop where
  | ok {a : α} {a' : α'} (h : R a a') : Related E R (.ok a) (.ok a')
  | error {e : ε} {e' : ε'} (h : E.pair e e') : Related E R (.error e) (.error e')
  | left {e : ε} (h : E.left e) (y : Except ε' α') : Related E R (.error e) y
  | right (x : Except ε α) {e' : ε'} (h : E.right e') : Related E R x (.error e')

section

variable {E : ErrorMatch ε ε'} {R : α → α' → Prop} {R' : β → β' → Prop} {x : Except ε α}
  {y : Except ε' α'}

/-- Sequences of computations are related step by step. -/
theorem Related.bind {k : α → Except ε β} {k' : α' → Except ε' β'} (h : Related E R x y)
    (hk : ∀ a a', x = .ok a → y = .ok a' → R a a' → Related E R' (k a) (k' a')) :
    Related E R' (x.bind k) (y.bind k') := by
  cases h with
  | ok h => exact hk _ _ rfl rfl h
  | error h => exact .error h
  | left h => exact .left h _
  | right _ h => exact .right _ h

theorem related_any : Related .any R x y ↔ ∀ a a', x = .ok a → y = .ok a' → R a a' := by
  constructor
  · rintro h a a' rfl rfl
    cases h with
    | ok h => exact h
  · intro h
    cases x with
    | error e => exact .left trivial _
    | ok a =>
      cases y with
      | error e' => exact .right _ trivial
      | ok a' => exact .ok (h a a' rfl rfl)

end

theorem related_via {g : ε → ε'} {h : α → α'} {x : Except ε α} {y : Except ε' α'} :
    Related (.via g) (fun a a' => h a = a') x y ↔ y = mapBoth g h x := by
  constructor
  · intro hxy
    cases hxy with
    | ok ha => exact congrArg Except.ok ha.symm
    | error he => exact congrArg Except.error he.symm
    | left he => exact he.elim
    | right _ he => exact he.elim
  · rintro rfl
    cases x with
    | ok a => exact .ok rfl
    | error e => exact .error rfl

/-- A property of results is a relation of results to themselves. -/
theorem related_same {P : α → Prop} {Q : ε → Prop} {x y : Except ε α} :
    Related (.same Q) (fun a a' => P a ∧ a = a') x y ↔ Meets P Q x ∧ x = y := by
  constructor
  · intro h
    cases h with
    | ok h =>
      obtain ⟨hP, rfl⟩ := h
      exact ⟨hP, rfl⟩
    | error h =>
      obtain ⟨hQ, rfl⟩ := h
      exact ⟨hQ, rfl⟩
    | left h => exact h.elim
    | right _ h => exact h.elim
  · rintro ⟨h, rfl⟩
    cases x with
    | ok a => exact .ok ⟨h, rfl⟩
    | error e => exact .error ⟨h, rfl⟩

theorem Meets.related {P : α → Prop} {Q : ε → Prop} {x : Except ε α} (h : Meets P Q x) :
    Related (.same Q) (fun a a' => P a ∧ a = a') x x :=
  related_same.2 ⟨h, rfl⟩

end UnitCalc
