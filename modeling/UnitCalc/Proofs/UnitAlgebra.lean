import UnitCalc.Proofs.ReadBack

/-! The algebra of dimensions. A dimension is the function of its exponents, and its operations are
sum, difference and multiple of such functions wherever all the results are 64-bit integers; a
quotient asks besides that the exponents of the divisor can be negated. So the laws of a commutative
group hold between the results that exist. The operations keep their tables free of zeros by
construction; tables that are changed in place, where a zero is put in before an exponent is added
and taken out after, come to the same. -/

namespace UnitCalc

/-! ### Results and their exponents -/

namespace Dimension

/-- The exponents that are raised are those of a dimension, changed by `f`. -/
theorem getD_map_lookup {f : Int → Int} (hf : f 0 = 0) (b : Dimension) (name : String) :
    ((b.exponents.entries.lookup name).map f).getD 0 = f (b.exponent name) := by
  rw [exponent, Table.find?]
  cases b.exponents.entries.lookup name with
  | none => exact hf.symm
  | some e => rfl

/-- Raising exponents gives the dimension that has the sums, and nothing if there is none. -/
theorem foldlM_raise_eq_some_iff {f : Int → Int} (hf : f 0 = 0) {a b d : Dimension} :
    b.exponents.entries.foldlM (fun d e => d.raise e.1 (f e.2)) a = some d ↔
      ∀ name, d.exponent name = a.exponent name + f (b.exponent name) := by
  constructor
  · intro h name
    rw [exponent_foldlM b.exponents.ascending h, getD_map_lookup hf]
  · intro h
    have hfits : ∀ e ∈ b.exponents.entries, exponentFits (a.exponent e.1 + f e.2) := by
      intro e he
      rw [← exponent_of_mem he, ← h]
      exact d.exponentFits_exponent e.1
    obtain ⟨d', hd'⟩ := exists_foldlM b.exponents.ascending hfits
    have heq : d' = d := by
      apply ext_exponent
      intro name
      rw [exponent_foldlM b.exponents.ascending hd', getD_map_lookup hf, h]
    rw [hd', heq]

theorem foldlM_raise_isSome_iff {f : Int → Int} (hf : f 0 = 0) {a b : Dimension} :
    (b.exponents.entries.foldlM (fun (d : Dimension) e => d.raise e.1 (f e.2)) a).isSome = true ↔
      ∀ name, exponentFits (a.exponent name + f (b.exponent name)) := by
  rw [Option.isSome_iff_exists]
  constructor
  · rintro ⟨d, hd⟩ name
    rw [← (foldlM_raise_eq_some_iff hf).1 hd]
    exact d.exponentFits_exponent name
  · intro h
    refine exists_foldlM b.exponents.ascending fun e he => ?_
    rw [← exponent_of_mem he]
    exact h e.1

theorem mul_eq_some_iff {a b d : Dimension} :
    a.mul b = some d ↔ ∀ name, d.exponent name = a.exponent name + b.exponent name :=
  foldlM_raise_eq_some_iff (f := id) rfl

theorem mul_isSome_iff {a b : Dimension} :
    (a.mul b).isSome = true ↔ ∀ name, exponentFits (a.exponent name + b.exponent name) :=
  foldlM_raise_isSome_iff (f := id) rfl

theorem pow_eq_some_iff {a d : Dimension} {k : Int} :
    a.pow k = some d ↔ ∀ name, d.exponent name = a.exponent name * k := by
  simp only [pow, foldlM_raise_eq_some_iff (f := (· * k)) (zero_mul k), exponent_one, zero_add]

theorem pow_isSome_iff {a : Dimension} {k : Int} :
    (a.pow k).isSome = true ↔ ∀ name, exponentFits (a.exponent name * k) := by
  simp only [pow, foldlM_raise_isSome_iff (f := (· * k)) (zero_mul k), exponent_one, zero_add]

/-! ### Quotients -/

/-- A fold that checks every entry succeeds when all are admitted and the bare fold does. -/
theorem foldlM_guard_eq_some_iff {α β : Type} {p : β → Prop} [DecidablePred p]
    {step : α → β → Option α} {es : List β} {a d : α} :
    es.foldlM (fun d e => if p e then step d e else none) a = some d ↔
      (∀ e ∈ es, p e) ∧ es.foldlM step a = some d := by
  induction es generalizing a with
  | nil => simp
  | cons e es ih =>
    rw [List.foldlM_cons, List.foldlM_cons, List.forall_mem_cons]
    by_cases he : p e
    · rw [if_pos he]
      cases step a e with
      | none => simp
      | some a' =>
        show es.foldlM _ a' = some d ↔ (p e ∧ ∀ e' ∈ es, p e') ∧ es.foldlM step a' = some d
        rw [ih, and_iff_right he]
    · simp [he]

/-- Of the 64-bit integers only the least has no negative among them. -/
theorem exponentFits_neg_iff {e : Int} (h : exponentFits e) :
    exponentFits (-e) ↔ e ≠ -9223372036854775808 := by
  simp only [exponentFits] at h ⊢
  omega

theorem forall_fits_neg_iff (b : Dimension) :
    (∀ e ∈ b.exponents.entries, exponentFits (-e.2)) ↔
      ∀ name, b.exponent name ≠ -9223372036854775808 := by
  constructor
  · intro h name
    by_cases hzero : b.exponent name = 0
    · rw [hzero]
      decide
    · exact (exponentFits_neg_iff (b.exponentFits_exponent name)).1 (h _ (mem_of_exponent hzero))
  · intro h e he
    rw [exponentFits_neg_iff (b.admissible e he).2, ← exponent_of_mem he]
    exact h e.1

theorem div_eq_some_iff {a b d : Dimension} :
    a.div b = some d ↔ (∀ name, b.exponent name ≠ -9223372036854775808) ∧
      ∀ name, d.exponent name = a.exponent name - b.exponent name := by
  rw [div, foldlM_guard_eq_some_iff (p := fun e : String × Int => exponentFits (-e.2)),
    forall_fits_neg_iff, foldlM_raise_eq_some_iff (f := (-·)) neg_zero]
  rfl

theorem div_isSome_iff {a b : Dimension} :
    (a.div b).isSome = true ↔ (∀ name, b.exponent name ≠ -9223372036854775808) ∧
      ∀ name, exponentFits (a.exponent name - b.exponent name) := by
  have hfold := foldlM_raise_isSome_iff (f := (-·)) neg_zero (a := a) (b := b)
  rw [Option.isSome_iff_exists] at hfold ⊢
  simp only [div, foldlM_guard_eq_some_iff (p := fun e : String × Int => exponentFits (-e.2)),
    forall_fits_neg_iff, exists_and_left, hfold]
  rfl

/-! ### Laws -/

protected theorem mul_comm (a b : Dimension) : a.mul b = b.mul a := by
  apply Option.ext
  intro d
  simp only [mul_eq_some_iff, Int.add_comm]

protected theorem mul_one (a : Dimension) : a.mul one = some a := by
  simp [mul_eq_some_iff]

protected theorem mul_assoc {a b c ab bc : Dimension} (hab : a.mul b = some ab) (hbc : b.mul c = some bc) :
    ab.mul c = a.mul bc := by
  rw [mul_eq_some_iff] at hab hbc
  apply Option.ext
  intro d
  simp only [mul_eq_some_iff, hab, hbc, Int.add_assoc]

protected theorem div_mul_cancel {a b q : Dimension} (h : a.div b = some q) : q.mul b = some a := by
  obtain ⟨-, hq⟩ := div_eq_some_iff.1 h
  rw [mul_eq_some_iff]
  intro name
  rw [hq, Int.sub_add_cancel]

protected theorem mul_div_cancel {a b ab d : Dimension} (h : a.mul b = some ab) (hd : ab.div b = some d) :
    d = a := by
  rw [mul_eq_some_iff] at h
  obtain ⟨-, hd⟩ := div_eq_some_iff.1 hd
  apply ext_exponent
  intro name
  rw [hd, h, Int.add_sub_cancel]

protected theorem pow_add {a p q : Dimension} {j k : Int} (hp : a.pow j = some p) (hq : a.pow k = some q) :
    p.mul q = a.pow (j + k) := by
  rw [pow_eq_some_iff] at hp hq
  apply Option.ext
  intro d
  simp only [mul_eq_some_iff, pow_eq_some_iff, hp, hq, Int.mul_add]

protected theorem mul_pow {a b ab p q : Dimension} {k : Int} (hab : a.mul b = some ab)
    (hp : a.pow k = some p) (hq : b.pow k = some q) : ab.pow k = p.mul q := by
  rw [mul_eq_some_iff] at hab
  rw [pow_eq_some_iff] at hp hq
  apply Option.ext
  intro d
  simp only [mul_eq_some_iff, pow_eq_some_iff, hab, hp, hq, Int.add_mul]

protected theorem pow_mul {a p : Dimension} {j : Int} (hp : a.pow j = some p) (k : Int) :
    p.pow k = a.pow (j * k) := by
  rw [pow_eq_some_iff] at hp
  apply Option.ext
  intro d
  simp only [pow_eq_some_iff, hp, Int.mul_assoc]

end Dimension

/-! ### Tables changed in place -/

namespace Table

/-- No exponent is zero, and all are 64-bit integers. -/
def Canonical (t : Table Int) : Prop := ∀ e ∈ t.entries, e.2 ≠ 0 ∧ exponentFits e.2

/-- The result of a calculation with 64-bit integers. -/
def checked (k : Int) : Option Int := if exponentFits k then some k else none

/-- Adds to one exponent. A name that is missing is entered with zero first, and an exponent that
has become zero is taken out. -/
def addTo (t : Table Int) (name : String) (k : Int) : Option (Table Int) :=
  let held := if t.contains name then t else t.insert name 0
  (checked ((held.find? name).getD 0 + k)).map fun sum =>
    if sum = 0 then (held.insert name sum).erase name else held.insert name sum

/-- Adds the exponents of `u`, or takes them away. -/
def combine (t u : Table Int) (sign : Int) : Option (Table Int) :=
  u.entries.foldlM (fun t e => (checked (e.2 * sign)).bind (t.addTo e.1)) t

/-- Enters the multiples of the exponents, except zeros, into a new table. -/
def multiple (t : Table Int) (k : Int) : Option (Table Int) :=
  t.entries.foldlM
    (fun u e => (checked (e.2 * k)).map fun x => if x = 0 then u else u.insert e.1 x) empty

theorem checked_eq {k : Int} (h : exponentFits k) : checked k = some k := if_pos h

theorem find?_held (t : Table Int) (name other : String) :
    (if t.contains name then t else t.insert name 0).find? other =
      if other = name then some ((t.find? name).getD 0) else t.find? other := by
  by_cases hname : other = name
  · subst hname
    cases hfind : t.find? other with
    | none => simp [contains, hfind, find?_insert]
    | some e => simp [contains, hfind]
  · rw [if_neg hname]
    split
    · rfl
    · rw [find?_insert, if_neg hname]

end Table

namespace Dimension

theorem map_raise (d : Dimension) (name : String) (k : Int) :
    (d.raise name k).map (·.exponents) = (Table.checked (d.exponent name + k)).map fun sum =>
      if sum = 0 then d.exponents.erase name else d.exponents.insert name sum := by
  rw [raise]
  split
  · rename_i hzero
    rw [hzero, Table.checked_eq (by decide), Option.map_some, Option.map_some, if_pos rfl]
  · rename_i hnonzero
    split
    · rename_i hfits
      rw [Table.checked_eq hfits, Option.map_some, Option.map_some, if_neg hnonzero]
    · rename_i hfits
      rw [Table.checked, if_neg hfits]
      rfl

theorem addTo_eq (d : Dimension) (name : String) (k : Int) :
    d.exponents.addTo name k = (d.raise name k).map (·.exponents) := by
  have hheld : ((if d.exponents.contains name then d.exponents
      else d.exponents.insert name 0).find? name).getD 0 = d.exponent name := by
    rw [Table.find?_held, if_pos rfl]
    rfl
  simp only [Table.addTo, hheld, map_raise]
  congr 1
  funext sum
  split
  · apply Table.ext_find?
    intro other
    rw [Table.find?_erase, Table.find?_erase, Table.find?_insert, Table.find?_held]
    split <;> rfl
  · apply Table.ext_find?
    intro other
    rw [Table.find?_insert, Table.find?_insert, Table.find?_held]
    split <;> rfl

/-- A fold over tables follows a fold over dimensions step by step, as long as each dimension is
one that `Awaits` the entries to come. -/
theorem foldlM_exponents (Awaits : List (String × Int) → Dimension → Prop)
    {step : Table Int → String × Int → Option (Table Int)}
    {step' : Dimension → String × Int → Option Dimension}
    (hstep : ∀ e es d, Awaits (e :: es) d → step d.exponents e = (step' d e).map (·.exponents))
    (hnext : ∀ e es d d', Awaits (e :: es) d → step' d e = some d' → Awaits es d')
    {es : List (String × Int)} {a : Dimension} (ha : Awaits es a) :
    es.foldlM step a.exponents = (es.foldlM step' a).map (·.exponents) := by
  induction es generalizing a with
  | nil => rfl
  | cons e es ih =>
    rw [List.foldlM_cons, List.foldlM_cons, hstep e es a ha]
    cases h : step' a e with
    | none => rfl
    | some a' => exact ih (hnext e es a a' ha h)

theorem combine_one_eq (a b : Dimension) :
    a.exponents.combine b.exponents 1 = (a.mul b).map (·.exponents) := by
  refine foldlM_exponents (fun es _ => ∀ e ∈ es, exponentFits e.2)
    (fun e es d h => ?_) (fun e es d d' h _ => (List.forall_mem_cons.1 h).2)
    fun e he => (b.admissible e he).2
  rw [Int.mul_one, Table.checked_eq (List.forall_mem_cons.1 h).1]
  exact d.addTo_eq e.1 e.2

theorem combine_neg_one_eq (a b : Dimension) :
    a.exponents.combine b.exponents (-1) = (a.div b).map (·.exponents) := by
  refine foldlM_exponents (fun _ _ => True) (fun e es d _ => ?_)
    (fun _ _ _ _ _ _ => trivial) trivial
  rw [Int.mul_neg_one]
  split
  · rename_i hfits
    rw [Table.checked_eq hfits]
    exact d.addTo_eq e.1 (-e.2)
  · rename_i hfits
    rw [Table.checked, if_neg hfits]
    rfl

theorem erase_of_exponent_eq_zero {d : Dimension} {name : String} (h : d.exponent name = 0) :
    d.exponents.erase name = d.exponents := by
  apply Table.ext_find?
  intro other
  rw [Table.find?_erase]
  split
  · rename_i hname
    have hnonzero := d.find?_ne_zero name
    rw [exponent] at h
    cases hfind : d.exponents.find? name with
    | none => rw [hname, hfind]
    | some e =>
      rw [hfind] at h hnonzero
      exact absurd (congrArg some h) hnonzero
  · rfl

/-- Raising an exponent from zero enters the new one. -/
theorem raise_new {d : Dimension} {name : String} (hnew : d.exponent name = 0) (x : Int) :
    (d.raise name x).map (·.exponents) = (Table.checked x).map fun x =>
      if x = 0 then d.exponents else d.exponents.insert name x := by
  rw [map_raise, hnew, Int.zero_add, erase_of_exponent_eq_zero hnew]

theorem multiple_eq (a : Dimension) (k : Int) :
    a.exponents.multiple k = (a.pow k).map (·.exponents) := by
  -- The names to come are behind the present one, so their exponents are still zero.
  refine foldlM_exponents
    (fun es d => es.Pairwise (fun a b => a.1 < b.1) ∧ ∀ e ∈ es, d.exponent e.1 = 0)
    (fun e es d h => ?_) (fun e es d d' h hraise => ?_)
    ⟨a.exponents.ascending, fun e _ => exponent_one e.1⟩
  · exact (raise_new (List.forall_mem_cons.1 h.2).1 _).symm
  · obtain ⟨hfirst, hrest⟩ := List.pairwise_cons.1 h.1
    refine ⟨hrest, fun e' he' => ?_⟩
    have hne : e'.1 ≠ e.1 := fun heq => String.lt_irrefl _ (heq ▸ hfirst e' he')
    rw [exponent_raise hraise, if_neg hne]
    exact h.2 e' (List.mem_cons_of_mem e he')

/-! ### The algebra as a whole -/

theorem canonical_of_map {r : Option Dimension} {t : Table Int}
    (h : r.map (·.exponents) = some t) : t.Canonical := by
  obtain ⟨d, -, rfl⟩ := Option.map_eq_some_iff.1 h
  exact d.admissible

/-- Tables without zeros that are changed in place become the tables of the results, and these are
again without zeros. -/
structure InPlace (a b : Dimension) (k : Int) : Prop where
  mul_eq : a.exponents.combine b.exponents 1 = (a.mul b).map (·.exponents)
  div_eq : a.exponents.combine b.exponents (-1) = (a.div b).map (·.exponents)
  pow_eq : a.exponents.multiple k = (a.pow k).map (·.exponents)
  mul_canonical : ∀ t, a.exponents.combine b.exponents 1 = some t → t.Canonical
  div_canonical : ∀ t, a.exponents.combine b.exponents (-1) = some t → t.Canonical
  pow_canonical : ∀ t, a.exponents.multiple k = some t → t.Canonical

/-- When operations have a result, and which. -/
structure ExactExponents (a b : Dimension) (k : Int) : Prop where
  eq_iff : a = b ↔ ∀ name, a.exponent name = b.exponent name
  mul_isSome : (a.mul b).isSome = true ↔
    ∀ name, exponentFits (a.exponent name + b.exponent name)
  mul_exponent : ∀ d, a.mul b = some d →
    ∀ name, d.exponent name = a.exponent name + b.exponent name
  div_isSome : (a.div b).isSome = true ↔
    (∀ name, b.exponent name ≠ -9223372036854775808) ∧
      ∀ name, exponentFits (a.exponent name - b.exponent name)
  div_exponent : ∀ d, a.div b = some d →
    ∀ name, d.exponent name = a.exponent name - b.exponent name
  pow_isSome : (a.pow k).isSome = true ↔ ∀ name, exponentFits (a.exponent name * k)
  pow_exponent : ∀ d, a.pow k = some d → ∀ name, d.exponent name = a.exponent name * k

/-- The laws of a commutative group and of its powers. An equation between two results that may be
missing says also that they are missing together. -/
structure GroupLaws (a b c : Dimension) (j k : Int) : Prop where
  mul_comm : a.mul b = b.mul a
  mul_one : a.mul one = some a
  one_mul : one.mul a = some a
  mul_assoc : ∀ ab bc, a.mul b = some ab → b.mul c = some bc → ab.mul c = a.mul bc
  mul_div : ∀ ab d, a.mul b = some ab → ab.div b = some d → d = a
  div_mul : ∀ q, a.div b = some q → q.mul b = some a
  pow_add : ∀ p q, a.pow j = some p → a.pow k = some q → p.mul q = a.pow (j + k)
  mul_pow : ∀ ab p q, a.mul b = some ab → a.pow k = some p → b.pow k = some q →
    ab.pow k = p.mul q
  pow_mul : ∀ p, a.pow j = some p → p.pow k = a.pow (j * k)

theorem inPlace (a b : Dimension) (k : Int) : InPlace a b k where
  mul_eq := a.combine_one_eq b
  div_eq := a.combine_neg_one_eq b
  pow_eq := a.multiple_eq k
  mul_canonical _ h := canonical_of_map ((a.combine_one_eq b).symm.trans h)
  div_canonical _ h := canonical_of_map ((a.combine_neg_one_eq b).symm.trans h)
  pow_canonical _ h := canonical_of_map ((a.multiple_eq k).symm.trans h)

theorem exactExponents (a b : Dimension) (k : Int) : ExactExponents a b k where
  eq_iff := ⟨fun h name => by rw [h], ext_exponent⟩
  mul_isSome := mul_isSome_iff
  mul_exponent _ h := mul_eq_some_iff.1 h
  div_isSome := div_isSome_iff
  div_exponent _ h := (div_eq_some_iff.1 h).2
  pow_isSome := pow_isSome_iff
  pow_exponent _ h := pow_eq_some_iff.1 h

theorem groupLaws (a b c : Dimension) (j k : Int) : GroupLaws a b c j k where
  mul_comm := a.mul_comm b
  mul_one := a.mul_one
  one_mul := (one.mul_comm a).trans a.mul_one
  mul_assoc _ _ := Dimension.mul_assoc
  mul_div _ _ := Dimension.mul_div_cancel
  div_mul _ := Dimension.div_mul_cancel
  pow_add _ _ := Dimension.pow_add
  mul_pow _ _ _ := Dimension.mul_pow
  pow_mul _ hp := Dimension.pow_mul hp k

/-- The operations on dimensions are exact: changing tables in place, entry by entry, leaves no
zeros behind; a result exists exactly when its exponents do, and has them; and what exists obeys the
laws of a commutative group. -/
theorem operations_exact (a b c : Dimension) (j k : Int) :
    InPlace a b k ∧ ExactExponents a b k ∧ GroupLaws a b c j k :=
  ⟨inPlace a b k, exactExponents a b k, groupLaws a b c j k⟩

-- A dimension with the least exponent cannot be divided by itself, although all differences are
-- zero.
example : ((base "m").pow (-9223372036854775808)).bind (fun d => d.div d) = none := by decide

end Dimension

end UnitCalc
