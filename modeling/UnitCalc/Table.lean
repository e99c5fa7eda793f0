/-! Tables from names to values. The entries stand in increasing order of their names, and a
name occurs once, so a table is determined by what it finds: two tables that find the same
value under every name hold the same list of entries. -/

namespace UnitCalc

structure Table (α : Type) where
  entries : List (String × α)
  ascending : entries.Pairwise fun a b => a.1 < b.1
deriving DecidableEq

namespace Table

variable {α : Type}

/-- Puts an entry where its name belongs, in place of an entry of the same name. -/
def place (name : String) (a : α) : List (String × α) → List (String × α)
  | [] => [(name, a)]
  | e :: es =>
    if name < e.1 then (name, a) :: e :: es
    else if name = e.1 then (name, a) :: es
    else e :: place name a es

theorem mem_place {name : String} {a : α} {e : String × α} {es : List (String × α)}
    (h : e ∈ place name a es) : e = (name, a) ∨ e ∈ es := by
  induction es with
  | nil => simpa [place] using h
  | cons d es ih =>
    rw [place] at h
    split at h
    · simpa using h
    · split at h
      · rcases List.mem_cons.1 h with h | h
        · exact .inl h
        · exact .inr (List.mem_cons_of_mem _ h)
      · rcases List.mem_cons.1 h with h | h
        · exact .inr (h ▸ List.mem_cons_self)
        · exact (ih h).imp_right (List.mem_cons_of_mem _)

theorem lt_of_not_lt_of_ne {a b : String} (h : ¬ a < b) (hne : a ≠ b) : b < a := by
  by_cases hba : b < a
  · exact hba
  · exact absurd (String.le_antisymm (String.not_lt.1 hba) (String.not_lt.1 h)) hne

theorem place_ascending (name : String) (a : α) {es : List (String × α)}
    (h : es.Pairwise fun a b => a.1 < b.1) :
    (place name a es).Pairwise fun a b => a.1 < b.1 := by
  induction es with
  | nil => simp [place]
  | cons d es ih =>
    obtain ⟨hd, hes⟩ := List.pairwise_cons.1 h
    rw [place]
    split
    · rename_i hlt
      refine List.pairwise_cons.2 ⟨fun e he => ?_, h⟩
      rcases List.mem_cons.1 he with rfl | he
      · exact hlt
      · exact String.lt_trans hlt (hd e he)
    · rename_i hlt
      split
      · rename_i heq
        exact List.pairwise_cons.2 ⟨fun e he => heq ▸ hd e he, hes⟩
      · rename_i hne
        refine List.pairwise_cons.2 ⟨fun e he => ?_, ih hes⟩
        rcases mem_place he with rfl | he
        · exact lt_of_not_lt_of_ne hlt hne
        · exact hd e he

def empty : Table α := ⟨[], .nil⟩

def find? (t : Table α) (name : String) : Option α := t.entries.lookup name

def contains (t : Table α) (name : String) : Bool := (t.find? name).isSome

def insert (t : Table α) (name : String) (a : α) : Table α :=
  ⟨place name a t.entries, place_ascending name a t.ascending⟩

def erase (t : Table α) (name : String) : Table α :=
  ⟨t.entries.filter (·.1 ≠ name), t.ascending.filter _⟩

def names (t : Table α) : List String := t.entries.map (·.1)

/-! ### What a table finds -/

theorem lookup_cons (e : String × α) (es : List (String × α)) (name : String) :
    (e :: es).lookup name = if name = e.1 then some e.2 else es.lookup name := by
  obtain ⟨k, a⟩ := e
  by_cases h : name = k
  · simp [h]
  · simp [h, List.lookup_cons, beq_false_of_ne h]

theorem lookup_place (name other : String) (a : α) (es : List (String × α)) :
    (place name a es).lookup other = if other = name then some a else es.lookup other := by
  induction es with
  | nil => exact lookup_cons (name, a) [] other
  | cons d es ih =>
    rw [place]
    split
    · exact lookup_cons (name, a) _ other
    · split
      · rename_i hd
        rw [lookup_cons, lookup_cons, ← hd]
        split <;> rfl
      · rename_i hd
        rw [lookup_cons, lookup_cons, ih]
        grind

@[simp] theorem find?_empty (name : String) : (empty : Table α).find? name = none := rfl

theorem find?_insert (t : Table α) (name other : String) (a : α) :
    (t.insert name a).find? other = if other = name then some a else t.find? other :=
  lookup_place name other a t.entries

/-- A new entry hides none that was there. -/
theorem find?_insert_new {t : Table α} {name other : String} {a b : α}
    (hnew : t.contains name = false) (h : t.find? other = some b) :
    (t.insert name a).find? other = some b := by
  have hne : other ≠ name := by
    rintro rfl
    rw [contains, h] at hnew
    cases hnew
  rw [find?_insert, if_neg hne, h]

theorem find?_erase (t : Table α) (name other : String) :
    (t.erase name).find? other = if other = name then none else t.find? other := by
  obtain ⟨es, hes⟩ := t
  simp only [find?, erase]
  clear hes
  induction es with
  | nil => simp
  | cons d es ih =>
    rw [List.filter_cons, lookup_cons]
    split
    · rw [lookup_cons, ih]
      grind
    · rw [ih]
      grind

theorem mem_of_lookup {name : String} {a : α} {es : List (String × α)}
    (h : es.lookup name = some a) : (name, a) ∈ es := by
  induction es with
  | nil => simp at h
  | cons e es ih =>
    rw [lookup_cons] at h
    split at h
    · rename_i hn
      have he : (name, a) = e := Prod.ext hn (Option.some.inj h).symm
      exact he ▸ List.mem_cons_self
    · exact List.mem_cons_of_mem _ (ih h)

theorem mem_of_find? {t : Table α} {name : String} {a : α} (h : t.find? name = some a) :
    (name, a) ∈ t.entries :=
  mem_of_lookup h

theorem lookup_eq_none {name : String} {es : List (String × α)} (h : ∀ e ∈ es, name < e.1) :
    es.lookup name = none := by
  induction es with
  | nil => rfl
  | cons e es ih =>
    have hlt := h e List.mem_cons_self
    have hne : name ≠ e.1 := fun heq => String.lt_irrefl _ (heq ▸ hlt)
    rw [lookup_cons, if_neg hne]
    exact ih fun d hd => h d (List.mem_cons_of_mem _ hd)

theorem lookup_eq_none_of_lt_head {name : String} {e : String × α} {es : List (String × α)}
    (h : (e :: es).Pairwise fun a b => a.1 < b.1) (hlt : name < e.1) :
    (e :: es).lookup name = none := by
  refine lookup_eq_none fun d hd => ?_
  rcases List.mem_cons.1 hd with rfl | hd
  · exact hlt
  · exact String.lt_trans hlt ((List.pairwise_cons.1 h).1 d hd)

theorem entries_ext {es ds : List (String × α)} (hes : es.Pairwise fun a b => a.1 < b.1)
    (hds : ds.Pairwise fun a b => a.1 < b.1) (h : ∀ name, es.lookup name = ds.lookup name) :
    es = ds := by
  induction es generalizing ds with
  | nil =>
    cases ds with
    | nil => rfl
    | cons d ds => simpa [lookup_cons] using h d.1
  | cons e es ih =>
    cases ds with
    | nil => simpa [lookup_cons] using h e.1
    | cons d ds =>
      have hname : e.1 = d.1 := by
        by_cases hed : e.1 < d.1
        · have := h e.1
          rw [lookup_eq_none_of_lt_head hds hed] at this
          simp [lookup_cons] at this
        · by_cases hde : d.1 < e.1
          · have := h d.1
            rw [lookup_eq_none_of_lt_head hes hde] at this
            simp [lookup_cons] at this
          · exact String.le_antisymm (String.not_lt.1 hde) (String.not_lt.1 hed)
      have hvalue : e.2 = d.2 := by simpa [lookup_cons, hname] using h e.1
      have htail : es = ds := by
        refine ih (List.pairwise_cons.1 hes).2 (List.pairwise_cons.1 hds).2 fun name => ?_
        by_cases hn : name = e.1
        · rw [lookup_eq_none (hn ▸ (List.pairwise_cons.1 hes).1),
            lookup_eq_none (hn.trans hname ▸ (List.pairwise_cons.1 hds).1)]
        · have := h name
          rwa [lookup_cons, lookup_cons, if_neg hn, if_neg (hname ▸ hn)] at this
      rw [htail, Prod.ext hname hvalue]

/-- A table is determined by what it finds. -/
theorem ext_find? {s t : Table α} (h : ∀ name, s.find? name = t.find? name) : s = t := by
  obtain ⟨es, hes⟩ := s
  obtain ⟨ds, hds⟩ := t
  have : es = ds := entries_ext hes hds h
  subst this
  rfl

end Table

end UnitCalc
