import UnitCalc.Proofs.Growth
import UnitCalc.Proofs.Mentions

/-! Independent declarations. A line that declares a new name adds one entry to the tables, and
which entry that is depends on what the line mentions alone. So two such lines, of which neither
mentions the name of the other, may be run in either order, as long as the bodies of functions that
are there mention neither name. -/

namespace UnitCalc

/-! ### Entries -/

namespace Table

variable {α : Type}

theorem insert_comm (t : Table α) {name name' : String} (h : name ≠ name') (a a' : α) :
    (t.insert name a).insert name' a' = (t.insert name' a').insert name a := by
  apply ext_find?
  intro other
  simp only [find?_insert]
  split
  · rename_i hother
    rw [if_neg (hother ▸ h.symm)]
  · rfl

theorem find?_insert_other (t : Table α) {name other : String} (a : α) (h : other ≠ name) :
    (t.insert name a).find? other = t.find? other := by
  rw [find?_insert, if_neg h]

theorem contains_insert_other (t : Table α) {name other : String} (a : α) (h : other ≠ name) :
    (t.insert name a).contains other = t.contains other := by
  rw [contains, find?_insert_other t a h, contains]

end Table

def Entry.name : Entry → String
  | unit name | var name _ | function name _ => name

namespace State

/-- A state with one more entry. -/
def add (s : State) : Entry → State
  | .unit name => { s with units := s.units.insert name () }
  | .var name v => { s with vars := s.vars.insert name v }
  | .function name f => { s with functions := s.functions.insert name f }

theorem add_comm (s : State) {entry entry' : Entry} (h : entry.name ≠ entry'.name) :
    (s.add entry).add entry' = (s.add entry').add entry := by
  cases entry <;> cases entry' <;> simp only [Entry.name] at h <;>
    simp only [add, Table.insert_comm _ h]

/-- An entry is of no concern to other names. -/
theorem lookup_add (s : State) (entry : Entry) {name : String} (h : name ≠ entry.name) :
    (s.add entry).lookup name = s.lookup name := by
  cases entry <;> simp only [Entry.name] at h <;>
    simp only [add, lookup, Table.contains_insert_other _ _ h, Table.find?_insert_other _ _ h] <;>
    cases s.vars.find? name <;> rfl

theorem isDefined_add (s : State) (entry : Entry) {name : String} (h : name ≠ entry.name) :
    (s.add entry).isDefined name = s.isDefined name := by
  cases entry <;> simp only [Entry.name] at h <;>
    simp only [add, isDefined, Table.contains_insert_other _ _ h]

/-- No body of a function mentions a name. -/
def BodiesAvoid (s : State) (name : String) : Prop :=
  ∀ f g, s.functions.find? f = some g → name ∉ g.body.mentions

theorem agreeOn_add {s : State} {entry : Entry} {names : List String} (h : entry.name ∉ names) :
    s.AgreeOn (s.add entry) names := by
  intro name hname
  refine s.lookup_add entry ?_
  rintro rfl
  exact h hname

theorem includes_add {s : State} {entry : Entry} (hnew : s.isDefined entry.name = false)
    (hbodies : s.BodiesAvoid entry.name) : s.Includes (s.add entry) where
  functions name g hg := by
    cases entry with
    | unit | var => exact hg
    | function other f => exact Table.find?_insert_new (isDefined_eq_false hnew).2.2 hg
  bodies name g hg := agreeOn_add (hbodies name g hg)
  precision := by cases entry <;> rfl

end State

/-! ### Lines that declare -/

namespace Line

/-- The name that a line declares, if it is not defined yet. -/
def declared? : Line → Option String
  | unit name _ => some name.name
  | binding b => some b.name.name
  | blank | print _ _ | expr _ => none

/-- The names that the right side of a line mentions. -/
def mentions : Line → List String
  | binding b => b.rhs.mentions
  | print e _ | expr e => e.mentions
  | blank | unit _ _ => []

end Line

namespace State

/-- The entry that a line adds if the name that it declares is new, and what the line gives. -/
def declaration (s : State) : Line → Except EvalError (Entry × Outcome)
  | .unit name _ => .ok (.unit name.name, .empty)
  | .binding ⟨name, none, rhs, _⟩ =>
    (s.eval rhs).map fun v => (.var name.name v, .value v)
  | .binding ⟨name, some params, rhs, _⟩ =>
    .ok (.function name.name ⟨params.map (·.name), rhs⟩, .empty)
  -- The other lines declare nothing, and no lemma is about them.
  | .blank | .print _ _ | .expr _ => .ok (.unit "", .empty)

theorem name_of_declaration {s : State} {line : Line} {name : String}
    (hline : line.declared? = some name) {entry : Entry} {o : Outcome}
    (h : s.declaration line = .ok (entry, o)) : entry.name = name := by
  cases line with
  | blank | print | expr => cases hline
  | unit id span =>
    cases hline
    cases h
    rfl
  | binding b =>
    obtain ⟨id, params, rhs, span⟩ := b
    cases hline
    cases params with
    | none =>
      obtain ⟨v, -, heq⟩ := map_eq_ok.1 h
      cases heq
      rfl
    | some params =>
      cases h
      rfl

/-- A line that declares a new name adds its entry, or fails and adds none. -/
theorem runLine_new {s : State} {line : Line} {name : String} (hline : line.declared? = some name)
    (hnew : s.isDefined name = false) :
    s.runLine line = (s.declaration line).map fun (entry, o) => (s.add entry, o) := by
  obtain ⟨hunits, hvars, hfunctions⟩ := isDefined_eq_false hnew
  cases line with
  | blank | print | expr => cases hline
  | unit id span =>
    cases hline
    simp only [runLine, resolve, execute, hunits]
    rfl
  | binding b =>
    obtain ⟨id, params, rhs, span⟩ := b
    cases hline
    cases params with
    | none =>
      simp only [runLine, resolve, hnew, Bool.false_eq_true, if_false, Binding.asDeclaration,
        execute, hvars, declaration]
      cases s.eval rhs <;> rfl
    | some params =>
      simp only [runLine, resolve, hnew, Bool.false_eq_true, if_false, Binding.asDeclaration,
        execute, hfunctions]
      rfl

theorem declaration_eq {s s' : State} (hs : s.KnowsVars) (h : s.Includes s') {line : Line}
    (hline : s.AgreeOn s' line.mentions) : s'.declaration line = s.declaration line := by
  cases line with
  | blank | print | expr | unit => rfl
  | binding b =>
    obtain ⟨id, params, rhs, span⟩ := b
    cases params with
    | none => rw [declaration, declaration, eval_eq hs h hline]
    | some params => rfl

/-! ### The two orders -/

/-- A state with the entry of a declaration, unless that has failed. -/
def declare (s : State) : Except EvalError (Entry × Outcome) → State
  | .ok (entry, _) => s.add entry
  | .error _ => s

theorem runProgram_new {s : State} {source : String} {line : Line}
    (hread : parseProgram source = .ok [line]) {name : String} (hline : line.declared? = some name)
    (hnew : s.isDefined name = false) :
    s.runProgram source =
      (s.declare (s.declaration line), mapBoth (.eval 1) (fun r => [r.2]) (s.declaration line)) := by
  rw [runProgram, hread]
  simp only [runLines, runLine_new hline hnew]
  cases s.declaration line <;> rfl

/-- What one line leaves is no concern of a line that is independent of it. -/
theorem declaration_declare {s : State} (hs : s.KnowsVars) {line line' : Line} {name : String}
    (hline : line.declared? = some name) (hnew : s.isDefined name = false)
    (hbodies : s.BodiesAvoid name) (hmentions : name ∉ line'.mentions) :
    (s.declare (s.declaration line)).declaration line' = s.declaration line' := by
  cases hdeclaration : s.declaration line with
  | error err => rfl
  | ok r =>
    obtain ⟨entry, o⟩ := r
    have hname : entry.name = name := name_of_declaration hline hdeclaration
    subst hname
    exact declaration_eq hs (includes_add hnew hbodies) (agreeOn_add hmentions)

theorem isDefined_declare {s : State} {line : Line} {name other : String}
    (hline : line.declared? = some name) (h : other ≠ name) :
    (s.declare (s.declaration line)).isDefined other = s.isDefined other := by
  cases hdeclaration : s.declaration line with
  | error err => rfl
  | ok r =>
    obtain ⟨entry, o⟩ := r
    have hname : entry.name = name := name_of_declaration hline hdeclaration
    exact s.isDefined_add entry (hname ▸ h)

theorem declare_comm {s : State} {line line' : Line} {name name' : String}
    (hline : line.declared? = some name) (hline' : line'.declared? = some name')
    (h : name ≠ name') :
    (s.declare (s.declaration line)).declare (s.declaration line') =
      (s.declare (s.declaration line')).declare (s.declaration line) := by
  cases hdeclaration : s.declaration line with
  | error err => cases s.declaration line' <;> rfl
  | ok r =>
    cases hdeclaration' : s.declaration line' with
    | error err => rfl
    | ok r' =>
      refine s.add_comm ?_
      rwa [name_of_declaration hline hdeclaration, name_of_declaration hline' hdeclaration']

/-- Two lines that declare different new names, neither of which mentions the name of the other,
may be run in either order: each gives the same result or error, and they leave the same state. The
bodies of the functions that are declared before must not mention the names. -/
theorem declarations_commute {s : State} (hs : s.Arises) {source₁ source₂ : String}
    {line₁ line₂ : Line} (hread₁ : parseProgram source₁ = .ok [line₁])
    (hread₂ : parseProgram source₂ = .ok [line₂]) {name₁ name₂ : String}
    (hline₁ : line₁.declared? = some name₁) (hline₂ : line₂.declared? = some name₂)
    (hne : name₁ ≠ name₂) (hnew₁ : s.isDefined name₁ = false) (hnew₂ : s.isDefined name₂ = false)
    (hmentions₁ : name₂ ∉ line₁.mentions) (hmentions₂ : name₁ ∉ line₂.mentions)
    (hbodies : ∀ f g, s.functions.find? f = some g →
      name₁ ∉ g.body.mentions ∧ name₂ ∉ g.body.mentions) :
    ((s.runProgram source₁).1.runProgram source₂).2 = (s.runProgram source₂).2 ∧
      ((s.runProgram source₂).1.runProgram source₁).2 = (s.runProgram source₁).2 ∧
      ((s.runProgram source₁).1.runProgram source₂).1 =
        ((s.runProgram source₂).1.runProgram source₁).1 := by
  have hbodies₁ : s.BodiesAvoid name₁ := fun f g hg => (hbodies f g hg).1
  have hbodies₂ : s.BodiesAvoid name₂ := fun f g hg => (hbodies f g hg).2
  have hfirst : (s.runProgram source₁).1.runProgram source₂ = _ :=
    runProgram_new hread₂ hline₂ (by
      rw [runProgram_new hread₁ hline₁ hnew₁, isDefined_declare hline₁ hne.symm, hnew₂])
  have hsecond : (s.runProgram source₂).1.runProgram source₁ = _ :=
    runProgram_new hread₁ hline₁ (by
      rw [runProgram_new hread₂ hline₂ hnew₂, isDefined_declare hline₂ hne, hnew₁])
  rw [hfirst, hsecond, runProgram_new hread₁ hline₁ hnew₁, runProgram_new hread₂ hline₂ hnew₂,
    declaration_declare hs.knowsVars hline₁ hnew₁ hbodies₁ hmentions₂,
    declaration_declare hs.knowsVars hline₂ hnew₂ hbodies₂ hmentions₁]
  exact ⟨rfl, rfl, declare_comm hline₁ hline₂ hne⟩

/-- A unit, a number and a function that multiplies by it. -/
def tripling : State := ((initial 50).runProgram "unit m\nc = 3\nf(x) = c x").1

/-- A variable and a recursive function with a parameter of that name; both call the function that
is there. -/
theorem declarations_commute_tripling :
    ((tripling.runProgram "d = f(2 km)").1.runProgram "g(d) = f(3) g(2)").2 =
        (tripling.runProgram "g(d) = f(3) g(2)").2 ∧
      ((tripling.runProgram "g(d) = f(3) g(2)").1.runProgram "d = f(2 km)").2 =
        (tripling.runProgram "d = f(2 km)").2 ∧
      ((tripling.runProgram "d = f(2 km)").1.runProgram "g(d) = f(3) g(2)").1 =
        ((tripling.runProgram "g(d) = f(3) g(2)").1.runProgram "d = f(2 km)").1 := by
  have hvariable : parseProgram "d = f(2 km)" = .ok [.binding ⟨⟨"d", ⟨0, 1⟩⟩, none,
      .call ⟨"f", ⟨4, 5⟩⟩ [.binary .mul (.number ⟨2, 0⟩ ⟨6, 7⟩) (.name ⟨"km", ⟨8, 10⟩⟩) ⟨6, 10⟩]
        ⟨4, 11⟩, ⟨0, 11⟩⟩] := by
    decide +kernel
  have hfunction : parseProgram "g(d) = f(3) g(2)" = .ok [.binding ⟨⟨"g", ⟨0, 1⟩⟩,
      some [⟨"d", ⟨2, 3⟩⟩], .binary .mul (.call ⟨"f", ⟨7, 8⟩⟩ [.number ⟨3, 0⟩ ⟨9, 10⟩] ⟨7, 11⟩)
        (.call ⟨"g", ⟨12, 13⟩⟩ [.number ⟨2, 0⟩ ⟨14, 15⟩] ⟨12, 16⟩) ⟨7, 16⟩, ⟨0, 16⟩⟩] := by
    decide +kernel
  have hbodies : ∀ entry ∈ tripling.functions.entries,
      "d" ∉ entry.2.body.mentions ∧ "g" ∉ entry.2.body.mentions := by
    decide +kernel
  exact declarations_commute ((Arises.initial 50).runProgram _) hvariable hfunction rfl rfl
    (by decide) (by decide +kernel) (by decide +kernel) (by decide +kernel) (by decide +kernel)
    fun f g hg => hbodies (f, g) (Table.mem_of_find? hg)

end State

end UnitCalc
