import UnitCalc.Proofs.ReadBack

/-! The text of a unit tells it from every other unit. The text is scanned into the words of its
factors one after the other, and since every factor begins with a name, the words of one factor end
where those of the next begin. So when a program is refused because two units differ, the message
shows two different texts. -/

namespace UnitCalc

open Token (IsName Spells signWords)

/-! ### Names -/

namespace Token

/-- A name that is scanned as an identifier when it stands alone. -/
def StandsAlone (name : String) : Prop :=
  (tokenize name).map word = [(.identifier, name), (.endOfInput, "")]

instance (name : String) : Decidable (StandsAlone name) :=
  inferInstanceAs (Decidable (_ = _))

theorem StandsAlone.isName {name : String} (h : StandsAlone name) : IsName name.toList := by
  rw [StandsAlone, tokenize, scan_eq, List.map_append] at h
  have hwords : (lexemes 0 0 name.toList).map word = [(.identifier, name)] :=
    List.append_inj_left' h rfl
  obtain ⟨t, ht, hword⟩ := List.map_eq_singleton_iff.1 hwords
  have hkind : t.kind = .identifier := congrArg Prod.fst hword
  have hlexeme : t.lexeme = name := congrArg Prod.snd hword
  have hcontent : content 0 name.toList = [t] := by
    rw [content, ht, List.filter_cons_of_pos (by rw [hkind]; rfl), List.filter_nil]
  have hstray : ∀ u ∈ content 0 name.toList, u.kind ≠ .stray := by
    rw [hcontent]
    intro u hu
    rw [List.mem_singleton.1 hu, hkind]
    decide
  rw [← hlexeme]
  refine isName_of_mem hstray ?_ hkind
  rw [hcontent]
  exact List.mem_singleton_self t

example : StandsAlone "µs" ∧ ¬ StandsAlone "unit" := by decide

/-! ### Words -/

/-- Words that do not go on with an exponent. -/
def NoCaret (ws : List (Kind × String)) : Prop := ∀ w ∈ ws.head?, w.1 ≠ .caret

end Token

open Token (NoCaret StandsAlone)

/-- The digits of a number write no other. -/
theorem Digits.repr_inj {m n : Nat} (h : m.repr = n.repr) : m = n := by
  rw [← (writes_repr m).toNat_eq, h, (writes_repr n).toNat_eq]

namespace Dimension

theorem noCaret_factors (fs : List (String × Int)) : NoCaret (fs.flatMap factorWords) := by
  cases fs with
  | nil => exact nofun
  | cons f fs =>
    rintro _ ⟨⟩
    nofun

/-- The words of an exponent with its sign write no other exponent. -/
theorem signWords_append_inj {y z : Int} {ws ws' : List (Token.Kind × String)}
    (h : signWords y ++ (.integer, y.natAbs.repr) :: ws =
      signWords z ++ (.integer, z.natAbs.repr) :: ws') : y = z ∧ ws = ws' := by
  have hmagnitude : ∀ {v v' : List (Token.Kind × String)},
      (.integer, y.natAbs.repr) :: v = (.integer, z.natAbs.repr) :: v' →
        y.natAbs = z.natAbs ∧ v = v' := by
    intro v v' h
    obtain ⟨hword, hv⟩ := List.cons.inj h
    exact ⟨Digits.repr_inj (congrArg Prod.snd hword), hv⟩
  simp only [signWords] at h
  split at h <;> split at h
  · obtain ⟨habs, hws⟩ := hmagnitude (List.cons.inj h).2
    exact ⟨by omega, hws⟩
  · cases h
  · cases h
  · obtain ⟨habs, hws⟩ := hmagnitude h
    exact ⟨by omega, hws⟩

/-- The words of a factor are over where no exponent follows. -/
theorem factorWords_append_inj {f g : String × Int} {ws ws' : List (Token.Kind × String)}
    (hws : NoCaret ws) (hws' : NoCaret ws') (h : factorWords f ++ ws = factorWords g ++ ws') :
    f = g ∧ ws = ws' := by
  obtain ⟨name, y⟩ := f
  obtain ⟨name', z⟩ := g
  rw [factorWords, factorWords, List.cons_append, List.cons_append] at h
  obtain ⟨hhead, hrest⟩ := List.cons.inj h
  have hname : name = name' := congrArg Prod.snd hhead
  subst hname
  simp only at hrest
  split at hrest <;> split at hrest
  · rename_i hy hz
    exact ⟨by rw [hy, hz], hrest⟩
  · rw [List.nil_append] at hrest
    subst hrest
    exact absurd rfl (hws _ rfl)
  · rw [List.nil_append] at hrest
    subst hrest
    exact absurd rfl (hws' _ rfl)
  · rw [List.cons_append, List.cons_append, List.append_assoc, List.append_assoc] at hrest
    obtain ⟨hexponent, hws⟩ := signWords_append_inj (List.cons.inj hrest).2
    exact ⟨by rw [hexponent], hws⟩

theorem factors_inj {fs gs : List (String × Int)}
    (h : fs.flatMap factorWords = gs.flatMap factorWords) : fs = gs := by
  induction fs generalizing gs with
  | nil =>
    cases gs with
    | nil => rfl
    | cons g gs => cases h
  | cons f fs ih =>
    cases gs with
    | nil => cases h
    | cons g gs =>
      rw [List.flatMap_cons, List.flatMap_cons] at h
      obtain ⟨hfg, hrest⟩ := factorWords_append_inj (noCaret_factors fs) (noCaret_factors gs) h
      rw [hfg, ih hrest]

theorem eq_of_factors_eq {a b : Dimension} (h : a.factors = b.factors) : a = b := by
  have hmem : ∀ f, f ∈ a.exponents.entries ↔ f ∈ b.exponents.entries := fun f => by
    rw [← mem_factors, h, mem_factors]
  refine ext_exponent fun name => ?_
  by_cases hb : b.exponent name = 0
  · by_contra hne
    have ha : a.exponent name ≠ 0 := fun ha => hne (ha.trans hb.symm)
    exact hne (exponent_of_mem ((hmem _).1 (mem_of_exponent ha))).symm
  · exact exponent_of_mem ((hmem _).2 (mem_of_exponent hb))

/-! ### Texts -/

/-- What the text of a unit is scanned into. -/
def words (d : Dimension) : List (Token.Kind × String) :=
  if d.isOne then [(.integer, "1")] else d.factors.flatMap factorWords

theorem spells_text {d : Dimension} (hd : d.Over fun name => IsName name.toList) :
    Spells d.text.toList d.words := by
  rw [words]
  split
  · rename_i hone
    have hnumeral : Numeral .integer "1".toList ⟨1, 0⟩ := .integer (Digits.writes_repr 1)
    rw [text, if_pos hone]
    exact Token.spells_nil.numeral hnumeral Token.ends_nil
  · rename_i hone
    obtain ⟨f, fs, hfs, htext⟩ := exists_factors (Bool.eq_false_iff.2 hone)
    have hnames : ∀ g ∈ f :: fs, IsName g.1.toList := fun g hg =>
      hd g (mem_factors.1 (hfs ▸ hg))
    obtain ⟨hf, hnames⟩ := List.forall_mem_cons.1 hnames
    rw [htext, hfs, List.flatMap_cons]
    exact spells_factor hf (spells_factors hnames) (ends_factors fs)

theorem words_inj {a b : Dimension} (h : a.words = b.words) : a = b := by
  have hone : ∀ {d : Dimension}, d.isOne = false → d.words ≠ [(.integer, "1")] := by
    intro d hd hwords
    obtain ⟨f, fs, hfs, -⟩ := exists_factors hd
    rw [words, hd, hfs] at hwords
    cases hwords
  cases ha : a.isOne <;> cases hb : b.isOne
  · rw [words, words, ha, hb] at h
    exact eq_of_factors_eq (factors_inj h)
  · refine absurd (h.trans ?_) (hone ha)
    rw [words, hb]
    rfl
  · refine absurd (h.symm.trans ?_) (hone hb)
    rw [words, ha]
    rfl
  · exact exponent_eq_iff.1 (((isOne_iff a).1 ha).trans ((isOne_iff b).1 hb).symm)

theorem text_inj {a b : Dimension} (ha : a.Over fun name => IsName name.toList)
    (hb : b.Over fun name => IsName name.toList) (h : a.text = b.text) : a = b := by
  have hwords := spells_text ha 0
  rw [h, spells_text hb 0] at hwords
  exact (words_inj hwords).symm

end Dimension

/-! ### Messages -/

namespace State

/-- A fault about two units that shows different texts for them, unless one is an exponent's. -/
def ShowsApart (f : Fault) : Prop :=
  ∀ op l r, f = .incompatibleUnits op l r → op ≠ .pow → l.text ≠ r.text

theorem Calculates.showsApart {s : State} (hs : s.UnitsNamed) {f : Fault} (h : s.Calculates f) :
    ShowsApart f := by
  rintro op l r rfl hop htext
  obtain ⟨⟨hl, hr⟩, hne⟩ := h
  have hname : ∀ name, s.IsBase name → IsName name.toList := fun name hbase => hs name hbase.1
  exact hne hop (Dimension.text_inj (hl.mono hname) (hr.mono hname) htext)

theorem Refuses.showsApart {s : State} {statement : Statement} {err : EvalError}
    (h : Refuses s statement err) (hs : s.WellFormed) (hnamed : s.UnitsNamed) :
    ShowsApart err.fault := by
  cases h with
  | takenUnit | takenVariable | takenFunction => exact nofun
  | declared name rhs span err herr => exact Calculates.showsApart hnamed ((hs.eval rhs).error herr)
  | print e span err herr => exact Calculates.showsApart hnamed ((hs.eval e).error herr)
  | eval e err herr => exact Calculates.showsApart hnamed ((hs.eval e).error herr)

theorem keeps_showsApart :
    Keeps (fun l => l.ParamsDistinct ∧ l.UnitNamed) (fun s => s.WellFormed ∧ s.UnitsNamed)
      (fun _ => True) fun err => ShowsApart err.fault where
  ok hs hl h :=
    ⟨⟨(keeps_wellFormed.ok hs.1 hl.1 h).1, (keeps_unitsNamed.ok hs.2 hl.2 h).1⟩, trivial⟩
  error hs _ h := by
    obtain ⟨statement, -, hrefuses⟩ := runLine_eq_error h
    exact hrefuses.showsApart hs.1 hs.2

theorem runProgram_showsApart {s : State} (hs : s.WellFormed) (hnamed : s.UnitsNamed)
    {source : String} {k : Nat} {err : EvalError}
    (h : (s.runProgram source).2 = .error (.eval k err)) : ShowsApart err.fault := by
  have hlines : ∀ lines, parseProgram source = .ok lines →
      ∀ l ∈ lines, l.ParamsDistinct ∧ l.UnitNamed := by
    intro lines hparse l hl
    obtain ⟨tl, hmem, hline⟩ := parseProgram_derives hparse l hl
    exact ⟨hline.paramsDistinct, Line.unitNamed_of_derives hmem hline⟩
  exact (keeps_showsApart.runProgram hlines ⟨hs, hnamed⟩).2 k err h

/-- Units whose base units have names that are scanned as identifiers have equal texts only if they
are equal, and only the unit of pure numbers is written `1`. So when a source that is run in any
session is refused because an operator other than a power was given two units, the texts that are
shown for them differ. -/
theorem unit_texts_differ :
    (∀ a b : Dimension, a.Over StandsAlone → b.Over StandsAlone → a.text = b.text → a = b) ∧
    (∀ a : Dimension, a.Over StandsAlone → (a.text = "1" ↔ a = .one)) ∧
    ∀ precision sources source k err op l r,
      ((session precision sources).runProgram source).2 = .error (.eval k err) →
        err.fault = .incompatibleUnits op l r → op ≠ .pow → l.text ≠ r.text := by
  have hname : ∀ {d : Dimension}, d.Over StandsAlone → d.Over fun name => IsName name.toList :=
    fun hd => hd.mono fun _ hname => hname.isName
  refine ⟨fun a b ha hb => Dimension.text_inj (hname ha) (hname hb), fun a ha => ?_, ?_⟩
  · constructor
    · exact Dimension.text_inj (hname ha) Dimension.over_one
    · rintro rfl
      rfl
  · intro precision sources source k err op l r herr
    exact runProgram_showsApart (session_wellFormed precision sources)
      (session_unitsNamed precision sources) herr op l r

/-- Metres and seconds cannot be added, and are shown apart. -/
theorem unit_texts_differ_metres :
    ((session 7 ["unit m", "unit s"]).runProgram "1 m + 2 s").2 =
        .error (.eval 1 ⟨.incompatibleUnits .add (.base "m") (.base "s"), ⟨0, 9⟩⟩) ∧
      (Dimension.base "m").text ≠ (Dimension.base "s").text ∧
      (Dimension.base "m").Over StandsAlone ∧ (Dimension.base "m").text ≠ "1" ∧
      ∀ b : Dimension, b.Over StandsAlone → (Dimension.base "m").text = b.text → .base "m" = b := by
  have hrun : ((session 7 ["unit m", "unit s"]).runProgram "1 m + 2 s").2 =
      .error (.eval 1 ⟨.incompatibleUnits .add (.base "m") (.base "s"), ⟨0, 9⟩⟩) := by
    decide +kernel
  have hmetre : (Dimension.base "m").Over StandsAlone := Dimension.over_base (by decide +kernel)
  obtain ⟨hinj, hone, hfault⟩ := unit_texts_differ
  refine ⟨hrun, hfault 7 _ _ 1 _ .add _ _ hrun rfl (by decide), hmetre, ?_,
    fun b hb => hinj _ b hmetre hb⟩
  rw [Ne, hone _ hmetre]
  decide

end State

end UnitCalc
