import Mathlib.Data.List.TakeWhile
import UnitCalc.Proofs.Growth
import UnitCalc.Shell.Execution

/-! Starting over. Whatever a session does, on success and on failure, it keeps its precision and
the list of its prelude. So when it is reset, the prelude runs in the state in which it ran before
the first input. It succeeded then, and so it leads to the same state again and reports nothing. -/

namespace UnitCalc

/-! ### Precision -/

namespace State

theorem clampPrecision_clampPrecision (p : Nat) :
    clampPrecision (clampPrecision p) = clampPrecision p := by
  simp only [clampPrecision, maxPrecision]
  omega

theorem initial_clampPrecision (p : Nat) : initial (clampPrecision p) = initial p := by
  rw [initial, initial, clampPrecision_clampPrecision]

theorem keeps_precision (p : Nat) :
    Keeps (fun _ => True) (fun s => s.precision = p) (fun _ => True) fun _ => True where
  ok hs _ h := ⟨(runLine_grows h).precision.trans hs, trivial⟩
  error _ _ _ := trivial

theorem runProgram_precision (s : State) (source : String) :
    (s.runProgram source).1.precision = s.precision :=
  ((keeps_precision s.precision).runProgram (fun _ _ _ _ => trivial) rfl).1

/-- A file that cannot be read, cannot be parsed or fails in a line keeps the precision, too. -/
theorem load_precision (s : State) (files : Files) (path : String) :
    (s.load files path).1.precision = s.precision := by
  rw [load]
  split
  · rfl
  · rename_i source hread
    have hprogram := s.runProgram_precision source
    split
    all_goals
      rename_i hrun
      rw [hrun] at hprogram
      exact hprogram

end State

namespace Session

open State (clampPrecision)

theorem loadAll_precision {files : Files} {s s' : State} {paths : List String}
    {output : List Emission} (h : loadAll files s paths = some (s', output)) :
    s'.precision = s.precision := by
  induction paths generalizing s output with
  | nil =>
    cases h
    rfl
  | cons path paths ih =>
    have hload := s.load_precision files path
    rw [loadAll] at h
    split at h
    · rename_i hrun
      rw [hrun] at hload
      exact (ih h).trans hload
    · cases h
    · rename_i hrun
      rw [hrun] at hload
      obtain ⟨⟨s'', output'⟩, hrest, hpair⟩ := Option.map_eq_some_iff.1 h
      cases hpair
      exact (ih hrest).trans hload

/-! ### The prelude -/

/-- Files that can all be run one after the other lead to the same state in a session. -/
theorem loadAll_of_runPrelude {files : Files} {s s' : State} {paths : List String}
    (h : Execution.runPrelude files s paths = .ok s') : loadAll files s paths = some (s', []) := by
  induction paths generalizing s with
  | nil =>
    cases h
    rfl
  | cons path paths ih =>
    rw [Execution.runPrelude] at h
    rw [loadAll]
    split at h
    · rename_i hrun
      rw [hrun]
      exact ih h
    · cases h
    · cases h

/-! ### Sessions -/

/-- A session that has the precision and the prelude of settings. -/
structure Configured (settings : Settings) (session : Session) : Prop where
  precision : session.state.precision = clampPrecision settings.precision
  prelude : session.prelude = settings.prelude

namespace Configured

variable {settings : Settings} {session session' : Session} {files : Files}
  {output : List Emission}

theorem of_prepare {start : State} (h : Execution.prepare files settings = .ok start) :
    Configured settings ⟨start, settings.prelude⟩ where
  precision := loadAll_precision (loadAll_of_runPrelude h)
  prelude := rfl

/-- The state may become one of the same precision. -/
theorem withState (h : Configured settings session) {α : Type} {result : State × α} {s : State}
    {a : α} (hresult : result = (s, a)) (hs : result.1.precision = session.state.precision) :
    Configured settings { session with state := s } where
  precision := by
    rw [hresult] at hs
    exact hs.trans h.precision
  prelude := h.prelude

theorem run (h : Configured settings session) {input : String}
    (hrun : session.run input = .next session' output) : Configured settings session' := by
  have hprecision := session.state.runProgram_precision input
  rw [Session.run] at hrun
  split at hrun
  · rename_i hprogram
    cases hrun
    exact h.withState hprogram hprecision
  · rename_i hprogram
    split at hrun
    · cases hrun
      exact h.withState hprogram hprecision
    · cases hrun

theorem load (h : Configured settings session) {path : String}
    (hload : session.load files path = .next session' output) : Configured settings session' := by
  have hprecision := session.state.load_precision files path
  rw [Session.load] at hload
  split at hload
  · cases hload
    exact h
  · split at hload
    · rename_i hfile
      cases hload
      exact h.withState hfile hprecision
    · rename_i hfile
      cases hload
      exact h.withState hfile hprecision
    · cases hload

theorem reset (h : Configured settings session)
    (hreset : session.reset files = .next session' output) : Configured settings session' := by
  rw [Session.reset] at hreset
  split at hreset
  · rename_i s es hall
    have hprecision := loadAll_precision hall
    rw [h.precision, State.initial_clampPrecision] at hprecision
    cases hreset
    exact ⟨hprecision, h.prelude⟩
  · cases hreset

theorem command (h : Configured settings session) {c : Command}
    (hcommand : session.command files c = .next session' output) :
    Configured settings session' := by
  cases c with
  | quit => cases hcommand
  | help | clear | units | vars | fns | unknown =>
    cases hcommand
    exact h
  | reset => exact h.reset hcommand
  | load path => exact h.load hcommand

/-- A reset runs the prelude as it was run at the start. -/
theorem reset_eq (h : Configured settings session) {start : State}
    (hstart : Execution.prepare files settings = .ok start) :
    session.reset files = .next ⟨start, settings.prelude⟩ [.outLine "Runtime reset"] := by
  rw [Session.reset, h.precision, State.initial_clampPrecision, h.prelude,
    loadAll_of_runPrelude hstart, h.prelude.symm]
  rfl

end Configured

/-! ### Inputs -/

/-- The sessions that a session becomes by commands and lines of programs. -/
inductive Leads (files : Files) (start : Session) : Session → Prop where
  | start : Leads files start start
  | command {session session' : Session} {c : Command} {output : List Emission}
      (h : Leads files start session) (hnext : session.command files c = .next session' output) :
      Leads files start session'
  | run {session session' : Session} {input : String} {output : List Emission}
      (h : Leads files start session) (hnext : session.run input = .next session' output) :
      Leads files start session'

/-- A line of input is nothing else. -/
theorem Leads.step {files : Files} {start session session' : Session} {input : String}
    {output : List Emission} (h : Leads files start session)
    (hstep : session.step files input = .next session' output) : Leads files start session' := by
  rw [Session.step] at hstep
  split at hstep
  · cases hstep
    exact h
  · split at hstep
    · exact h.command hstep
    · exact h.run hstep

theorem Leads.configured {files : Files} {settings : Settings} {start session : Session}
    (h : Leads files start session) (hstart : Configured settings start) :
    Configured settings session := by
  induction h with
  | start => exact hstart
  | command _ hnext ih => exact ih.command hnext
  | run _ hnext ih => exact ih.run hnext

theorem Command.ofInput?_blank {cs : List Char} (h : cs.all isSpace = true) :
    ofInput? cs = none := by
  have hdrop : cs.dropWhile isSpace = [] := List.dropWhile_eq_nil_iff.2 (List.all_eq_true.1 h)
  rw [ofInput?, trimSpace, hdrop]
  rfl

theorem step_command {session : Session} {files : Files} {input : String} {c : Command}
    (h : Command.ofInput? input.toList = some c) :
    session.step files input = session.command files c := by
  have hblank : ¬ isBlankInput input = true := by
    intro hblank
    rw [Command.ofInput?_blank hblank] at h
    cases h
  rw [step, if_neg hblank, h]

/-- Whatever has been put into a session, files that failed on the way included, a reset brings back
the state that the prelude led to at the start, and reports no error. -/
theorem reset_restores {files : Files} {settings : Settings} {start : State}
    (hstart : Execution.prepare files settings = .ok start) {session : Session}
    (h : Leads files ⟨start, settings.prelude⟩ session) :
    session.reset files = .next ⟨start, settings.prelude⟩ [.outLine "Runtime reset"] ∧
    ∀ input : String, Command.ofInput? input.toList = some .reset →
      session.step files input = .next ⟨start, settings.prelude⟩ [.outLine "Runtime reset"] := by
  have hreset := (h.configured (.of_prepare hstart)).reset_eq hstart
  refine ⟨hreset, fun input hinput => ?_⟩
  rw [step_command hinput]
  exact hreset

/-- A prelude, and a file that fails in its second line. -/
def sampleFiles : Files where
  read path :=
    if path = "base" then .ok "unit m\ng = 9.8 m"
    else if path = "broken" then .ok "h = 2 g\nh + 1"
    else .error .missing
  writeFault? _ := none

def sampleSettings : Settings := { precision := 7, prelude := ["base"] }

/-- A file that fails on the way leaves a variable behind, which a reset removes. -/
theorem reset_restores_broken : ∃ start session,
    Execution.prepare sampleFiles sampleSettings = .ok start ∧
    Leads sampleFiles ⟨start, ["base"]⟩ session ∧ session.state ≠ start ∧
    session.reset sampleFiles = .next ⟨start, ["base"]⟩ [.outLine "Runtime reset"] := by
  have hbroken : (Execution.prepare sampleFiles sampleSettings).toOption.any (fun start =>
      match step ⟨start, ["base"]⟩ sampleFiles ":load broken" with
      | .next session _ => session.state ≠ start
      | .quit | .stop _ => false) = true := by
    decide +kernel
  cases hstart : Execution.prepare sampleFiles sampleSettings with
  | error e =>
    rw [hstart] at hbroken
    cases hbroken
  | ok start =>
    rw [hstart, Except.toOption, Option.any_some] at hbroken
    split at hbroken
    · rename_i session output hstep
      have hleads : Leads sampleFiles ⟨start, ["base"]⟩ session := Leads.step .start hstep
      exact ⟨start, session, rfl, hleads, of_decide_eq_true hbroken,
        (reset_restores hstart hleads).1⟩
    · cases hbroken
    · cases hbroken

end Session

end UnitCalc
