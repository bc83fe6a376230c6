/- Programs that ask their surroundings. A script is a tree: it is done with a result, or it asks a
   question and goes on by the answer. What a question means is left to whoever runs the script, so
   one script runs against a store in memory, against a recorded list of answers, or against a
   server that fails at any question.

   What a script does apart from its surroundings is said by its traces. `Script.Runs` says that it can
   ask the questions of a trace and, given its answers, end with a result; `Script.Along` says that
   surroundings give these answers on the way from one state to another. A run in surroundings is both
   at once (`run_iff`). -/
namespace KubeLedger

/-- A program that asks questions `Q`, answered by `A`, and ends with an `α`. -/
inductive Script (Q : Type) (A : Q → Type) (α : Type) where
  | done (result : α)
  | ask (question : Q) (next : A question → Script Q A α)

namespace Script

variable {Q : Type} {A : Q → Type} {α β σ : Type}

def bind : Script Q A α → (α → Script Q A β) → Script Q A β
  | done a, f => f a
  | ask q next, f => ask q fun answer => (next answer).bind f

instance : Monad (Script Q A) where
  pure := done
  bind := bind

def one (q : Q) : Script Q A (A q) := ask q done

/-- Runs a script in surroundings that answer each question and may change by it. -/
def run (answer : (q : Q) → σ → A q × σ) : Script Q A α → σ → α × σ
  | done a, s => (a, s)
  | ask q next, s =>
    let (a, s) := answer q s
    (next a).run answer s

/-! ## Traces -/

/-- The script can ask and be answered as in the trace, and ends with the result. -/
inductive Runs : Script Q A α → List ((q : Q) × A q) → α → Prop
  | done (a : α) : Runs (.done a) [] a
  | ask {q : Q} {next : A q → Script Q A α} {answer : A q} {trace : List ((q : Q) × A q)} {a : α} :
    Runs (next answer) trace a → Runs (.ask q next) (⟨q, answer⟩ :: trace) a

theorem runs_done {a b : α} {trace : List ((q : Q) × A q)} :
    (done a : Script Q A α).Runs trace b ↔ trace = [] ∧ b = a := by
  constructor
  · rintro ⟨⟩
    exact ⟨rfl, rfl⟩
  · rintro ⟨rfl, rfl⟩
    exact .done b

theorem runs_ask {q : Q} {next : A q → Script Q A α} {a : α} {trace : List ((q : Q) × A q)} :
    (ask q next).Runs trace a ↔
      ∃ answer rest, trace = ⟨q, answer⟩ :: rest ∧ (next answer).Runs rest a := by
  constructor
  · rintro (_ | ⟨h⟩)
    exact ⟨_, _, rfl, h⟩
  · rintro ⟨answer, rest, rfl, h⟩
    exact .ask h

theorem runs_bind {x : Script Q A α} {f : α → Script Q A β} {b : β}
    {trace : List ((q : Q) × A q)} :
    (x.bind f).Runs trace b ↔
      ∃ a before after, trace = before ++ after ∧ x.Runs before a ∧ (f a).Runs after b := by
  induction x generalizing trace with
  | done a =>
    constructor
    · intro h
      exact ⟨a, [], trace, rfl, .done a, h⟩
    · rintro ⟨a', before, after, rfl, hx, hf⟩
      obtain ⟨rfl, rfl⟩ := runs_done.mp hx
      exact hf
  | ask q next ih =>
    constructor
    · intro h
      obtain ⟨answer, rest, rfl, hrest⟩ := runs_ask.mp h
      obtain ⟨a, before, after, rfl, hx, hf⟩ := (ih answer).mp hrest
      exact ⟨a, ⟨q, answer⟩ :: before, after, rfl, .ask hx, hf⟩
    · rintro ⟨a, before, after, rfl, hx, hf⟩
      obtain ⟨answer, rest, rfl, hrest⟩ := runs_ask.mp hx
      exact .ask ((ih answer).mpr ⟨a, rest, after, rfl, hrest, hf⟩)

theorem bind_done (x : Script Q A α) : x.bind done = x := by
  induction x with
  | done a => rfl
  | ask q next ih => exact congrArg (ask q) (funext ih)

theorem bind_bind {γ : Type} (x : Script Q A α) (f : α → Script Q A β) (g : β → Script Q A γ) :
    (x.bind f).bind g = x.bind fun a => (f a).bind g := by
  induction x with
  | done a => rfl
  | ask q next ih => exact congrArg (ask q) (funext ih)

instance : LawfulMonad (Script Q A) :=
  LawfulMonad.mk' (Script Q A) bind_done (fun _ _ => rfl) bind_bind

/-- The surroundings give the answers of a trace on the way from one state to another. -/
def Along (env : (q : Q) → σ → A q × σ) : List ((q : Q) × A q) → σ → σ → Prop
  | [], s, s' => s = s'
  | ⟨q, answer⟩ :: rest, s, s' => ∃ mid, env q s = (answer, mid) ∧ Along env rest mid s'

theorem along_append {env : (q : Q) → σ → A q × σ} {before after : List ((q : Q) × A q)}
    {s s' : σ} : Along env (before ++ after) s s' ↔
      ∃ mid, Along env before s mid ∧ Along env after mid s' := by
  induction before generalizing s with
  | nil =>
    constructor
    · exact fun h => ⟨s, rfl, h⟩
    · rintro ⟨mid, rfl, h⟩
      exact h
  | cons x before ih =>
    constructor
    · rintro ⟨first, henv, h⟩
      obtain ⟨mid, hbefore, hafter⟩ := ih.mp h
      exact ⟨mid, ⟨first, henv, hbefore⟩, hafter⟩
    · rintro ⟨mid, ⟨first, henv, hbefore⟩, hafter⟩
      exact ⟨first, henv, ih.mpr ⟨mid, hbefore, hafter⟩⟩

/-- Every answer on the way was given in some state. -/
theorem Along.answered {env : (q : Q) → σ → A q × σ} {trace : List ((q : Q) × A q)} {s s' : σ}
    (h : Along env trace s s') {x : (q : Q) × A q} (hx : x ∈ trace) :
    ∃ t t', env x.1 t = (x.2, t') := by
  obtain ⟨before, after, rfl⟩ := List.append_of_mem hx
  obtain ⟨mid, -, next, henv, -⟩ := along_append.mp h
  exact ⟨mid, next, henv⟩

theorem run_iff {env : (q : Q) → σ → A q × σ} {x : Script Q A α} {s s' : σ} {a : α} :
    x.run env s = (a, s') ↔ ∃ trace, x.Runs trace a ∧ Along env trace s s' := by
  induction x generalizing s with
  | done b =>
    constructor
    · rintro ⟨⟩
      exact ⟨[], .done _, rfl⟩
    · rintro ⟨trace, hx, halong⟩
      obtain ⟨rfl, rfl⟩ := runs_done.mp hx
      exact congrArg (Prod.mk a) halong
  | ask q next ih =>
    constructor
    · intro h
      obtain ⟨trace, hx, halong⟩ := (ih (env q s).1).mp h
      exact ⟨_ :: trace, .ask hx, (env q s).2, rfl, halong⟩
    · rintro ⟨trace, hx, halong⟩
      obtain ⟨answer, rest, rfl, hrest⟩ := runs_ask.mp hx
      obtain ⟨mid, henv, halong⟩ := halong
      have hrun := (ih answer).mpr ⟨rest, hrest, halong⟩
      simp only [run, henv, hrun]

end Script

end KubeLedger
