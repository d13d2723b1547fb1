import RecordLayout.SizeSource.Prompt

/-!
# Responders

The size sources that a run can be given: none, fixed answers, a table that remembers what it was asked
and passes on what it does not hold, and the terminal.
-/

namespace RecordLayout

inductive Responder where
  | silent
  /-- The first answer for a name counts. -/
  | fixed (answers : List (String × Int))
  /-- The last answer for a name counts, also if it is zero. -/
  | table (answers : List (String × Int)) (queries : List String) (fallback : Responder)
  | prompt (terminal : Prompt)
  deriving Repr

namespace Responder

/-- The last answer for a name. -/
def lastAnswer? (answers : List (String × Int)) (typeName : String) : Option Int :=
  answers.reverse.lookup typeName

def ask (typeName : String) : Responder → Outcome Responder IoFault (Option Answer)
  | .silent => ⟨.ok none, .silent, []⟩
  | .fixed answers => ⟨.ok ((answers.lookup typeName).bind Answer.ofInt?), .fixed answers, []⟩
  | .table answers queries fallback =>
    let queries := queries ++ [typeName]
    match lastAnswer? answers typeName with
    | some n => ⟨.ok (Answer.ofInt? n), .table answers queries fallback, []⟩
    | none =>
      let o := fallback.ask typeName
      ⟨o.result, .table answers queries o.state, o.events⟩
  | .prompt terminal =>
    let o := (Prompt.ask typeName).run terminal
    ⟨o.result, .prompt o.state, o.events⟩

theorem quiet_ask (typeName : String) (r : Responder) : askedTypes (r.ask typeName).events = [] := by
  induction r with
  | silent => rfl
  | fixed answers => rfl
  | table answers queries fallback ih =>
    rw [ask]
    split
    · rfl
    · exact ih
  | prompt terminal => exact Prompt.quiet_ask typeName terminal

end Responder

instance : SizeSource Responder := ⟨Responder.ask, Responder.quiet_ask⟩

end RecordLayout
