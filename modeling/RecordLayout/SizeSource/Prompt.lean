import RecordLayout.SizeSource.Basic
import RecordLayout.Stream.Sink
import RecordLayout.Stream.Source
import RecordLayout.Text.Blank
import RecordLayout.Text.Integer

/-!
# Asking at the terminal

The person at the terminal is asked until a line is a number other than zero. The end of the input
declines.
-/

namespace RecordLayout

structure Prompt where
  input : Source
  output : Sink
  deriving DecidableEq, Repr

namespace Prompt

/-- Writes a line to the terminal. What was taken of it is shown even if the rest was not. -/
def say (line : String) : Action Prompt IoFault Unit := do
  let p ← .state
  let text := Bytes.ofString (line ++ "\n")
  .note (.shown (p.output.takes text))
  Action.within output (fun p out => { p with output := out }) (Sink.write text)

def flush : Action Prompt IoFault Unit :=
  Action.within output (fun p out => { p with output := out }) Sink.flush

/-- The answer that a line gives. -/
def answer? (line : String) : Option Answer :=
  match Text.readInteger (Text.trim line.toList) with
  | .ok n => Answer.ofInt? n
  | .error _ => none

def question (typeName : String) : String := s!"Could not determine size for: \"{typeName}\""

def request : String := "Input type size (\"-\" first means id is a class): "

def refusal : String := "Invalid input!"

/-- Requests a number, once for each line until one is an answer. -/
def attempts (typeName : String) :
    List (Except IoFault String) → Action Prompt IoFault (Option Answer)
  | [] => do
    say request
    flush
    .log .warn .sizeSource s!"no answer for type `{typeName}` (end of input)"
    return none
  | line :: rest => do
    say request
    flush
    .update fun p => { p with input := p.input.drop 1 }
    let text ← .ofExcept line
    match answer? text with
    | some a => return some a
    | none =>
      say refusal
      attempts typeName rest

def ask (typeName : String) : Action Prompt IoFault (Option Answer) := do
  say (question typeName)
  attempts typeName (← .state).input.lines

theorem quiet_say (line : String) : (say line).Quiet :=
  .bind .state fun _ => .bind (.shown _) fun _ => .within _ _ (Sink.quiet_write _)

theorem quiet_flush : flush.Quiet := .within _ _ Sink.quiet_flush

theorem quiet_attempts (typeName : String) (lines : List (Except IoFault String)) :
    (attempts typeName lines).Quiet := by
  induction lines with
  | nil =>
    exact .bind (quiet_say _) fun _ => .bind quiet_flush fun _ => .bind (.log _ _ _) fun _ => .pure _
  | cons line rest ih =>
    refine .bind (quiet_say _) fun _ => .bind quiet_flush fun _ => .bind (.update _) fun _ =>
      .bind (.ofExcept _) fun text => ?_
    split
    · exact .pure _
    · exact .bind (quiet_say _) fun _ => ih

theorem quiet_ask (typeName : String) : (ask typeName).Quiet :=
  .bind (quiet_say _) fun _ => .bind .state fun _ => quiet_attempts _ _

end Prompt

instance : SizeSource Prompt := ⟨Prompt.ask, Prompt.quiet_ask⟩

end RecordLayout
