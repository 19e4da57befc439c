import Patchbay.Signal.Combinator

/-!
# Scripts

A script builds signals one after the other; each step may use the signals before it. Scripts are
first-order data, so that facts about everything the combinators can build are facts about
scripts. A step refers to an earlier signal by its place, and a script in which `n` signals are in
scope can only refer to those: no script refers to a signal that is not there.

The body of a feedback loop is a script of its own, with the value fed back in scope. Its signals
go out of scope with it.
-/

namespace Patchbay.Script

/-- An argument of a step: a signal in scope, or a literal, which becomes a new constant. -/
inductive Argument (n : Nat) where
  | signal (place : Fin n)
  | literal (value : Literal)
  deriving DecidableEq

mutual

/-- What one step builds. -/
inductive Step : Nat → Type where
  | constant {n : Nat} (value : Literal) : Step n
  | payload {n : Nat} (kind : String) (value : Literal) : Step n
  | apply {n : Nat} (combinator : Combinator) (arguments : List (Argument n)) : Step n
  | build {n : Nat} (kind : String) (arguments : List (Argument n)) (immediates : List Literal) :
    Step n
  | detach {n : Nat} (place : Fin n) : Step n
  | feedback {n : Nat} (body : Body (n + 1)) : Step n
  | feedbackWith {n : Nat} (kind : String) (place : Fin n) (body : Body (n + 1)) : Step n

/-- The body of a feedback loop: some steps, and the signal that is its result. -/
inductive Body : Nat → Type where
  | result {n : Nat} (argument : Argument n) : Body n
  | step {n : Nat} (first : Step n) (rest : Body (n + 1)) : Body n

end

/-- The signal that an argument stands for. -/
def Argument.run {n : Nat} (scope : Vector Signal n) : Argument n → Build Signal
  | signal place => return scope[place]
  | literal value => Signal.constant value

mutual

/-- Builds the signal of a step. -/
def Step.run {n : Nat} (scope : Vector Signal n) : Step n → Build Signal
  | .constant value => Signal.constant value
  | .payload kind value => Signal.payload kind value
  | .apply combinator arguments => do combinator.apply (← arguments.mapM (·.run scope))
  | .build kind arguments immediates => do
    Signal.build kind (← arguments.mapM (·.run scope)) immediates
  | .detach place => return scope[place].detach
  | .feedback body => Signal.feedback fun fed => body.run (scope.push fed)
  | .feedbackWith kind place body =>
    Signal.feedbackWith kind scope[place] fun sum => body.run (scope.push sum)

/-- Builds the result of a body. -/
def Body.run {n : Nat} (scope : Vector Signal n) : Body n → Build Signal
  | .result argument => argument.run scope
  | .step first rest => do rest.run (scope.push (← first.run scope))

end

end Patchbay.Script

namespace Patchbay

/-- A sequence of `n` steps. -/
inductive Script : Nat → Type where
  | nil : Script 0
  | snoc {n : Nat} (front : Script n) (last : Script.Step n) : Script (n + 1)

namespace Script

/-- Builds the signals of a script, one for each step. -/
def run : {n : Nat} → Script n → Build (Vector Signal n)
  | _, nil => return #v[]
  | _, snoc front last => do
    let scope ← front.run
    return scope.push (← last.run scope)

/-- Builds a script and a root that plays some of its signals. -/
def runExit {n : Nat} (script : Script n) (outputs : List (Fin n)) : Build NodeId := do
  let signals ← script.run
  Signal.exit (outputs.map (signals[·]))

end Script

end Patchbay
