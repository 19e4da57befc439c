import Patchbay.Graph.Basic
import Patchbay.Kind

/-!
# Signals

A patch is built from signals. A signal is a node together with its *pending* feedback writes:
nodes that no other node uses, but that have to be computed all the same for the feedback loops
behind the signal to be closed. A combinator merges the pending writes of its arguments, and
`Signal.exit` hands all of them to the root.

Building a patch means appending nodes to a graph, so every combinator is an action on a graph.
-/

namespace Patchbay

/-- An action that appends nodes to a graph. -/
abbrev Build := StateM Graph

/-- Appends a node. -/
def Build.node (node : Node) : Build NodeId :=
  fun g => g.add node

/-- A value in a patch, with the feedback writes it needs. -/
structure Signal where
  node : NodeId
  pending : List NodeId := []
  deriving DecidableEq

/-- Adds to a list of nodes those of another list that it lacks. -/
def mergePending (known more : List NodeId) : List NodeId :=
  more.foldl (fun all id => if id ∈ all then all else all ++ [id]) known

/-- The pending writes of several signals, each once. -/
def Signal.allPending (signals : List Signal) : List NodeId :=
  signals.foldl (fun all signal => mergePending all signal.pending) []

namespace Signal

/-- A signal for a node that holds a literal. -/
def payload (kind : String) (value : Literal) : Build Signal := do
  return { node := ← Build.node { kind, value := some value } }

/-- A constant signal. -/
def constant (value : Literal) : Build Signal :=
  payload Kind.constant value

/-- A node of any kind, fed by signals and then by immediates. -/
def build (kind : String) (arguments : List Signal) (immediates : List Literal := []) :
    Build Signal := do
  let inputs := arguments.map (.node ·.node) ++ immediates.map .immediate
  return { node := ← Build.node { kind, inputs }, pending := allPending arguments }

/-- The same node without its pending writes. -/
def detach (signal : Signal) : Signal :=
  { node := signal.node }

/-! ### Feedback -/

/-- Closes a feedback loop around `body`, which is given the value that its own result had in the
block before. -/
def feedback (body : Signal → Build Signal) : Build Signal := do
  let read ← Build.node { kind := Kind.feedbackRead }
  let value ← body { node := read }
  let write ← Build.node { kind := Kind.feedbackWrite, inputs := [.node value.node, .node read] }
  return { value with pending := value.pending ++ [write] }

/-- Combines a signal with a feedback value. The combination is the result; `body` makes from it
what is fed back. -/
def feedbackWith (kind : String) (signal : Signal) (body : Signal → Build Signal) :
    Build Signal := do
  let read ← Build.node { kind := Kind.feedbackRead }
  let sum ← build kind [signal, { node := read }]
  let fed ← body sum
  let write ← Build.node { kind := Kind.feedbackWrite, inputs := [.node fed.node, .node read] }
  return { sum with pending := mergePending sum.pending fed.pending ++ [write] }

/-- Adds feedback to a signal. -/
def addFeedback (signal : Signal) (body : Signal → Build Signal) : Build Signal :=
  feedbackWith Kind.add signal body

/-! ### The root -/

/-- The root of a patch: all pending writes, then the outputs. -/
def exit (outputs : List Signal) : Build NodeId :=
  Build.node {
    kind := Kind.exit
    inputs := (allPending outputs).map .node ++ outputs.map (.node ·.node) }

end Signal

end Patchbay
