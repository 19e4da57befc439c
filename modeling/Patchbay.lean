import Patchbay.Main
import Patchbay.Signal.Script
import Patchbay.Proofs.Graph.Acyclic
import Patchbay.Proofs.Graph.Walk
import Patchbay.Proofs.Graph.Schedule
import Patchbay.Proofs.Graph.Steps
import Patchbay.Proofs.Graph.Traversal
import Patchbay.Proofs.Graph.Composition
import Patchbay.Proofs.Compile.Layout
import Patchbay.Proofs.Compile.Naming
import Patchbay.Proofs.Compile.Assembly
import Patchbay.Proofs.Meaning.Instruction
import Patchbay.Proofs.Meaning.Host
import Patchbay.Proofs.Meaning.Evaluation
import Patchbay.Proofs.Meaning.Simulation
import Patchbay.Proofs.Meaning.Reading
import Patchbay.Proofs.Meaning.Preservation
import Patchbay.Proofs.Compile.Renaming
import Patchbay.Proofs.Compile.Entries
import Patchbay.Proofs.Compile.Cells
import Patchbay.Proofs.Compile.Template
import Patchbay.Proofs.Graph.Loop
import Patchbay.Proofs.Signal.Loops
import Patchbay.Proofs.Compile.Job
import Patchbay.Proofs.Compile.Nodes
import Patchbay.Proofs.Compile.Units
import Patchbay.Proofs.Compile.SingleAssignment
import Patchbay.Proofs.Compile.Correspondence
import Patchbay.Proofs.Compile.Extension
import Patchbay.Proofs.Compile.Inlining
import Patchbay.Proofs.Registry.History
import Patchbay.Proofs.Compile.Lookup
import Patchbay.Proofs.Signal.Building
import Patchbay.Proofs.Signal.Pending
import Patchbay.Proofs.Compile.Reads
import Patchbay.Proofs.Compile.Stages
import Patchbay.Proofs.Compile.Log
import Patchbay.Proofs.Compile.Mix
import Patchbay.Proofs.Compile.Targets
import Patchbay.Proofs.Text.Blank
import Patchbay.Proofs.Text.Lines
import Patchbay.Proofs.Text.Quoted
import Patchbay.Proofs.Number.Positional
import Patchbay.Proofs.Compile.Statements
import Patchbay.Proofs.Number.Rounding
import Patchbay.Proofs.Number.Shortest
import Patchbay.Proofs.Literal
import Patchbay.Proofs.Compile.Operands
import Patchbay.Proofs.Toml.Keys
import Patchbay.Proofs.Toml.Document
import Patchbay.Proofs.Toml.Writing
import Patchbay.Proofs.Options.Decode
import Patchbay.Proofs.Options.Load
import Patchbay.Proofs.Options.Writing
import Patchbay.Proofs.Cli.Arguments
import Patchbay.Proofs.Cli.Compile
