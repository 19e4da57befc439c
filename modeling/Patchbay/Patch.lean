import Patchbay.Signal.Combinator

/-!
# Demo patches

The patches that come with the library, for trying out a compile.
-/

namespace Patchbay

open Signal

/-- A named patch. -/
structure Patch where
  name : String
  description : String
  /-- Builds the patch and gives its root. -/
  build : Build NodeId

namespace Patch

/-- The root of a patch and the graph below it. -/
def graph (p : Patch) : NodeId × Graph :=
  p.build.run {}

/-- Plays one signal. -/
def play (signal : Signal) : Build NodeId := do
  exit [← signal.out]

/-- A sine. -/
def sine : Patch where
  name := "sine"
  description := "200 Hz sine straight to the output"
  build := do
    play (← Signal.sine (← constant 200))

/-- A sine with feedback. -/
def feedback : Patch where
  name := "feedback"
  description := "Sine summed with 80% of its own previous output"
  build := do
    let tone ← Signal.sine (← constant 200)
    play (← tone.addFeedback fun sum => do sum.mul (← constant 0.8))

/-- Frequency modulation. -/
def fm : Patch where
  name := "fm"
  description := "220 Hz carrier frequency-modulated by a 3 Hz sine"
  build := do
    let modulator ← Signal.sine (← constant 3)
    let depth ← modulator.mul (← constant 50)
    let carrier ← Signal.sine (← depth.add (← constant 220))
    play (← carrier.mul (← constant 0.5))

/-- An echo. -/
def echo : Patch where
  name := "echo"
  description := "Filtered saw through a feedback delay line"
  build := do
    let tone ← (← Signal.saw (← constant 110)).lpf (← constant 900)
    play (← tone.addFeedback fun sum => do
      (← sum.delay (← constant 0.3)).mul (← constant 0.5))

/-- Noise through two filters. -/
def filteredNoise : Patch where
  name := "filtered-noise"
  description := "Noise through a swept lowpass and a fixed highpass"
  build := do
    let wave ← Signal.sine (← constant 0.2)
    let sweep ← (← wave.mul (← constant 400)).add (← constant 600)
    let low ← (← Signal.noise).lpf sweep
    let band ← low.hpf (← constant 80)
    play (← band.mul (← constant 0.3))

/-- A different oscillator on each channel. -/
def stereo : Patch where
  name := "stereo"
  description := "Triangle left, pulse right"
  build := do
    let left ← Signal.tri (← constant 220)
    let right ← Signal.pulse (← constant 221) (← constant 0.3)
    exit [← left.outStereo right]

/-- A kind that no registry knows from the start. -/
def unknownOp : Patch where
  name := "unknown-op"
  description := "Sine through an unregistered \"wobble\" operation"
  build := do
    let tone ← Signal.sine (← constant 3)
    play (← Signal.build "wobble" [tone])

/-- The demo patches in the order in which they are listed. -/
def all : List Patch :=
  [sine, feedback, fm, echo, filteredNoise, stereo, unknownOp]

/-- The patch with a given name, in upper or lower case. -/
def find? (name : String) : Option Patch :=
  all.find? fun patch => patch.name.toLower = name.toLower

end Patch

end Patchbay
