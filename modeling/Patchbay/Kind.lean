/-!
# Kinds of nodes

The names of the kinds that the library itself builds or looks for. Any other name is a kind too:
what a kind does is decided by the registry that a patch is compiled with.
-/

namespace Patchbay.Kind

/-- A literal, written in place wherever it is used. -/
def constant : String := "n"

/-- A copy of its input. -/
def thru : String := "thru"

/-- A sine oscillator. -/
def sine : String := "sine"

/-- A sawtooth oscillator. -/
def saw : String := "saw"

/-- A triangle oscillator. -/
def tri : String := "tri"

/-- A pulse oscillator. -/
def pulse : String := "pulse"

/-- White noise. -/
def noise : String := "noise"

/-- A lowpass filter. -/
def lpf : String := "lpf"

/-- A highpass filter. -/
def hpf : String := "hpf"

/-- A delay line. -/
def delay : String := "delay"

/-- A sum. -/
def add : String := "add"

/-- A difference. -/
def sub : String := "sub"

/-- A product. -/
def mul : String := "mul"

/-- A quotient. -/
def div : String := "div"

/-- The value that a feedback cell was given in the block before. -/
def feedbackRead : String := "feedback_read"

/-- The value that a feedback cell keeps for the next block. -/
def feedbackWrite : String := "feedback_write"

/-- An output, mono or stereo. -/
def out : String := "out"

/-- The root of a patch, which mixes its outputs. -/
def exit : String := "exit"

end Patchbay.Kind
