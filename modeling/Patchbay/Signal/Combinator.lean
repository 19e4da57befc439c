import Patchbay.Signal.Basic

/-!
# Combinators

The named ways to make a signal from others. Each appends one node, which has the arguments as its
first inputs and some fixed immediates after them.
-/

namespace Patchbay

/-- A named way to make a signal from others. -/
inductive Combinator where
  | sine
  | saw
  | tri
  | pulse
  | noise
  | lpf
  | hpf
  | delay
  | add
  | sub
  | mul
  | div
  | thru
  | out
  deriving DecidableEq

namespace Combinator

/-- The kind of the node that a combinator appends. -/
def kind : Combinator → String
  | sine => Kind.sine
  | saw => Kind.saw
  | tri => Kind.tri
  | pulse => Kind.pulse
  | noise => Kind.noise
  | lpf => Kind.lpf
  | hpf => Kind.hpf
  | delay => Kind.delay
  | add => Kind.add
  | sub => Kind.sub
  | mul => Kind.mul
  | div => Kind.div
  | thru => Kind.thru
  | out => Kind.out

/-- The immediates that follow the arguments: the phase and the offset of a sine, and the
resonance of a filter. -/
def immediates : Combinator → List Literal
  | sine => [0, 0]
  | lpf | hpf => [0]
  | _ => []

/-- Applies a combinator. -/
def apply (c : Combinator) (arguments : List Signal) : Build Signal :=
  Signal.build c.kind arguments c.immediates

end Combinator

namespace Signal

/-- A sine oscillator. -/
def sine (frequency : Signal) : Build Signal :=
  Combinator.sine.apply [frequency]

/-- A sawtooth oscillator. -/
def saw (frequency : Signal) : Build Signal :=
  Combinator.saw.apply [frequency]

/-- A triangle oscillator. -/
def tri (frequency : Signal) : Build Signal :=
  Combinator.tri.apply [frequency]

/-- A pulse oscillator. -/
def pulse (frequency width : Signal) : Build Signal :=
  Combinator.pulse.apply [frequency, width]

/-- White noise. -/
def noise : Build Signal :=
  Combinator.noise.apply []

/-- A lowpass filter. -/
def lpf (signal cutoff : Signal) : Build Signal :=
  Combinator.lpf.apply [signal, cutoff]

/-- A highpass filter. -/
def hpf (signal cutoff : Signal) : Build Signal :=
  Combinator.hpf.apply [signal, cutoff]

/-- A delay line. -/
def delay (signal time : Signal) : Build Signal :=
  Combinator.delay.apply [signal, time]

/-- The sum of two signals. -/
def add (left right : Signal) : Build Signal :=
  Combinator.add.apply [left, right]

/-- The product of two signals. -/
def mul (left right : Signal) : Build Signal :=
  Combinator.mul.apply [left, right]

/-- An output that plays one signal on both channels. -/
def out (signal : Signal) : Build Signal :=
  Combinator.out.apply [signal]

/-- An output with a signal for each channel. -/
def outStereo (left right : Signal) : Build Signal :=
  Combinator.out.apply [left, right]

end Signal

end Patchbay
