import Patchbay.Registry.Basic

/-!
# The standard operations

The operations that every new registry starts with.
-/

namespace Patchbay

namespace Operation

/-- An operation that advances a stateful unit. -/
def unit (kind description : String) (category : Category) (tag : String) : Operation :=
  ⟨kind, description, category, .stateful tag (.builtin .unitUpdate)⟩

/-- An operation that computes its value from its operands alone. -/
def pure (kind description : String) (category : Category) (b : Builtin) : Operation :=
  ⟨kind, description, category, .stateless (.builtin b)⟩

/-- An operation without a statement of its own. -/
def silent (kind description : String) (category : Category) : Operation :=
  ⟨kind, description, category, .silent⟩

/-- The standard operations. -/
def standard : List Operation := [
  silent Kind.constant "Literal constant, inlined at each use" .constant,
  unit Kind.sine "Sine oscillator" .source "SineOsc",
  unit Kind.saw "Sawtooth oscillator" .source "SawOsc",
  unit Kind.tri "Triangle oscillator" .source "TriOsc",
  unit Kind.pulse "Pulse oscillator with duty cycle" .source "PulseOsc",
  unit Kind.noise "White noise" .source "Noise",
  unit Kind.lpf "Lowpass filter" .filter "Lowpass",
  unit Kind.hpf "Highpass filter" .filter "Highpass",
  unit Kind.delay "Delay line" .time "Delay",
  pure Kind.add "Sum of two signals" .math (.arithmetic .add),
  pure Kind.sub "Difference of two signals" .math (.arithmetic .sub),
  pure Kind.mul "Product of two signals" .math (.arithmetic .mul),
  pure Kind.div "Quotient of two signals" .math (.arithmetic .div),
  unit Kind.feedbackRead "Last cycle's feedback value" .feedback "Feedback",
  pure Kind.feedbackWrite "Store feedback for next cycle" .feedback .feedbackWrite,
  pure Kind.thru "Pass-through" .routing .thru,
  silent Kind.out "Stereo output, mixed by the root" .routing,
  pure Kind.exit "Patch root, returns the output mix" .routing .exit]

end Operation

/-- The registry of the standard operations. -/
def Registry.standard : Registry :=
  Operation.standard.foldl Registry.register Registry.empty

end Patchbay
