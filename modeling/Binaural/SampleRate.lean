/-!
The one sample rate. Recordings at any other rate are refused and not resampled.
-/

namespace Binaural

/-- The number of samples in a second of every recording and of every impulse response. -/
def sampleRate : Nat := 44100

/-- The highest frequency that the sample rate can carry. -/
def nyquist : Nat := sampleRate / 2

end Binaural
