import WitnessSearch.Random.Keystream

/-! A source that first repeats given words and then goes on with a keystream. It makes single draws
reachable that a seeded stream does not come to in reasonable time. -/

namespace WitnessSearch

structure Replay where
  /-- The words still to be repeated. -/
  queued : List UInt64
  /-- Where draws come from once the words are used up. -/
  stream : Keystream

namespace Replay

/-- The words in order, followed by the stream of a seed from its beginning. -/
def start (words : List UInt64) (seed : UInt64) : Replay :=
  ⟨words, .ofSeed seed⟩

def next (replay : Replay) : UInt64 × Replay :=
  match replay.queued with
  | word :: queued => (word, { replay with queued })
  | [] =>
    let (word, stream) := replay.stream.next64
    (word, { replay with stream })

instance : RandomSource Replay := ⟨next⟩

end Replay

end WitnessSearch
