import ContentStream.Bytes

/-!
# Decompressed data

Data that ends early decompresses to the bytes that it has told so far, malformed data
to none.
-/

namespace ContentStream

inductive CompressionFault where
  | ended
  | malformed
  deriving DecidableEq, Repr

structure Decompressed where
  bytes : Bytes
  fault? : Option CompressionFault := none
  deriving DecidableEq, Repr

def CompressionFault.decompressed (fault : CompressionFault) (told : Bytes) : Decompressed :=
  match fault with
  | .ended => ⟨told, some .ended⟩
  | .malformed => ⟨[], some .malformed⟩

end ContentStream
