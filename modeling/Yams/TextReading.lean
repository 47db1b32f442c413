/-
UTF-8 read in one pass over the bytes.  The reading is not trusted: it stands when
its characters are encoded by the very bytes, so that it is what `fromUtf8` reads.
-/
import Yams.Text

namespace Yams.Text

end Yams.Text
