import StartOrder.Document.Json
import StartOrder.Document.Toml

/-!
# The readers of the program

The program runs with these readers of JSON and TOML. What is stated of it does not depend on them.

## Main definitions

* `programReaders`: the readers of both formats
-/

namespace StartOrder

/-- The readers with which the program runs. -/
instance programReaders : Readers where
  document?
    | .json => Json.parse?
    | .toml => Toml.parse?
  isMoment text := Moment.isWhole text.toList

end StartOrder
