import Nanoguard.Backend.Pool
import Nanoguard.ClientAuth.Middleware
import Nanoguard.Proxy.Sse

/-!
# Forwarding to the backends

A request goes to the backends of its chain, one after the other, until one answers with something
other than a server error. The last backend's answer is taken whatever its status.
-/

namespace Nanoguard.Proxy

open Backend (BackendConfig)
open ClientAuth (headerToStr)

/-- An answer of a backend. The body comes in chunks and then ends, normally or with an error. -/
structure BackendResponse where
  status : Nat
  contentType : Option (List UInt8)
  chunks : List Bytes
  failure : Option Text

namespace BackendResponse

variable (r : BackendResponse)

def isServerError : Bool := 500 ≤ r.status && r.status < 600

def isSuccess : Bool := 200 ≤ r.status && r.status < 300

def isStream : Bool :=
  ((r.contentType.bind headerToStr).map fun s =>
    Str.contains s "text/event-stream".toList).getD false

def drained : Bytes := if r.failure.isSome then [] else r.chunks.flatten

def json (fromSlice : Bytes → Except Text Json) : Except Text Json :=
  match r.failure with
  | some e => .error e
  | none => fromSlice r.chunks.flatten

end BackendResponse

/-- Why no backend answered: the last error, and the last server error that was passed over. -/
structure Exhausted where
  lastErr : Option Text
  last5xx : Option (Nat × Bytes)
  deriving DecidableEq, Repr

/-- `send` is `Backend::forward_chat`. -/
def forwardLoop (send : BackendConfig → Json → Except Text BackendResponse) (body : Json)
    (failed : Exhausted) : List BackendConfig → Except Exhausted BackendResponse
  | [] => .error failed
  | backend :: chain =>
    match send backend body with
    | .ok r =>
      if r.isServerError && !chain.isEmpty then
        forwardLoop send body { failed with last5xx := some (r.status, r.drained) } chain
      else .ok r
    | .error e => forwardLoop send body { failed with lastErr := some e } chain

def forward (send : BackendConfig → Json → Except Text BackendResponse) (body : Json)
    (chain : List BackendConfig) : Except Exhausted BackendResponse :=
  forwardLoop send body ⟨none, none⟩ chain

end Nanoguard.Proxy
