import RelayerCore.AmplifierApi.Types
import RelayerCore.Lib.Feed

/-!
# The client of the Amplifier API (`amplifier-api/src/client.rs`, `client/requests.rs`)

The requests the relayer sends, the way an HTTP answer becomes a typed result, and the API's side
of `GET /chains/{chain}/tasks`: an append-only listing of tasks answered from a cursor.

JSON decoding (`simd_json::from_slice`) is a parameter of the functions that use it.
-/

namespace RelayerCore

/-- `AmplifierApiError`: the ways a call of the client fails. -/
inductive AmplifierApiError
  | reqwestWithMiddleware
  | reqwest
  | urlParse
  | json
  deriving DecidableEq

/-! ### Requests -/

/-- `WithTrailingSlash`: a URL segment that ends in a slash. -/
structure WithTrailingSlash where
  val : String
  deriving DecidableEq

def WithTrailingSlash.new (base : String) : WithTrailingSlash := ⟨base ++ "/"⟩

/-- `GET /chains/{chain}/tasks`; a field left `none` is not sent. -/
structure GetChains where
  chain : WithTrailingSlash
  after : Option TaskItemId := none
  before : Option TaskItemId := none
  limit : Option UInt8 := none
  deriving DecidableEq

/-- `POST /chains/{chain}/events`. -/
structure PostEvents where
  chain : WithTrailingSlash
  payload : PublishEventsRequest
  deriving DecidableEq

/-! ### Answers -/

/-- A raw HTTP answer: its status, and its body unless reading it fails. -/
structure AmplifierResponse where
  status : ℕ
  bytes : Option (List UInt8)
  deriving DecidableEq

/-- `StatusCode::is_success`: the status is in the 2xx range. -/
def isSuccess (status : ℕ) : Bool := 200 ≤ status && status < 300

/-- `parse_amplifier_error`: decode the body of an answer that is not a success. -/
def parseAmplifierError {E : Type} (fromSlice : List UInt8 → Option E) (bytes : List UInt8) :
    Except AmplifierApiError E :=
  match fromSlice bytes with
  | some error => .ok error
  | none => .error .json

/-- `AmplifierResponse::json`: read the body, then decode it as the result or, when the status is
not a success, as the API's error. -/
def AmplifierResponse.json {T E : Type} (fromSlice : List UInt8 → Option T)
    (fromSliceError : List UInt8 → Option E) (response : AmplifierResponse) :
    Except AmplifierApiError (Except E T) :=
  match response.bytes with
  | none => .error .reqwest
  | some bytes =>
    if isSuccess response.status then
      match fromSlice bytes with
      | some result => .ok (.ok result)
      | none => .error .json
    else
      (parseAmplifierError fromSliceError bytes).map .error

/-- What became of one request: it could not be built, it could not be sent, or it was answered. -/
inductive Exchange
  | notBuilt (err : AmplifierApiError)
  | notSent (err : AmplifierApiError)
  | answered (response : AmplifierResponse)
  deriving DecidableEq

/-- The request may have reached the API. -/
def Exchange.built : Exchange → Bool
  | .notBuilt _ => false
  | _ => true

/-- The stage at which a call failed, with its error. -/
inductive CallError
  | build (err : AmplifierApiError)
  | send (err : AmplifierApiError)
  | json (err : AmplifierApiError)
  | response (err : ErrorResponse)
  deriving DecidableEq

/-- A call from the building of its request to the decoding of its answer. -/
def Exchange.json {T : Type} (fromSlice : List UInt8 → Option T)
    (fromSliceError : List UInt8 → Option ErrorResponse) : Exchange → Except CallError T
  | .notBuilt err => .error (.build err)
  | .notSent err => .error (.send err)
  | .answered response =>
    match response.json fromSlice fromSliceError with
    | .error err => .error (.json err)
    | .ok (.error err) => .error (.response err)
    | .ok (.ok result) => .ok result

/-! ### The listing of tasks -/

/-- The tasks of one chain in the order the API lists them, each under its own id. -/
abbrev TaskFeed := Feed TaskItem.id

/-- The API's answer to `GetChains` (without `before`): the first tasks after the cursor. -/
def TaskFeed.getChains (feed : TaskFeed) (after : Option TaskItemId) (limit : Option UInt8) :
    List TaskItem :=
  match limit with
  | some n => (feed.after after).take n.toNat
  | none => feed.after after

theorem TaskFeed.getChains_eq_take (feed : TaskFeed) (after : Option TaskItemId)
    (limit : Option UInt8) : ∃ n, feed.getChains after limit = (feed.after after).take n := by
  cases limit with
  | none => exact ⟨(feed.after after).length, by simp [getChains]⟩
  | some n => exact ⟨n.toNat, rfl⟩

end RelayerCore
