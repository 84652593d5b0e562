import Frag.Client.Addresses
import Frag.Client.Serialization
import Frag.Library.Http

/-!
# Requests of the Client

`request` of `network.js`, from what `fetch` settles with on. `fetch` belongs to the browser:
a page of another origin than the server asks with a preflight first whether the method and
the headers are allowed, and the answers reach the page only if the server names its origin.

Every request carries `Authorization` and `Content-Type: application/json`, so none of them is
simple.

## Main results

- `fragments?_toJs`: fragments are read back from their objects.
-/

namespace Frag

open Unicode
open JsonText (Data)

/-! ## `fetch` -/

/-- What `fetch` settles with, the body of a response included; `none` is a body that breaks
    off. The message of a failure is up to the browser. -/
inductive Fetched where
  | response (status : Nat) (body : Option Bytes)
  | aborted
  | failed (message : JsString)

/-- The CORS check: `*` or the origin of the page. The page sends no credentials. -/
def corsAllows (origin : Bytes) (fields : List (Bytes × Bytes)) : Bool :=
  match Http.fieldValue (lit "access-control-allow-origin") fields with
  | none => false
  | some value => value = lit "*" || value = origin

/-- The members of a list in a field, without the blanks around them. -/
def fieldList (name : String) (fields : List (Bytes × Bytes)) : List Bytes :=
  ((Http.fieldValue (lit name) fields).getD []).splitOn 0x2C |>.map Http.strip

/-- The headers of every request that a preflight has to allow. -/
def unsafeHeaders : List Bytes := [lit "authorization", lit "content-type"]

/-- The preflight allows the request. -/
def preflightAllows (origin method : Bytes) (r : Http.Response) : Bool :=
  corsAllows origin r.fields && 200 ≤ r.status && r.status ≤ 299 &&
    ([lit "GET", lit "HEAD", lit "POST"].contains method ||
      (fieldList "access-control-allow-methods" r.fields).contains method) &&
    unsafeHeaders.all ((fieldList "access-control-allow-headers" r.fields).map Http.lower).contains

/-- What a page of another origin gets of the bytes that answer the preflight and the request. -/
def fetched (origin method : Bytes) (message : JsString) (preflight reply : Bytes) : Fetched :=
  match Http.Response.read preflight with
  | none => .failed message
  | some allowed =>
    if preflightAllows origin method allowed then
      match Http.Response.read reply with
      | none => .failed message
      | some r => if corsAllows origin r.fields then .response r.status (some r.body) else .failed message
    else .failed message

/-! ## `request` -/

/-- What `request` throws: a `NetworkError` with its message and status, or an exception of the
    interpreter or of the browser. -/
inductive RequestFailure where
  | network (message : JsValue) (status : Nat)
  | typeError

/-- `request`, from the end of `fetch` on. -/
def request : Fetched → Except RequestFailure JsValue
  | .aborted => .error (.network (.string (js "Request timed out")) 0)
  | .failed message => .error (.network (.string (js "Network error: " ++ message)) 0)
  | .response status body =>
    if status = 204 then .ok .null  -- no content
    else
      match body.map textDecode with
      | none => .error .typeError
      | some text =>
        let data := (jsonParse text).getD (.object [(js "raw", .string text)])
        if 200 ≤ status ∧ status ≤ 299 then .ok data
        -- `data.error` throws.
        else if data.isNull then .error .typeError
        else
          let message := ((data.property "error").filter JsValue.truthy).getD
            (.string (js "HTTP " ++ decimal status))
          .error (.network message status)

/-! ## Headers -/

/-- A header value; `fetch` throws if a unit does not fit into a byte. -/
def latin1 (s : JsString) : Option Bytes :=
  if s.all fun u => u.toNat < 0x100 then some (s.map fun u => .ofNat u.toNat) else none

/-- The value of the `Authorization` header, without the blanks that `fetch` removes. -/
def bearer (token : JsString) : Option Bytes :=
  (latin1 token).map fun token => Http.strip (lit "Bearer " ++ token)

/-! ## Fragments -/

/-- A fragment as an object of the frontend. -/
def Fragment.toJs (f : Fragment JsString) : JsValue :=
  .object [(js "id", .string f.id), (js "message_id", .string f.messageId),
    (js "chat_id", .string f.chatId), (js "sender_hash", .string f.senderHash),
    (js "payload", .string f.payload), (js "timestamp", .number (.finite f.timestamp)),
    (js "ttl", .number (.finite f.ttl))]

/-- A text among the members of an object. -/
def JsValue.text? (v : JsValue) (name : String) : Option JsString :=
  match v.property name with
  | some (.string s) => some s
  | _ => none

/-- An integer among the members of an object. -/
def JsValue.integer? (v : JsValue) (name : String) : Option Int :=
  match v.property name with
  | some (.number (.finite q)) => if q.isInt then some q.num else none
  | _ => none

/-- The fragment that an object stands for. -/
def JsValue.fragment? (v : JsValue) : Option (Fragment JsString) := do
  let id ← v.text? "id"
  let messageId ← v.text? "message_id"
  let chatId ← v.text? "chat_id"
  let senderHash ← v.text? "sender_hash"
  let payload ← v.text? "payload"
  let timestamp ← v.integer? "timestamp"
  let ttl ← v.integer? "ttl"
  some { id, messageId, chatId, senderHash, payload, timestamp, ttl }

/-- The fragments of an array. -/
def JsValue.fragments? : JsValue → Option (List (Fragment JsString))
  | .array items => items.mapM JsValue.fragment?
  | _ => none

theorem fragment?_toJs (f : Fragment JsString) : f.toJs.fragment? = some f := rfl

theorem fragments?_toJs (l : List (Fragment JsString)) :
    (JsValue.array (l.map Fragment.toJs)).fragments? = some l := by
  rw [JsValue.fragments?, List.mapM_map]
  induction l with
  | nil => rfl
  | cons f l ih => rw [List.mapM_cons, Function.comp_apply, fragment?_toJs, ih]; rfl

end Frag
