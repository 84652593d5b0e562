import Frag.Backend.Server
import Frag.Client.Network
import Frag.Client.Request
import Frag.Guarantees.Requests
import Frag.System.World

/-!
# The System on the Wire

The system of `World` with its connections spelled out. A `WireEvent` carries what the
environment chooses of a connection (an `Exchange`): what the rate limiter says, the clock of
the server, the header fields that the browser sends, how the bytes arrive at `recv`, and
whether the answer arrives at the client. Clients write requests as bytes and parse the
answers; a server gets nothing but bytes, and anybody may send it some.

`Proper` says which exchanges there are: the segments are a cut of the bytes that the client
writes, which are within the cap of the read loop, and the fields are those of `fetch`.
-/

namespace Frag

/-! ## Connections -/

/-- What the environment chooses of a connection. -/
structure Exchange where
  allowed : Bool
  now : Int
  fields : List Http.Field
  segs : List Segment
  returned : Bool

/-- The connection carries a request of a page: its bytes, which end in the body. -/
structure Exchange.Carries (x : Exchange) (token : JsString) (bytes body : Bytes) : Prop where
  cut : Cuts x.segs bytes
  within : bytes.length ≤ maxRequestBytes
  announced : Announces x.fields body
  authorized : ∃ f ∈ x.fields, toLower f.name = lit "authorization"
  token : ∀ f ∈ x.fields, toLower f.name = lit "authorization" → bearer token = some f.value

/-- The token is one of the server. -/
def Exchange.verified (auth : Auth) (token : JsString) : Bool := (bearer token).any auth.verify

/-- The backend lets a POST through to its table. -/
def Exchange.admits (x : Exchange) (ctx : AppContext) (token : JsString) (fragment : FragmentPost JsString) :
    Bool :=
  x.allowed && Exchange.verified ctx.auth token && (requestBody fragment).length ≤ ctx.maxPayloadBytes

/-- The answer to a GET comes back to a client with this token. -/
def Exchange.answers (x : Exchange) (ctx : AppContext) (token : JsString) : Bool :=
  x.allowed && x.returned && Exchange.verified ctx.auth token

/-- The response in the bytes that a server sent. -/
def Exchange.response (x : Exchange) (bytes : Bytes) : Option Http.Response :=
  if x.returned then Http.Response.read bytes else none

/-- What `fetch` settles with; the message of a failure is up to the browser. -/
def Exchange.fetched (x : Exchange) (bytes : Bytes) : Fetched :=
  match x.response bytes with
  | none => .failed []
  | some r => .response r.status (some r.body)

/-- The fragments that a poll gets of a GET; a request that fails is caught. -/
def answerOf : Except RequestFailure JsValue → Option (List (Fragment JsString))
  | .ok v => v.fragments?
  | .error _ => none

/-- `postFragment`; the target has no query. -/
def postFragment (headers : Bytes) (fragment : FragmentPost JsString) : Bytes :=
  httpRequest (lit "POST") (requestTarget [lit "api", lit "fragments"]) (headers ++ requestBody fragment)

/-! ## State and events -/

variable {B ι : Type} [DecidableEq B] [DecidableEq ι]

/-- The backends with their configurations. -/
structure Deployment (B : Type) where
  env : Env B
  context : B → AppContext
  corsOrigin : B → Bytes
  isValue : ∀ b, Http.IsValue (corsOrigin b)

/-- The server process of a backend. -/
def Deployment.server (D : Deployment B) (b : B) : HttpServer := (D.context b).server (D.corsOrigin b)

/-- One step of one party. -/
inductive WireEvent (B ι : Type) where
  /-- An event without a connection. -/
  | quiet (e : Event B ι)
  /-- The `j`-th POST of the `k`-th sent message is connected with its backend. -/
  | post (k j : Nat) (x : Exchange)
  /-- A client polls a chat; some servers are connected with. -/
  | poll (i : ι) (id : JsString) (x : Server → Option Exchange)
  /-- Bytes of somebody arrive at a backend. -/
  | stray (b : B) (allowed : Bool) (now : Int) (segs : List Segment)

namespace World

/-- The answers to the GETs of a poll, as the client parses them. -/
def wireAnswer (D : Deployment B) (w : World B ι) (x : Server → Option Exchange) : Answer :=
  fun server _ _ => (x server).bind fun x =>
    let b := D.env.backend server
    let bytes := ((D.server b).handleConnection x.allowed x.now (w.stores b) x.segs).1
    answerOf (Frag.request (x.fetched bytes))

/-- One event. -/
def wireStep (D : Deployment B) (w : World B ι) : WireEvent B ι → World B ι
  | .quiet e => w.step D.env e
  | .post k j x =>
    match w.request k j with
    | none => w
    | some (s, server, _) =>
      let b := D.env.backend server
      let (bytes, db) := (D.server b).handleConnection x.allowed x.now (w.stores b) x.segs
      let fulfilled := (Http.Response.read bytes).any fun r => 200 ≤ r.status && r.status ≤ 299
      { w with
        stores := Function.update w.stores b db
        accepted := if fulfilled then w.accepted ++ [(s.messageId, j)] else w.accepted }
  | .poll i id x =>
    match w.chat? i id with
    | none => w
    | some chat =>
      let app := pollChat D.env.crypto (w.apps i) chat (w.wireAnswer D x)
      { w with apps := Function.update w.apps i app }
  | .stray b allowed now segs =>
    let db := ((D.server b).handleConnection allowed now (w.stores b) segs).2
    { w with stores := Function.update w.stores b db }

/-- The event has no connection of its own. -/
def Quiet : Event B ι → Prop
  | .post _ _ _ | .poll _ _ _ => False
  | _ => True

/-- A number that JSON and the program agree on. -/
def SafeNat (n : Int) : Prop := 0 ≤ n ∧ n ≤ 9007199254740991

instance (n : Int) : Decidable (SafeNat n) := inferInstanceAs (Decidable (_ ∧ _))

/-- The ttl of a message and the clock of a server are such numbers. -/
def SafeStep : Event B ι → Prop
  | .send _ _ ttl _ => SafeNat (resolveTtl ttl)
  | .post _ _ now => SafeNat now
  | _ => True

/-- The event is one of this repository: clients write their requests with the tokens that they
    have, and nobody else has one. -/
def Proper (D : Deployment B) (w : World B ι) : WireEvent B ι → Prop
  | .quiet e => Quiet e ∧ SafeStep e ∧ w.CleanSend e
  | .post k j x => SafeNat x.now ∧ ∀ s server fragment, w.request k j = some (s, server, fragment) →
      x.Carries server.token (postFragment (Http.headerSection x.fields) fragment) (requestBody fragment)
  | .poll i id x => ∀ chat, w.chat? i id = some chat →
      ∀ server ∈ (w.apps i).resolveServers chat.serverIds, ∀ y ∈ x server, ∃ bytes,
        getFragments (Http.headerSection y.fields) chat.chatId ((w.apps i).lastSince id).toNat = some bytes ∧
        y.Carries server.token bytes []
  | .stray b _ _ segs => isAuthorized (readAndParse segs) (D.context b).auth = false

/-- The event of `World` that an event on the wire comes to; `none` is an event that changes
    nothing. -/
def abstract (D : Deployment B) (w : World B ι) : WireEvent B ι → Option (Event B ι)
  | .quiet e => some e
  | .post k j x =>
    (w.request k j).bind fun p =>
      if x.admits (D.context (D.env.backend p.2.1)) p.2.1.token p.2.2 then some (.post k j x.now) else none
  | .poll i id x => some (.poll i id fun server =>
      (x server).any fun y => y.answers (D.context (D.env.backend server)) server.token)
  | .stray _ _ _ _ => none

end World

end Frag
