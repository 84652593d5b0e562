import Frag.Backend.Server
import Frag.Library.JsonPlaces

/-!
# Malformed Bodies

The POST handler rejects a body if the scanner finds no text for one of the required
members. The scanner does not check that the body is JSON, or what a name or a quote is
part of. A malformed body is accepted if there is something to read for every name.

## Main results

- `extractString_ne_nil_iff`: when the scanner finds a text;
- `malformed_rejected_iff`: the malformed bodies that are rejected.
-/

namespace Frag

open Scan

/-- The members without which a fragment is rejected. -/
def requiredNames : List Bytes :=
  [lit "id", lit "message_id", lit "chat_id", lit "sender_hash", lit "payload"]

/-- A text that is not empty. -/
def isText : Json → Bool
  | .string text => text ≠ []
  | _ => false

/-- The body is a JSON object whose required members are texts that are not empty. Of several
    members of one name the last one counts, and a text may have any bytes from 0x80 on. -/
def WellFormedBody (body : Bytes) : Prop :=
  ∃ ms, Json.parse body = some (.object ms) ∧
    ∀ name ∈ requiredNames, (Json.lookup ms name).any isText = true

instance (body : Bytes) : Decidable (WellFormedBody body) :=
  match h : Json.parse body with
  | some (.object ms) =>
    decidable_of_iff (∀ name ∈ requiredNames, (Json.lookup ms name).any isText = true) (by
      simp only [WellFormedBody, h, Option.some.injEq, Json.object.injEq, exists_eq_left'])
  | some .null | some (.bool _) | some (.number _ _) | some (.string _) | some (.array _) | none =>
    isFalse (by simp [WellFormedBody, h])

/-- After the first occurrence of the name in quotes there is a colon, after it a quote, and
    next to that a byte other than a quote. -/
def Scannable (body name : Bytes) : Prop :=
  ∃ c s, ((after (quoted 0x22 name) body).bind (after [0x3A])).bind (after [0x22]) = some (c :: s) ∧
    c ≠ 0x22

theorem readString_eq_nil_iff {s : Bytes} : readString s = [] ↔ ∀ c ∈ s.head?, c = 0x22 := by
  match s with
  | [] => simp [readString]
  | [c] => simp [readString]
  | c :: d :: s =>
    rw [readString]
    split
    · rename_i hbackslash
      simp [hbackslash]
    · split
      · rename_i hquote
        simp [hquote]
      · rename_i hquote
        simp [hquote]

/-- The scanner finds a text. -/
theorem extractString_ne_nil_iff {body name : Bytes} :
    extractString body name ≠ [] ↔ Scannable body name := by
  rw [Scannable, extractString, afterKey]
  -- A text is found unless the search fails, and it is empty only next to a quote.
  cases hfound : ((after (quoted 0x22 name) body).bind (after [0x3A])).bind (after [0x22]) with
  | none => simp
  | some s =>
    simp only [ne_eq, readString_eq_nil_iff, Option.some.injEq]
    cases s with
    | nil => simp
    | cons c s => simp

theorem missingMember_readFragment_iff {body : Bytes} :
    missingMember (readFragment body) = none ↔ ∀ name ∈ requiredNames, Scannable body name := by
  simp only [missingMember_eq_none, readFragment, extractString_ne_nil_iff, requiredNames,
    List.forall_mem_cons, List.not_mem_nil, false_imp_iff, implies_true, and_true]

namespace AppContext

variable {ctx : AppContext} {db : Database} {req : HttpRequest}

/-- The handler answers 400 and leaves the table as it is. -/
def Rejects (ctx : AppContext) (now : Int) (db : Database) (req : HttpRequest) : Prop :=
  (ctx.makePostFragmentHandler now db req).1.statusCode = 400 ∧
    (ctx.makePostFragmentHandler now db req).2 = db

/-- An authorised body within the limit is rejected if a text is not found. -/
theorem rejects_iff (hauth : isAuthorized req ctx.auth = true)
    (hwithin : req.body.length ≤ ctx.maxPayloadBytes) (now : Int) :
    ctx.Rejects now db req ↔ ∃ name ∈ requiredNames, ¬ Scannable req.body name := by
  have hmissing : (∃ name ∈ requiredNames, ¬ Scannable req.body name) ↔
      missingMember (readFragment req.body) ≠ none := by
    rw [ne_eq, missingMember_readFragment_iff]
    simp
  rw [hmissing, Rejects, makePostFragmentHandler, if_neg (by simp [hauth])]
  -- An empty body is rejected before it is scanned, and nothing is found in it either.
  by_cases hempty : req.body = []
  · rw [if_pos hempty, hempty]
    exact iff_of_true ⟨rfl, rfl⟩ (by decide)
  · rw [if_neg hempty, if_neg (by omega)]
    cases hm : missingMember (readFragment req.body) with
    | some error => simp [Frag.makePostFragmentHandler, hm, PostResponse.toHttp, HttpResponse.badRequest,
        HttpResponse.json]
    | none =>
      simp only [Frag.makePostFragmentHandler, hm]
      -- The answer is 201 or 200.
      refine iff_of_false (fun h => ?_) (by simp)
      have hstatus := h.1
      split at hstatus <;> cases hstatus

/-- **The malformed bodies that are rejected**: those in which one of the names is not
    followed by a colon, a quote and a byte of a text. -/
theorem malformed_rejected_iff (hauth : isAuthorized req ctx.auth = true)
    (hwithin : req.body.length ≤ ctx.maxPayloadBytes) (now : Int) :
    (¬ WellFormedBody req.body → ctx.Rejects now db req) ↔
      WellFormedBody req.body ∨ ∃ name ∈ requiredNames, ¬ Scannable req.body name := by
  rw [rejects_iff hauth hwithin now, or_iff_not_imp_left]

/-- A body without a quote after a colon is rejected. -/
theorem unquoted_is_rejected :
    Sample.context.Rejects 100 .empty
      (Sample.request "POST" "/api/fragments" "secret" (lit "\x7b\"id\":1\x7d")) := by
  have hnot : ¬ Scannable (lit "\x7b\"id\":1\x7d") (lit "id") := by
    rw [← extractString_ne_nil_iff]
    decide +kernel
  exact (malformed_rejected_iff (by decide +kernel) (by decide +kernel) 100).mpr
    (.inr ⟨lit "id", by decide, hnot⟩) (by decide +kernel)

end AppContext

/-- An authorised POST with a body within the limit that is not well-formed, answered 201. -/
def AcceptsMalformed (body : Bytes) : Prop :=
  ¬ WellFormedBody body ∧
    isAuthorized (Sample.request "POST" "/api/fragments" "secret" body) Sample.context.auth = true ∧
    body.length ≤ Sample.context.maxPayloadBytes ∧
    (Sample.context.makePostFragmentHandler 100 .empty
      (Sample.request "POST" "/api/fragments" "secret" body)).1.statusCode = 201

instance (body : Bytes) : Decidable (AcceptsMalformed body) := inferInstanceAs (Decidable (_ ∧ _))

/-- Texts that end too early, names without values, values that are no texts, and an object
    that is not at the top level. -/
theorem malformed_is_stored :
    AcceptsMalformed (lit "\x7b\"id\":\"1\",\"message_id\":\"m\",\"chat_id\":\"c\"," ++
      lit "\"sender_hash\":\"s\",\"payload\":\"QU") ∧
    AcceptsMalformed (lit "\"id\" \"message_id\" \"chat_id\" \"sender_hash\" \"payload\" : \"x\"") ∧
    AcceptsMalformed (lit "\x7b\"id\":null,\"message_id\":1,\"chat_id\":[]," ++
      lit "\"sender_hash\":\x7b\x7d,\"payload\":\"QUJD\"\x7d") ∧
    AcceptsMalformed (lit "[" ++ Sample.body "1" "QUJD" ++ lit "]") := by
  decide +kernel

end Frag
