import Frag.Backend.Server

/-!
# Access without a Token

Every handler but that of `/health` checks the token before it looks at its parameters or
at the table. Without one, two servers with different tables cannot be told apart.

## Main results

- `unauthorized_learns_nothing`: requests without a token leave every table as it is, and
  are answered alike for all tables, `GET /health` apart.
-/

namespace Frag

namespace AppContext

variable {ctx : AppContext} {now : Int} {db : Database} {req : HttpRequest}

/-- The request is routed to `GET /health`. -/
def RoutedToHealth (req : HttpRequest) : Prop :=
  req.method = lit "GET" ∧ (matchPattern (lit "/health") req.path).isSome

instance (req : HttpRequest) : Decidable (RoutedToHealth req) :=
  inferInstanceAs (Decidable (_ ∧ _))

/-- Without a token every other route answers 401. -/
theorem handle_of_unauthorized {r : Route} (hr : r ∈ ctx.routes) (haccept : r.accepts req = true)
    (hhealth : ¬ RoutedToHealth req) (hauth : isAuthorized req ctx.auth = false) :
    (r.handle now db req).1 = .unauthorized := by
  obtain ⟨hmatch, hmethod⟩ := (accepts_iff hr).mp haccept
  -- The handler gets the path parameters, and they do not matter for the token.
  have hauth' : ∀ params, (!isAuthorized { req with pathParams := params } ctx.auth) = true :=
    fun params => (Bool.not_eq_true' _).mpr hauth
  simp only [routes, List.mem_cons, List.not_mem_nil, or_false] at hr
  -- `GET /health` is excluded, and the other four check the token first.
  rcases hr with rfl | rfl | rfl | rfl | rfl
  · exact absurd ⟨hmethod.symm, hmatch⟩ hhealth
  · exact congrArg Prod.fst (if_pos (hauth' _))
  · exact congrArg Prod.fst (if_pos (hauth' _))
  · exact congrArg Prod.fst (if_pos (hauth' _))
  · exact congrArg Prod.fst (if_pos (hauth' _))

/-- **Without a token nothing changes and nothing is revealed.** A request whose
    `Authorization` header is absent or not accepted leaves every table as it is; unless it
    is routed to `GET /health`, it is answered alike for any two tables. -/
theorem unauthorized_learns_nothing (ctx : AppContext) (corsOrigin : Bytes) (now : Int)
    (req : HttpRequest)
    (hauth : ∀ value, req.headers.get? (lit "authorization") = some value →
      ctx.auth.verify value = false) :
    (∀ db, ((ctx.server corsOrigin).respond now db req).2 = db) ∧
    (¬ RoutedToHealth req → ∀ db db', ((ctx.server corsOrigin).respond now db req).1 =
      ((ctx.server corsOrigin).respond now db' req).1) := by
  have hdenied : isAuthorized req ctx.auth = false := by
    unfold isAuthorized
    split
    · rfl
    · rename_i value hvalue
      exact hauth value hvalue
  constructor
  · intro db
    -- Every request that changes the table is authorised.
    refine respond_snd_eq_iff.mpr ⟨fun h => ?_, fun h => ?_⟩
    · exact absurd h.authorized (by simp [hdenied])
    · exact absurd h.authorized (by simp [hdenied])
  · intro hhealth db db'
    -- The request is rejected by the router, or answered 401 by the handler of its route.
    rcases respond_cases ctx corsOrigin now req with
      ⟨-, error, heq⟩ | ⟨r, hr, haccept, heq⟩
    · rw [heq, heq]
    · rw [heq, heq, handle_of_unauthorized hr haccept hhealth hdenied,
        handle_of_unauthorized hr haccept hhealth hdenied]

/-- A DELETE with a wrong token is answered alike by a server with the fragment and by one
    without. -/
theorem wrong_token_learns_nothing :
    ((Sample.context.server (lit "*")).respond 100 .empty
      (Sample.request "DELETE" "/api/fragments/1" "Bearer guess" [])).1 =
    ((Sample.context.server (lit "*")).respond 100
      (Database.empty.insertFragment ⟨lit "1", lit "m", lit "c", lit "s", lit "p", 50, 0⟩).2
      (Sample.request "DELETE" "/api/fragments/1" "Bearer guess" [])).1 :=
  (unauthorized_learns_nothing Sample.context (lit "*") 100
    (Sample.request "DELETE" "/api/fragments/1" "Bearer guess" []) (fun value hvalue => by
      obtain rfl : lit "Bearer guess" = value := by
        simpa [Sample.request] using hvalue
      decide)).2 (by decide) _ _

end AppContext

end Frag
