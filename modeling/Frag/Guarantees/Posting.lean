import Frag.Backend.Calls
import Frag.Backend.Server

/-!
# What a Successful POST Means

A POST is answered 201 when its fragment was inserted and 200 when its id was taken; the
client counts both as success. Only the first one says that the values of the POST are
stored: a POST under a taken id changes nothing, whatever its other values are.

## Main results

- `success_means_stored`: what is stored after a successful POST, and for how long.
-/

namespace Frag

/-- The chat's GET with `since` 0 returns a fragment with the five texts of the body. -/
def Serves (db : Database) (body : FragmentPost Bytes) : Prop :=
  ∃ x ∈ (makeGetFragmentsHandler db body.chatId 0).getD [], x.id = body.id ∧
    x.messageId = body.messageId ∧ x.chatId = body.chatId ∧ x.senderHash = body.senderHash ∧
    x.payload = body.payload

instance (db : Database) (body : FragmentPost Bytes) : Decidable (Serves db body) :=
  inferInstanceAs (Decidable (∃ x ∈ (_ : List (Fragment Bytes)), _))

namespace AppContext

variable {ctx : AppContext} {now : Int} {db : Database} {req : HttpRequest}

/-- A successful POST passed all checks, and its status tells whether its id was free. -/
theorem makePostFragmentHandler_of_success
    (h : (ctx.makePostFragmentHandler now db req).1.statusCode = 201 ∨
      (ctx.makePostFragmentHandler now db req).1.statusCode = 200) :
    missingMember (readFragment req.body) = none ∧
    ((ctx.makePostFragmentHandler now db req).2 =
      (db.insertFragment ((readFragment req.body).stamped now)).2) ∧
    ((ctx.makePostFragmentHandler now db req).1.statusCode = 201 ↔
      cStr (readFragment req.body).id ∉ db.rows.map Fragment.id) := by
  unfold makePostFragmentHandler at h ⊢
  split at h
  · -- The answers before the insert are errors.
    simp [HttpResponse.unauthorized, HttpResponse.json] at h
  split at h
  · simp [HttpResponse.badRequest, HttpResponse.json] at h
  split at h
  · simp [HttpResponse.payloadTooLarge, HttpResponse.json] at h
  · rename_i hauth hne hwithin
    rw [if_neg hauth, if_neg hne, if_neg hwithin]
    cases hmissing : missingMember (readFragment req.body) with
    | some error =>
      simp [Frag.makePostFragmentHandler, hmissing, PostResponse.toHttp, HttpResponse.badRequest,
        HttpResponse.json] at h
    | none =>
      have hfree := @Database.insertFragment_fst db ((readFragment req.body).stamped now)
      simp only [Frag.makePostFragmentHandler, hmissing, true_and]
      refine Iff.trans ?_ hfree
      cases (db.insertFragment ((readFragment req.body).stamped now)).1 <;>
        simp [PostResponse.toHttp, HttpResponse.created, HttpResponse.ok, HttpResponse.json]

/-- **Created means stored, duplicate means taken.** Let a POST be answered 201, with texts
    without NUL and the clock past 1970. Then its chat's GET returns a fragment with its
    values, until the id is deleted or a purge finds it expired. A POST answered 200
    changes nothing: a fragment was stored under its id before, and stays as long. -/
theorem success_means_stored (ctx : AppContext) (now : Int) (db : Database) (req : HttpRequest)
    (hnow : 0 < now) (hnul : ((readFragment req.body).stamped now).NoNul) :
    ((ctx.makePostFragmentHandler now db req).1.statusCode = 201 →
      ∀ calls, (∀ c ∈ calls, ¬ c.op.Drops (((readFragment req.body).stamped now).map cStr)) →
        Serves ((ctx.makePostFragmentHandler now db req).2.after calls) (readFragment req.body)) ∧
    ((ctx.makePostFragmentHandler now db req).1.statusCode = 200 →
      (ctx.makePostFragmentHandler now db req).2 = db ∧
      ∃ r ∈ db.rows, r.id = cStr (readFragment req.body).id ∧
        ∀ calls, (∀ c ∈ calls, ¬ c.op.Drops r) → r ∈ (db.after calls).rows) := by
  constructor
  · intro hcreated calls hkeep
    obtain ⟨hmissing, hdb, hfree⟩ := makePostFragmentHandler_of_success (.inl hcreated)
    -- The row is added, nothing drops it, and the query selects it.
    have hrow : ((readFragment req.body).stamped now).map cStr ∈
        (ctx.makePostFragmentHandler now db req).2.rows := by
      rw [hdb]
      exact Database.mem_rows_insertFragment.mpr (.inr ⟨hfree.mp hcreated, rfl⟩)
    have hchat : (readFragment req.body).chatId ≠ [] := (missingMember_eq_none.mp hmissing).2.2.1
    refine ⟨(readFragment req.body).stamped now, ?_, rfl, rfl, rfl, rfl, rfl⟩
    rw [Frag.makeGetFragmentsHandler, if_neg hchat, Option.getD_some, Database.mem_getFragments]
    exact ⟨_, Database.mem_rows_after hrow hkeep, rfl, hnow,
      ((Fragment.map_cStr_eq_iff hnul).mp rfl).symm⟩
  · intro hduplicate
    obtain ⟨-, hdb, hfree⟩ := makePostFragmentHandler_of_success (.inr hduplicate)
    -- With a free id the answer would have been 201.
    have htaken : cStr (readFragment req.body).id ∈ db.rows.map Fragment.id := by
      by_contra hnew
      exact absurd (hduplicate.symm.trans (hfree.mpr hnew)) (by decide)
    obtain ⟨r, hr, hid⟩ := List.mem_map.mp htaken
    refine ⟨hdb.trans (Database.insertFragment_snd_eq_iff.mpr htaken), r, hr, hid, ?_⟩
    exact fun calls hkeep => Database.mem_rows_after hr hkeep

/-- A new fragment is served after another one was deleted. -/
theorem created_is_served :
    Serves ((Sample.context.makePostFragmentHandler 100 .empty (Sample.post "1" "p")).2.after
      [.deleteFragment (lit "2"), .purgeExpired 500])
      (readFragment (Sample.post "1" "p").body) :=
  (success_means_stored Sample.context 100 .empty (Sample.post "1" "p") (by decide)
    (by decide +kernel)).1 (by decide +kernel) _ (by decide +kernel)

/-- The POST is answered 2xx, and its values are not served right after it. -/
def SucceedsUnserved (now : Int) (db : Database) (req : HttpRequest) : Prop :=
  (Sample.context.makePostFragmentHandler now db req).1.statusCode ∈ [200, 201] ∧
    ¬ Serves (Sample.context.makePostFragmentHandler now db req).2 (readFragment req.body)

instance (now : Int) (db : Database) (req : HttpRequest) :
    Decidable (SucceedsUnserved now db req) :=
  inferInstanceAs (Decidable (_ ∧ _))

/-- A POST can succeed without its values being served: when its id is taken, when a text
    has a NUL, and when the clock is at 1970. -/
theorem success_without_being_served :
    SucceedsUnserved 100
      (Sample.context.makePostFragmentHandler 50 .empty (Sample.post "1" "q")).2
      (Sample.post "1" "p") ∧
    SucceedsUnserved 100 .empty (Sample.post "1" "p\x00q") ∧
    SucceedsUnserved 0 .empty (Sample.post "1" "p") := by
  decide +kernel

end AppContext

end Frag
