import Frag.Backend.Server
import Frag.Guarantees.Scanning
import Frag.Guarantees.Subsets
import Mathlib.Algebra.Order.Floor.Div

/-!
# Texts, Blobs and Chunks

The way of a text from `encrypt` over `splitPayload` to the backends, and back.

The blob is cut into chunks of `⌈length / n⌉` characters, and the last ones hold what is left.
When the rounding adds up, nothing is left for them: they are empty, and the POST handler takes
an empty payload for a missing one. A decoder drops a leading byte order mark.

## Main results

- `decrypts_to_text_iff`: the texts that decryption gives back;
- `splitPayload_balanced`: the lengths of the chunks;
- `chunks_accepted_iff`: when every backend accepts its chunk.
-/

namespace Frag

open Unicode Chunks

variable {W : WebCrypto} {app : App} {text : JsString} {ttl : Option Rat} {rand : SendRandom}
  {o : Outgoing}

/-! ## Texts -/

/-- What decryption gives back: the text without a leading byte order mark. -/
theorem decrypt_encrypt_utf16 (hW : W.Lawful) (key : AesKey) (iv : Iv) (cs : List Char) :
    decrypt W key (encrypt W key iv (utf16 cs)) = some (utf16 (dropByteOrderMark cs)) := by
  have hne : W.encrypt key iv (textEncode (utf16 cs)) ≠ [] := by
    intro hnil
    have hlength := hW.length_encrypt key iv (textEncode (utf16 cs))
    simp [hnil] at hlength
  rw [encrypt, decrypt_of_atob (Base64.atob_btoa _) hne, hW.decrypt_encrypt, Option.map_some,
    textDecode, textEncode, scalars_utf16, utf8Decode_utf8]

/-- **Decryption gives the text back** iff the text does not start with a byte order mark. The
    texts are the well-formed ones. -/
theorem decrypts_to_text_iff (hW : W.Lawful) (key : AesKey) (iv : Iv) (cs : List Char) :
    decrypt W key (encrypt W key iv (utf16 cs)) = some (utf16 cs) ↔
      cs.head? ≠ some byteOrderMark := by
  rw [decrypt_encrypt_utf16 hW, Option.some.injEq, utf16_injective.eq_iff]
  exact dropByteOrderMark_eq_self_iff

theorem greeting_is_decrypted :
    decrypt sampleCrypto zeroKey (encrypt sampleCrypto zeroKey zeroIv (utf16 ['h', '\u00e9', '😀'])) =
      some (utf16 ['h', '\u00e9', '😀']) :=
  (decrypts_to_text_iff sampleCrypto_lawful zeroKey zeroIv ['h', '\u00e9', '😀']).mpr (by decide)

/-- The mark is lost. -/
theorem leading_mark_is_lost :
    decrypt sampleCrypto zeroKey (encrypt sampleCrypto zeroKey zeroIv (utf16 ['\uFEFF', 'h'])) ≠
      some (utf16 ['\uFEFF', 'h']) := by
  decide +kernel

/-! ## Chunks -/

theorem chunkSize_eq_ceil (length n : Nat) : chunkSize length n = length ⌈/⌉ n := rfl

/-- **Splitting is lossless, balanced and total.** -/
theorem splitPayload_balanced (b64 : JsString) {n : Nat} (hn : 1 ≤ n) :
    (splitPayload b64 n).length = n ∧ joinPayload (splitPayload b64 n) = b64 ∧
      (∀ c ∈ splitPayload b64 n, c.length ≤ b64.length ⌈/⌉ n) ∧
      ((splitPayload b64 n).map List.length).Pairwise (· ≥ ·) ∧
      (splitPayload b64 n).countP (fun c => c.length ≠ b64.length ⌈/⌉ n ∧ c ≠ []) ≤ 1 := by
  refine ⟨length_splitPayload b64 hn, joinPayload_splitPayload b64 n, ?_⟩
  rw [← chunkSize_eq_ceil, splitPayload]
  split
  · -- The blob is the only chunk.
    obtain rfl : n = 1 := by omega
    refine ⟨fun c hc => ?_, List.pairwise_singleton _ _, ?_⟩
    · rw [List.mem_singleton.mp hc, chunkSize]
      exact Nat.le_of_eq (Nat.div_one _).symm
    · exact List.countP_le_length
  · exact ⟨fun c hc => length_le_of_mem_chunks hc, pairwise_length_chunks _ _ _,
      countP_partial_le_one _ _ _⟩

/-- The second chunk is cut, and the third one is empty. -/
theorem four_units_among_three :
    splitPayload (js "ABCD") 3 = [js "AB", js "CD", []] ∧
      ((splitPayload (js "ABCD") 3).map List.length).Pairwise (· ≥ ·) :=
  ⟨by decide, (splitPayload_balanced (js "ABCD") (by decide)).2.2.2.1⟩

/-- No chunk is empty iff the last one is not. -/
theorem splitPayload_ne_nil_iff {b64 : JsString} (hb : b64 ≠ []) {n : Nat} (hn : 0 < n) :
    (∀ c ∈ splitPayload b64 n, c ≠ []) ↔ (n - 1) * chunkSize b64.length n < b64.length := by
  have hpos := List.length_pos_iff.mpr hb
  unfold splitPayload
  split
  · obtain rfl : n = 1 := by omega
    simp [hb, hpos]
  · apply forall_chunks_ne_nil_iff hn
    exact Nat.div_pos (by omega) hn

/-! ## Backends -/

/-- A fragment whose texts the POST handler reads as they are; its chat id and its sender hash
    are not empty. -/
structure WellFormedPost (p : FragmentPost JsString) : Prop where
  posted : Posted p
  chatId : Transparent p.chatId ∧ p.chatId ≠ []
  senderHash : Transparent p.senderHash ∧ p.senderHash ≠ []

/-- An authorised POST of the fragment within the limit is not refused for its payload, and the
    fragment is stored if its id is free. -/
def Accepted (p : FragmentPost JsString) : Prop :=
  ∀ (ctx : AppContext) (now : Int) (db : Database) (req : HttpRequest),
    isAuthorized req ctx.auth = true → req.body = requestBody p →
    req.body.length ≤ ctx.maxPayloadBytes →
      (ctx.makePostFragmentHandler now db req).1 ≠ .badRequest "missing payload" ∧
      (cStr (toWire p.id) ∉ db.rows.map Fragment.id →
        ((p.map toWire).stamped now).map cStr ∈ (ctx.makePostFragmentHandler now db req).2.rows)

theorem toWire_ne_nil {s : JsString} (hs : WireSafe s) (hne : s ≠ []) : toWire s ≠ [] := by
  intro hnil
  have hback := fromWire_toWire (isWellFormed_of_wireSafe hs)
  rw [hnil] at hback
  exact hne hback.symm

/-- A fragment without empty texts is accepted. -/
theorem WellFormedPost.accepted {p : FragmentPost JsString} (h : WellFormedPost p)
    (hid : p.id ≠ []) (hmessageId : p.messageId ≠ []) (hpayload : p.payload ≠ []) :
    Accepted p := by
  intro ctx now db req hauth hbody hwithin
  have hread : readFragment req.body = p.map toWire := by
    rw [hbody]
    exact readFragment_transparent h.posted h.chatId.1 h.senderHash.1
  have hcomplete : missingMember (p.map toWire) = none := by
    rw [missingMember_eq_none]
    refine ⟨?_, ?_, ?_, ?_, ?_⟩
    · exact toWire_ne_nil (wireSafe_of_isIdUnit h.posted.id) hid
    · exact toWire_ne_nil (wireSafe_of_isIdUnit h.posted.messageId) hmessageId
    · exact toWire_ne_nil h.chatId.1.1 h.chatId.2
    · exact toWire_ne_nil h.senderHash.1.1 h.senderHash.2
    · exact toWire_ne_nil (wireSafe_of_isCodeUnit h.posted.payload) hpayload
  -- The handler scans the body, since it is not empty.
  have hne : req.body ≠ [] := by
    intro hnil
    rw [hnil] at hread
    rw [← hread] at hcomplete
    exact absurd hcomplete (by decide)
  have hhandler : ctx.makePostFragmentHandler now db req =
      ((Frag.makePostFragmentHandler db (p.map toWire) now).1.toHttp,
        (Frag.makePostFragmentHandler db (p.map toWire) now).2) := by
    rw [AppContext.makePostFragmentHandler, if_neg (by simp [hauth]), if_neg hne,
      if_neg (Nat.not_lt.mpr hwithin), hread]
  rw [hhandler]
  constructor
  · -- The answer is 201 or 200.
    rw [Frag.makePostFragmentHandler, hcomplete]
    intro hrefused
    have hstatus := congrArg HttpResponse.statusCode hrefused
    simp only at hstatus
    split at hstatus <;> cases hstatus
  · intro hfree
    exact mem_rows_makePostFragmentHandler.mpr (.inr ⟨hcomplete, hfree, rfl⟩)

theorem fragmentId_ne_nil (m : Uuid) (i : Nat) : fragmentId m.val i ≠ [] := by
  have hlength := length_of_isUuid m.shape
  intro hnil
  rw [fragmentId, List.append_assoc, List.append_eq_nil_iff] at hnil
  rw [hnil.1] at hlength
  cases hlength

/-- **Every backend accepts its chunk** iff the rounding leaves something for the last one. -/
theorem chunks_accepted_iff (hW : W.Lawful) (hsend : sendMessage W app text ttl rand = .ok o) :
    (∀ q ∈ o.posts, q.2.payload ≠ [] ∧ (WellFormedPost q.2 → Accepted q.2)) ↔
      (o.posts.length - 1) * chunkSize (blobLength (textEncode text).length) o.posts.length <
        blobLength (textEncode text).length := by
  obtain ⟨key, -, hpayloads⟩ := payloads_of_sendMessage hsend
  have hlength : (encrypt W key rand.iv text).length = blobLength (textEncode text).length := by
    rw [encrypt, Base64.length_btoa, List.length_append, rand.iv.length_bytes, hW.length_encrypt,
      blobLength, ivLen]
    congr 2
    omega
  have hblob : encrypt W key rand.iv text ≠ [] := by
    rw [← List.length_pos_iff, hlength, blobLength]
    omega
  have hposts : 0 < o.posts.length := by
    obtain ⟨chat, _, _, _, _, _, hne, rfl⟩ := sendMessage_eq_ok hsend
    rw [List.length_map, List.length_zipIdx]
    exact List.length_pos_iff.mpr hne
  -- The backend asks of a chunk only that it is there.
  rw [← hlength, ← splitPayload_ne_nil_iff hblob hposts, ← hpayloads]
  constructor
  · intro h c hc
    obtain ⟨q, hq, rfl⟩ := List.mem_map.mp hc
    exact (h q hq).1
  · intro h q hq
    have hpayload : q.2.payload ≠ [] := h _ (List.mem_map_of_mem hq)
    refine ⟨hpayload, fun hwf => ?_⟩
    obtain ⟨i, hi⟩ := List.mem_iff_getElem?.mp hq
    obtain ⟨-, -, -, hfields⟩ := post_of_sendMessage hsend hi
    apply hwf.accepted
    · rw [hfields]
      exact fragmentId_ne_nil _ _
    · rw [hfields]
      exact o.messageId.ne_nil
    · exact hpayload

/-- A profile with one chat, on as many servers. -/
def chatOf (n : Nat) : App :=
  (App.init
    { identity := some (js "f")
      servers := some ((List.range n).map fun i => ⟨decimal i, js "https://" ++ decimal i, js "t", []⟩)
      chats := some [⟨js "i", js "c", (List.range n).map decimal, js "c",
        Base64.btoa zeroKey.raw, 0⟩] } []).setActiveChat (some (js "i"))

/-- The text `hi` for a chat on as many servers. -/
def greetingTo (n : Nat) : Except Failure Outgoing :=
  sendMessage sampleCrypto (chatOf n) (js "hi") none ⟨zeroIv, ⟨Sample.uuid, by decide⟩, 0⟩

/-- The sizes of the chunks that are posted. -/
def chunkSizes (sent : Except Failure Outgoing) : List Nat :=
  match sent with
  | .ok o => o.posts.map fun q => q.2.payload.length
  | .error _ => []

/-- What a backend answers to the last chunk. -/
def lastAnswer (sent : Except Failure Outgoing) : Option HttpResponse :=
  match sent with
  | .ok o => o.posts.getLast?.map fun q =>
      (Sample.context.makePostFragmentHandler 0 Database.empty
        (Sample.request "POST" "/api/fragment" "Bearer secret" (requestBody q.2))).1
  | .error _ => none

/-- A message with chunks is posted. -/
theorem exists_of_chunkSizes {sent : Except Failure Outgoing} {k : Nat}
    (h : (chunkSizes sent).length = k + 1) : ∃ o, sent = .ok o ∧ o.posts.length = k + 1 := by
  cases sent with
  | error e => cases h
  | ok o =>
    rw [chunkSizes, List.length_map] at h
    exact ⟨o, rfl, h⟩

theorem three_chunks_are_accepted :
    ∃ o, greetingTo 3 = .ok o ∧ ∀ q ∈ o.posts, q.2.payload ≠ [] ∧ (WellFormedPost q.2 → Accepted q.2) := by
  have hsizes : (chunkSizes (greetingTo 3)).length = 3 := by decide +kernel
  obtain ⟨o, hsent, hthree⟩ := exists_of_chunkSizes hsizes
  refine ⟨o, hsent, (chunks_accepted_iff sampleCrypto_lawful hsent).mpr ?_⟩
  rw [hthree]
  decide

/-- Forty units are enough for nine servers, but the eighth one gets the last of them. -/
theorem ninth_chunk_is_refused :
    blobLength (textEncode (js "hi")).length = 40 ∧
      chunkSizes (greetingTo 9) = [5, 5, 5, 5, 5, 5, 5, 5, 0] ∧
      lastAnswer (greetingTo 9) = some (.badRequest "missing payload") := by
  decide +kernel

end Frag
