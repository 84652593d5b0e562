import Frag.Client.Crypto
import Mathlib.Data.Set.Basic

/-!
# Strict Subsets of the Servers

Whoever holds the key and some of the chunks of a message can join what he has and try
to decrypt it. With ideal encryption this succeeds exactly when the joined characters
still spell the bytes of the blob. Base64 has little redundancy: the characters of a
blob spell its bytes only all together, or all but the padding. So a strict subset of
the chunks suffices when a chunk is empty or when the padding fills chunks of its own,
and otherwise it does not.

## Main results

- `strict_subsets_reject_iff`
-/

namespace Frag

open Unicode Base64 Chunks

/-! ## Ideal encryption -/

/-- AES-GCM is ideal for the encryptions that were made under a key, pairs of an IV and
    a plaintext: their outputs decrypt, and nothing else does. -/
structure WebCrypto.Ideal (W : WebCrypto) (key : AesKey) (made : Set (Iv × Bytes)) : Prop where
  decrypt_encrypt : ∀ e ∈ made, W.decrypt key e.1 (W.encrypt key e.1 e.2) = some e.2
  length_encrypt : ∀ e ∈ made, (W.encrypt key e.1 e.2).length = e.2.length + 16
  only_made : ∀ iv ciphertext m, W.decrypt key iv ciphertext = some m →
    ∃ e ∈ made, e.1 = iv ∧ W.encrypt key e.1 e.2 = ciphertext

/-- `combined` of an encryption: IV, ciphertext and tag. -/
def WebCrypto.combined (W : WebCrypto) (key : AesKey) (e : Iv × Bytes) : Bytes :=
  e.1.bytes ++ W.encrypt key e.1 e.2

/-! ## Joining some of the chunks -/

/-- The chunks at the kept positions, in server order. -/
def keptChunks (keep : Nat → Bool) (chunks : List JsString) : List JsString :=
  (chunks.zipIdx.filter fun c => keep c.2).map Prod.fst

/-- None of the strict subsets of the chunks decrypts. -/
def SubsetsReject (W : WebCrypto) (key : AesKey) (blob : JsString) (n : Nat) : Prop :=
  ∀ keep : Nat → Bool, (∃ i < n, keep i = false) →
    decrypt W key (joinPayload (keptChunks keep (splitPayload blob n))) = none

/-- No chunks spell another encryption that was made under the key. -/
def SpellNoOther (W : WebCrypto) (key : AesKey) (made : Set (Iv × Bytes)) (e : Iv × Bytes)
    (n : Nat) : Prop :=
  ∀ e' ∈ made, ∀ keep, atob (joinPayload (keptChunks keep
    (splitPayload (btoa (W.combined key e)) n))) = some (W.combined key e') →
      W.combined key e' = W.combined key e

/-- The length of the blob of a text of `utf8Length` bytes. -/
def blobLength (utf8Length : Nat) : Nat := 4 * ((28 + utf8Length + 2) / 3)

/-- The length of the blob without its padding. -/
def blobDigits (utf8Length : Nat) : Nat := (4 * (28 + utf8Length) + 2) / 3

/-- The last chunk is not empty, and no chunk ends where the padding begins. -/
def ChunksSealed (utf8Length n : Nat) : Prop :=
  (n - 1) * chunkSize (blobLength utf8Length) n < blobLength utf8Length ∧
    (blobDigits utf8Length = blobLength utf8Length ∨
      ¬ chunkSize (blobLength utf8Length) n ∣ blobDigits utf8Length)

instance (utf8Length n : Nat) : Decidable (ChunksSealed utf8Length n) :=
  inferInstanceAs (Decidable (_ ∧ _))

theorem joinPayload_keptChunks (keep : Nat → Bool) (b64 : JsString) {n : Nat} (hn : 2 ≤ n) :
    joinPayload (keptChunks keep (splitPayload b64 n)) =
      select keep (chunkSize b64.length n) n b64 := by
  have hzip : ((List.range n).map (chunk (chunkSize b64.length n) b64)).zipIdx =
      (List.range n).map fun i => (chunk (chunkSize b64.length n) b64 i, i) :=
    List.ext_getElem (by simp) fun i hi hi' => by simp
  rw [splitPayload, if_neg (by omega), keptChunks, chunks, hzip, List.filter_map, List.map_map,
    joinPayload, select, List.flatMap]
  rfl

variable {W : WebCrypto} {key : AesKey} {made : Set (Iv × Bytes)} {e : Iv × Bytes}

/-- What parts of a blob spell decrypts iff it is the blob's bytes. -/
private theorem decrypt_eq_none_iff (hW : W.Ideal key made) (he : e ∈ made) {b64 : JsString}
    (hother : ∀ e' ∈ made, atob b64 = some (W.combined key e') →
      W.combined key e' = W.combined key e) :
    decrypt W key b64 = none ↔ atob b64 ≠ some (W.combined key e) := by
  constructor
  · intro hnone hspell
    have hne : W.encrypt key e.1 e.2 ≠ [] := by
      intro hnil
      have hlen := hW.length_encrypt e he
      simp [hnil] at hlen
    rw [decrypt_of_atob hspell hne, hW.decrypt_encrypt e he] at hnone
    cases hnone
  · -- What decrypts was made by the platform, and nothing else that was made is spelled.
    intro hspell
    refine Option.eq_none_iff_forall_ne_some.mpr fun text hsome => hspell ?_
    obtain ⟨combined, hatob, hdecrypt⟩ := Option.bind_eq_some_iff.mp hsome
    split at hdecrypt
    · cases hdecrypt
    · obtain ⟨m, hm, -⟩ := Option.map_eq_some_iff.mp hdecrypt
      obtain ⟨e', he', hiv, hct⟩ := hW.only_made _ _ m hm
      have hcombined : W.combined key e' = combined := by
        rw [WebCrypto.combined, hct, hiv]
        exact List.take_append_drop _ _
      rw [← hcombined] at hatob
      rw [hatob, hother e' he' hatob]

/-- Some strict selection of the pieces of an encoding decodes to its bytes iff the last
    piece is empty or the padding begins between two pieces. -/
private theorem exists_select_decodes_iff (bs : Bytes) {c n : Nat} (hn : 0 < n) (hc : 0 < c)
    (hcn : (btoa bs).length ≤ n * c) :
    (∃ keep, (∃ i < n, keep i = false) ∧ atob (select keep c n (btoa bs)) = some bs) ↔
      (btoa bs).length ≤ (n - 1) * c ∨
        ((sextets bs).length < (btoa bs).length ∧ c ∣ (sextets bs).length) := by
  have hdigits : (sextets bs).map digit = (btoa bs).take (sextets bs).length := by
    rw [btoa, List.take_left' (by simp)]
  have hpad : (btoa bs).drop (sextets bs).length = List.replicate (padding bs.length) padUnit := by
    rw [btoa, List.drop_left' (by simp)]
  have hle : (sextets bs).length ≤ (btoa bs).length := by simp [btoa]
  have hwhole := exists_select_eq_self hn hcn
  -- The digits alone are selected if the padding begins a piece of its own.
  have hstart : (sextets bs).length < (btoa bs).length →
      ((∃ keep, (∃ i < n, keep i = false) ∧
        select keep c n (btoa bs) = (btoa bs).take (sextets bs).length) ↔
          c ∣ (sextets bs).length) := by
    intro hlt
    refine exists_select_eq_take hc hcn hlt fun x hx hx' => ?_
    rw [← hdigits] at hx
    rw [hpad] at hx'
    obtain ⟨v, -, rfl⟩ := List.mem_map.mp hx
    exact digit_ne_padUnit v (List.eq_of_mem_replicate hx')
  simp only [atob_eq_some_iff_of_sublist (select_sublist_self _ c n (btoa bs)), hdigits]
  constructor
  · rintro ⟨keep, hstrict, hsel | hsel⟩
    · exact .inl (hwhole.mp ⟨keep, hstrict, hsel⟩)
    · rcases Nat.lt_or_eq_of_le hle with hlt | heq
      · exact .inr ⟨hlt, (hstart hlt).mp ⟨keep, hstrict, hsel⟩⟩
      · rw [heq, List.take_length] at hsel
        exact .inl (hwhole.mp ⟨keep, hstrict, hsel⟩)
  · rintro (hlast | ⟨hlt, hdvd⟩)
    · obtain ⟨keep, hstrict, hsel⟩ := hwhole.mpr hlast
      exact ⟨keep, hstrict, .inl hsel⟩
    · obtain ⟨keep, hstrict, hsel⟩ := (hstart hlt).mpr hdvd
      exact ⟨keep, hstrict, .inr hsel⟩

/-- **Every strict subset of the servers is insufficient** iff the last chunk is not
    empty and no chunk ends where the padding of the blob begins. -/
theorem strict_subsets_reject_iff {text : JsString} {iv : Iv} {n : Nat}
    (hW : W.Ideal key made) (hmade : (iv, textEncode text) ∈ made) (hn : 2 ≤ n)
    (hother : SpellNoOther W key made (iv, textEncode text) n) :
    SubsetsReject W key (encrypt W key iv text) n ↔ ChunksSealed (textEncode text).length n := by
  have hbs : (W.combined key (iv, textEncode text)).length = 28 + (textEncode text).length := by
    have hlen := hW.length_encrypt _ hmade
    simp only [WebCrypto.combined, List.length_append, iv.length_bytes, hlen, ivLen]
    omega
  -- A subset decrypts iff what it spells are the bytes of the blob.
  have hreject : SubsetsReject W key (encrypt W key iv text) n ↔
      ¬ ∃ keep, (∃ i < n, keep i = false) ∧
        atob (select keep (chunkSize (encrypt W key iv text).length n) n (encrypt W key iv text)) =
          some (W.combined key (iv, textEncode text)) := by
    simp only [not_exists, not_and]
    refine forall_congr' fun keep => imp_congr_right fun _ => ?_
    rw [← joinPayload_keptChunks keep _ hn]
    exact decrypt_eq_none_iff hW hmade fun e' he' => hother e' he' keep
  have hblob : encrypt W key iv text = btoa (W.combined key (iv, textEncode text)) := rfl
  have hL : blobLength (textEncode text).length = (encrypt W key iv text).length := by
    rw [hblob, length_btoa, hbs, blobLength]
  have hD : blobDigits (textEncode text).length =
      (sextets (W.combined key (iv, textEncode text))).length := by
    rw [length_sextets, hbs, blobDigits]
  have hle : (sextets (W.combined key (iv, textEncode text))).length ≤
      (encrypt W key iv text).length := by
    simp [hblob, btoa]
  have hcn : (encrypt W key iv text).length ≤
      n * chunkSize (encrypt W key iv text).length n := length_le_mul_ceil (by omega) _
  have hpos : 0 < chunkSize (encrypt W key iv text).length n := by
    refine Nat.pos_of_ne_zero fun h0 => ?_
    rw [h0, ← hL, blobLength] at hcn
    omega
  rw [hreject, hblob, exists_select_decodes_iff _ (by omega) (hblob ▸ hpos) (hblob ▸ hcn), ← hblob,
    ChunksSealed, hL, hD, not_or, not_le, not_and_or, not_lt]
  exact and_congr_right fun _ =>
    or_congr_left ⟨fun hge => le_antisymm hle hge, fun heq => heq.ge⟩

/-- AES-GCM for the one encryption of `abc` under `zeroKey` and `zeroIv`. -/
def singleCrypto : WebCrypto where
  encrypt := sampleCrypto.encrypt
  decrypt key iv ciphertext :=
    if iv.bytes = zeroIv.bytes ∧ ciphertext = sampleCrypto.encrypt key iv (textEncode (js "abc")) then
      some (textEncode (js "abc"))
    else none

theorem singleCrypto_ideal :
    singleCrypto.Ideal zeroKey {(zeroIv, textEncode (js "abc"))} where
  decrypt_encrypt := by
    rintro e rfl
    simp [singleCrypto]
  length_encrypt := by
    rintro e rfl
    decide
  only_made iv ciphertext m h := by
    refine ⟨_, rfl, ?_⟩
    simp only [singleCrypto] at h
    split at h
    · rename_i heq
      obtain ⟨hiv, hct⟩ := heq
      have hiv : iv = zeroIv := by
        cases iv
        cases hiv
        rfl
      exact ⟨hiv.symm, by rw [hct, hiv]; rfl⟩
    · cases h

/-- Among seven servers, the last one holds nothing but the padding of the blob of `abc`. -/
theorem seventh_server_is_not_needed :
    splitPayload (encrypt singleCrypto zeroKey zeroIv (js "abc")) 7 =
        ["AAAAAAA", "AAAAAAA", "AAr8UjV", "BCe9lov", "XMuz8FI", "JeBTfPA", "=="].map js ∧
      decrypt singleCrypto zeroKey (joinPayload (keptChunks (fun i => decide (i < 6))
        (splitPayload (encrypt singleCrypto zeroKey zeroIv (js "abc")) 7))) = some (js "abc") ∧
      ¬ SubsetsReject singleCrypto zeroKey (encrypt singleCrypto zeroKey zeroIv (js "abc")) 7 := by
  have hsix : decrypt singleCrypto zeroKey (joinPayload (keptChunks (fun i => decide (i < 6))
      (splitPayload (encrypt singleCrypto zeroKey zeroIv (js "abc")) 7))) = some (js "abc") := by
    decide +kernel
  refine ⟨by decide +kernel, hsix, fun hreject => ?_⟩
  rw [hreject _ ⟨6, by decide, by decide⟩] at hsix
  cases hsix

/-- Among five servers, every one is needed. -/
theorem all_five_servers_are_needed :
    SubsetsReject singleCrypto zeroKey (encrypt singleCrypto zeroKey zeroIv (js "abc")) 5 :=
  (strict_subsets_reject_iff singleCrypto_ideal rfl (by decide) (by rintro e' rfl _ _; rfl)).mpr
    (by decide)

end Frag
