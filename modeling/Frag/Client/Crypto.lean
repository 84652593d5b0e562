import Frag.Basic
import Frag.Library.Base64
import Frag.Library.Chunks

/-!
# Encryption and Fragmentation

`crypto.js`. The Web Crypto API is the one part of it that is not in the
repository: `WebCrypto` takes its AES-GCM primitive as a parameter, and
`WebCrypto.Lawful` states what its documentation promises. Keys and IVs carry
their lengths, so the primitive is only ever applied where it is specified.

## Main results

- `decrypt_encrypt`: decrypting an encrypted blob gives the text back;
- `joinPayload_splitPayload`: joining the chunks of a split gives the blob back.
-/

namespace Frag

open Unicode Base64 Chunks

/-! ## The Web Crypto API -/

/-- `IV_LEN` -/
def ivLen : Nat := 12

/-- An imported AES-GCM key: 128, 192 or 256 bits. -/
structure AesKey where
  raw : Bytes
  length_raw : raw.length ∈ [16, 24, 32]

/-- An initialisation vector, `IV_LEN` random bytes. -/
structure Iv where
  bytes : Bytes
  length_bytes : bytes.length = ivLen

/-- `crypto.subtle.encrypt` and `crypto.subtle.decrypt` with `name: 'AES-GCM'`.
    The ciphertext includes the authentication tag; a rejected promise is `none`. -/
structure WebCrypto where
  encrypt : AesKey → Iv → Bytes → Bytes
  decrypt : AesKey → Iv → Bytes → Option Bytes

/-- The documented behaviour of AES-GCM with its default tag length. -/
structure WebCrypto.Lawful (W : WebCrypto) : Prop where
  decrypt_encrypt : ∀ key iv plaintext, W.decrypt key iv (W.encrypt key iv plaintext) = some plaintext
  length_encrypt : ∀ key iv plaintext, (W.encrypt key iv plaintext).length = plaintext.length + 16

variable {W : WebCrypto}

/-! ### The laws are satisfiable

A table of AES-256-GCM ciphertexts under the all-zero key and IV, completed by a
primitive whose tag is always zero. -/

def zeroKey : AesKey := ⟨List.replicate 32 0, by decide⟩

def zeroIv : Iv := ⟨List.replicate ivLen 0, by decide⟩

/-- AES-256-GCM of `abc` and of `hi` under `zeroKey` and `zeroIv`. -/
def knownCiphertexts : List (Bytes × Bytes) :=
  [([97, 98, 99], [175, 197, 35, 84, 16, 158, 246, 90, 47, 92, 203, 179, 240, 82, 9, 120, 20, 223, 60]),
   ([104, 105], [166, 206, 173, 20, 92, 239, 62, 158, 235, 40, 248, 218, 2, 57, 174, 245, 56, 229])]

/-- The entries of the table that apply to a key and an IV. -/
def knownFor (key : AesKey) (iv : Iv) : List (Bytes × Bytes) :=
  if key.raw = zeroKey.raw ∧ iv.bytes = zeroIv.bytes then knownCiphertexts else []

def zeroTag : Bytes := List.replicate 16 0

def sampleCrypto : WebCrypto where
  encrypt key iv plaintext :=
    match (knownFor key iv).find? fun e => e.1 = plaintext with
    | some e => e.2
    | none => plaintext ++ zeroTag
  decrypt key iv ciphertext :=
    match (knownFor key iv).find? fun e => e.2 = ciphertext with
    | some e => some e.1
    | none =>
      if zeroTag <:+ ciphertext then some (ciphertext.take (ciphertext.length - 16)) else none

private theorem mem_known {key : AesKey} {iv : Iv} {e : Bytes × Bytes} (h : e ∈ knownFor key iv) :
    e ∈ knownCiphertexts := by
  unfold knownFor at h
  split at h
  · exact h
  · cases h

theorem sampleCrypto_lawful : sampleCrypto.Lawful where
  decrypt_encrypt key iv plaintext := by
    have htable : ∀ e ∈ knownCiphertexts, ∀ e' ∈ knownCiphertexts, e'.2 = e.2 → e' = e := by decide
    have htag : ∀ e ∈ knownCiphertexts, e.2.getLast? ≠ some 0 := by decide
    simp only [sampleCrypto]
    cases hfind : (knownFor key iv).find? fun e => e.1 = plaintext with
    | some e =>
      have hmem := List.mem_of_find?_eq_some hfind
      have hsome : ((knownFor key iv).find? fun e' => e'.2 = e.2).isSome :=
        List.find?_isSome.mpr ⟨e, hmem, by simp⟩
      obtain ⟨e', he'⟩ := Option.isSome_iff_exists.mp hsome
      have heq : e'.2 = e.2 := by simpa using List.find?_some he'
      obtain rfl := htable e (mem_known hmem) e' (mem_known (List.mem_of_find?_eq_some he')) heq
      have hplain : e'.1 = plaintext := by simpa using List.find?_some hfind
      simp [he', hplain]
    | none =>
      have hnone : (knownFor key iv).find? (fun e => e.2 = plaintext ++ zeroTag) = none := by
        refine List.find?_eq_none.mpr fun e he heq => htag e (mem_known he) ?_
        rw [of_decide_eq_true heq]
        simp [zeroTag, List.getLast?_append]
      simp only [hnone]
      simp [zeroTag]
  length_encrypt key iv plaintext := by
    have htable : ∀ e ∈ knownCiphertexts, e.2.length = e.1.length + 16 := by decide
    simp only [sampleCrypto]
    cases hfind : (knownFor key iv).find? fun e => e.1 = plaintext with
    | some e =>
      have hplain : e.1 = plaintext := by simpa using List.find?_some hfind
      rw [← hplain]
      exact htable e (mem_known (List.mem_of_find?_eq_some hfind))
    | none => simp [zeroTag]

/-! ## Keys -/

/-- `importKey(b64)`: `atob` may throw and the raw key may have an illegal length. -/
def importKey (b64 : JsString) : Option AesKey :=
  (atob b64).bind fun raw => if h : raw.length ∈ [16, 24, 32] then some ⟨raw, h⟩ else none

/-! ## Encrypt and decrypt -/

/-- `encrypt(key, plaintext)`: base64 of `IV || ciphertext || tag`. -/
def encrypt (W : WebCrypto) (key : AesKey) (iv : Iv) (plaintext : JsString) : JsString :=
  btoa (iv.bytes ++ W.encrypt key iv (textEncode plaintext))

/-- `combined.slice(0, IV_LEN)` of a long enough buffer. -/
def Iv.ofPrefix (combined : Bytes) (h : ¬ combined.length ≤ ivLen) : Iv where
  bytes := combined.take ivLen
  length_bytes := by rw [List.length_take]; omega

/-- `decrypt(key, b64)`, `none` where it throws or rejects. -/
def decrypt (W : WebCrypto) (key : AesKey) (b64 : JsString) : Option JsString :=
  (atob b64).bind fun combined =>
    if h : combined.length ≤ ivLen then none  -- 'Ciphertext too short'
    else (W.decrypt key (.ofPrefix combined h) (combined.drop ivLen)).map textDecode

/-- Decryption of the blob that spells `iv || ciphertext`. -/
theorem decrypt_of_atob {key : AesKey} {b64 : JsString} {iv : Iv} {ciphertext : Bytes}
    (h : atob b64 = some (iv.bytes ++ ciphertext)) (hne : ciphertext ≠ []) :
    decrypt W key b64 = (W.decrypt key iv ciphertext).map textDecode := by
  have hlen : ¬ (iv.bytes ++ ciphertext).length ≤ ivLen := by
    have hpos := List.length_pos_iff.mpr hne
    rw [List.length_append, iv.length_bytes]
    omega
  have hiv : Iv.ofPrefix (iv.bytes ++ ciphertext) hlen = iv := by
    cases iv with
    | mk bytes hb => simp [Iv.ofPrefix, ← hb]
  have hdrop : (iv.bytes ++ ciphertext).drop ivLen = ciphertext := by
    rw [← iv.length_bytes, List.drop_left]
  simp only [decrypt, h, Option.bind_some, dif_neg hlen, hiv, hdrop]

/-- Well-formed Unicode text that does not start with U+FEFF, which `TextDecoder` would
    take for a byte order mark. -/
def PlainText (text : JsString) : Prop :=
  ∃ cs : List Char, text = utf16 cs ∧ cs.head? ≠ some byteOrderMark

instance (text : JsString) : Decidable (PlainText text) :=
  decidable_of_iff (utf16 (scalars text) = text ∧ (scalars text).head? ≠ some byteOrderMark)
    ⟨fun h => ⟨scalars text, h.1.symm, h.2⟩, fun ⟨cs, hs, hcs⟩ => by
      rw [hs, scalars_utf16]
      exact ⟨rfl, hcs⟩⟩

/-- **Decryption inverts encryption** on plain text. -/
theorem decrypt_encrypt (hW : W.Lawful) (key : AesKey) (iv : Iv) {text : JsString}
    (h : PlainText text) : decrypt W key (encrypt W key iv text) = some text := by
  obtain ⟨cs, rfl, h⟩ := h
  have hne : W.encrypt key iv (textEncode (utf16 cs)) ≠ [] := by
    intro he
    have hlen := hW.length_encrypt key iv (textEncode (utf16 cs))
    simp [he] at hlen
  rw [encrypt, decrypt_of_atob (atob_btoa _) hne, hW.decrypt_encrypt, Option.map_some,
    textDecode_textEncode h]

/-- An encrypted blob is base64 text. -/
theorem isCodeUnit_of_mem_encrypt {key : AesKey} {iv : Iv} {plaintext : JsString} {u : UInt16}
    (h : u ∈ encrypt W key iv plaintext) : IsCodeUnit u :=
  isCodeUnit_of_mem_btoa h

/-! ## Message fragmentation -/

/-- `Math.ceil(b64.length / n)` -/
def chunkSize (length n : Nat) : Nat := (length + n - 1) / n

/-- `splitPayload(b64, n)`: the `i`-th chunk is `b64.slice(i * chunkSize, (i + 1) * chunkSize)`. -/
def splitPayload (b64 : JsString) (n : Nat) : List JsString :=
  if n ≤ 1 then [b64] else chunks (chunkSize b64.length n) n b64

/-- `joinPayload(chunks)` -/
def joinPayload (chunks : List JsString) : JsString := chunks.flatten

theorem length_splitPayload (b64 : JsString) {n : Nat} (hn : 0 < n) :
    (splitPayload b64 n).length = n := by
  unfold splitPayload
  split
  · rw [List.length_singleton]
    omega
  · exact length_chunks _ _ _

/-- **Splitting is lossless.** -/
theorem joinPayload_splitPayload (b64 : JsString) (n : Nat) :
    joinPayload (splitPayload b64 n) = b64 := by
  unfold splitPayload
  split
  · simp [joinPayload]
  · exact flatten_chunks_of_le (length_le_mul_ceil (by omega) _)

/-- A chunk holds units of the blob only. -/
theorem mem_of_mem_splitPayload {b64 : JsString} {n : Nat} {c : JsString} {u : UInt16}
    (hc : c ∈ splitPayload b64 n) (hu : u ∈ c) : u ∈ b64 := by
  rw [← joinPayload_splitPayload b64 n]
  exact List.mem_flatten_of_mem hc hu

end Frag
