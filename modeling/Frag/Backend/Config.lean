import Frag.Backend.Text

/-!
# The Configuration

`load_config` of `main.cpp` looks for each setting on its own: for the first occurrence of its
name in quotes, and from there for a colon, a bracket or a quote. Numbers that cannot be
converted leave the default.

The place at which a search ends is named apart from what is read there.
-/

namespace Frag

open Scan

/-- `Config`, with its defaults. -/
structure Config where
  port : Int := 8080
  tokens : List Bytes := []
  dbPath : Bytes := lit "frag.db"
  corsOrigin : Bytes := lit "*"
  cleanupIntervalSec : Int := 3600
  maxPayloadBytes : Nat := 65536
  rateLimitPerIp : Int := 60
  deriving DecidableEq, Repr

/-- A value of an `int`. -/
def inInt (n : Int) : Bool := -2147483648 ≤ n && n ≤ 2147483647

/-- A value of a `size_t`. -/
def inSize (n : Int) : Bool := 0 ≤ n && n ≤ 18446744073709551615

/-- `std::stoi`; `none` where it throws. -/
def stoi (s : Bytes) : Option Int := (stoll s).filter inInt

/-- `json.find("\"" + key + "\"")` -/
def findName (json key : Bytes) : Option Nat := find json (quoted 0x22 key) 0

section Settings

variable {α : Type} (json key : Bytes)

/-- A number after the first colon behind the name; `default` if it cannot be converted. -/
def readNumber (convert : Bytes → Option α) (default : α) : α :=
  match findName json key with
  | none => default
  | some pos =>
    match find json [0x3A] pos with
    | none => default
    | some colon => (convert (json.drop (colon + 1))).getD default

/-- A text between the first two quotes after that colon. -/
def readText (default : Bytes) : Bytes :=
  match findName json key with
  | none => default
  | some pos =>
    -- Without a colon, `colon + 1` is `npos + 1`, which is 0.
    let start := ((find json [0x3A] pos).map (· + 1)).getD 0
    match find json [0x22] start with
    | none => default
    | some qs =>
      match find json [0x22] (qs + 1) with
      | none => default
      | some qe => (json.drop (qs + 1)).take (qe - qs - 1)

/-- The loop over the text between the brackets: outside a string (`none`), or in one that has
    been read up to here. A backslash takes the next byte with it. -/
def tokensFrom : Option Bytes → Bytes → List Bytes
  | none, [] => []
  | none, c :: s => tokensFrom (if c = 0x22 then some [] else none) s
  | some tok, [] => [tok]
  | some tok, c :: s =>
    if c = 0x5C then
      match s with
      | [] => [tok ++ [c]]
      | d :: s => tokensFrom (some (tok ++ [c, d])) s
    else if c = 0x22 then tok :: tokensFrom none s
    else tokensFrom (some (tok ++ [c])) s

theorem tokensFrom_pair (tok : Bytes) (e : UInt8) (s : Bytes) :
    tokensFrom (some tok) (0x5C :: e :: s) = tokensFrom (some (tok ++ [0x5C, e])) s := by
  rw [tokensFrom.eq_def]
  rfl

theorem tokensFrom_quote (tok s : Bytes) :
    tokensFrom (some tok) (0x22 :: s) = tok :: tokensFrom none s := by
  rw [tokensFrom.eq_def]
  rfl

theorem tokensFrom_byte {c : UInt8} (hquote : c ≠ 0x22) (hbackslash : c ≠ 0x5C) (tok s : Bytes) :
    tokensFrom (some tok) (c :: s) = tokensFrom (some (tok ++ [c])) s := by
  rw [tokensFrom.eq_def]
  simp only [if_neg hbackslash, if_neg hquote]

/-- The strings between the first brackets behind the name. -/
def readTokens : List Bytes :=
  match findName json key with
  | none => []
  | some pos =>
    match find json [0x5B] pos with
    | none => []
    | some opening =>
      match find json [0x5D] opening with
      | none => []
      | some closing => tokensFrom none ((json.drop (opening + 1)).take (closing - opening - 1))

end Settings

/-- `load_config`; there is no text if the file cannot be read. -/
def loadConfig (file : Option Bytes) : Config :=
  let cfg : Config := {}
  match file with
  | none => cfg
  | some json =>
    { port := readNumber json (lit "port") stoi cfg.port
      tokens := readTokens json (lit "tokens")
      dbPath := readText json (lit "db_path") cfg.dbPath
      corsOrigin := readText json (lit "cors_origin") cfg.corsOrigin
      cleanupIntervalSec := readNumber json (lit "cleanup_interval_sec") stoi cfg.cleanupIntervalSec
      maxPayloadBytes := readNumber json (lit "max_payload_bytes") stoull cfg.maxPayloadBytes
      rateLimitPerIp := readNumber json (lit "rate_limit_per_ip") stoi cfg.rateLimitPerIp }

/-! ## Places -/

/-- The text in which a number is read. -/
def numberPlace (json key : Bytes) : Option Bytes :=
  (findName json key).bind fun pos => (find json [0x3A] pos).map fun colon => json.drop (colon + 1)

/-- The text after the quote with which a text begins. -/
def textPlace (json key : Bytes) : Option Bytes :=
  (findName json key).bind fun pos =>
    (find json [0x22] (((find json [0x3A] pos).map (· + 1)).getD 0)).map fun qs => json.drop (qs + 1)

/-- The text after the opening bracket. -/
def tokensPlace (json key : Bytes) : Option Bytes :=
  (findName json key).bind fun pos => (find json [0x5B] pos).map fun opening => json.drop (opening + 1)

section Places

variable {α : Type} {json key : Bytes}

theorem readNumber_eq (convert : Bytes → Option α) (default : α) :
    readNumber json key convert default = ((numberPlace json key).bind convert).getD default := by
  rw [readNumber, numberPlace]
  cases findName json key with
  | none => rfl
  | some pos =>
    simp only [Option.bind_some]
    cases find json [0x3A] pos with
    | none => rfl
    | some colon => rfl

theorem readText_eq (default : Bytes) :
    readText json key default = ((textPlace json key).bind (upTo 0x22)).getD default := by
  rw [readText, textPlace]
  cases findName json key with
  | none => rfl
  | some pos =>
    simp only [Option.bind_some]
    cases find json [0x22] (((find json [0x3A] pos).map (· + 1)).getD 0) with
    | none => rfl
    | some qs =>
      simp only [Option.map_some, Option.bind_some, ← take_find]
      cases find json [0x22] (qs + 1) with
      | none => rfl
      | some qe => simp only [Option.map_some, Option.getD_some, Nat.sub_sub]

theorem readTokens_eq :
    readTokens json key =
      (((tokensPlace json key).bind (upTo 0x5D)).map (tokensFrom none)).getD [] := by
  rw [readTokens, tokensPlace]
  cases findName json key with
  | none => rfl
  | some pos =>
    simp only [Option.bind_some]
    cases hopen : find json [0x5B] pos with
    | none => rfl
    | some opening =>
      have hdrop := drop_of_find hopen
      -- The search for the closing bracket begins at the opening one.
      have hskip : find json [0x5D] opening = find json [0x5D] (opening + 1) := by
        have hpre : ¬ [0x5D] <+: 0x5B :: json.drop (opening + 1) := by
          rintro ⟨t, ht⟩
          cases ht
        rw [find, find, hdrop, indexOf, if_neg hpre, Option.map_map]
        congr 1
        funext i
        exact Nat.add_right_comm i 1 opening
      simp only [Option.map_some, Option.bind_some, ← take_find, hskip]
      cases find json [0x5D] (opening + 1) with
      | none => rfl
      | some closing => simp only [Option.map_some, Option.getD_some, Nat.sub_sub]

end Places

end Frag
