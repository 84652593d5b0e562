import Frag.Library.Decimal
import Frag.Library.Scan

/-!
# HTTP/1.1 Messages

Header sections, and what a client reads of a response (RFC 9112). A field is one line; its
name is a token, and its value has no line end in it and no blanks around. A response is the
status line, the fields up to the first empty line, and the body: as many bytes as
`Content-Length` says, or all that follow.

## Main results

- `head_lines`: a header section is read line by line;
- `Response.read_text`: a response is read back from its parts.
-/

namespace Http

/-- A sequence of bytes. -/
abbrev Octets := List UInt8

/-- The bytes of an ASCII literal. -/
def ascii (s : String) : Octets := s.toList.map fun c => .ofNat c.toNat

/-- The end of a line. -/
def crlf : Octets := [0x0D, 0x0A]

/-! ## Fields -/

/-- `tchar` -/
def isTokenChar (c : UInt8) : Bool :=
  Decimal.isDigit c || (0x41 ≤ c && c ≤ 0x5A) || (0x61 ≤ c && c ≤ 0x7A) ||
    c ∈ [0x21, 0x23, 0x24, 0x25, 0x26, 0x27, 0x2A, 0x2B, 0x2D, 0x2E, 0x5E, 0x5F, 0x60, 0x7C, 0x7E]

/-- Space and tab. -/
def isBlank (c : UInt8) : Bool := c == 0x20 || c == 0x09

/-- A text that a field can have for its value. -/
structure IsValue (v : Octets) : Prop where
  noReturn : 0x0D ∉ v
  noLineFeed : 0x0A ∉ v
  head : ∀ c ∈ v.head?, isBlank c = false
  last : ∀ c ∈ v.getLast?, isBlank c = false

instance (v : Octets) : Decidable (IsValue v) :=
  decidable_of_iff (0x0D ∉ v ∧ 0x0A ∉ v ∧ v.head?.toList.any isBlank = false ∧
    v.getLast?.toList.any isBlank = false)
    ⟨fun ⟨h₁, h₂, h₃, h₄⟩ => ⟨h₁, h₂, by simpa using h₃, by simpa using h₄⟩,
      fun ⟨h₁, h₂, h₃, h₄⟩ => ⟨h₁, h₂, by simpa using h₃, by simpa using h₄⟩⟩

/-- A header field. -/
structure Field where
  name : Octets
  value : Octets
  nonempty : name ≠ []
  token : name.all isTokenChar = true
  isValue : IsValue value

/-- The line of a field. -/
def Field.text (f : Field) : Octets := f.name ++ 0x3A :: 0x20 :: f.value

/-- The name and the value. -/
def Field.pair (f : Field) : Octets × Octets := (f.name, f.value)

/-- The field lines and the empty line. -/
def headerSection (fields : List Field) : Octets := fields.flatMap (fun f => f.text ++ crlf) ++ crlf

/-- Names are compared without case. -/
def lower (s : Octets) : Octets := s.map fun c => if 0x41 ≤ c && c ≤ 0x5A then c + 0x20 else c

/-- The value of the first field with a name, which is given in lower case. -/
def fieldValue (name : Octets) (fields : List (Octets × Octets)) : Option Octets :=
  (fields.find? fun f => lower f.1 = name).map Prod.snd

theorem fieldValue_cons (name : Octets) (f : Octets × Octets) (fields : List (Octets × Octets)) :
    fieldValue name (f :: fields) = if lower f.1 = name then some f.2 else fieldValue name fields := by
  rw [fieldValue, List.find?_cons]
  split <;> rename_i h
  · rw [if_pos (of_decide_eq_true h)]
    rfl
  · rw [if_neg (of_decide_eq_false h)]
    rfl

/-! ## Reading -/

/-- The lines up to the first empty one, and what follows it. `line` is what was read of the
    current line, reversed. -/
def head (line : Octets) : Octets → Option (List Octets × Octets)
  | [] => none
  | [_] => none
  | c :: d :: s =>
    if c = 0x0D ∧ d = 0x0A then
      if line = [] then some ([], s)
      else (head [] s).map fun r => (line.reverse :: r.1, r.2)
    else head (c :: line) (d :: s)

/-- Without the blanks around. -/
def strip (v : Octets) : Octets := ((v.dropWhile isBlank).reverse.dropWhile isBlank).reverse

/-- `field-name ":" OWS field-value OWS` -/
def fieldLine (l : Octets) : Option (Octets × Octets) :=
  let name := l.takeWhile isTokenChar
  match l.dropWhile isTokenChar with
  | 0x3A :: v => if name = [] then none else some (name, strip v)
  | _ => none

/-- `HTTP/1.1 SP status-code SP [ reason-phrase ]` -/
def statusLine (l : Octets) : Option Nat :=
  if ascii "HTTP/1.1 " <+: l then
    match l.drop 9 with
    | a :: b :: c :: 0x20 :: _ =>
      if [a, b, c].all Decimal.isDigit then some (Decimal.value [a, b, c]) else none
    | _ => none
  else none

/-- What a client reads of a response. -/
structure Response where
  status : Nat
  fields : List (Octets × Octets)
  body : Octets
  deriving DecidableEq

namespace Response

/-- The body, of what follows the header section. Without a `Content-Length` it ends with the
    connection; a message that is cut short is not read. -/
def content (status : Nat) (fields : List (Octets × Octets)) (rest : Octets) : Option Octets :=
  if status < 200 ∨ status = 204 ∨ status = 304 then some []
  else if (fieldValue (ascii "transfer-encoding") fields).isSome then none
  else
    match fieldValue (ascii "content-length") fields with
    | none => some rest
    | some v =>
      if v ≠ [] ∧ v.all Decimal.isDigit ∧ Decimal.value v ≤ rest.length then
        some (rest.take (Decimal.value v))
      else none

/-- The response that a connection delivers, if it is complete. -/
def read (s : Octets) : Option Response :=
  match head [] s with
  | some (status :: lines, rest) =>
    (statusLine status).bind fun status =>
      (lines.mapM fieldLine).bind fun fields =>
        (content status fields rest).map fun body => ⟨status, fields, body⟩
  | _ => none

/-- A response as it is written. -/
def text (status : Nat) (reason : Octets) (fields : List Field) (body : Octets) : Octets :=
  ascii "HTTP/1.1 " ++ Decimal.digits status ++ 0x20 :: reason ++ crlf ++ headerSection fields ++ body

end Response

/-! ## Lines -/

/-- A line without a carriage return. -/
theorem head_line {l : Octets} (hl : 0x0D ∉ l) (line s : Octets) :
    head line (l ++ crlf ++ s) =
      if line.reverse ++ l = [] then some ([], s)
      else (head [] s).map fun r => ((line.reverse ++ l) :: r.1, r.2) := by
  induction l generalizing line with
  | nil =>
    rw [List.nil_append, crlf, List.cons_append, List.singleton_append, head, if_pos ⟨rfl, rfl⟩]
    simp only [List.append_nil, List.reverse_eq_nil_iff]
  | cons c l ih =>
    rw [List.mem_cons, not_or] at hl
    -- Two bytes are left at least.
    obtain ⟨d, t, ht⟩ : ∃ d t, l ++ crlf ++ s = d :: t := by
      rw [List.append_assoc]
      exact List.exists_cons_of_ne_nil (by simp [crlf])
    have hrec := ih hl.2 (c :: line)
    rw [ht] at hrec
    rw [List.cons_append, List.cons_append, ht, head, if_neg fun h => hl.1 h.1.symm, hrec,
      List.reverse_cons, List.append_assoc, List.singleton_append]

/-- **A header section is read line by line.** -/
theorem head_lines {lines : List Octets} (h : ∀ l ∈ lines, l ≠ [] ∧ 0x0D ∉ l) (s : Octets) :
    head [] (lines.flatMap (· ++ crlf) ++ crlf ++ s) = some (lines, s) := by
  induction lines with
  | nil =>
    rw [List.flatMap_nil, head_line List.not_mem_nil]
    rfl
  | cons l lines ih =>
    obtain ⟨hne, hl⟩ := h l List.mem_cons_self
    have htail := ih fun l' hl' => h l' (List.mem_cons_of_mem _ hl')
    rw [List.flatMap_cons, List.append_assoc, List.append_assoc, head_line hl, if_neg (by simpa using hne),
      ← List.append_assoc, htail, Option.map_some]
    rfl

/-! ## Fields -/

/-- What is no token character. -/
theorem notMem_name (f : Field) {c : UInt8} (hc : isTokenChar c = false) : c ∉ f.name := by
  intro hmem
  rw [List.all_eq_true.mp f.token c hmem] at hc
  cases hc

theorem Field.text_ne_nil (f : Field) : f.text ≠ [] := by
  rw [Field.text]
  exact List.append_ne_nil_of_left_ne_nil f.nonempty _

theorem Field.notMem_text (f : Field) : 0x0D ∉ f.text := by
  have hname := notMem_name f (c := 0x0D) (by decide)
  simp only [Field.text, List.mem_append, List.mem_cons, not_or]
  exact ⟨hname, by decide, by decide, f.isValue.noReturn⟩

/-- A value has no blanks to strip. -/
theorem strip_value {v : Octets} (h : IsValue v) : strip (0x20 :: v) = v := by
  have hkeep : ∀ w : Octets, (∀ c ∈ w.head?, isBlank c = false) → w.dropWhile isBlank = w := by
    intro w hw
    cases w with
    | nil => rfl
    | cons c w => exact List.dropWhile_cons_of_neg (by simp [hw c rfl])
  have hspace : isBlank 0x20 = true := by decide
  rw [strip, List.dropWhile_cons_of_pos hspace, hkeep v h.head, hkeep v.reverse, List.reverse_reverse]
  rw [List.head?_reverse]
  exact h.last

theorem fieldLine_text (f : Field) : fieldLine f.text = some f.pair := by
  have hcolon : isTokenChar 0x3A = false := by decide
  have hname : f.text.takeWhile isTokenChar = f.name := by
    rw [Field.text, List.takeWhile_append_of_pos (List.all_eq_true.mp f.token)]
    simp [hcolon]
  have hrest : f.text.dropWhile isTokenChar = 0x3A :: 0x20 :: f.value := by
    rw [Field.text, List.dropWhile_append_of_pos (List.all_eq_true.mp f.token)]
    simp [hcolon]
  simp only [fieldLine, hname, hrest, if_neg f.nonempty, strip_value f.isValue, Field.pair]

theorem mapM_fieldLine (fields : List Field) :
    (fields.map Field.text).mapM fieldLine = some (fields.map Field.pair) := by
  induction fields with
  | nil => rfl
  | cons f fields ih =>
    rw [List.map_cons, List.mapM_cons, fieldLine_text, ih]
    rfl

/-! ## Responses -/

/-- A number of three digits. -/
theorem exists_digits {n : Nat} (hlow : 100 ≤ n) (hhigh : n < 1000) :
    ∃ a b c, Decimal.digits n = [a, b, c] := by
  have hmany : ¬ n < 10 ∧ ¬ n / 10 < 10 ∧ n / 10 / 10 < 10 := by omega
  refine ⟨Decimal.digit (n / 10 / 10), Decimal.digit (n / 10 % 10), Decimal.digit (n % 10), ?_⟩
  rw [Decimal.digits_eq, if_neg hmany.1, Decimal.digits_eq (n / 10), if_neg hmany.2.1,
    Decimal.digits_eq, if_pos hmany.2.2]
  rfl

theorem statusLine_text {n : Nat} (hlow : 100 ≤ n) (hhigh : n < 1000) (reason : Octets) :
    statusLine (ascii "HTTP/1.1 " ++ Decimal.digits n ++ 0x20 :: reason) = some n := by
  obtain ⟨a, b, c, hdigits⟩ := exists_digits hlow hhigh
  have hall : ([a, b, c].all Decimal.isDigit) = true := by
    rw [← hdigits, List.all_eq_true]
    exact fun d hd => Decimal.isDigit_of_mem_digits hd
  have hlength : (ascii "HTTP/1.1 ").length = 9 := by decide
  have hvalue : Decimal.value [a, b, c] = n := by rw [← hdigits, Decimal.value_digits]
  rw [List.append_assoc, statusLine, if_pos (List.prefix_append _ _), ← hlength, List.drop_left, hdigits]
  simp only [List.cons_append, List.nil_append, hall, if_true, hvalue]

/-- **A response is read back from its parts**, and nothing of what follows it. -/
theorem Response.read_text {status : Nat} {reason body rest : Octets} {fields : List Field}
    (hlow : 100 ≤ status) (hhigh : status < 1000) (hreason : 0x0D ∉ reason)
    (hcontent : content status (fields.map Field.pair) (body ++ rest) = some body) :
    read (text status reason fields body ++ rest) = some ⟨status, fields.map Field.pair, body⟩ := by
  have hline : ∀ l ∈ (ascii "HTTP/1.1 " ++ Decimal.digits status ++ 0x20 :: reason) ::
      fields.map Field.text, l ≠ [] ∧ 0x0D ∉ l := by
    intro l hl
    rcases List.mem_cons.mp hl with rfl | hl
    · have hversion : 0x0D ∉ ascii "HTTP/1.1 " := by decide
      have hdigits : 0x0D ∉ Decimal.digits status := fun hmem =>
        absurd (Decimal.isDigit_of_mem_digits hmem) (by decide)
      refine ⟨by simp [ascii], ?_⟩
      simp only [List.mem_append, List.mem_cons, not_or]
      exact ⟨⟨hversion, hdigits⟩, by decide, hreason⟩
    · obtain ⟨f, -, rfl⟩ := List.mem_map.mp hl
      exact ⟨f.text_ne_nil, f.notMem_text⟩
  have hhead := head_lines hline (body ++ rest)
  have htext : text status reason fields body ++ rest =
      ((ascii "HTTP/1.1 " ++ Decimal.digits status ++ 0x20 :: reason) :: fields.map Field.text).flatMap
        (· ++ crlf) ++ crlf ++ (body ++ rest) := by
    simp only [text, headerSection, List.flatMap_cons, List.flatMap_map, List.append_assoc]
  rw [read, htext, hhead]
  simp only [statusLine_text hlow hhigh, mapM_fieldLine, Option.bind_some, hcontent, Option.map_some]

end Http
