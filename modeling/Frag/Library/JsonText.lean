import Frag.Library.Json

/-!
# JSON Texts in UTF-16

`JSON.parse` of ECMAScript works on code units: a string may hold any code unit from 0x20 on,
lone surrogates included, and the escape `\uxxxx` stands for one code unit. The parser is a
pushdown automaton that is fed one unit at a time. Its lexer puts units together to tokens,
and its stack holds the arrays and objects that are not complete.

The values are those of a `Builder`, so the text of a value does not depend on how values
are represented. A number is a word of the text that is a number of JSON.

## Main results

- `Yields.array`, `Yields.object`: a list and a record are read from what their parts are read as;
- `parse_of_yields`: what a text yields, `parse` returns.
-/

namespace JsonText

universe u v

/-- A text as code units. -/
abbrev Units := List UInt16

/-! ## Values -/

/-- How values are made. The number is `mantissa * 10 ^ exponent`. -/
structure Builder (V : Type u) where
  null : V
  bool : Bool → V
  number : (mantissa exponent : Int) → V
  string : Units → V
  array : List V → V
  object : List (Units × V) → V

variable {V : Type u}

/-! ## Tokens -/

inductive Token (V : Type u) where
  | openArray
  | closeArray
  | openObject
  | closeObject
  | comma
  | colon
  | string (s : Units)
  /-- A number or a literal name. -/
  | atom (v : V)

/-- An array or an object whose next value is awaited. -/
inductive Frame (V : Type u) where
  | items (before : List V)
  | member (before : List (Units × V)) (name : Units)

/-- What may come next, with the arrays and objects around it. `closable` tells that the
    innermost one was just opened. -/
inductive State (V : Type u) where
  | value (closable : Bool) (stack : List (Frame V))
  | name (closable : Bool) (before : List (Units × V)) (stack : List (Frame V))
  | colon (before : List (Units × V)) (name : Units) (stack : List (Frame V))
  | done (v : V) (stack : List (Frame V))

/-- The next token. -/
def step (B : Builder V) : State V → Token V → Option (State V)
  | .value _ st, .atom v => some (.done v st)
  | .value _ st, .string s => some (.done (B.string s) st)
  | .value _ st, .openArray => some (.value true (.items [] :: st))
  | .value _ st, .openObject => some (.name true [] st)
  | .value true (.items _ :: st), .closeArray => some (.done (B.array []) st)
  | .name _ before st, .string s => some (.colon before s st)
  | .name true _ st, .closeObject => some (.done (B.object []) st)
  | .colon before n st, .colon => some (.value false (.member before n :: st))
  | .done v (.items before :: st), .comma => some (.value false (.items (before ++ [v]) :: st))
  | .done v (.items before :: st), .closeArray => some (.done (B.array (before ++ [v])) st)
  | .done v (.member before n :: st), .comma => some (.name false (before ++ [(n, v)]) st)
  | .done v (.member before n :: st), .closeObject => some (.done (B.object (before ++ [(n, v)])) st)
  | _, _ => none

/-! ## Units -/

/-- Space, tab, line feed, carriage return. -/
def isSpace (u : UInt16) : Bool := u == 0x20 || u == 0x09 || u == 0x0A || u == 0x0D

/-- The tokens of one unit. -/
def punctuation (u : UInt16) : Option (Token V) :=
  if u = 0x5B then some .openArray
  else if u = 0x5D then some .closeArray
  else if u = 0x7B then some .openObject
  else if u = 0x7D then some .closeObject
  else if u = 0x2C then some .comma
  else if u = 0x3A then some .colon
  else none

/-- A unit that is part of no number and no literal name. -/
def isDelimiter (u : UInt16) : Bool :=
  isSpace u || u == 0x22 || u == 0x5B || u == 0x5D || u == 0x7B || u == 0x7D || u == 0x2C || u == 0x3A

/-- The escapes of one letter. -/
def escaped (u : UInt16) : Option UInt16 :=
  if u = 0x22 ∨ u = 0x5C ∨ u = 0x2F then some u
  else if u = 0x62 then some 0x08
  else if u = 0x66 then some 0x0C
  else if u = 0x6E then some 0x0A
  else if u = 0x72 then some 0x0D
  else if u = 0x74 then some 0x09
  else none

/-- The value of a hexadecimal digit. -/
def hexValue (u : UInt16) : Option Nat :=
  if u.toNat < 0x80 then Json.hexValue (.ofNat u.toNat) else none

/-- A word as a number. -/
def numberOf (w : Units) : Option (Int × Int) :=
  if w.all fun u => u.toNat < 0x80 then
    match Json.number? (w.map fun u => .ofNat u.toNat) with
    | some (.number m e, []) => some (m, e)
    | _ => none
  else none

/-- The value of a word. -/
def wordValue (B : Builder V) (w : Units) : Option V :=
  if w = [0x74, 0x72, 0x75, 0x65] then some (B.bool true)
  else if w = [0x66, 0x61, 0x6C, 0x73, 0x65] then some (B.bool false)
  else if w = [0x6E, 0x75, 0x6C, 0x6C] then some B.null
  else (numberOf w).map fun n => B.number n.1 n.2

/-! ## The automaton -/

/-- What the lexer has read of a token: a word, a string after its opening quote, and an
    escape in it; `unicode` holds the number of digits that were read and their value. -/
inductive Lexer where
  | idle
  | word (w : Units)
  | text (s : Units)
  | escape (s : Units)
  | unicode (s : Units) (count value : Nat)

structure Machine (V : Type u) where
  lexer : Lexer
  state : State V

/-- A unit where a token starts. -/
def start (B : Builder V) (p : State V) (u : UInt16) : Option (Machine V) :=
  if isSpace u then some ⟨.idle, p⟩
  else if u = 0x22 then some ⟨.text [], p⟩
  else
    match punctuation u with
    | some t => (step B p t).map (⟨.idle, ·⟩)
    | none => some ⟨.word [u], p⟩

/-- The end of a word. -/
def endWord (B : Builder V) (p : State V) (w : Units) : Option (State V) :=
  (wordValue B w).bind fun v => step B p (.atom v)

/-- The next unit. -/
def feed (B : Builder V) (m : Machine V) (u : UInt16) : Option (Machine V) :=
  match m.lexer with
  | .idle => start B m.state u
  | .word w =>
    if isDelimiter u then (endWord B m.state w).bind fun p => start B p u
    else some ⟨.word (w ++ [u]), m.state⟩
  | .text s =>
    if u = 0x22 then (step B m.state (.string s)).map (⟨.idle, ·⟩)
    else if u.toNat < 0x20 then none
    else if u = 0x5C then some ⟨.escape s, m.state⟩
    else some ⟨.text (s ++ [u]), m.state⟩
  | .escape s =>
    if u = 0x75 then some ⟨.unicode s 0 0, m.state⟩
    else (escaped u).map fun c => ⟨.text (s ++ [c]), m.state⟩
  | .unicode s count value =>
    (hexValue u).map fun d =>
      if count = 3 then ⟨.text (s ++ [.ofNat (16 * value + d)]), m.state⟩
      else ⟨.unicode s (count + 1) (16 * value + d), m.state⟩

/-- The units of a text one after the other. -/
def read (B : Builder V) (m : Machine V) : Units → Option (Machine V)
  | [] => some m
  | u :: s => (feed B m u).bind fun m => read B m s

/-- The end of the text ends a word. -/
def flush (B : Builder V) (m : Machine V) : Option (State V) :=
  match m.lexer with
  | .idle => some m.state
  | .word w => endWord B m.state w
  | _ => none

/-- `JSON.parse` -/
def parse (B : Builder V) (s : Units) : Option V :=
  match (read B ⟨.idle, .value false []⟩ s).bind (flush B) with
  | some (.done v []) => some v
  | _ => none

/-! ## Reading -/

variable {B : Builder V} {m m' : Machine V} {p p' p'' : State V} {s t : Units} {u : UInt16}

theorem read_append (m : Machine V) (s t : Units) :
    read B m (s ++ t) = (read B m s).bind fun m => read B m t := by
  induction s generalizing m with
  | nil => rfl
  | cons u s ih =>
    rw [List.cons_append, read, read]
    cases feed B m u with
    | none => rfl
    | some m' => exact ih m'

theorem read_cons (h : feed B m u = some m') (s : Units) : read B m (u :: s) = read B m' s := by
  rw [read, h, Option.bind_some]

/-- The text takes the parser from one state to another, if its last word is ended. -/
def Yields (B : Builder V) (p : State V) (s : Units) (p' : State V) : Prop :=
  ∃ m, read B ⟨.idle, p⟩ s = some m ∧ flush B m = some p'

/-- A delimiter ends a word. -/
theorem feed_of_flush (h : flush B m = some p) (hu : isDelimiter u = true) :
    feed B m u = feed B ⟨.idle, p⟩ u := by
  unfold flush at h
  split at h
  · rename_i hidle
    rw [feed, hidle, Option.some.inj h]
    rfl
  · rename_i w hword
    rw [feed, hword]
    simp only [if_pos hu, h, Option.bind_some, feed]
  · cases h

/-- **What follows a text** is read from the state that the text yields. -/
theorem Yields.read_append (h : Yields B p s p') (hu : isDelimiter u = true) (t : Units) :
    read B ⟨.idle, p⟩ (s ++ u :: t) = read B ⟨.idle, p'⟩ (u :: t) := by
  obtain ⟨m, hread, hflush⟩ := h
  rw [JsonText.read_append, hread, Option.bind_some, read, read, feed_of_flush hflush hu]

theorem Yields.append (h : Yields B p s p') (hu : isDelimiter u = true)
    (h' : Yields B p' (u :: t) p'') : Yields B p (s ++ u :: t) p'' := by
  obtain ⟨m, hread, hflush⟩ := h'
  exact ⟨m, (h.read_append hu t).trans hread, hflush⟩

/-- **What a text yields, `parse` returns.** -/
theorem parse_of_yields {v : V} (h : Yields B (.value false []) s (.done v [])) :
    parse B s = some v := by
  obtain ⟨m, hread, hflush⟩ := h
  rw [parse, hread, Option.bind_some, hflush]

/-! ## Punctuation -/

theorem feed_idle (p : State V) (u : UInt16) : feed B ⟨.idle, p⟩ u = start B p u := rfl

/-- A unit that is a token. -/
theorem read_punctuation {τ : Token V} (hspace : isSpace u = false) (hquote : u ≠ 0x22)
    (hu : punctuation u = some τ) (hstep : step B p τ = some p') (s : Units) :
    read B ⟨.idle, p⟩ (u :: s) = read B ⟨.idle, p'⟩ s := by
  apply read_cons
  rw [feed_idle, start, if_neg (Bool.eq_false_iff.mp hspace), if_neg hquote, hu]
  simp only [hstep, Option.map_some]

theorem Yields.punctuation {τ : Token V} (hspace : isSpace u = false) (hquote : u ≠ 0x22)
    (hu : punctuation u = some τ) (hstep : step B p τ = some p') (h : Yields B p' s p'') :
    Yields B p (u :: s) p'' := by
  obtain ⟨m, hread, hflush⟩ := h
  exact ⟨m, (read_punctuation hspace hquote hu hstep s).trans hread, hflush⟩

theorem Yields.nil (p : State V) : Yields B p [] p := ⟨_, rfl, rfl⟩

/-! ## Words -/

theorem read_word (w : Units) (hs : ∀ u ∈ s, isDelimiter u = false) :
    read B ⟨.word w, p⟩ s = some ⟨.word (w ++ s), p⟩ := by
  induction s generalizing w with
  | nil => rw [List.append_nil, read]
  | cons u s ih =>
    have hu : isDelimiter u = false := hs u List.mem_cons_self
    have hfeed : feed B ⟨.word w, p⟩ u = some ⟨.word (w ++ [u]), p⟩ := by
      rw [feed]
      exact if_neg (Bool.eq_false_iff.mp hu)
    rw [read_cons hfeed, ih _ fun v hv => hs v (List.mem_cons_of_mem _ hv), List.append_assoc,
      List.singleton_append]

theorem start_word (hu : isDelimiter u = false) : start B p u = some ⟨.word [u], p⟩ := by
  simp only [isDelimiter, Bool.or_eq_false_iff, beq_eq_false_iff_ne] at hu
  obtain ⟨⟨⟨⟨⟨⟨⟨hspace, hquote⟩, h₁⟩, h₂⟩, h₃⟩, h₄⟩, h₅⟩, h₆⟩ := hu
  have hnone : punctuation u = (none : Option (Token V)) := by
    rw [JsonText.punctuation, if_neg h₁, if_neg h₂, if_neg h₃, if_neg h₄, if_neg h₅, if_neg h₆]
  rw [start, if_neg (Bool.eq_false_iff.mp hspace), if_neg hquote, hnone]

/-- A number or a literal name where a value is due. -/
theorem Yields.word {v : V} {c : Bool} {st : List (Frame V)} (hne : s ≠ [])
    (hs : s.any isDelimiter = false) (hv : wordValue B s = some v) :
    Yields B (.value c st) s (.done v st) := by
  have hs : ∀ u ∈ s, isDelimiter u = false := fun u hu => Bool.eq_false_iff.mpr (List.any_eq_false.mp hs u hu)
  obtain ⟨u, s, rfl⟩ := List.exists_cons_of_ne_nil hne
  have hstart : feed B ⟨.idle, .value c st⟩ u = some ⟨.word [u], .value c st⟩ := by
    rw [feed_idle, start_word (hs u List.mem_cons_self)]
  refine ⟨⟨.word (u :: s), .value c st⟩, ?_, ?_⟩
  · rw [read_cons hstart, read_word _ fun v hv => hs v (List.mem_cons_of_mem _ hv),
      List.singleton_append]
  · simp only [flush, endWord, hv, Option.bind_some, step]

/-! ## Strings -/

/-- The text, in a string, stands for the units `s`. -/
def Writes (B : Builder V) (t s : Units) : Prop :=
  ∀ acc p, read B ⟨.text acc, p⟩ t = some ⟨.text (acc ++ s), p⟩

theorem Writes.nil : Writes B [] [] := fun acc p => by rw [List.append_nil, read]

theorem Writes.append {t' s' : Units} (h : Writes B t s) (h' : Writes B t' s') :
    Writes B (t ++ t') (s ++ s') := fun acc p => by
  rw [JsonText.read_append, h, Option.bind_some, h', List.append_assoc]

/-- A unit that stands for itself. -/
theorem Writes.unit (hlow : 0x20 ≤ u.toNat) (hquote : u ≠ 0x22) (hbackslash : u ≠ 0x5C) :
    Writes B [u] [u] := fun acc p => by
  have hfeed : feed B ⟨.text acc, p⟩ u = some ⟨.text (acc ++ [u]), p⟩ := by
    rw [feed]
    simp only [if_neg hquote, if_neg (Nat.not_lt.mpr hlow), if_neg hbackslash]
  rw [read_cons hfeed, read]

theorem feed_backslash (acc : Units) (p : State V) :
    feed B ⟨.text acc, p⟩ 0x5C = some ⟨.escape acc, p⟩ := by
  rw [feed]
  rfl

/-- An escape of one letter. -/
theorem Writes.escaped {c : UInt16} (hu : escaped u = some c) : Writes B [0x5C, u] [c] := fun acc p => by
  have hne : u ≠ 0x75 := by
    rintro rfl
    cases hu
  have hfeed : feed B ⟨.escape acc, p⟩ u = some ⟨.text (acc ++ [c]), p⟩ := by
    rw [feed]
    simp only [if_neg hne, hu, Option.map_some]
  rw [read_cons (feed_backslash acc p), read_cons hfeed, read]

/-- An escape of four hexadecimal digits. -/
theorem Writes.unicode {a b c d : UInt16} {i j k l : Nat} (ha : hexValue a = some i)
    (hb : hexValue b = some j) (hc : hexValue c = some k) (hd : hexValue d = some l) :
    Writes B [0x5C, 0x75, a, b, c, d] [.ofNat (16 * (16 * (16 * (16 * 0 + i) + j) + k) + l)] :=
  fun acc p => by
  have hu : feed B ⟨.escape acc, p⟩ 0x75 = some ⟨.unicode acc 0 0, p⟩ := by
    rw [feed]
    rfl
  have hdigit : ∀ {x : UInt16} {n count value : Nat}, hexValue x = some n → count ≠ 3 →
      feed B ⟨.unicode acc count value, p⟩ x = some ⟨.unicode acc (count + 1) (16 * value + n), p⟩ := by
    intro x n count value hx hcount
    rw [feed]
    simp only [hx, Option.map_some, if_neg hcount]
  have hlast : ∀ value, feed B ⟨.unicode acc 3 value, p⟩ d =
      some ⟨.text (acc ++ [.ofNat (16 * value + l)]), p⟩ := by
    intro value
    rw [feed]
    simp only [hd, Option.map_some, if_true]
  rw [read_cons (feed_backslash acc p), read_cons hu, read_cons (hdigit ha (by decide)),
    read_cons (hdigit hb (by decide)), read_cons (hdigit hc (by decide)), read_cons (hlast _), read]

/-- A string where one may stand. -/
theorem Writes.yields (h : Writes B t s) (hstep : step B p (.string s) = some p') :
    Yields B p (0x22 :: (t ++ [0x22])) p' := by
  refine ⟨⟨.idle, p'⟩, ?_, rfl⟩
  have hopen : feed B ⟨.idle, p⟩ 0x22 = some ⟨.text [], p⟩ := by
    rw [feed_idle, start]
    rfl
  have hclose : feed B ⟨.text s, p⟩ 0x22 = some ⟨.idle, p'⟩ := by
    rw [feed]
    simp only [if_true, hstep, Option.map_some]
  rw [read_cons hopen, JsonText.read_append, h, Option.bind_some, List.nil_append, read_cons hclose, read]

/-! ## Arrays and objects -/

section Lists

variable {β : Type v} {emit : β → Units} {c : Bool} {st : List (Frame V)} {l : List β}

private theorem isDelimiter_comma : isDelimiter 0x2C = true := by decide

/-- The elements after an opening bracket. -/
private theorem read_items {val : β → V} (hne : l ≠ [])
    (hl : ∀ b ∈ l, ∀ c st, Yields B (.value c st) (emit b) (.done (val b) st))
    (before : List V) (rest : Units) :
    read B ⟨.idle, .value c (.items before :: st)⟩ ([0x2C].intercalate (l.map emit) ++ 0x5D :: rest) =
      read B ⟨.idle, .done (B.array (before ++ l.map val)) st⟩ rest := by
  induction l generalizing before c with
  | nil => exact absurd rfl hne
  | cons b l ih =>
    have hb := hl b List.mem_cons_self
    cases l with
    | nil =>
      rw [List.map_singleton, List.intercalate_singleton, (hb _ _).read_append (by decide)]
      exact read_punctuation (by decide) (by decide) rfl rfl rest
    | cons b' l =>
      have htail := ih (c := false) (List.cons_ne_nil _ _)
        (fun x hx => hl x (List.mem_cons_of_mem _ hx)) (before ++ [val b])
      rw [List.map_cons] at htail
      rw [List.map_cons, List.map_cons, List.intercalate_cons_cons, List.append_assoc,
        List.append_assoc, List.singleton_append, (hb _ _).read_append isDelimiter_comma,
        read_punctuation (by decide) (by decide) rfl rfl, htail, List.append_assoc]
      rfl

/-- **An array is read element by element.** -/
theorem Yields.array {val : β → V}
    (hl : ∀ b ∈ l, ∀ c st, Yields B (.value c st) (emit b) (.done (val b) st)) :
    Yields B (.value c st) (0x5B :: ([0x2C].intercalate (l.map emit) ++ [0x5D]))
      (.done (B.array (l.map val)) st) := by
  refine Yields.punctuation (by decide) (by decide) rfl rfl ?_
  by_cases hne : l = []
  · subst hne
    exact Yields.punctuation (by decide) (by decide) rfl rfl (Yields.nil _)
  · refine ⟨_, read_items hne hl [] [], rfl⟩

/-- A member as it is written: its name, and its value. -/
def member (name : β → Units) (emit : β → Units) (b : β) : Units :=
  0x22 :: (name b ++ 0x22 :: 0x3A :: emit b)

/-- The members after an opening brace. -/
private theorem read_members {key : β → Units} {name : β → Units} {val : β → V} (hne : l ≠ [])
    (hkey : ∀ b ∈ l, Writes B (name b) (key b))
    (hl : ∀ b ∈ l, ∀ c st, Yields B (.value c st) (emit b) (.done (val b) st))
    (before : List (Units × V)) (rest : Units) :
    read B ⟨.idle, .name c before st⟩
        ([0x2C].intercalate (l.map (member name emit)) ++ 0x7D :: rest) =
      read B ⟨.idle, .done (B.object (before ++ l.map fun b => (key b, val b))) st⟩ rest := by
  -- A member takes the parser from a name to its value.
  have hmember : ∀ b ∈ l, ∀ c before,
      Yields B (.name c before st) (member name emit b) (.done (val b) (.member before (key b) :: st)) := by
    intro b hb c before
    have hname : Yields B (.name c before st) (0x22 :: (name b ++ [0x22])) (.colon before (key b) st) :=
      (hkey b hb).yields rfl
    have hsplit : member name emit b = 0x22 :: (name b ++ [0x22]) ++ 0x3A :: emit b := by
      simp [member]
    rw [hsplit]
    exact hname.append (by decide) (.punctuation (by decide) (by decide) rfl rfl (hl b hb _ _))
  clear hkey hl
  induction l generalizing before c with
  | nil => exact absurd rfl hne
  | cons b l ih =>
    have hb := hmember b List.mem_cons_self
    cases l with
    | nil =>
      rw [List.map_singleton, List.intercalate_singleton, (hb _ _).read_append (by decide)]
      exact read_punctuation (by decide) (by decide) rfl rfl rest
    | cons b' l =>
      have htail := ih (c := false) (List.cons_ne_nil _ _) (before ++ [(key b, val b)])
        (fun x hx => hmember x (List.mem_cons_of_mem _ hx))
      rw [List.map_cons] at htail
      rw [List.map_cons, List.map_cons, List.intercalate_cons_cons, List.append_assoc,
        List.append_assoc, List.singleton_append, (hb _ _).read_append isDelimiter_comma,
        read_punctuation (by decide) (by decide) rfl rfl, htail, List.append_assoc]
      rfl

/-- **An object is read member by member.** -/
theorem Yields.object {key : β → Units} {name : β → Units} {val : β → V}
    (hkey : ∀ b ∈ l, Writes B (name b) (key b))
    (hl : ∀ b ∈ l, ∀ c st, Yields B (.value c st) (emit b) (.done (val b) st)) :
    Yields B (.value c st) (0x7B :: ([0x2C].intercalate (l.map (member name emit)) ++ [0x7D]))
      (.done (B.object (l.map fun b => (key b, val b))) st) := by
  refine Yields.punctuation (by decide) (by decide) rfl rfl ?_
  by_cases hne : l = []
  · subst hne
    exact Yields.punctuation (by decide) (by decide) rfl rfl (Yields.nil _)
  · refine ⟨_, read_members hne hkey hl [] [], rfl⟩

end Lists

/-! ## Numbers -/

/-- ASCII bytes as units. -/
def widen (bs : List UInt8) : Units := bs.map fun b => .ofNat b.toNat

/-- A word of ASCII bytes is read as the grammar of numbers reads the bytes. -/
theorem numberOf_widen {bs : List UInt8} (hbs : ∀ b ∈ bs, b.toNat < 0x80) {m e : Int}
    (h : Json.number? bs = some (.number m e, [])) : numberOf (widen bs) = some (m, e) := by
  have hunit : ∀ b : UInt8, (UInt16.ofNat b.toNat).toNat = b.toNat := by
    intro b
    rw [UInt16.toNat_ofNat']
    exact Nat.mod_eq_of_lt (Nat.lt_of_lt_of_le b.toNat_lt (by decide))
  have hascii : ((widen bs).all fun u => u.toNat < 0x80) = true := by
    rw [List.all_eq_true]
    intro u hu
    obtain ⟨b, hb, rfl⟩ := List.mem_map.mp hu
    rw [hunit]
    exact decide_eq_true (hbs b hb)
  have hback : (widen bs).map (fun u => UInt8.ofNat u.toNat) = bs := by
    rw [widen, List.map_map]
    refine (List.map_congr_left fun b _ => ?_).trans (List.map_id bs)
    rw [Function.comp_apply, hunit, UInt8.ofNat_toNat, id]
  rw [numberOf, if_pos hascii, hback, h]

/-- An integer as it is written: a minus sign if it is negative, and its digits. -/
def integer (n : Int) : List UInt8 :=
  if n < 0 then 0x2D :: Decimal.digits n.natAbs else Decimal.digits n.natAbs

theorem number?_integer (n : Int) : Json.number? (integer n) = some (.number n 0, []) := by
  have hends : Json.EndsNumber [] := fun c hc => by cases hc
  have hread := fun negative => Json.unsigned_digits negative n.natAbs hends
  simp only [List.append_nil] at hread
  by_cases hneg : n < 0
  · have hvalue : -(n.natAbs : Int) = n := by omega
    rw [integer, if_pos hneg, Json.number?, if_pos rfl, hread, if_pos rfl, hvalue]
  · have hvalue : (n.natAbs : Int) = n := by omega
    -- Without a sign the word starts with a digit.
    obtain ⟨d, ds, hds⟩ := List.exists_cons_of_ne_nil (Decimal.digits_ne_nil n.natAbs)
    have hminus : d ≠ 0x2D := by
      rintro rfl
      have hdigit := Decimal.isDigit_of_mem_digits (hds ▸ List.mem_cons_self)
      exact absurd hdigit (by decide)
    rw [integer, if_neg hneg, hds, Json.number?, if_neg hminus, ← hds, hread,
      if_neg Bool.false_ne_true, hvalue]

theorem mem_integer {n : Int} {b : UInt8} (h : b ∈ integer n) : b = 0x2D ∨ Decimal.isDigit b = true := by
  unfold integer at h
  split at h
  · rcases List.mem_cons.mp h with rfl | hdigit
    · exact .inl rfl
    · exact .inr (Decimal.isDigit_of_mem_digits hdigit)
  · exact .inr (Decimal.isDigit_of_mem_digits h)

/-- **An integer is read exactly.** -/
theorem Yields.integer {c : Bool} {st : List (Frame V)} (n : Int) :
    Yields B (.value c st) (widen (integer n)) (.done (B.number n 0) st) := by
  have hrange : ∀ b ∈ JsonText.integer n, 0x2D ≤ b.toNat ∧ b.toNat ≤ 0x39 := by
    intro b hb
    rcases mem_integer hb with rfl | hdigit
    · decide
    · have hb := Decimal.isDigit_iff.mp hdigit
      omega
  have hunit : ∀ u ∈ widen (JsonText.integer n), 0x2D ≤ u.toNat ∧ u.toNat ≤ 0x39 := by
    intro u hu
    obtain ⟨b, hb, rfl⟩ := List.mem_map.mp hu
    have hb := hrange b hb
    rw [UInt16.toNat_ofNat', Nat.mod_eq_of_lt (by omega)]
    exact hb
  have hne : ∀ {u : UInt16} (x : UInt16), 0x2D ≤ u.toNat ∧ u.toNat ≤ 0x39 →
      ¬ (0x2D ≤ x.toNat ∧ x.toNat ≤ 0x39) → u ≠ x := by
    rintro u x hu hx rfl
    exact hx hu
  have hword : widen (JsonText.integer n) ≠ [] := by
    rw [widen, Ne, List.map_eq_nil_iff, JsonText.integer]
    split
    · exact List.cons_ne_nil _ _
    · exact Decimal.digits_ne_nil _
  refine Yields.word hword (List.any_eq_false.mpr fun u hu => Bool.eq_false_iff.mp ?_) ?_
  · simp only [isDelimiter, isSpace, Bool.or_eq_false_iff, beq_eq_false_iff_ne]
    have hu := hunit u hu
    refine ⟨⟨⟨⟨⟨⟨⟨⟨⟨⟨?_, ?_⟩, ?_⟩, ?_⟩, ?_⟩, ?_⟩, ?_⟩, ?_⟩, ?_⟩, ?_⟩, ?_⟩ <;>
      exact hne _ hu (by decide)
  · -- A literal name starts with a letter.
    have hname : ∀ (x : UInt16) (w : Units), ¬ (0x2D ≤ x.toNat ∧ x.toNat ≤ 0x39) →
        widen (JsonText.integer n) ≠ x :: w := by
      intro x w hx heq
      exact hx (hunit x (heq ▸ List.mem_cons_self))
    rw [wordValue, if_neg (hname _ _ (by decide)), if_neg (hname _ _ (by decide)),
      if_neg (hname _ _ (by decide)), numberOf_widen _ (number?_integer n), Option.map_some]
    intro b hb
    have hb := hrange b hb
    omega

/-! ## Writing -/

/-- A value whose numbers are integers. -/
inductive Data where
  | null
  | bool (b : Bool)
  | integer (n : Int)
  | string (s : Units)
  | array (items : List Data)
  | object (members : List (Units × Data))

namespace Data

variable (quote : Units → Units)

mutual

/-- The text of a value without white space. `quote` writes what stands between quotes. -/
def text : Data → Units
  | null => [0x6E, 0x75, 0x6C, 0x6C]
  | bool true => [0x74, 0x72, 0x75, 0x65]
  | bool false => [0x66, 0x61, 0x6C, 0x73, 0x65]
  | integer n => widen (JsonText.integer n)
  | string s => 0x22 :: (quote s ++ [0x22])
  | array items => 0x5B :: ([0x2C].intercalate (itemTexts items) ++ [0x5D])
  | object members => 0x7B :: ([0x2C].intercalate (memberTexts members) ++ [0x7D])

/-- The texts of the elements of an array. -/
def itemTexts : List Data → List Units
  | [] => []
  | d :: items => text d :: itemTexts items

/-- The texts of the members of an object. -/
def memberTexts : List (Units × Data) → List Units
  | [] => []
  | (name, d) :: members => (0x22 :: (quote name ++ 0x22 :: 0x3A :: text d)) :: memberTexts members

end

variable (B : Builder V)

mutual

/-- The value itself. -/
def value : Data → V
  | null => B.null
  | bool b => B.bool b
  | integer n => B.number n 0
  | string s => B.string s
  | array items => B.array (itemValues items)
  | object members => B.object (memberValues members)

def itemValues : List Data → List V
  | [] => []
  | d :: items => value d :: itemValues items

def memberValues : List (Units × Data) → List (Units × V)
  | [] => []
  | (name, d) :: members => (name, value d) :: memberValues members

end

/-- What holds of a value if it holds of its parts holds of every value. -/
theorem induction {P : Data → Prop} (null : P .null) (bool : ∀ b, P (.bool b))
    (integer : ∀ n, P (.integer n)) (string : ∀ s, P (.string s))
    (array : ∀ items, (∀ d ∈ items, P d) → P (.array items))
    (object : ∀ members, (∀ m ∈ members, P m.2) → P (.object members)) (d : Data) : P d :=
  @Data.rec P (fun items => ∀ d ∈ items, P d) (fun members => ∀ m ∈ members, P m.2) (fun m => P m.2)
    null bool integer string array object
    (fun _ hd => absurd hd List.not_mem_nil)
    (fun _ _ hd hitems x hx => (List.mem_cons.mp hx).elim (fun h => h ▸ hd) (hitems x))
    (fun _ hm => absurd hm List.not_mem_nil)
    (fun _ _ hm hmembers x hx => (List.mem_cons.mp hx).elim (fun h => h ▸ hm) (hmembers x))
    (fun _ _ hd => hd) d

variable {quote}

theorem itemTexts_eq (items : List Data) : itemTexts quote items = items.map (text quote) := by
  induction items with
  | nil => rfl
  | cons d items ih => rw [itemTexts, ih, List.map_cons]

theorem itemValues_eq (items : List Data) : itemValues B items = items.map (value B) := by
  induction items with
  | nil => rfl
  | cons d items ih => rw [itemValues, ih, List.map_cons]

theorem memberTexts_eq (members : List (Units × Data)) : memberTexts quote members =
    members.map (member (fun m => quote m.1) fun m => text quote m.2) := by
  induction members with
  | nil => rfl
  | cons m members ih => rw [memberTexts, ih, List.map_cons, member]

theorem memberValues_eq (members : List (Units × Data)) :
    memberValues B members = members.map fun m => (m.1, value B m.2) := by
  induction members with
  | nil => rfl
  | cons m members ih => rw [memberValues, ih, List.map_cons]

variable {B}

/-- **What is written is read back**, whatever comes before and after it. -/
theorem yields (hquote : ∀ s, Writes B (quote s) s) (d : Data) :
    ∀ c st, Yields B (.value c st) (d.text quote) (.done (d.value B) st) := by
  induction d using induction with
  | null =>
    intro c st
    rw [text, value]
    exact Yields.word (by decide) (by decide) rfl
  | bool b =>
    intro c st
    cases b with
    | false =>
      rw [text, value]
      exact Yields.word (by decide) (by decide) rfl
    | true =>
      rw [text, value]
      exact Yields.word (by decide) (by decide) rfl
  | integer n => exact fun c st => Yields.integer n
  | string s => exact fun c st => (hquote s).yields rfl
  | array items ih =>
    intro c st
    rw [text, value, itemTexts_eq, itemValues_eq]
    exact Yields.array ih
  | object members ih =>
    intro c st
    rw [text, value, memberTexts_eq, memberValues_eq]
    exact Yields.object (fun m _ => hquote m.1) ih

/-- **Parsing inverts writing.** -/
theorem parse_text (hquote : ∀ s, Writes B (quote s) s) (d : Data) :
    parse B (d.text quote) = some (d.value B) :=
  parse_of_yields (d.yields hquote false [])

end Data

end JsonText
