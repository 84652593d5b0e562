import Frag.Client.Import
import Frag.Client.Network

/-!
# What an Import Leaves

The loop of `importChat` stores every server that it adds before it looks at the next entry, so
an import that fails later leaves servers behind. A server is added under its URL without a
slash at the end and looked up under the URL as it is written, so an entry with such a slash
does not find the server that was added for it.

## Main results

- `failed_import_leaves_no_trace_iff`: the imports that fail without a trace;
- `import_again_iff`: the imports that can be repeated.
-/

namespace Frag

open Intern

/-- A server can be added for the entry. -/
def JsValue.acceptable (s : JsValue) : Bool :=
  match s.property "url", s.property "token" with
  | some (.string u), some t => u ≠ [] && t.truthy
  | _, _ => false

theorem serverFor_eq_none {id : JsString} {s : JsValue} :
    serverFor id s = none ↔ s.acceptable = false := by
  rw [← Bool.not_eq_true, ← not_iff_not, not_not, ← ne_eq, Option.ne_none_iff_exists']
  constructor
  · rintro ⟨server, hserver⟩
    obtain ⟨u, t, hurl, htoken, hu, ht, -⟩ := serverFor_eq_some.mp hserver
    simp [JsValue.acceptable, hurl, htoken, hu, ht]
  · intro h
    unfold JsValue.acceptable at h
    split at h
    · rename_i u t hurl htoken
      rw [Bool.and_eq_true, decide_eq_true_eq] at h
      exact ⟨_, serverFor_eq_some.mpr ⟨u, t, hurl, htoken, h.1, h.2, rfl⟩⟩
    · cases h

/-- A server answers an entry with its URL and its token. -/
theorem answers_iff {sv : JsServer} {s : JsValue} : sv.answers s = true ↔
    s.property "url" = some (.string sv.url) ∧ s.property "token" = some sv.token ∧
      sv.token.isPrimitive = true := by
  rw [JsServer.answers, Bool.and_eq_true, Option.any_eq_true, Option.any_eq_true]
  constructor
  · rintro ⟨⟨url, hurl, hsame⟩, token, htoken, hsame'⟩
    obtain ⟨rfl, -⟩ := JsValue.strictEq_iff.mp hsame
    obtain ⟨rfl, hprimitive⟩ := JsValue.strictEq_iff.mp hsame'
    exact ⟨hurl, htoken, hprimitive⟩
  · rintro ⟨hurl, htoken, hprimitive⟩
    exact ⟨⟨_, hurl, JsValue.strictEq_iff.mpr ⟨rfl, rfl⟩⟩, _, htoken,
      JsValue.strictEq_iff.mpr ⟨rfl, hprimitive⟩⟩

/-! ## Imports that fail -/

/-- The first entry that no server answers, if there is one, is not acceptable. -/
def FirstUnknownFails (servers : List JsServer) (entries : List JsValue) : Prop :=
  ∀ s ∈ (entries.dropWhile (known JsServer.answers servers)).head?, s.acceptable = false

instance (servers : List JsServer) (entries : List JsValue) :
    Decidable (FirstUnknownFails servers entries) :=
  inferInstanceAs (Decidable (∀ s ∈ (entries.dropWhile (known JsServer.answers servers)).head?,
    s.acceptable = false))

section Import

variable {parse : JsString → Option JsValue} {book book' : Book} {jsonStr : JsString}
  {fresh fresh' : Nat → JsString} {rand rand' : App.ChatRandom} {entries : List JsValue}

theorem truthy_of_requiredFields {value : JsValue} {data : ImportData}
    (h : requiredFields value = some data) : data.name.truthy = true := by
  unfold requiredFields at h
  split at h
  · split at h
    · rename_i hall
      obtain rfl := Option.some.inj h
      rw [Bool.and_eq_true, Bool.and_eq_true] at hall
      exact hall.1.1
    · cases h
  · cases h

/-- A chat with a name is refused only without servers. -/
theorem Book.serverIds_of_createChat_error {name chatId keyB64 : JsValue} {serverIds : List JsString}
    {e : ImportFailure} (hname : name.truthy = true)
    (h : book.createChat name serverIds chatId keyB64 rand = .error e) : serverIds = [] := by
  rw [Book.createChat, if_neg (by simp [hname])] at h
  split at h
  · assumption
  · cases h

/-- Each entry gives a server. -/
theorem Book.resolved_of_importServers {serverIds : List JsString}
    (h : book.importServers fresh entries = (book', .ok serverIds)) :
    ∃ out, book.resolved fresh entries = (book'.servers, some out) ∧
      serverIds = out.map JsServer.id := by
  obtain ⟨hservers, hids, -⟩ := book.importServers_eq fresh entries
  rw [h] at hservers hids
  obtain ⟨out, hout, heq⟩ := Option.map_eq_some_iff.mp hids.symm
  exact ⟨out, Prod.ext hservers.symm hout, heq.symm⟩

theorem Book.entries_of_importServers_nil
    (h : book.importServers fresh entries = (book', .ok [])) : entries = [] := by
  obtain ⟨out, hresolved, hnil⟩ := Book.resolved_of_importServers h
  have hlength := (find?_resolveAll hresolved).1
  rw [List.map_eq_nil_iff.mp hnil.symm, List.length_nil] at hlength
  exact List.length_eq_zero_iff.mp hlength.symm

/-- The loop fails without a trace iff the first unknown entry is the one that fails. -/
theorem importServers_fst_eq_iff {e : ImportFailure}
    (hfails : (book.importServers fresh entries).2 = .error e) :
    (book.importServers fresh entries).1 = book ↔ FirstUnknownFails book.servers entries := by
  obtain ⟨hservers, hids, -, -, hself⟩ := book.importServers_eq fresh entries
  have hnone : (book.resolved fresh entries).2 = none := by
    rw [hfails] at hids
    exact Option.map_eq_none_iff.mp hids.symm
  have hsame : ∀ i j s, serverFor i s = none → serverFor j s = none := fun i j s h =>
    serverFor_eq_none.mpr (serverFor_eq_none.mp h)
  -- The loop over the list is the library's, and so is the rule.
  have hiff := resolveAll_fst_eq_iff hsame hnone
  constructor
  · intro heq s hs
    refine serverFor_eq_none.mp (hiff.mp ?_ s hs)
    rw [← hservers, heq]
  · intro h
    apply hself
    rw [hservers]
    exact hiff.mpr fun s hs => serverFor_eq_none.mpr (h s hs)

/-- **A failed import leaves no trace** iff the first entry that is not known yet, if there is
    one, is itself bad; an import that fails before it looks at the entries leaves none. -/
theorem failed_import_leaves_no_trace_iff {e : ImportFailure}
    (h : book.importChat parse jsonStr fresh rand = (book', .error e)) :
    book' = book ↔
      ∀ data ∈ (parse jsonStr).bind requiredFields, FirstUnknownFails book.servers data.servers := by
  unfold Book.importChat at h
  cases hparse : parse jsonStr with
  | none =>
    rw [hparse] at h
    exact ⟨fun _ => nofun, fun _ => (Prod.mk.inj h).1.symm⟩
  | some value =>
    rw [hparse] at h
    simp only at h
    rw [Option.bind_some]
    cases hfields : requiredFields value with
    | none =>
      -- The data is `null`, or a required field is missing.
      refine ⟨fun _ => nofun, fun _ => ?_⟩
      rw [hfields] at h
      split at h
      · exact (Prod.mk.inj h).1.symm
      · exact (Prod.mk.inj h).1.symm
    | some data =>
      have hnull : value.isNull = false := by
        cases value <;> first | rfl | cases hfields
      rw [hfields, hnull] at h
      simp only [Bool.false_eq_true, if_false] at h
      have hdata : (∀ data' ∈ some data, FirstUnknownFails book.servers data'.servers) ↔
          FirstUnknownFails book.servers data.servers := by simp
      rw [hdata]
      cases hloop : book.importServers fresh data.servers with
      | mk book₁ result =>
        rw [hloop] at h
        cases result with
        | error e' =>
          obtain rfl : book₁ = book' := (Prod.mk.inj h).1
          have hfails : (book.importServers fresh data.servers).2 = .error e' := by rw [hloop]
          have hiff := importServers_fst_eq_iff hfails
          rwa [hloop] at hiff
        | ok serverIds =>
          -- All entries were found or added, so there was none.
          simp only at h
          have hnone : data.servers = [] := by
            cases hchat : book₁.createChat data.name serverIds data.chatId data.keyB64 rand with
            | ok r =>
              rw [hchat] at h
              cases h
            | error e' =>
              have hempty := Book.serverIds_of_createChat_error (truthy_of_requiredFields hfields) hchat
              exact Book.entries_of_importServers_nil (hempty ▸ hloop)
          have hbook : book₁ = book' := by
            split at h
            · exact (Prod.mk.inj h).1
            · cases h
          rw [hnone] at hloop ⊢
          rw [← hbook]
          exact ⟨fun _ => nofun, fun _ => (Prod.mk.inj hloop).1.symm⟩

/-! ## Imports that are accepted -/

/-- A chat with a name and with servers is created. -/
theorem Book.exists_of_createChat {name : JsValue} {serverIds : List JsString}
    (hname : name.truthy = true) (hne : serverIds ≠ []) (chatId keyB64 : JsValue) (book : Book)
    (rand : App.ChatRandom) :
    ∃ chat book', book.createChat name serverIds chatId keyB64 rand = .ok (chat, book') ∧
      chat.serverIds = serverIds ∧ book'.servers = book.servers := by
  rw [Book.createChat, if_neg (by simp [hname]), if_neg hne]
  exact ⟨_, _, rfl, rfl, rfl⟩

/-- What an import does when its fields are there: it succeeds iff every entry gives a server
    and there is one. -/
theorem importChat_eq_ok {data : ImportData} {serverIds : List JsString} {servers : List JsServer}
    (hdata : (parse jsonStr).bind requiredFields = some data) :
    (∃ book' chat, book.importChat parse jsonStr fresh rand = (book', .ok chat) ∧
        book'.servers = servers ∧ chat.serverIds = serverIds) ↔
      serverIds ≠ [] ∧ ∃ out, book.resolved fresh data.servers = (servers, some out) ∧
        serverIds = out.map JsServer.id := by
  obtain ⟨value, hparse, hfields⟩ := Option.bind_eq_some_iff.mp hdata
  have hnull : value.isNull = false := by
    cases value <;> first | rfl | cases hfields
  have hname := truthy_of_requiredFields hfields
  rw [Book.importChat, hparse]
  simp only [hnull, Bool.false_eq_true, if_false, hfields]
  rcases hloop : book.importServers fresh data.servers with ⟨book₁, e | ids⟩
  · -- Some entry gives no server.
    obtain ⟨-, hids, -⟩ := book.importServers_eq fresh data.servers
    rw [hloop] at hids
    constructor
    · rintro ⟨_, _, ⟨⟩, -⟩
    · rintro ⟨-, out, hresolved, -⟩
      rw [hresolved] at hids
      cases hids
  · obtain ⟨out, hresolved, rfl⟩ := Book.resolved_of_importServers hloop
    simp only
    by_cases hne : out.map JsServer.id = []
    · rw [Book.createChat, if_neg (by simp [hname]), if_pos hne]
      constructor
      · rintro ⟨_, _, ⟨⟩, -⟩
      · rintro ⟨hne', out', hresolved', rfl⟩
        rw [hresolved, Prod.mk.injEq, Option.some.injEq] at hresolved'
        exact absurd (hresolved'.2 ▸ hne) hne'
    · obtain ⟨chat, book₂, hcreate, hids, hservers⟩ :=
        Book.exists_of_createChat hname hne data.chatId data.keyB64 book₁ rand
      rw [hcreate, hresolved]
      simp only [Prod.mk.injEq, Except.ok.injEq, Option.some.injEq]
      constructor
      · rintro ⟨_, _, ⟨rfl, rfl⟩, rfl, rfl⟩
        exact ⟨hids ▸ hne, out, ⟨hservers.symm, rfl⟩, hids⟩
      · rintro ⟨-, _, ⟨rfl, rfl⟩, rfl⟩
        exact ⟨book₂, chat, ⟨rfl, rfl⟩, hservers, hids⟩

/-- Importing again adds no server, and resolves every entry as before. -/
def Repeats (parse : JsString → Option JsValue) (jsonStr : JsString) (book : Book) (chat : JsChat)
    (fresh : Nat → JsString) (rand : App.ChatRandom) : Prop :=
  ∃ book' chat', book.importChat parse jsonStr fresh rand = (book', .ok chat') ∧
    book'.servers = book.servers ∧ chat'.serverIds = chat.serverIds

/-- Two entries with the same token whose URLs differ by a slash at the end. -/
def SlashApart (s t : JsValue) : Prop :=
  ∃ u a b, s.property "url" = some (.string u) ∧ t.property "url" = some (.string (u ++ [0x2F])) ∧
    s.property "token" = some a ∧ t.property "token" = some b ∧ a.strictEq b = true

/-- Entries that differ by such a slash are resolved to the same server. -/
def Merges (entries : List JsValue) (serverIds : List JsString) : Prop :=
  ∀ p ∈ entries.zip serverIds, ∀ q ∈ entries.zip serverIds, SlashApart p.1 q.1 → p.2 = q.2

/-- The URL has no slash at the end, and the token is neither an array nor an object. -/
def Plain (s : JsValue) : Prop :=
  ∃ u t, s.property "url" = some (.string u) ∧ App.stripSlash u = u ∧ s.property "token" = some t ∧
    t.isPrimitive = true

/-- A server that is added for a plain entry answers it. -/
theorem Plain.answers {id : JsString} {s : JsValue} {server : JsServer} (h : Plain s)
    (hserver : serverFor id s = some server) : server.answers s = true := by
  obtain ⟨u, t, hurl, hstrip, htoken, hprimitive⟩ := h
  obtain ⟨u', t', hurl', htoken', -, -, rfl⟩ := serverFor_eq_some.mp hserver
  obtain rfl : u = u' := by simpa [hurl] using hurl'
  obtain rfl : t = t' := by simpa [htoken] using htoken'
  exact answers_iff.mpr ⟨by rw [hurl, hstrip], htoken, hprimitive⟩

/-- An entry that is answered by a server added for it, or for one like it, is plain. -/
theorem Plain.of_answers {id : JsString} {s s' : JsValue} {server : JsServer}
    (hserver : serverFor id s' = some server) (h' : server.answers s' = true)
    (h : server.answers s = true) : Plain s := by
  obtain ⟨u, t, hurl, htoken, -, -, rfl⟩ := serverFor_eq_some.mp hserver
  obtain ⟨hurl', -, -⟩ := answers_iff.mp h'
  obtain ⟨hurl'', htoken'', hprimitive⟩ := answers_iff.mp h
  have hstrip : App.stripSlash u = u := by
    rw [hurl] at hurl'
    simpa using hurl'.symm
  exact ⟨u, t, by rw [hurl'', hstrip], hstrip, htoken'', hprimitive⟩

/-- **An import can be repeated** iff every entry whose URL ends with a slash, or whose token is
    an array or an object, is known at the start, and no two entries with the same token have
    URLs that differ by such a slash. The ids of the servers and the ids that are drawn are
    different from each other. -/
theorem import_again_iff {book₁ : Book} {chat : JsChat} {data : ImportData}
    (hids : (book.servers.map JsServer.id).Nodup) (hfresh : Function.Injective fresh)
    (hnew : ∀ i, fresh i ∉ book.servers.map JsServer.id)
    (hdata : (parse jsonStr).bind requiredFields = some data)
    (haccepted : book.importChat parse jsonStr fresh rand = (book₁, .ok chat)) :
    (Repeats parse jsonStr book₁ chat fresh' rand' ∧ Merges data.servers chat.serverIds) ↔
      (∀ s ∈ data.servers, known JsServer.answers book.servers s = true ∨ Plain s) ∧
        ∀ s ∈ data.servers, ∀ t ∈ data.servers, ¬ SlashApart s t := by
  obtain ⟨hne, out, hresolved, hserverIds⟩ :=
    (importChat_eq_ok hdata).mp ⟨book₁, chat, haccepted, rfl, rfl⟩
  have hnames : (book₁.servers.map JsServer.id).Nodup := by
    have hname : ∀ i s server, serverFor i s = some server → server.id = i := by
      intro i s server hserver
      obtain ⟨_, _, -, -, -, -, rfl⟩ := serverFor_eq_some.mp hserver
      rfl
    have hnodup : ((book.resolved fresh data.servers).1.map JsServer.id).Nodup :=
      nodup_resolveAll hname hids hfresh hnew
    rwa [hresolved] at hnodup
  have hservers := mem_of_resolveAll hresolved
  -- Ids tell the servers apart, so the second import is to give the same servers.
  have hagain : Repeats parse jsonStr book₁ chat fresh' rand' ↔
      book₁.resolved fresh' data.servers = (book₁.servers, some out) := by
    rw [Repeats, importChat_eq_ok hdata]
    constructor
    · rintro ⟨-, out', hresolved', heq⟩
      rw [hresolved', eq_of_map_name_eq hnames hservers (mem_of_resolveAll hresolved')
        (hserverIds.symm.trans heq)]
    · intro hresolved'
      exact ⟨hne, out, hresolved', hserverIds⟩
  have hanswered : (∀ p ∈ data.servers.zip out, p.2.answers p.1 = true) ↔
      ∀ s ∈ data.servers, known JsServer.answers book.servers s = true ∨ Plain s :=
    forall_answers_iff (fun s hs i server => hs.answers) (fun i s s' server => Plain.of_answers)
      hresolved
  rw [hagain, resolveAll_again_iff hresolved, hanswered]
  refine and_congr_right fun hplain => ?_
  constructor
  · intro hmerges s hs t ht hapart
    obtain ⟨r, hr⟩ := exists_mem_zip hresolved hs
    obtain ⟨r', hr'⟩ := exists_mem_zip hresolved ht
    have hid : ∀ {e sv}, (e, sv) ∈ data.servers.zip out →
        (e, sv.id) ∈ data.servers.zip chat.serverIds := by
      intro e sv h
      rw [hserverIds, List.zip_map_right]
      exact List.mem_map_of_mem h
    obtain rfl : r = r' := List.inj_on_of_nodup_map hnames (hservers r (List.of_mem_zip hr).2)
      (hservers r' (List.of_mem_zip hr').2) (hmerges _ (hid hr) _ (hid hr') hapart)
    -- The server would have both URLs.
    have hanswers := hanswered.mpr hplain
    obtain ⟨hurl, -⟩ := answers_iff.mp (hanswers _ hr)
    obtain ⟨hurl', -⟩ := answers_iff.mp (hanswers _ hr')
    obtain ⟨u, a, b, hs, ht, -⟩ := hapart
    rw [hurl] at hs
    rw [hurl'] at ht
    have heq : u = u ++ [0x2F] := by
      rw [Option.some.injEq, JsValue.string.injEq] at hs ht
      exact hs.symm.trans ht
    have hlength := congrArg List.length heq
    rw [List.length_append, List.length_singleton] at hlength
    omega
  · intro hapart p hp q hq h
    exact absurd h (hapart _ (List.of_mem_zip hp).1 _ (List.of_mem_zip hq).1)

end Import

/-! ## Imports to look at -/

namespace Sample

/-- A client without servers and chats. -/
def emptyBook : Book := ⟨[], [], none, none⟩

def knownServer : JsServer := ⟨js "x", js "https://a", .string (js "t"), .string (js "a")⟩

/-- A client with a server. -/
def knownBook : Book := ⟨[knownServer], [], some [knownServer], none⟩

/-- `JSON.parse` on one text. -/
def parseOne (text : String) (v : JsValue) (s : JsString) : Option JsValue :=
  if s = js text then some v else none

/-- The data of a chat with these entries. -/
def importOf (entries : List JsValue) : JsValue :=
  .object [(js "name", .string (js "n")), (js "chatId", .string (js "c")),
    (js "keyB64", .string (js "k")), (js "servers", .array entries)]

/-- An entry with a URL and a token. -/
def entry (url : String) : JsValue :=
  .object [(js "url", .string (js url)), (js "token", .string (js "t"))]

def drawn : App.ChatRandom :=
  ⟨⟨js "0f8fad5b-d9cb-469f-a165-70867728950e", by decide⟩,
    ⟨js "1f8fad5b-d9cb-469f-a165-70867728950e", by decide⟩, zeroKey⟩

/-- A text with a good entry, and one that is `null`. -/
def goodNullText : String :=
  "\x7b\"name\":\"n\",\"chatId\":\"c\",\"keyB64\":\"k\",\"servers\":[" ++
    "\x7b\"url\":\"https://a\",\"token\":\"t\"\x7d,null]\x7d"

/-- A text with two entries, whose URLs have no slash at the end. -/
def plainText : String :=
  "\x7b\"name\":\"n\",\"chatId\":\"c\",\"keyB64\":\"k\",\"servers\":[" ++
    "\x7b\"url\":\"https://a\",\"token\":\"t\"\x7d," ++
    "\x7b\"url\":\"https://b\",\"token\":\"t\"\x7d]\x7d"

/-- A text with two entries, the second one with a slash. -/
def slashText : String :=
  "\x7b\"name\":\"n\",\"chatId\":\"c\",\"keyB64\":\"k\",\"servers\":[" ++
    "\x7b\"url\":\"https://a\",\"token\":\"t\"\x7d," ++
    "\x7b\"url\":\"https://a/\",\"token\":\"t\"\x7d]\x7d"

end Sample

open Sample

/-- The good entry is known, and the first one that is not is `null`. -/
theorem bad_first_entry_leaves_no_trace :
    (knownBook.importChat (parseOne goodNullText (importOf [entry "https://a", .null]))
      (js goodNullText) decimal drawn).1 = knownBook := by
  have hfails : knownBook.importChat (parseOne goodNullText (importOf [entry "https://a", .null]))
      (js goodNullText) decimal drawn = (_, .error .typeError) := rfl
  exact (failed_import_leaves_no_trace_iff hfails).mpr (by decide +kernel)

/-- The server of the good entry stays, in the state and in the storage. -/
theorem good_first_entry_stays :
    let result := emptyBook.importChat (parseOne goodNullText (importOf [entry "https://a", .null]))
      (js goodNullText) decimal drawn
    result.2.toOption.isNone ∧ result.1.servers.map JsServer.url = [js "https://a"] ∧
      (result.1.savedServers.getD []).map JsServer.url = [js "https://a"] := by
  decide +kernel

/-- One entry is known, and a server is added for the other one. -/
theorem plain_import_repeats :
    ∃ book₁ chat,
      knownBook.importChat (parseOne plainText (importOf [entry "https://a", entry "https://b"]))
        (js plainText) decimal drawn = (book₁, .ok chat) ∧
      Repeats (parseOne plainText (importOf [entry "https://a", entry "https://b"])) (js plainText)
        book₁ chat (fun i => decimal (i + 2)) drawn ∧
      Merges [entry "https://a", entry "https://b"] chat.serverIds := by
  have hparse : parseOne plainText (importOf [entry "https://a", entry "https://b"]) (js plainText) =
      some (importOf [entry "https://a", entry "https://b"]) := if_pos rfl
  have hdata : (parseOne plainText (importOf [entry "https://a", entry "https://b"])
      (js plainText)).bind requiredFields = some ⟨.string (js "n"), .string (js "c"), .string (js "k"),
        [entry "https://a", entry "https://b"]⟩ := by
    rw [hparse]
    rfl
  have hok : (knownBook.importChat
      (parseOne plainText (importOf [entry "https://a", entry "https://b"])) (js plainText) decimal
        drawn).2.toOption.isSome = true := by decide +kernel
  rcases haccepted : knownBook.importChat
      (parseOne plainText (importOf [entry "https://a", entry "https://b"])) (js plainText) decimal
        drawn with ⟨book₁, e | chat⟩
  · rw [haccepted] at hok
    cases hok
  have hnew : ∀ i, decimal i ∉ knownBook.servers.map JsServer.id := by
    intro i hmem
    -- `x` is no digit.
    have hx := ascii_decimal i 0x78 (by rw [List.mem_singleton.mp hmem]; decide)
    exact absurd hx.2 (by decide)
  refine ⟨book₁, chat, rfl, (import_again_iff ?_ decimal_injective hnew hdata haccepted).mpr ⟨?_, ?_⟩⟩
  · decide
  · simp only [List.forall_mem_cons, List.not_mem_nil, false_imp_iff, implies_true, and_true]
    exact ⟨.inl (by decide +kernel), .inr ⟨js "https://b", .string (js "t"), rfl, by decide, rfl, rfl⟩⟩
  · have hslash : ∀ s ∈ [entry "https://a", entry "https://b"],
        ∀ u, s.property "url" = some (.string u) → u.getLast? ≠ some 0x2F := by
      simp only [List.forall_mem_cons, List.not_mem_nil, false_imp_iff, implies_true, and_true]
      refine ⟨fun u hu => ?_, fun u hu => ?_⟩
      · rw [← JsValue.string.inj (Option.some.inj hu)]
        decide
      · rw [← JsValue.string.inj (Option.some.inj hu)]
        decide
    rintro s - t ht ⟨u, a, b, -, hurl, -⟩
    exact hslash t ht _ hurl List.getLast?_concat

/-- The entry with the slash is added beside the other one, and again with the next import. -/
theorem slash_entry_is_added_again :
    let data := importOf [entry "https://a", entry "https://a/"]
    let first := emptyBook.importChat (parseOne slashText data) (js slashText) decimal drawn
    let second := first.1.importChat (parseOne slashText data) (js slashText)
      (fun i => decimal (i + 2)) drawn
    first.1.servers.map JsServer.url = [js "https://a", js "https://a"] ∧
      first.2.toOption.map JsChat.serverIds = some [js "0", js "1"] ∧
      second.1.servers.map JsServer.url = [js "https://a", js "https://a", js "https://a"] ∧
      second.2.toOption.map JsChat.serverIds = some [js "0", js "3"] := by
  decide +kernel

end Frag
