import Alpine.Lib.JsonFront
import Alpine.RestBridge.JsonReader

/-!
# JSON-RPC

`handleRpc` answers a request with a result or an error that it puts together from strings. Of such
a response the members in front of the id are those that were meant if the texts between their
quotes are (`read_front`), an error has the code it was given (`code_of_parse`), and an id that was
put between quotes as it is comes back only if it needs no escaping (`plain_of_parse`).
-/

namespace Alpine

open Lib TextReader Expect

/-- The handlers behind the methods: whether one succeeds, and its result. -/
structure RpcServer where
  moduleRegistrationEnabled : Bool
  handler : List UInt8 → List UInt8 → Bool × List UInt8

namespace JsonRpcHandler

def escapeByte (c : UInt8) : List UInt8 :=
  if c = byte '"' then utf8 ['\\', '"']
  else if c = byte '\\' then utf8 ['\\', '\\']
  else if c = byte '\n' then utf8 ['\\', 'n']
  else if c = byte '\r' then utf8 ['\\', 'r']
  else if c = byte '\t' then utf8 ['\\', 't']
  else [c]

def escapeJsonRpc (s : List UInt8) : List UInt8 := s.flatMap escapeByte

def JSONRPC_PARSE_ERROR : Int := -32700

def JSONRPC_INVALID_REQUEST : Int := -32600

def JSONRPC_METHOD_NOT_FOUND : Int := -32601

def JSONRPC_INTERNAL_ERROR : Int := -32603

/-- `std::to_string` of a number. -/
def toText (n : Int) : List Char :=
  if n < 0 then '-' :: Nat.toDigits 10 n.natAbs else Nat.toDigits 10 n.natAbs

def jsonRpcError (code : Int) (message id data : List UInt8) : List UInt8 :=
  utf8 "\x7b\"jsonrpc\":\"2.0\",\"error\":\x7b\"code\":".toList ++ utf8 (toText code) ++
    utf8 ",\"message\":\"".toList ++ escapeJsonRpc message ++ utf8 "\"".toList ++
    (if data = [] then [] else utf8 ",\"data\":\"".toList ++ escapeJsonRpc data ++ utf8 "\"".toList) ++
    utf8 "\x7d,\"id\":".toList ++ id ++ utf8 "\x7d".toList

def jsonRpcResult (resultJson id : List UInt8) : List UInt8 :=
  utf8 "\x7b\"jsonrpc\":\"2.0\",\"result\":".toList ++ resultJson ++ utf8 ",\"id\":".toList ++ id ++
    utf8 "\x7d".toList

/-- The names in the table of methods. -/
def methodNames (moduleRegistrationEnabled : Bool) : List String :=
  ["startQuery", "queryInProgress", "getQueryStatus", "pauseQuery", "resumeQuery", "cancelQuery",
    "getQueryResults", "getAllPeers", "getPeer", "addPeer", "getPeerId", "activatePeer",
    "deactivatePeer", "pingPeer", "excludeHost", "excludeSubnet", "allowHost", "allowSubnet",
    "listExcludedHosts", "listExcludedSubnets", "createGroup", "deleteGroup", "listGroups",
    "getGroupInfo", "getDefaultGroupInfo", "getGroupPeerList", "addPeerToGroup",
    "removePeerFromGroup"] ++
  (if moduleRegistrationEnabled then ["registerModule"] else []) ++
  ["unregisterModule", "loadModule", "unloadModule", "listActiveModules", "listAllModules",
    "getModuleInfo", "getStatus"]

def methodTable (server : RpcServer) : List (List UInt8) :=
  (methodNames server.moduleRegistrationEnabled).map fun name => utf8 name.toList

/-- The id as it is put into the response: a number first, else a string. -/
def idText (reader : JsonReader) : List UInt8 :=
  match reader.getUlong "id".toList with
  | some idNum => utf8 (Nat.toDigits 10 idNum)
  | none =>
    match reader.getString "id".toList with
    | some idStr => utf8 "\"".toList ++ idStr ++ utf8 "\"".toList
    | none => utf8 "null".toList

/-- `none` is an exception that leaves the handler. -/
def handleRpc (library : JsonLibrary) (server : RpcServer) (body : List UInt8) :
    Option (List UInt8) :=
  if body = [] then
    some (jsonRpcError JSONRPC_PARSE_ERROR (utf8 "Parse error".toList) (utf8 "null".toList) [])
  else do
    let reader ← JsonReader.new library body
    let version := (reader.getString "jsonrpc".toList).getD []
    if version ≠ utf8 "2.0".toList then
      some (jsonRpcError JSONRPC_INVALID_REQUEST (utf8 "Invalid Request".toList)
        (utf8 "null".toList) [])
    else
      match reader.getString "method".toList with
      | none =>
        some (jsonRpcError JSONRPC_INVALID_REQUEST (utf8 "Invalid Request".toList)
          (utf8 "null".toList) (utf8 "Missing 'method' field".toList))
      | some method =>
        if method ∉ methodTable server then
          some (jsonRpcError JSONRPC_METHOD_NOT_FOUND (utf8 "Method not found".toList)
            (idText reader) method)
        else
          let (ok, result) := server.handler method body
          if ¬ ok then
            some (jsonRpcError JSONRPC_INTERNAL_ERROR (utf8 "Internal error".toList)
              (idText reader)
              (utf8 "Method '".toList ++ method ++ utf8 "' execution failed".toList))
          else some (jsonRpcResult result (idText reader))

/-! ## Escaping -/

def escapeChar (c : Char) : List Char :=
  if c = '"' then ['\\', '"']
  else if c = '\\' then ['\\', '\\']
  else if c = '\n' then ['\\', 'n']
  else if c = '\r' then ['\\', 'r']
  else if c = '\t' then ['\\', 't']
  else [c]

/-- The characters that are read as they were before they were escaped. -/
def Sayable (c : Char) : Prop := 0x20 ≤ c.toNat ∨ c = '\n' ∨ c = '\r' ∨ c = '\t'

instance (c : Char) : Decidable (Sayable c) := inferInstanceAs (Decidable (_ ∨ _))

/-- A fixed text is tested character by character. -/
theorem sayable_of_all {s : List Char} (h : s.all (fun c => decide (Sayable c)) = true) :
    ∀ c ∈ s, Sayable c :=
  fun c hc => of_decide_eq_true (List.all_eq_true.mp h c hc)

theorem escapeByte_low :
    ∀ c : Char, c.toNat ≤ 0x7f → escapeByte (byte c) = utf8 (escapeChar c) :=
  low_of_all (by decide +kernel)

theorem escapeByte_high : ∀ b : UInt8, 0x80 ≤ b.toNat → escapeByte b = [b] :=
  high_of_all (by decide +kernel)

theorem escapeChar_high (c : Char) (h : 0x7f < c.toNat) : escapeChar c = [c] := by
  have hne : ∀ d : Char, d.toNat ≤ 0x7f → c ≠ d := by
    rintro d hd rfl
    omega
  unfold escapeChar
  rw [if_neg (hne '"' (by decide)), if_neg (hne '\\' (by decide)), if_neg (hne '\n' (by decide)),
    if_neg (hne '\r' (by decide)), if_neg (hne '\t' (by decide))]

theorem escapeJsonRpc_utf8 (s : List Char) :
    escapeJsonRpc (utf8 s) = utf8 (s.flatMap escapeChar) :=
  flatMap_utf8 escapeByte_low escapeByte_high escapeChar_high s

theorem escapeChar_cases (c : Char) :
    (∃ e, escaped e = some c ∧ escapeChar c = ['\\', e] ∧ Sayable c) ∨
      (c ≠ '"' ∧ c ≠ '\\' ∧ escapeChar c = [c] ∧ (Sayable c → 0x20 ≤ c.toNat)) := by
  unfold escapeChar
  by_cases hquote : c = '"'
  · exact .inl ⟨'"', by rw [hquote]; rfl, by rw [if_pos hquote], by rw [hquote]; decide⟩
  by_cases hslash : c = '\\'
  · exact .inl ⟨'\\', by rw [hslash]; rfl, by rw [if_neg hquote, if_pos hslash],
      by rw [hslash]; decide⟩
  by_cases hline : c = '\n'
  · exact .inl ⟨'n', by rw [hline]; rfl, by rw [if_neg hquote, if_neg hslash, if_pos hline],
      .inr (.inl hline)⟩
  by_cases hreturn : c = '\r'
  · exact .inl ⟨'r', by rw [hreturn]; rfl,
      by rw [if_neg hquote, if_neg hslash, if_neg hline, if_pos hreturn], .inr (.inr (.inl hreturn))⟩
  by_cases htab : c = '\t'
  · exact .inl ⟨'t', by rw [htab]; rfl,
      by rw [if_neg hquote, if_neg hslash, if_neg hline, if_neg hreturn, if_pos htab],
      .inr (.inr (.inr htab))⟩
  refine .inr ⟨hquote, hslash, ?_, fun h => ?_⟩
  · rw [if_neg hquote, if_neg hslash, if_neg hline, if_neg hreturn, if_neg htab]
  · rcases h with h | h | h | h
    · exact h
    · exact absurd h hline
    · exact absurd h hreturn
    · exact absurd h htab

theorem spells_escapeChar {c : Char} (h : Sayable c) : Spells (escapeChar c) c := by
  rcases escapeChar_cases c with ⟨e, he, heq, -⟩ | ⟨hquote, hslash, heq, hlow⟩
  · rw [heq]
    exact spells_escaped he
  · rw [heq]
    exact spells_plain (isPlain_iff.mpr ⟨hquote, hslash, hlow h⟩)

theorem unquoted_escapeChar (c : Char) : unquoted false (escapeChar c) = some false := by
  rcases escapeChar_cases c with ⟨e, he, heq, -⟩ | ⟨hquote, hslash, heq, -⟩
  · rw [heq]
    exact (spells_escaped he).unquoted
  · rw [heq]
    unfold unquoted unquoted
    rw [if_neg hquote, decide_eq_false hslash]

/-- Escaping leaves no quote that ends the string. -/
theorem unquoted_escapeJsonRpc (s : List Char) :
    unquoted false (s.flatMap escapeChar) = some false := by
  induction s with
  | nil => rfl
  | cons c s ih =>
    rw [List.flatMap_cons, unquoted_append, unquoted_escapeChar]
    exact ih

theorem unescape_escapeJsonRpc {s : List Char} (h : ∀ c ∈ s, Sayable c) :
    unescape (s.flatMap escapeChar) = some s :=
  unescape_flatMap fun c hc => spells_escapeChar (h c hc)

/-- Other control characters stay as they are, which no string may have. -/
theorem unescape_escapeJsonRpc_none {s : List Char} (h : ¬ ∀ c ∈ s, Sayable c) :
    unescape (s.flatMap escapeChar) = none := by
  induction s with
  | nil => exact absurd (fun c hc => by cases hc) h
  | cons c s ih =>
    rw [List.flatMap_cons]
    by_cases hc : Sayable c
    · have hs : ¬ ∀ d ∈ s, Sayable d := by
        intro hall
        refine h fun d hd => ?_
        rcases List.mem_cons.mp hd with rfl | hd
        · exact hc
        · exact hall d hd
      rw [(spells_escapeChar hc).unescaped, ih hs]
      rfl
    · rcases escapeChar_cases c with ⟨-, -, -, hsay⟩ | ⟨-, hslash, heq, -⟩
      · exact absurd hsay hc
      · have hplain : ¬ isPlain c = true := by
          rw [isPlain_iff]
          rintro ⟨-, -, hlow⟩
          exact hc (.inl hlow)
        unfold unescape
        rw [heq, List.singleton_append, readUnits_not_plain hslash hplain]
        rfl

/-! ## The texts of a response -/

def version : List Char × Json := ("jsonrpc".toList, .str "2.0".toList)

def versionText : List Char := "\"jsonrpc\":\"2.0\"".toList

/-- A response up to its id, with the text of the member before it. -/
def frontText (outcomeText : List Char) : List Char :=
  '{' :: (versionText ++ ',' :: (outcomeText ++ ',' :: '"' :: ("id".toList ++ ['"', ':'])))

def codeJson (code : Int) : Json := .num ⟨code < 0, code.natAbs, [], none⟩

def codes : List Int :=
  [JSONRPC_PARSE_ERROR, JSONRPC_INVALID_REQUEST, JSONRPC_METHOD_NOT_FOUND, JSONRPC_INTERNAL_ERROR]

def messageMember (message : List Char) : List Char :=
  "\"message\":\"".toList ++ (message.flatMap escapeChar ++ ['"'])

def dataMember (data : List Char) : List Char :=
  "\"data\":\"".toList ++ (data.flatMap escapeChar ++ ['"'])

def errorText (code : Int) (message data : List Char) : List Char :=
  "\"error\":\x7b".toList ++ ([','].intercalate
    (("\"code\":".toList ++ toText code) :: messageMember message ::
      if data = [] then [] else [dataMember data]) ++ ['}'])

def errorJson (code : Int) (message data : List Char) : List Char × Json :=
  ("error".toList, .object (("code".toList, codeJson code) :: ("message".toList, .str message) ::
    if data = [] then [] else [("data".toList, .str data)]))

def resultText (resultJson : List Char) : List Char := "\"result\":".toList ++ resultJson

theorem jsonRpcError_eq (code : Int) (message data : List Char) (id : List UInt8) :
    jsonRpcError code (utf8 message) id (utf8 data) =
      utf8 (frontText (errorText code message data)) ++ (id ++ utf8 ['}']) := by
  unfold jsonRpcError frontText errorText messageMember dataMember versionText
  rw [escapeJsonRpc_utf8, escapeJsonRpc_utf8]
  by_cases hdata : data = []
  · subst hdata
    simp [utf8_append, utf8_cons, List.intercalate]
  · have hne : utf8 data ≠ [] := fun h => hdata (utf8_injective h)
    simp [utf8_append, utf8_cons, List.intercalate, hdata, hne]

theorem jsonRpcResult_eq (resultJson : List Char) (id : List UInt8) :
    jsonRpcResult (utf8 resultJson) id =
      utf8 (frontText (resultText resultJson)) ++ (id ++ utf8 ['}']) := by
  unfold jsonRpcResult frontText resultText versionText
  simp [utf8_append, utf8_cons]

/-! ## How they are read -/

theorem readsMember_version : ReadsMember versionText version :=
  readsMember_plain "jsonrpc".toList (by decide) (reads_plain "2.0".toList (by decide))

theorem reads_code {code : Int} (h : code ∈ codes) : Reads (toText code) (codeJson code) := by
  intro stack
  have hbare : ∀ raw : List Char, raw ≠ [] → (∀ c ∈ raw, isBare c = true) →
      readBare raw = some (.num ⟨code < 0, code.natAbs, [], none⟩) → toText code = raw →
      ∃ r, (next (.value stack)).read (toText code) = some r ∧
        Same r (next (deliver (codeJson code) stack)) := by
    intro raw hne hraw hread heq
    rw [heq]
    exact next_bare hne hraw hread rfl
  unfold codes at h
  simp only [List.mem_cons, List.not_mem_nil, or_false] at h
  rcases h with rfl | rfl | rfl | rfl
  · exact hbare ['-', '3', '2', '7', '0', '0'] (by decide) (List.all_eq_true.mp rfl) rfl (by decide)
  · exact hbare ['-', '3', '2', '6', '0', '0'] (by decide) (List.all_eq_true.mp rfl) rfl (by decide)
  · exact hbare ['-', '3', '2', '6', '0', '1'] (by decide) (List.all_eq_true.mp rfl) rfl (by decide)
  · exact hbare ['-', '3', '2', '6', '0', '3'] (by decide) (List.all_eq_true.mp rfl) rfl (by decide)

theorem reads_escaped {s : List Char} (h : ∀ c ∈ s, Sayable c) :
    Reads ('"' :: (s.flatMap escapeChar ++ ['"'])) (.str s) :=
  reads_string (unquoted_escapeJsonRpc s) (unescape_escapeJsonRpc h)

theorem readsMember_message {message : List Char} (h : ∀ c ∈ message, Sayable c) :
    ReadsMember (messageMember message) ("message".toList, .str message) :=
  readsMember_plain "message".toList (by decide) (reads_escaped h)

theorem readsMember_code {code : Int} (h : code ∈ codes) :
    ReadsMember ("\"code\":".toList ++ toText code) ("code".toList, codeJson code) :=
  readsMember_plain "code".toList (by decide) (reads_code h)

theorem readsMember_error {code : Int} {message data : List Char} (hcode : code ∈ codes)
    (hmessage : ∀ c ∈ message, Sayable c) (hdata : ∀ c ∈ data, Sayable c) :
    ReadsMember (errorText code message data) (errorJson code message data) := by
  refine readsMember_plain "error".toList (by decide) (reads_object ?_)
  refine .cons (readsMember_code hcode) (.cons (readsMember_message hmessage) ?_)
  by_cases h : data = []
  · rw [if_pos h, if_pos h]
    exact .nil
  · rw [if_neg h, if_neg h]
    exact .cons (readsMember_plain "data".toList (by decide) (reads_escaped hdata)) .nil

theorem readsMember_result {resultJson : List Char} {v : Json} (h : parse resultJson = some v) :
    ReadsMember (resultText resultJson) ("result".toList, v) :=
  readsMember_plain "result".toList (by decide) (reads_iff.mpr h)

variable {outcomeText : List Char} {outcome : List Char × Json}

/-- What is read up to the id. -/
theorem read_front (h : ReadsMember outcomeText outcome) :
    (next (.value [])).read (frontText outcomeText) =
      some (next (.value [.object [version, outcome] "id".toList])) := by
  unfold frontText
  rw [next_beginObject, readsMember_version.read _ _ (by decide), next_comma]
  rw [h.read _ _ (by decide), next_comma, next_name _ (by decide), read_nil]
  rfl

theorem parse_front {id : List Char} {v : Json} (h : ReadsMember outcomeText outcome)
    (hid : Reads id v) : parse (frontText outcomeText ++ (id ++ ['}'])) =
      some (.object [version, outcome, ("id".toList, v)]) := by
  unfold parse
  rw [read_append, read_front h, Option.bind_some, hid.read _ (by decide), next_punctuation rfl]
  rfl

theorem front_of_parse {rest : List Char} {doc : Json} (h : ReadsMember outcomeText outcome)
    (hparse : parse (frontText outcomeText ++ rest) = some doc) :
    ∃ more, doc = .object ([version, outcome] ++ more) := by
  unfold parse at hparse
  rw [read_append, read_front h, Option.bind_some] at hparse
  exact front_of_read (List.cons_ne_nil _ _) hparse (List.prefix_refl _)

/-- An id that is put between quotes as it is comes back only if it needs no escaping. -/
theorem plain_of_parse {id s : List Char} {m₁ m₂ : List Char × Json}
    (h : ReadsMember outcomeText outcome) (hpre : id <+: s)
    (hparse : parse (frontText outcomeText ++ ('"' :: (id ++ ['"', '}']))) =
      some (.object [m₁, m₂, ("id".toList, .str s)])) :
    id = s ∧ s.all isPlain = true := by
  unfold parse at hparse
  rw [read_append, read_front h, Option.bind_some] at hparse
  have hopen : (next (.value [.object [version, outcome] "id".toList])).feed '"' =
      some ⟨.string [] false, .value [.object [version, outcome] "id".toList]⟩ := rfl
  rw [read_cons, hopen, Option.bind_some] at hparse
  obtain ⟨r, hread, hclose⟩ := Option.bind_eq_some_iff.mp hparse
  rcases read_open_string hread with ⟨raw, escape, rfl⟩ | ⟨inner, rest, v, e, hsplit, hv, he, hrest⟩
  · cases hclose
  · cases he
    replace hrest : (next (.afterMember [version, outcome, ("id".toList, .str v)] [])).read rest =
        some r := hrest
    have hthird : ∃ more, Json.object [m₁, m₂, ("id".toList, .str s)] =
        .object ([version, outcome, ("id".toList, .str v)] ++ more) := by
      have hdoc : ((next (.afterMember [version, outcome, ("id".toList, .str v)] [])).read rest).bind
          close = some (.object [m₁, m₂, ("id".toList, .str s)]) := by
        rw [hrest]
        exact hclose
      exact front_of_read (List.cons_ne_nil _ _) hdoc (List.prefix_refl _)
    obtain ⟨more, hmore⟩ := hthird
    obtain rfl : s = v := by
      injection hmore with hmore
      injection hmore with _ hmore
      injection hmore with _ hmore
      injection hmore with hmore _
      injection hmore with _ hmore
      injection hmore
    -- the string ends at the quote that was put behind the id
    have hne : rest ≠ [] := by
      rintro rfl
      have hlast := congrArg List.getLast? hsplit
      rw [List.getLast?_append, List.getLast?_append] at hlast
      cases hlast
    obtain ⟨hle, heq⟩ := length_unescape hv
    rw [List.nil_append] at hle heq
    have hlen := congrArg List.length hsplit
    have hpos := List.length_pos_of_ne_nil hne
    have hid := hpre.length_le
    simp only [List.length_append, List.length_cons, List.length_nil] at hlen
    obtain ⟨hall, hsame⟩ := heq (by omega)
    rw [← hsame] at hall
    exact ⟨hpre.eq_of_length (by omega), hall⟩

/-- The start of an error, up to its code. -/
def errorStart (code : Int) : List Char :=
  '{' :: (versionText ++ ',' :: '"' :: ("error".toList ++ '"' :: ':' :: '{' ::
    (("\"code\":".toList ++ toText code) ++ [','])))

theorem read_errorStart {code : Int} (hcode : code ∈ codes) (rest : List Char) :
    (next (.value [])).read (errorStart code ++ rest) =
      (next (.member [("code".toList, codeJson code)] [.object [version] "error".toList])).read
        rest := by
  have hsplit : errorStart code ++ rest = '{' :: (versionText ++ ',' :: '"' :: ("error".toList ++
      '"' :: ':' :: '{' :: (("\"code\":".toList ++ toText code) ++ ',' :: rest))) := by
    simp only [errorStart, List.cons_append, List.append_assoc, List.nil_append]
  rw [hsplit, next_beginObject, readsMember_version.read _ _ (by decide), next_comma,
    next_name _ (by decide), next_beginObject, (readsMember_code hcode).read _ _ (by decide),
    next_comma]
  rfl

/-- An error has its code, whatever comes behind it. -/
theorem code_of_parse {code : Int} (hcode : code ∈ codes) {rest : List Char} {doc : Json}
    (h : parse (errorStart code ++ rest) = some doc) :
    ∃ inner more, doc = .object ([version] ++ ("error".toList,
      Json.object ([("code".toList, codeJson code)] ++ inner)) :: more) := by
  unfold parse at h
  rw [read_errorStart hcode] at h
  refine inner_of_read (List.cons_ne_nil _ _) h (.inl ⟨.member [_] [], ?_, List.prefix_refl _, rfl⟩)
  intro v hv
  cases hv

/-- An error whose data have another control character is no document. -/
theorem parse_data_none {code : Int} {message data rest : List Char} (hcode : code ∈ codes)
    (hmessage : ∀ c ∈ message, Sayable c) (hdata : ¬ ∀ c ∈ data, Sayable c) :
    parse (errorStart code ++ (messageMember message ++ ',' ::
      ('"' :: ("data".toList ++ '"' :: ':' :: '"' :: (data.flatMap escapeChar ++ '"' :: rest))))) =
        none := by
  unfold parse
  rw [read_errorStart hcode, (readsMember_message hmessage).read _ _ (by decide),
    next_comma, next_name _ (by decide),
    next_string_none (unquoted_escapeJsonRpc data) (unescape_escapeJsonRpc_none hdata)]
  rfl

end JsonRpcHandler

end Alpine
