import Alpine.RestBridge.JsonRpcHandler

/-!
# The answers to JSON-RPC requests

`Answers` says what a response has to be: one document with exactly the members `jsonrpc`, `result`
or `error`, and `id`, where the id is that of the request, and a request that is no JSON has the
code of a parse error. `Answerable` is the exact condition on the request for that
(`handleRpc_answers_iff`).
-/

namespace Alpine

open Lib

/-- A handler that succeeds has a document as its result. -/
def RpcServer.Valid (server : RpcServer) : Prop :=
  ∀ method body result, server.handler method body = (true, result) →
    ∃ text v, utf8 text = result ∧ parse text = some v

namespace JsonRpcHandler

/-- The id of a request; `null` if it has none that is a number, a string or `null`. -/
def requestId (text : List Char) : Json :=
  match parse text with
  | some (.object members) =>
    match JsonReader.find members "id".toList with
    | some (.num n) => .num n
    | some (.str s) => .str s
    | _ => .null
  | _ => .null

def IsError (code : Int) (outcome : List Char × Json) : Prop :=
  ∃ message data, outcome = errorJson code message data

/-- The member is the result of a handler. -/
def IsResult (server : RpcServer) (body : List UInt8) (outcome : List Char × Json) : Prop :=
  ∃ method text v, server.handler method body = (true, utf8 text) ∧ parse text = some v ∧
    outcome = ("result".toList, v)

/-- What a response has to be; `none` is an exception. -/
def Answers (server : RpcServer) (text : List Char) (response : Option (List UInt8)) : Prop :=
  ∃ answer outcome, response = some (utf8 answer) ∧
    parse answer = some (.object [version, outcome, ("id".toList, requestId text)]) ∧
    (IsResult server (utf8 text) outcome ∨ ∃ code, IsError code outcome) ∧
    (parse text = none → IsError JSONRPC_PARSE_ERROR outcome)

/-- The method, if the request is one. -/
def requestMethod (reader : JsonReader) : Option (List UInt8) :=
  if (reader.getString "jsonrpc".toList).getD [] = utf8 "2.0".toList then
    reader.getString "method".toList
  else none

/-- The ids that come back as they are. -/
def Echoed : Json → Prop
  | .num n => JsonReader.isUnsigned n = true
  | .str s => s.all isPlain = true ∧ (utf8 s).length ≤ JsonReader.MAX_STRING_LENGTH
  | _ => True

/-- A name that can be given back: it is not cut inside a character, and has no control characters
but those that are escaped. -/
def Speakable (method : List UInt8) : Prop := ∃ s, utf8 s = method ∧ ∀ c ∈ s, Sayable c

/-- The requests that are answered: an empty one; one that is no call, without an id; and a call
with an id that comes back, of a method that is there or can be given back. -/
def Answerable (library : JsonLibrary) (server : RpcServer) (text : List Char) : Prop :=
  text = [] ∨ ∃ reader, (parse text).isSome = true ∧
    JsonReader.new library (utf8 text) = some reader ∧
    match requestMethod reader with
    | none => requestId text = .null
    | some method =>
      Echoed (requestId text) ∧ (method ∉ methodTable server → Speakable method)

/-! ## What is read of a request -/

variable {library : JsonLibrary} {server : RpcServer} {text : List Char} {reader : JsonReader}
  {members : List (List Char × Json)}

/-- The members that the reader has are those of the document. -/
theorem parse_of_doc (hl : library.Lawful) {doc : Json} (hparse : parse text = some doc)
    (hnew : JsonReader.new library (utf8 text) = some reader) (hdoc : reader.doc = some members) :
    doc = .object members := by
  unfold JsonReader.new at hnew
  split at hnew
  · cases hnew
    cases hdoc
  · cases hfits : (numbers doc).all library.fits with
    | false =>
      rw [hl.overflows text doc hparse hfits] at hnew
      cases hnew
    | true =>
      rw [hl.reads text doc hparse hfits] at hnew
      cases doc with
      | object members' =>
        dsimp only at hnew
        split at hnew
        · cases hnew
          cases hdoc
          rfl
        · cases hnew
          cases hdoc
      | _ =>
        cases hnew
        cases hdoc

theorem getString_take {key : List Char} {bytes : List UInt8}
    (h : reader.getString key = some bytes) :
    (∃ members, reader.doc = some members) ∧
      ∃ s, bytes = (utf8 s).take JsonReader.MAX_STRING_LENGTH := by
  obtain ⟨members, hdoc, h⟩ := Option.bind_eq_some_iff.mp h
  refine ⟨⟨members, hdoc⟩, ?_⟩
  split at h
  · next s _ => exact ⟨s, (Option.some.inj h).symm⟩
  · cases h

theorem requestMethod_take {method : List UInt8} (h : requestMethod reader = some method) :
    (∃ members, reader.doc = some members) ∧
      ∃ s, method = (utf8 s).take JsonReader.MAX_STRING_LENGTH := by
  unfold requestMethod at h
  split at h
  · exact getString_take h
  · cases h

theorem idText_eq (hdoc : reader.doc = some members) :
    idText reader = match JsonReader.find members "id".toList with
      | some (.num n) =>
        if JsonReader.isUnsigned n then utf8 (Nat.toDigits 10 n.integer) else utf8 "null".toList
      | some (.str s) =>
        utf8 "\"".toList ++ (utf8 s).take JsonReader.MAX_STRING_LENGTH ++ utf8 "\"".toList
      | _ => utf8 "null".toList := by
  unfold idText JsonReader.getUlong JsonReader.getString
  rw [hdoc, Option.bind_eq_bind, Option.bind_some, Option.bind_eq_bind, Option.bind_some]
  generalize JsonReader.find members "id".toList = member
  cases member with
  | none => rfl
  | some v =>
    cases v with
    | num n =>
      dsimp only
      by_cases hn : JsonReader.isUnsigned n = true
      · rw [if_pos hn, if_pos hn]
      · rw [if_neg hn, if_neg hn]
    | _ => rfl

/-! ## Responses -/

theorem reads_null : Reads "null".toList .null :=
  reads_literal (by decide) (List.all_eq_true.mp rfl) rfl

theorem answers_front {outcomeText : List Char} {outcome : List Char × Json} {id : List Char}
    {v : Json} (ho : ReadsMember outcomeText outcome) (hid : Reads id v)
    (hkind : IsResult server (utf8 text) outcome ∨ ∃ code, IsError code outcome)
    (hjson : parse text = none → IsError JSONRPC_PARSE_ERROR outcome) :
    Answers server text (some (utf8 (frontText outcomeText) ++ (utf8 id ++ utf8 ['}']))) ↔
      requestId text = v := by
  have hbytes : utf8 (frontText outcomeText) ++ (utf8 id ++ utf8 ['}']) =
      utf8 (frontText outcomeText ++ (id ++ ['}'])) := by
    rw [utf8_append, utf8_append]
  have hparse := parse_front ho hid
  rw [hbytes]
  constructor
  · rintro ⟨answer, outcome', hanswer, hdoc, -⟩
    rw [← utf8_injective (Option.some.inj hanswer), hparse] at hdoc
    injection hdoc with hdoc
    injection hdoc with hdoc
    injection hdoc with _ hdoc
    injection hdoc with _ hdoc
    injection hdoc with hdoc _
    injection hdoc with _ hdoc
    exact hdoc.symm
  · rintro rfl
    exact ⟨_, outcome, rfl, hparse, hkind, hjson⟩

/-- With the other members as they are meant, the answer depends on the id. -/
theorem answers_iff_echoed {outcomeText : List Char} {outcome : List Char × Json}
    (hparse : parse text = some (.object members)) (hdoc : reader.doc = some members)
    (ho : ReadsMember outcomeText outcome)
    (hkind : IsResult server (utf8 text) outcome ∨ ∃ code, IsError code outcome) :
    Answers server text (some (utf8 (frontText outcomeText) ++ (idText reader ++ utf8 ['}']))) ↔
      Echoed (requestId text) := by
  have hjson : parse text = none → IsError JSONRPC_PARSE_ERROR outcome := by
    intro h
    rw [hparse] at h
    cases h
  have hnull : Answers server text
      (some (utf8 (frontText outcomeText) ++ (utf8 "null".toList ++ utf8 ['}']))) ↔
        requestId text = .null := answers_front ho reads_null hkind hjson
  have hid : requestId text = match JsonReader.find members "id".toList with
      | some (.num n) => .num n
      | some (.str s) => .str s
      | _ => .null := by
    unfold requestId
    rw [hparse]
  rw [idText_eq hdoc, hid]
  rw [hid] at hnull
  cases hfind : JsonReader.find members "id".toList with
  | none =>
    rw [hfind] at hnull
    exact hnull.trans ⟨fun _ => trivial, fun _ => rfl⟩
  | some v =>
    rw [hfind] at hnull hid
    cases v with
    | num n =>
      dsimp only at hnull hid ⊢
      by_cases hn : JsonReader.isUnsigned n = true
      · have hsame : n = JsonNumber.ofNat n.integer := by
          obtain ⟨negative, integer, fraction, exponent⟩ := n
          simp only [JsonReader.isUnsigned, Bool.and_eq_true, Bool.not_eq_true',
            decide_eq_true_eq] at hn
          obtain ⟨⟨⟨rfl, rfl⟩, rfl⟩, -⟩ := hn
          rfl
        rw [if_pos hn, answers_front ho (reads_nat n.integer) hkind hjson, hid, ← hsame]
        exact ⟨fun _ => hn, fun _ => rfl⟩
      · rw [if_neg hn, hnull]
        exact ⟨fun h => (by cases h), fun h => absurd h hn⟩
    | str s =>
      dsimp only at hid ⊢
      constructor
      · rintro ⟨answer, outcome', hanswer, hdoc', -⟩
        rw [hid] at hdoc'
        obtain ⟨rest, rfl, hrest⟩ := utf8_cancel (Option.some.inj hanswer)
        rw [List.append_assoc, List.append_assoc] at hrest
        obtain ⟨rest, rfl, hopened⟩ := utf8_cancel hrest
        have hquoted : (utf8 s).take JsonReader.MAX_STRING_LENGTH ++ byte '"' :: utf8 ['}'] =
            utf8 rest := hopened
        obtain ⟨id, close, rfl, hcut, hclose⟩ := utf8_split (by decide) hquoted
        obtain rfl := utf8_injective hclose
        have hpre : id <+: s := by
          have hwhole : utf8 id ++ (utf8 s).drop JsonReader.MAX_STRING_LENGTH = utf8 s := by
            rw [← hcut, List.take_append_drop]
          exact prefix_of_utf8 hwhole
        obtain ⟨rfl, hall⟩ := plain_of_parse ho hpre hdoc'
        have hlen := congrArg List.length hcut
        rw [List.length_take] at hlen
        exact ⟨hall, by omega⟩
      · rintro ⟨hall, hlen⟩
        rw [List.take_of_length_le hlen]
        have hbytes : utf8 "\"".toList ++ utf8 s ++ utf8 "\"".toList =
            utf8 ('"' :: (s ++ ['"'])) := by
          rw [← utf8_append, ← utf8_append]
          rfl
        rw [hbytes]
        exact (answers_front ho (reads_plain s hall) hkind hjson).mpr hid
    | _ => exact hnull.trans ⟨fun _ => trivial, fun _ => rfl⟩

/-- A method that cannot be given back leaves no document. -/
theorem not_answers_of_unspeakable {message : List Char} {method id : List UInt8} {s : List Char}
    (hmessage : ∀ c ∈ message, Sayable c)
    (hmethod : method = (utf8 s).take JsonReader.MAX_STRING_LENGTH) (h : ¬ Speakable method) :
    ¬ Answers server text
      (some (jsonRpcError JSONRPC_METHOD_NOT_FOUND (utf8 message) id method)) := by
  rintro ⟨answer, outcome, hanswer, hdoc, -⟩
  have hne : method ≠ [] := by
    rintro rfl
    exact h ⟨[], rfl, fun c hc => by cases hc⟩
  have hbytes : jsonRpcError JSONRPC_METHOD_NOT_FOUND (utf8 message) id method =
      utf8 (errorStart JSONRPC_METHOD_NOT_FOUND ++ (messageMember message ++ ',' ::
        ('"' :: ("data".toList ++ ['"', ':', '"'])))) ++
        (escapeJsonRpc method ++ byte '"' :: (utf8 "\x7d,\"id\":".toList ++ id ++ utf8 ['}'])) := by
    unfold jsonRpcError errorStart messageMember versionText
    rw [if_neg hne, escapeJsonRpc_utf8]
    simp [utf8_append, utf8_cons]
    rfl
  rw [hbytes] at hanswer
  obtain ⟨rest, rfl, hrest⟩ := utf8_cancel (Option.some.inj hanswer)
  obtain ⟨data, rest, rfl, hdata, -⟩ := utf8_split (by decide) hrest
  obtain ⟨p, part, htake, hpart⟩ := utf8_take s JsonReader.MAX_STRING_LENGTH
  rw [htake] at hmethod
  have hnil : part = [] := by
    rcases hpart with hpart | ⟨c, hc, hpre, hlt⟩
    · exact hpart
    · -- the bytes of a character that was cut are no text behind another
      by_contra hpart
      have hescape : escapeJsonRpc part = part := by
        have hall : ∀ b ∈ part, escapeByte b = [b] :=
          fun b hb => escapeByte_high b (le_of_mem_high hc (hpre.subset hb))
        unfold escapeJsonRpc
        rw [List.flatMap_congr hall, List.flatMap_singleton']
      have hsplit : utf8 (p.flatMap escapeChar) ++ part = utf8 data := by
        rw [← hdata, hmethod, ← escapeJsonRpc_utf8]
        unfold escapeJsonRpc at hescape ⊢
        rw [List.flatMap_append, hescape]
      obtain ⟨q, -, hq⟩ := utf8_cancel hsplit
      exact not_utf8_part hpart hpre hlt q hq
  rw [hnil, List.append_nil] at hmethod
  have hunsayable : ¬ ∀ c ∈ p, Sayable c := fun hall => h ⟨p, hmethod.symm, hall⟩
  obtain rfl : data = p.flatMap escapeChar := by
    apply utf8_injective
    rw [← hdata, hmethod, escapeJsonRpc_utf8]
  have hnone : parse (errorStart JSONRPC_METHOD_NOT_FOUND ++ (messageMember message ++ ',' ::
      '"' :: ("data".toList ++ '"' :: ':' :: '"' :: (p.flatMap escapeChar ++ '"' :: rest)))) = none :=
    parse_data_none (by decide) hmessage hunsayable
  simp only [List.append_assoc, List.cons_append, List.nil_append] at hdoc hnone
  rw [hnone] at hdoc
  cases hdoc

/-! ## The handler -/

/-- No request but an empty one has the code of a parse error in its answer. -/
theorem not_parseError {code : Int} (hcode : code ∈ codes) (hne : code ≠ JSONRPC_PARSE_ERROR)
    (hnone : parse text = none) (message id data : List UInt8) :
    ¬ Answers server text (some (jsonRpcError code message id data)) := by
  rintro ⟨answer, outcome, hanswer, hdoc, -, hcodes⟩
  obtain ⟨message', data', rfl⟩ := hcodes hnone
  have hbytes : ∃ more, jsonRpcError code message id data = utf8 (errorStart code) ++ more := by
    refine ⟨utf8 "\"message\":\"".toList ++ escapeJsonRpc message ++ utf8 "\"".toList ++
      (if data = [] then []
        else utf8 ",\"data\":\"".toList ++ escapeJsonRpc data ++ utf8 "\"".toList) ++
      utf8 "\x7d,\"id\":".toList ++ id ++ utf8 "\x7d".toList, ?_⟩
    unfold jsonRpcError errorStart versionText
    simp [utf8_append, utf8_cons]
  obtain ⟨more, hmore⟩ := hbytes
  rw [hmore] at hanswer
  obtain ⟨rest, rfl, -⟩ := utf8_cancel (Option.some.inj hanswer)
  obtain ⟨inner, more, hsame⟩ := code_of_parse hcode hdoc
  injection hsame with hsame
  injection hsame with _ hsame
  injection hsame with hsame _
  injection hsame with _ hsame
  injection hsame with hsame
  injection hsame with hsame _
  injection hsame with _ hsame
  injection hsame with hsame
  injection hsame with hsign hvalue
  apply hne
  have hnegative : code < 0 := by
    have := hsign.symm
    exact of_decide_eq_true this
  unfold JSONRPC_PARSE_ERROR at hvalue ⊢
  omega

theorem not_parseError_of_result {resultJson : List Char} {v : Json}
    (hv : parse resultJson = some v) (hnone : parse text = none) (id : List UInt8) :
    ¬ Answers server text (some (jsonRpcResult (utf8 resultJson) id)) := by
  rintro ⟨answer, outcome, hanswer, hdoc, -, hcodes⟩
  obtain ⟨message, data, rfl⟩ := hcodes hnone
  rw [jsonRpcResult_eq] at hanswer
  obtain ⟨rest, rfl, -⟩ := utf8_cancel (Option.some.inj hanswer)
  obtain ⟨more, hsame⟩ := front_of_parse (readsMember_result hv) hdoc
  injection hsame with hsame
  injection hsame with _ hsame
  injection hsame with hsame _
  injection hsame with hname _
  exact absurd hname (by decide)

theorem handleRpc_of_request (hne : text ≠ [])
    (hnew : JsonReader.new library (utf8 text) = some reader) {method : List UInt8}
    (hmethod : requestMethod reader = some method) :
    handleRpc library server (utf8 text) =
      if method ∉ methodTable server then
        some (jsonRpcError JSONRPC_METHOD_NOT_FOUND (utf8 "Method not found".toList)
          (idText reader) method)
      else if ¬ (server.handler method (utf8 text)).1 then
        some (jsonRpcError JSONRPC_INTERNAL_ERROR (utf8 "Internal error".toList) (idText reader)
          (utf8 "Method '".toList ++ method ++ utf8 "' execution failed".toList))
      else some (jsonRpcResult (server.handler method (utf8 text)).2 (idText reader)) := by
  have hbody : utf8 text ≠ [] := fun h => hne (utf8_injective h)
  unfold requestMethod at hmethod
  split at hmethod
  · next hversion =>
    unfold handleRpc
    rw [if_neg hbody, hnew]
    show (if _ then _ else _) = _
    rw [if_neg (not_not_intro hversion), hmethod]
  · cases hmethod

theorem handleRpc_of_no_request (hne : text ≠ [])
    (hnew : JsonReader.new library (utf8 text) = some reader)
    (hmethod : requestMethod reader = none) :
    ∃ data, (∀ c ∈ data, Sayable c) ∧ handleRpc library server (utf8 text) =
      some (jsonRpcError JSONRPC_INVALID_REQUEST (utf8 "Invalid Request".toList)
        (utf8 "null".toList) (utf8 data)) := by
  have hbody : utf8 text ≠ [] := fun h => hne (utf8_injective h)
  unfold handleRpc
  rw [if_neg hbody, hnew]
  unfold requestMethod at hmethod
  split at hmethod
  · next hversion =>
    refine ⟨"Missing 'method' field".toList, sayable_of_all (by decide), ?_⟩
    show (if _ then _ else _) = _
    rw [if_neg (not_not_intro hversion), hmethod]
  · next hversion =>
    refine ⟨[], sayable_of_all rfl, ?_⟩
    show (if _ then _ else _) = _
    rw [if_pos hversion]
    rfl

theorem mem_methodTable {method : List UInt8} (h : method ∈ methodTable server) :
    ∃ name : List Char, method = utf8 name ∧ ∀ c ∈ name, Sayable c := by
  have hall : ∀ enabled : Bool, ∀ name ∈ methodNames enabled,
      name.toList.all (fun c => decide (Sayable c)) = true := by
    decide +kernel
  obtain ⟨name, hname, rfl⟩ := List.mem_map.mp h
  exact ⟨name.toList, rfl, sayable_of_all (hall _ name hname)⟩

theorem answerable_iff (hne : text ≠ [])
    (hnew : JsonReader.new library (utf8 text) = some reader) :
    Answerable library server text ↔ (parse text).isSome = true ∧
      match requestMethod reader with
      | none => requestId text = .null
      | some method =>
        Echoed (requestId text) ∧ (method ∉ methodTable server → Speakable method) := by
  constructor
  · rintro (h | ⟨reader', hsome, hnew', hrest⟩)
    · exact absurd h hne
    · rw [hnew] at hnew'
      cases hnew'
      exact ⟨hsome, hrest⟩
  · rintro ⟨hsome, hrest⟩
    exact .inr ⟨reader, hsome, hnew, hrest⟩

/-- A request that calls no method. -/
theorem answers_of_no_request (hne : text ≠ [])
    (hnew : JsonReader.new library (utf8 text) = some reader)
    (hmethod : requestMethod reader = none) :
    Answers server text (handleRpc library server (utf8 text)) ↔
      Answerable library server text := by
  obtain ⟨data, hdata, hresponse⟩ := @handleRpc_of_no_request _ server _ _ hne hnew hmethod
  rw [hresponse, answerable_iff hne hnew, hmethod]
  cases hparse : parse text with
  | none =>
    refine iff_of_false (not_parseError (by decide) (by decide) hparse _ _ _) ?_
    rintro ⟨h, -⟩
    cases h
  | some doc =>
    have hread : ReadsMember (errorText JSONRPC_INVALID_REQUEST "Invalid Request".toList data)
        (errorJson JSONRPC_INVALID_REQUEST "Invalid Request".toList data) :=
      readsMember_error (by decide) (sayable_of_all (by decide)) hdata
    rw [jsonRpcError_eq, answers_front hread reads_null (.inr ⟨_, _, _, rfl⟩)
      (fun h => absurd h (by rw [hparse]; exact Option.some_ne_none doc))]
    exact ⟨fun h => ⟨rfl, h⟩, fun h => h.2⟩

/-- A call in a body that is no document, which the parser may still read. -/
theorem not_answers_of_none (hs : server.Valid) (hne : text ≠ []) (hparse : parse text = none)
    (hnew : JsonReader.new library (utf8 text) = some reader) {method : List UInt8}
    (hmethod : requestMethod reader = some method) :
    ¬ Answers server text (handleRpc library server (utf8 text)) := by
  rw [handleRpc_of_request hne hnew hmethod]
  split
  · exact not_parseError (by decide) (by decide) hparse _ _ _
  · split
    · exact not_parseError (by decide) (by decide) hparse _ _ _
    · next hok =>
      have hhandler : server.handler method (utf8 text) =
          (true, (server.handler method (utf8 text)).2) := Prod.ext (by simpa using hok) rfl
      obtain ⟨resultJson, v, hresult, hv⟩ := hs method (utf8 text) _ hhandler
      rw [← hresult]
      exact not_parseError_of_result hv hparse _

/-- A call, answered by its kind. -/
theorem answers_of_request (hl : library.Lawful) (hs : server.Valid) (hne : text ≠ [])
    (hnew : JsonReader.new library (utf8 text) = some reader) {method : List UInt8}
    (hmethod : requestMethod reader = some method) :
    Answers server text (handleRpc library server (utf8 text)) ↔
      Answerable library server text := by
  rw [answerable_iff hne hnew, hmethod]
  cases hparse : parse text with
  | none =>
    refine iff_of_false (not_answers_of_none hs hne hparse hnew hmethod) ?_
    rintro ⟨h, -⟩
    cases h
  | some doc =>
    obtain ⟨⟨members, hdoc⟩, s, hcut⟩ := requestMethod_take hmethod
    obtain rfl := parse_of_doc hl hparse hnew hdoc
    rw [handleRpc_of_request hne hnew hmethod]
    by_cases htable : method ∈ methodTable server
    · rw [if_neg (not_not_intro htable)]
      have hiff : ∀ p : Prop, (p ↔ Echoed (requestId text)) →
          (p ↔ (some (Json.object members)).isSome = true ∧ Echoed (requestId text) ∧
            (method ∉ methodTable server → Speakable method)) := by
        intro p hp
        exact hp.trans ⟨fun h => ⟨rfl, h, fun hno => absurd htable hno⟩, fun h => h.2.1⟩
      apply hiff
      split
      · -- the handler failed
        obtain ⟨name, rfl, hname⟩ := mem_methodTable htable
        have hdata : ∀ c ∈ "Method '".toList ++ name ++ "' execution failed".toList, Sayable c := by
          intro c hc
          rcases List.mem_append.mp hc with hc | hc
          · rcases List.mem_append.mp hc with hc | hc
            · exact sayable_of_all (s := "Method '".toList) (by decide) c hc
            · exact hname c hc
          · exact sayable_of_all (s := "' execution failed".toList) (by decide) c hc
        rw [← utf8_append, ← utf8_append, jsonRpcError_eq]
        exact answers_iff_echoed hparse hdoc
          (readsMember_error (by decide) (sayable_of_all (by decide)) hdata) (.inr ⟨_, _, _, rfl⟩)
      · next hok =>
        have hhandler : server.handler method (utf8 text) =
            (true, (server.handler method (utf8 text)).2) := Prod.ext (by simpa using hok) rfl
        obtain ⟨resultJson, v, hresult, hv⟩ := hs method (utf8 text) _ hhandler
        rw [← hresult] at hhandler ⊢
        rw [jsonRpcResult_eq]
        exact answers_iff_echoed hparse hdoc (readsMember_result hv)
          (.inl ⟨method, resultJson, v, hhandler, hv, rfl⟩)
    · rw [if_pos htable]
      by_cases hspeak : Speakable method
      · obtain ⟨name, rfl, hname⟩ := hspeak
        rw [jsonRpcError_eq, answers_iff_echoed hparse hdoc
          (readsMember_error (by decide) (sayable_of_all (by decide)) hname) (.inr ⟨_, _, _, rfl⟩)]
        exact ⟨fun h => ⟨rfl, h, fun _ => ⟨name, rfl, hname⟩⟩, fun h => h.2.1⟩
      · refine iff_of_false (not_answers_of_unspeakable (sayable_of_all (by decide)) hcut hspeak) ?_
        rintro ⟨-, -, h⟩
        exact hspeak (h htable)

/-- The request is answered as it has to be exactly if it meets the condition. -/
theorem handleRpc_answers_iff (library : JsonLibrary) (server : RpcServer) (hl : library.Lawful)
    (hs : server.Valid) (text : List Char) :
    Answers server text (handleRpc library server (utf8 text)) ↔
      Answerable library server text := by
  by_cases hne : text = []
  · subst hne
    refine ⟨fun _ => .inl rfl, fun _ => ?_⟩
    have hread : ReadsMember (errorText JSONRPC_PARSE_ERROR "Parse error".toList [])
        (errorJson JSONRPC_PARSE_ERROR "Parse error".toList []) :=
      readsMember_error (by decide) (sayable_of_all (by decide)) (sayable_of_all rfl)
    show Answers server [] (some (jsonRpcError JSONRPC_PARSE_ERROR (utf8 "Parse error".toList)
      (utf8 "null".toList) (utf8 [])))
    rw [jsonRpcError_eq]
    exact (answers_front hread reads_null (.inr ⟨_, _, _, rfl⟩) fun _ => ⟨_, _, rfl⟩).mpr rfl
  · cases hnew : JsonReader.new library (utf8 text) with
    | none =>
      have hbody : utf8 text ≠ [] := fun h => hne (utf8_injective h)
      have hthrow : handleRpc library server (utf8 text) = none := by
        unfold handleRpc
        rw [if_neg hbody, hnew]
        rfl
      rw [hthrow]
      constructor
      · rintro ⟨answer, outcome, h, -⟩
        cases h
      · rintro (h | ⟨reader, -, h, -⟩)
        · exact absurd h hne
        · rw [hnew] at h
          cases h
    | some reader =>
      cases hmethod : requestMethod reader with
      | none => exact answers_of_no_request hne hnew hmethod
      | some method => exact answers_of_request hl hs hne hnew hmethod

/-- A parser that stores every number. -/
def exactLibrary : JsonLibrary where
  parse bytes :=
    match bytes.toByteArray.utf8Decode? with
    | none => .parseError
    | some text =>
      match parse text.toList with
      | none => .parseError
      | some v => .document v
  fits _ := true

theorem exactLibrary_lawful : exactLibrary.Lawful where
  reads text v hparse _ := by
    have hdecode : (utf8 text).toByteArray.utf8Decode? = some text.toArray :=
      List.utf8Decode?_utf8Encode
    unfold exactLibrary
    dsimp only
    rw [hdecode]
    dsimp only
    rw [hparse]
  overflows text v _ hall := by
    exfalso
    have hfits : (numbers v).all exactLibrary.fits = true := List.all_eq_true.mpr fun _ _ => rfl
    rw [hfits] at hall
    cases hall

theorem new_of_parse (hl : library.Lawful) (hparse : parse text = some (.object members))
    (hfits : (numbers (.object members)).all library.fits = true)
    (hlen : (utf8 text).length ≤ JsonReader.MAX_INPUT_LENGTH)
    (hcheck : JsonReader.checkDepthAndKeys (.object members) 0 = true) :
    JsonReader.new library (utf8 text) = some ⟨some members⟩ := by
  unfold JsonReader.new
  rw [if_neg (by omega), hl.reads text _ hparse hfits]
  dsimp only
  rw [if_pos hcheck]

/-- Every method succeeds with `null`. -/
def nullServer : RpcServer := ⟨false, fun _ _ => (true, utf8 ['n', 'u', 'l', 'l'])⟩

theorem nullServer_valid : nullServer.Valid := by
  intro method body result h
  obtain ⟨-, rfl⟩ := Prod.mk.inj h
  exact ⟨['n', 'u', 'l', 'l'], .null, rfl, rfl⟩

/-- A call of a method that is there, with a number as its id. -/
def statusRequest : List Char :=
  "\x7b\"jsonrpc\":\"2.0\",\"method\":\"getStatus\",\"id\":1\x7d".toList

theorem statusRequest_answers :
    Answers nullServer statusRequest (handleRpc exactLibrary nullServer (utf8 statusRequest)) := by
  obtain ⟨members, hmembers⟩ : ∃ members, members = [("jsonrpc".toList, Json.str "2.0".toList),
      ("method".toList, .str "getStatus".toList), ("id".toList, .num (JsonNumber.ofNat 1))] :=
    ⟨_, rfl⟩
  have hparse : parse statusRequest = some (.object members) := by rw [hmembers]; rfl
  have hnew : JsonReader.new exactLibrary (utf8 statusRequest) = some ⟨some members⟩ := by
    subst hmembers
    exact new_of_parse exactLibrary_lawful hparse (by decide) (by decide) (by decide)
  have hmethod : requestMethod ⟨some members⟩ = some (utf8 "getStatus".toList) := by
    rw [hmembers]
    rfl
  have hid : requestId statusRequest = .num (JsonNumber.ofNat 1) := by
    unfold requestId
    rw [hparse, hmembers]
    rfl
  refine (handleRpc_answers_iff exactLibrary nullServer exactLibrary_lawful nullServer_valid
    statusRequest).mpr ((answerable_iff (by decide) hnew).mpr ⟨by rw [hparse]; rfl, ?_⟩)
  rw [hmethod, hid]
  have hunsigned : JsonReader.isUnsigned (JsonNumber.ofNat 1) = true := by decide
  exact ⟨hunsigned, fun h => absurd (by decide) h⟩

/-- A call of a method that is not there, with a quote in its id. -/
def quotedRequest : List Char :=
  "\x7b\"jsonrpc\":\"2.0\",\"method\":\"x\",\"id\":\"a\\\"b\"\x7d".toList

theorem quotedRequest_not_answered :
    ¬ Answers nullServer quotedRequest
      (handleRpc exactLibrary nullServer (utf8 quotedRequest)) := by
  obtain ⟨members, hmembers⟩ : ∃ members, members = [("jsonrpc".toList, Json.str "2.0".toList),
      ("method".toList, .str "x".toList), ("id".toList, .str ['a', '"', 'b'])] := ⟨_, rfl⟩
  have hparse : parse quotedRequest = some (.object members) := by rw [hmembers]; rfl
  have hnew : JsonReader.new exactLibrary (utf8 quotedRequest) = some ⟨some members⟩ := by
    subst hmembers
    exact new_of_parse exactLibrary_lawful hparse (by decide) (by decide) (by decide)
  have hmethod : requestMethod ⟨some members⟩ = some (utf8 ['x']) := by
    rw [hmembers]
    rfl
  have hid : requestId quotedRequest = .str ['a', '"', 'b'] := by
    unfold requestId
    rw [hparse, hmembers]
    rfl
  rw [answers_of_request exactLibrary_lawful nullServer_valid (by decide) hnew hmethod,
    answerable_iff (by decide) hnew, hmethod, hid]
  rintro ⟨-, ⟨hplain, -⟩, -⟩
  revert hplain
  decide

end JsonRpcHandler

end Alpine
