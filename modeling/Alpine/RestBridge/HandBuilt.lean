import Alpine.AppUtils.AuditLog
import Alpine.Lib.Numerals
import Alpine.Lib.JsonPlace
import Alpine.RestBridge.JsonRpcHandler

/-!
# JSON that is put together by hand

The lines of the audit log and the events of a WebSocket session have texts between quotes as they
are, and the body of an error has them with five characters escaped. Each of them is a document with
these texts, on one line, exactly if they need no escaping, or no other (`handBuilt_iff`).
-/

namespace Alpine

open Lib TextReader Expect

/-- `t_Event`. -/
inductive BusEvent where
  | peerDiscovered
  | peerDisconnected
  | queryCompleted
  | queryProgress
  | groupChanged
  | resourceAccessed
  deriving DecidableEq, Repr

namespace AuditLog

/-- `epoch` is the time in milliseconds. -/
def formatEntry (epoch : Int) (eventType actor action : List UInt8)
    (details : List (List UInt8 × List UInt8)) : List UInt8 :=
  utf8 "\x7b\"timestamp\":".toList ++ utf8 (signed epoch) ++
    utf8 ",\"event\":\"".toList ++ eventType ++
    utf8 "\",\"actor\":\"".toList ++ actor ++ utf8 "\",\"action\":\"".toList ++ action ++
    utf8 "\"".toList ++
    details.flatMap (fun (k, v) => utf8 ",\"".toList ++ k ++ utf8 "\":\"".toList ++ v ++
      utf8 "\"".toList) ++
    utf8 "\x7d".toList

end AuditLog

namespace WebSocketSession

def eventName : BusEvent → String
  | .peerDiscovered => "PeerDiscovered"
  | .peerDisconnected => "PeerDisconnected"
  | .queryCompleted => "QueryCompleted"
  | .queryProgress => "QueryProgress"
  | .groupChanged => "GroupChanged"
  | .resourceAccessed => "ResourceAccessed"

/-- What the handler of `subscribeToEvents` puts into the queue. -/
def eventJson (event : BusEvent) (data : List UInt8) : List UInt8 :=
  utf8 "\x7b\"event\":\"".toList ++ utf8 (eventName event).toList ++
    utf8 "\",\"data\":\"".toList ++ data ++ utf8 "\"\x7d".toList

/-- The text that `flushEventBatch` sends for the events that are pending. -/
def flushEventBatch (isOpen : Bool) (pendingEvents : List (List UInt8)) : Option (List UInt8) :=
  if pendingEvents = [] ∨ isOpen = false then none
  else
    match pendingEvents with
    | [event] => some event
    | events => some (utf8 ['['] ++ (utf8 [',']).intercalate events ++ utf8 [']'])

end WebSocketSession

namespace HttpResponse

/-- The same characters are escaped as in an answer of JSON-RPC. -/
def escapeJson (s : List UInt8) : List UInt8 := JsonRpcHandler.escapeJsonRpc s

def buildErrorJson (code message requestId : List UInt8) : List UInt8 :=
  utf8 "\x7b\"error\":\x7b\"code\":\"".toList ++ escapeJson code ++
    utf8 "\",\"message\":\"".toList ++ escapeJson message ++ utf8 "\"".toList ++
    (if requestId = [] then []
      else utf8 ",\"requestId\":\"".toList ++ escapeJson requestId ++ utf8 "\"".toList) ++
    utf8 "\x7d\x7d".toList

end HttpResponse

/-! ## Documents -/

/-- The bytes are one document of the value, on one line and without other control characters. -/
def ExactJson (bytes : List UInt8) (v : Json) : Prop :=
  ∃ text, bytes = utf8 text ∧ parse text = some v ∧ ∀ c ∈ text, 0x20 ≤ c.toNat

theorem exactJson_iff {text : List Char} {v : Json} :
    ExactJson (utf8 text) v ↔ parse text = some v ∧ ∀ c ∈ text, 0x20 ≤ c.toNat := by
  constructor
  · rintro ⟨text', heq, h⟩
    rw [utf8_injective heq]
    exact h
  · exact fun h => ⟨text, rfl, h⟩

/-- No character of the text is a control character. -/
def Lined (text : List Char) : Prop := ∀ c ∈ text, 0x20 ≤ c.toNat

theorem lined_of_all {text : List Char} (h : text.all (fun c => decide (0x20 ≤ c.toNat)) = true) :
    Lined text :=
  fun c hc => of_decide_eq_true (List.all_eq_true.mp h c hc)

theorem lined_append {s t : List Char} (hs : Lined s) (ht : Lined t) : Lined (s ++ t) := by
  intro c hc
  rcases List.mem_append.mp hc with hc | hc
  · exact hs c hc
  · exact ht c hc

theorem lined_cons {c : Char} {t : List Char} (hc : 0x20 ≤ c.toNat) (ht : Lined t) :
    Lined (c :: t) := by
  intro d hd
  rcases List.mem_cons.mp hd with rfl | hd
  · exact hc
  · exact ht d hd

theorem lined_plain {s : List Char} (h : s.all isPlain = true) : Lined s :=
  fun c hc => (isPlain_iff.mp (List.all_eq_true.mp h c hc)).2.2

theorem lined_intercalate {texts : List (List Char)} (h : ∀ t ∈ texts, Lined t) :
    Lined ([','].intercalate texts) := by
  induction texts with
  | nil => exact fun c hc => nomatch hc
  | cons t texts ih =>
    have htexts := ih fun s hs => h s (List.mem_cons_of_mem _ hs)
    cases texts with
    | nil =>
      rw [List.intercalate_singleton]
      exact h t List.mem_cons_self
    | cons t' texts =>
      rw [List.intercalate_cons_cons]
      exact lined_append (lined_append (h t List.mem_cons_self) (lined_of_all rfl)) htexts

theorem lined_rawMember {m : List Char × List Char} (h : PlainMember m) : Lined (rawMember m) :=
  lined_cons (by decide) (lined_append (lined_plain h.1) (lined_cons (by decide)
    (lined_cons (by decide) (lined_cons (by decide) (lined_append (lined_plain h.2)
      (lined_of_all rfl))))))

theorem lined_members {ms : List (List Char × List Char)} (h : ∀ m ∈ ms, PlainMember m) :
    Lined ([','].intercalate (ms.map rawMember)) := by
  refine lined_intercalate fun t ht => ?_
  obtain ⟨m, hm, rfl⟩ := List.mem_map.mp ht
  exact lined_rawMember (h m hm)

theorem readsMembers_raw {ms : List (List Char × List Char)} (h : ∀ m ∈ ms, PlainMember m) :
    List.Forall₂ ReadsMember (ms.map rawMember) (ms.map strMember) := by
  rw [List.forall₂_map_left_iff, List.forall₂_map_right_iff]
  exact List.forall₂_same.mpr fun m hm => readsMember_raw (h m hm)

/-! ## Lines of the audit log -/

/-- The integer, as one writes it. -/
def intJson (n : Int) : Json := .num ⟨n < 0, n.natAbs, [], none⟩

theorem reads_signed (n : Int) : Reads (signed n) (intJson n) := by
  by_cases hn : n < 0
  · have htext : signed n = '-' :: Nat.toDigits 10 n.natAbs := if_pos hn
    have hbare : ∀ c ∈ '-' :: Nat.toDigits 10 n.natAbs, isBare c = true := by
      intro c hc
      rcases List.mem_cons.mp hc with rfl | hc
      · rfl
      · exact isBare_digit (isDigit_toDigits hc)
    have hraw : readBare ('-' :: Nat.toDigits 10 n.natAbs) =
        some (.num ⟨true, n.natAbs, [], none⟩) := by
      unfold readBare
      rw [if_neg (by simp), if_neg (by simp), if_neg (by simp),
        readNumber_minus (takeMinus_toDigits _) (readNumber_toDigits _)]
      rfl
    have hjson : intJson n = .num ⟨true, n.natAbs, [], none⟩ := by
      rw [intJson, decide_eq_true hn]
    rw [htext, hjson]
    exact fun stack => next_bare (List.cons_ne_nil _ _) hbare hraw rfl
  · have htext : signed n = Nat.toDigits 10 n.natAbs := if_neg hn
    have hjson : intJson n = .num (JsonNumber.ofNat n.natAbs) := by
      rw [intJson, decide_eq_false hn]
      rfl
    rw [htext, hjson]
    exact reads_nat n.natAbs

theorem lined_signed (n : Int) : Lined (signed n) := by
  have hdigits : Lined (Nat.toDigits 10 n.natAbs) := by
    refine fun c hc => ?_
    have hdigit := isDigit_toDigits hc
    simp only [Char.isDigit, Bool.and_eq_true, decide_eq_true_eq, ge_iff_le] at hdigit
    have hlow : '0'.toNat ≤ c.toNat := hdigit.1
    exact Nat.le_trans (by decide) hlow
  unfold signed
  split
  · exact lined_cons (by decide) hdigits
  · exact hdigits

/-- The texts of an entry, with the names of their members. -/
def entryMembers (eventType actor action : List Char) (details : List (List Char × List Char)) :
    List (List Char × List Char) :=
  ("event".toList, eventType) :: ("actor".toList, actor) :: ("action".toList, action) :: details

def timestampText (epoch : Int) : List Char := "\"timestamp\":".toList ++ signed epoch

def entryText (epoch : Int) (members : List (List Char × List Char)) : List Char :=
  '{' :: ([','].intercalate (timestampText epoch :: members.map rawMember) ++ ['}'])

def entryJson (epoch : Int) (members : List (List Char × List Char)) : Json :=
  .object (("timestamp".toList, intJson epoch) :: members.map strMember)

theorem intercalate_cons (t : List Char) (texts : List (List Char)) :
    [','].intercalate (t :: texts) = t ++ texts.flatMap (',' :: ·) := by
  induction texts generalizing t with
  | nil => simp
  | cons t' texts ih =>
    rw [List.intercalate_cons_cons, ih, List.flatMap_cons]
    simp

theorem utf8_flatMap {α : Type} (f : α → List Char) (xs : List α) :
    utf8 (xs.flatMap f) = xs.flatMap fun x => utf8 (f x) := by
  induction xs with
  | nil => rfl
  | cons x xs ih => rw [List.flatMap_cons, List.flatMap_cons, utf8_append, ih]

/-- The details of an entry as they are passed. -/
def utf8Details (details : List (List Char × List Char)) : List (List UInt8 × List UInt8) :=
  details.map fun (k, v) => (utf8 k, utf8 v)

theorem formatEntry_eq (epoch : Int) (eventType actor action : List Char)
    (details : List (List Char × List Char)) :
    AuditLog.formatEntry epoch (utf8 eventType) (utf8 actor) (utf8 action) (utf8Details details) =
      utf8 (entryText epoch (entryMembers eventType actor action details)) := by
  have hdetails : (utf8Details details).flatMap (fun (k, v) => utf8 ",\"".toList ++ k ++
      utf8 "\":\"".toList ++ v ++ utf8 "\"".toList) =
      utf8 (details.flatMap fun m => ',' :: rawMember m) := by
    rw [utf8_flatMap, utf8Details, List.flatMap_map]
    simp [rawMember, utf8_append, utf8_cons]
  unfold AuditLog.formatEntry entryText timestampText entryMembers
  rw [hdetails, intercalate_cons, List.flatMap_map]
  simp [rawMember, utf8_append, utf8_cons]

theorem readsMember_timestamp (epoch : Int) :
    ReadsMember (timestampText epoch) ("timestamp".toList, intJson epoch) :=
  readsMember_plain "timestamp".toList (by decide) (reads_signed epoch)

/-- An entry with at least one text is a document with its texts exactly if none needs escaping. -/
theorem entry_exact_iff {epoch : Int} {m : List Char × List Char}
    {members : List (List Char × List Char)} :
    ExactJson (utf8 (entryText epoch (m :: members))) (entryJson epoch (m :: members)) ↔
      ∀ m' ∈ m :: members, PlainMember m' := by
  rw [exactJson_iff]
  constructor
  · rintro ⟨hparse, -⟩
    unfold parse entryText at hparse
    rw [next_beginObject, List.map_cons, List.intercalate_cons_cons, List.append_assoc,
      List.append_assoc, List.singleton_append,
      (readsMember_timestamp epoch).read _ _ (by decide), next_comma, ← List.map_cons] at hparse
    exact plain_of_members hparse fun w hw => hw.symm
  · intro h
    refine ⟨reads_iff.mp (reads_object (.cons (readsMember_timestamp epoch)
      (readsMembers_raw h))), ?_⟩
    refine lined_cons (by decide) (lined_append (lined_intercalate fun t ht => ?_)
      (lined_of_all rfl))
    rcases List.mem_cons.mp ht with rfl | ht
    · exact lined_append (lined_of_all rfl) (lined_signed epoch)
    · obtain ⟨m', hm', rfl⟩ := List.mem_map.mp ht
      exact lined_rawMember (h m' hm')

/-! ## Events of a session -/

def eventMembers (event : BusEvent × List Char) : List (List Char × List Char) :=
  [("event".toList, (WebSocketSession.eventName event.1).toList), ("data".toList, event.2)]

def eventText (event : BusEvent × List Char) : List Char :=
  '{' :: ([','].intercalate ((eventMembers event).map rawMember) ++ ['}'])

def eventDoc (event : BusEvent × List Char) : Json :=
  .object ((eventMembers event).map strMember)

theorem eventJson_eq (event : BusEvent × List Char) :
    WebSocketSession.eventJson event.1 (utf8 event.2) = utf8 (eventText event) := by
  unfold WebSocketSession.eventJson eventText eventMembers
  simp [rawMember, utf8_append, utf8_cons, List.intercalate]

theorem plain_eventName (event : BusEvent) :
    (WebSocketSession.eventName event).toList.all isPlain = true := by
  cases event <;> decide

theorem plain_eventMembers {event : BusEvent × List Char} :
    (∀ m ∈ eventMembers event, PlainMember m) ↔ event.2.all isPlain = true := by
  constructor
  · exact fun h => (h ("data".toList, event.2) (List.mem_cons_of_mem _ List.mem_cons_self)).2
  · intro h m hm
    rcases List.mem_cons.mp hm with rfl | hm
    · exact ⟨rfl, plain_eventName event.1⟩
    · rw [List.mem_singleton.mp hm]
      exact ⟨rfl, h⟩

theorem reads_event {event : BusEvent × List Char} (h : event.2.all isPlain = true) :
    Reads (eventText event) (eventDoc event) :=
  reads_object (readsMembers_raw (plain_eventMembers.mpr h))

theorem lined_event {event : BusEvent × List Char} (h : event.2.all isPlain = true) :
    Lined (eventText event) :=
  lined_cons (by decide)
    (lined_append (lined_members (plain_eventMembers.mpr h)) (lined_of_all rfl))

theorem plain_of_event {event : BusEvent × List Char} {stack : List JsonFrame} {rest : List Char}
    {v : Json} (h : ((next (.value stack)).read (eventText event ++ rest)).bind close = some v)
    (hplace : ∀ w, Within stack (· = w) v → w = eventDoc event) :
    event.2.all isPlain = true := by
  rw [eventText, List.cons_append, next_beginObject, List.append_assoc,
    List.singleton_append] at h
  exact plain_eventMembers.mp (plain_of_members h hplace)

/-- The events of an array, behind the items that are read. -/
theorem plain_of_events {events : List (BusEvent × List Char)} {items : List Json}
    {rest : List Char}
    (h : ((next (.value [.array items])).read
      ([','].intercalate (events.map eventText) ++ ']' :: rest)).bind close =
        some (.array (items ++ events.map eventDoc))) :
    ∀ event ∈ events, event.2.all isPlain = true := by
  induction events generalizing items with
  | nil => exact fun event hevent => nomatch hevent
  | cons event events ih =>
    have hplace : ∀ w, Within [.array items] (· = w)
        (.array (items ++ (event :: events).map eventDoc)) → w = eventDoc event := by
      rintro w ⟨w', rest', rfl, hw⟩
      rw [Json.array.injEq, List.append_cancel_left_eq, List.map_cons, List.cons.injEq] at hw
      exact hw.1.symm
    cases events with
    | nil =>
      rw [List.map_singleton, List.intercalate_singleton] at h
      intro event' hevent'
      rw [List.mem_singleton.mp hevent']
      exact plain_of_event h hplace
    | cons event' events =>
      rw [List.map_cons, List.map_cons, List.intercalate_cons_cons, List.append_assoc,
        List.append_assoc, List.singleton_append] at h
      have hevent := plain_of_event h hplace
      rw [(reads_event hevent).read _ (by decide), next_punctuation rfl] at h
      have hdoc : items ++ (event :: event' :: events).map eventDoc =
          (items ++ [eventDoc event]) ++ (event' :: events).map eventDoc := by
        rw [List.append_assoc, List.singleton_append, List.map_cons]
      rw [hdoc] at h
      have hrest := ih h
      intro event'' hevent''
      rcases List.mem_cons.mp hevent'' with rfl | hevent''
      · exact hevent
      · exact hrest event'' hevent''

/-- What is sent for the events that are pending. -/
def batchText : List (BusEvent × List Char) → List Char
  | [event] => eventText event
  | events => '[' :: ([','].intercalate (events.map eventText) ++ [']'])

def batchJson : List (BusEvent × List Char) → Json
  | [event] => eventDoc event
  | events => .array (events.map eventDoc)

/-- The events as the handlers put them into the queue. -/
def queuedEvents (events : List (BusEvent × List Char)) : List (List UInt8) :=
  events.map fun event => WebSocketSession.eventJson event.1 (utf8 event.2)

theorem intercalate_utf8 (texts : List (List Char)) :
    (utf8 [',']).intercalate (texts.map utf8) = utf8 ([','].intercalate texts) := by
  induction texts with
  | nil => rfl
  | cons t texts ih =>
    cases texts with
    | nil => simp
    | cons t' texts =>
      rw [List.map_cons, List.map_cons, List.intercalate_cons_cons, ← List.map_cons, ih,
        List.intercalate_cons_cons, utf8_append, utf8_append]

theorem flushEventBatch_eq {events : List (BusEvent × List Char)} (hne : events ≠ []) :
    WebSocketSession.flushEventBatch true (queuedEvents events) =
      some (utf8 (batchText events)) := by
  have htexts : queuedEvents events = (events.map eventText).map utf8 := by
    rw [List.map_map]
    exact List.map_congr_left fun event _ => eventJson_eq event
  unfold WebSocketSession.flushEventBatch
  rw [htexts]
  match events, hne with
  | [event], _ => rfl
  | event :: event' :: events, _ =>
    rw [if_neg (by simp)]
    show some (utf8 ['['] ++ (utf8 [',']).intercalate
      (((event :: event' :: events).map eventText).map utf8) ++ utf8 [']']) = _
    rw [intercalate_utf8, ← utf8_append, ← utf8_append]
    rfl

theorem batch_exact_iff {events : List (BusEvent × List Char)} (hne : events ≠ []) :
    ExactJson (utf8 (batchText events)) (batchJson events) ↔
      ∀ event ∈ events, event.2.all isPlain = true := by
  rw [exactJson_iff]
  match events, hne with
  | [event], _ =>
    rw [List.forall_mem_singleton]
    constructor
    · rintro ⟨hparse, -⟩
      have hread : ((next (.value [])).read (eventText event ++ [])).bind close =
          some (eventDoc event) := by
        rw [List.append_nil]
        exact hparse
      exact plain_of_event hread fun w hw => hw.symm
    · exact fun h => ⟨reads_iff.mp (reads_event h), lined_event h⟩
  | event :: event' :: events, _ =>
    constructor
    · rintro ⟨hparse, -⟩
      unfold parse batchText at hparse
      rw [next_punctuation rfl] at hparse
      exact @plain_of_events _ [] [] hparse
    · intro h
      have hreads : List.Forall₂ Reads ((event :: event' :: events).map eventText)
          ((event :: event' :: events).map eventDoc) := by
        rw [List.forall₂_map_left_iff, List.forall₂_map_right_iff]
        exact List.forall₂_same.mpr fun e he => reads_event (h e he)
      refine ⟨reads_iff.mp (reads_array hreads), ?_⟩
      refine lined_cons (by decide) (lined_append (lined_intercalate fun t ht => ?_)
        (lined_of_all rfl))
      obtain ⟨e, he, rfl⟩ := List.mem_map.mp ht
      exact lined_event (h e he)

/-! ## Bodies of errors -/

open JsonRpcHandler

def escapedMember (m : List Char × List Char) : List Char :=
  '"' :: (m.1 ++ '"' :: ':' :: '"' :: (m.2.flatMap escapeChar ++ ['"']))

def errorMembers (code message requestId : List Char) : List (List Char × List Char) :=
  ("code".toList, code) :: ("message".toList, message) ::
    if requestId = [] then [] else [("requestId".toList, requestId)]

def bodyText (members : List (List Char × List Char)) : List Char :=
  '{' :: '"' :: ("error".toList ++
    '"' :: ':' :: '{' :: ([','].intercalate (members.map escapedMember) ++ '}' :: ['}']))

def bodyJson (members : List (List Char × List Char)) : Json :=
  .object [("error".toList, .object (members.map strMember))]

theorem buildErrorJson_eq (code message requestId : List Char) :
    HttpResponse.buildErrorJson (utf8 code) (utf8 message) (utf8 requestId) =
      utf8 (bodyText (errorMembers code message requestId)) := by
  unfold HttpResponse.buildErrorJson HttpResponse.escapeJson bodyText errorMembers
  rw [escapeJsonRpc_utf8, escapeJsonRpc_utf8, escapeJsonRpc_utf8]
  by_cases hid : requestId = []
  · subst hid
    simp [escapedMember, utf8_append, utf8_cons, List.intercalate]
  · have hne : utf8 requestId ≠ [] := fun h => hid (utf8_injective h)
    simp [escapedMember, utf8_append, utf8_cons, List.intercalate, hid, hne]

theorem lined_escapeChar {c : Char} (h : Sayable c) : Lined (escapeChar c) := by
  rcases escapeChar_cases c with ⟨e, he, heq, -⟩ | ⟨-, -, heq, hlow⟩
  · have hletter : 0x20 ≤ e.toNat := by
      unfold escaped at he
      split at he <;> first | decide | cases he
    rw [heq]
    exact lined_cons (by decide) (lined_cons hletter fun d hd => nomatch hd)
  · rw [heq]
    exact lined_cons (hlow h) fun d hd => nomatch hd

theorem lined_escaped {s : List Char} (h : ∀ c ∈ s, Sayable c) :
    Lined (s.flatMap escapeChar) := by
  intro d hd
  obtain ⟨c, hc, hd⟩ := List.mem_flatMap.mp hd
  exact lined_escapeChar (h c hc) d hd

theorem plain_errorMembers (code message requestId : List Char) :
    ∀ m ∈ errorMembers code message requestId, m.1.all isPlain = true := by
  unfold errorMembers
  split <;> simp only [List.forall_mem_cons, List.not_mem_nil, false_imp_iff, implies_true,
    and_true]
  · exact ⟨rfl, rfl⟩
  · exact ⟨rfl, rfl, rfl⟩

theorem readsMember_escaped {m : List Char × List Char} (hname : m.1.all isPlain = true)
    (h : ∀ c ∈ m.2, Sayable c) : ReadsMember (escapedMember m) (strMember m) :=
  readsMember_plain m.1 hname (reads_escaped h)

theorem sayable_of_member {m : List Char × List Char} {members : List (List Char × Json)}
    {stack : List JsonFrame} {rest : List Char} {v : Json} (hname : m.1.all isPlain = true)
    (h : ((next (.member members stack)).read (escapedMember m ++ rest)).bind close = some v) :
    ∀ c ∈ m.2, Sayable c := by
  by_contra hnot
  have htext : escapedMember m ++ rest =
      '"' :: (m.1 ++ '"' :: ':' :: '"' :: (m.2.flatMap escapeChar ++ '"' :: rest)) := by
    simp [escapedMember]
  rw [htext, next_name members hname, next_string_none (unquoted_escapeJsonRpc m.2)
    (unescape_escapeJsonRpc_none hnot)] at h
  cases h

theorem sayable_of_members {ms : List (List Char × List Char)}
    {members : List (List Char × Json)} {stack : List JsonFrame} {rest : List Char} {v : Json}
    (hnames : ∀ m ∈ ms, m.1.all isPlain = true)
    (h : ((next (.member members stack)).read
      ([','].intercalate (ms.map escapedMember) ++ '}' :: rest)).bind close = some v) :
    ∀ m ∈ ms, ∀ c ∈ m.2, Sayable c := by
  induction ms generalizing members with
  | nil => exact fun m hm => nomatch hm
  | cons m ms ih =>
    have hname := hnames m List.mem_cons_self
    have hrest := fun m' hm' => hnames m' (List.mem_cons_of_mem m hm')
    cases ms with
    | nil =>
      rw [List.map_singleton, List.intercalate_singleton] at h
      intro m' hm'
      rw [List.mem_singleton.mp hm']
      exact sayable_of_member hname h
    | cons m' ms =>
      rw [List.map_cons, List.map_cons, List.intercalate_cons_cons, List.append_assoc,
        List.append_assoc, List.singleton_append] at h
      have hm := sayable_of_member hname h
      rw [(readsMember_escaped hname hm).read _ _ (by decide), next_comma] at h
      have hms := ih hrest h
      intro m'' hm''
      rcases List.mem_cons.mp hm'' with rfl | hm''
      · exact hm
      · exact hms m'' hm''

/-- A body is a document with its texts exactly if escaping leaves no control character. -/
theorem body_exact_iff {ms : List (List Char × List Char)}
    (hnames : ∀ m ∈ ms, m.1.all isPlain = true) :
    ExactJson (utf8 (bodyText ms)) (bodyJson ms) ↔ ∀ m ∈ ms, ∀ c ∈ m.2, Sayable c := by
  rw [exactJson_iff]
  constructor
  · rintro ⟨hparse, -⟩
    unfold parse bodyText at hparse
    rw [next_beginObject, next_name [] (by decide), next_beginObject] at hparse
    exact sayable_of_members hnames hparse
  · intro h
    have hmembers : List.Forall₂ ReadsMember (ms.map escapedMember) (ms.map strMember) := by
      rw [List.forall₂_map_left_iff, List.forall₂_map_right_iff]
      exact List.forall₂_same.mpr fun m hm => readsMember_escaped (hnames m hm) (h m hm)
    have hbody := reads_object (.cons
      (readsMember_plain "error".toList (by decide) (reads_object hmembers)) .nil)
    have htext : bodyText ms = '{' :: ([','].intercalate ['"' :: ("error".toList ++ '"' :: ':' ::
        ('{' :: ([','].intercalate (ms.map escapedMember) ++ ['}'])))] ++ ['}']) := by
      simp [bodyText]
    refine ⟨by rw [htext]; exact reads_iff.mp hbody, ?_⟩
    refine lined_cons (by decide) (lined_cons (by decide) (lined_append (lined_of_all rfl)
      (lined_cons (by decide) (lined_cons (by decide) (lined_cons (by decide)
        (lined_append (lined_intercalate fun t ht => ?_) (lined_of_all rfl)))))))
    obtain ⟨m, hm, rfl⟩ := List.mem_map.mp ht
    exact lined_cons (by decide) (lined_append (lined_plain (hnames m hm)) (lined_cons (by decide)
      (lined_cons (by decide) (lined_cons (by decide) (lined_append (lined_escaped (h m hm))
        (lined_of_all rfl))))))

theorem sayable_errorMembers {code message requestId : List Char} :
    (∀ m ∈ errorMembers code message requestId, ∀ c ∈ m.2, Sayable c) ↔
      ∀ c ∈ code ++ message ++ requestId, Sayable c := by
  unfold errorMembers
  simp only [List.forall_mem_cons, List.forall_mem_append]
  by_cases hid : requestId = []
  · subst hid
    rw [if_pos rfl]
    exact ⟨fun ⟨hcode, hmessage, _⟩ => ⟨⟨hcode, hmessage⟩, fun c hc => nomatch hc⟩,
      fun ⟨⟨hcode, hmessage⟩, _⟩ => ⟨hcode, hmessage, fun m hm => nomatch hm⟩⟩
  · rw [if_neg hid, List.forall_mem_singleton]
    exact ⟨fun ⟨hcode, hmessage, hrequest⟩ => ⟨⟨hcode, hmessage⟩, hrequest⟩,
      fun ⟨⟨hcode, hmessage⟩, hrequest⟩ => ⟨hcode, hmessage, hrequest⟩⟩

theorem plain_entryMembers {eventType actor action : List Char}
    {details : List (List Char × List Char)} :
    (∀ m ∈ entryMembers eventType actor action details, PlainMember m) ↔
      eventType.all isPlain = true ∧ actor.all isPlain = true ∧ action.all isPlain = true ∧
        ∀ m ∈ details, PlainMember m := by
  unfold entryMembers
  simp only [List.forall_mem_cons]
  exact ⟨fun ⟨h₁, h₂, h₃, h⟩ => ⟨h₁.2, h₂.2, h₃.2, h⟩,
    fun ⟨h₁, h₂, h₃, h⟩ => ⟨⟨rfl, h₁⟩, ⟨rfl, h₂⟩, ⟨rfl, h₃⟩, h⟩⟩

/-- Lines of the audit log and events are what they should be exactly if their texts have no
quotes, backslashes and control characters, and bodies of errors if their texts have no control
characters but those of a line and the tab. -/
theorem handBuilt_iff (epoch : Int) (eventType actor action : List Char)
    (details : List (List Char × List Char)) (event : BusEvent × List Char)
    (events : List (BusEvent × List Char)) (code message requestId : List Char) :
    (ExactJson (AuditLog.formatEntry epoch (utf8 eventType) (utf8 actor) (utf8 action)
          (utf8Details details))
        (entryJson epoch (entryMembers eventType actor action details)) ↔
      eventType.all isPlain = true ∧ actor.all isPlain = true ∧ action.all isPlain = true ∧
        ∀ m ∈ details, PlainMember m) ∧
    ((∃ bytes, WebSocketSession.flushEventBatch true (queuedEvents (event :: events)) =
          some bytes ∧ ExactJson bytes (batchJson (event :: events))) ↔
        ∀ e ∈ event :: events, e.2.all isPlain = true) ∧
    (ExactJson (HttpResponse.buildErrorJson (utf8 code) (utf8 message) (utf8 requestId))
          (bodyJson (errorMembers code message requestId)) ↔
        ∀ c ∈ code ++ message ++ requestId, Sayable c) := by
  refine ⟨?_, ?_, ?_⟩
  · rw [formatEntry_eq, ← plain_entryMembers]
    exact entry_exact_iff
  · rw [flushEventBatch_eq (List.cons_ne_nil _ _)]
    simp only [Option.some.injEq, exists_eq_left']
    exact batch_exact_iff (List.cons_ne_nil _ _)
  · rw [buildErrorJson_eq, ← sayable_errorMembers]
    exact body_exact_iff (plain_errorMembers code message requestId)

/-- A quote in the name of an actor adds another action. -/
theorem quotedActor_not_exact :
    ¬ ExactJson (AuditLog.formatEntry 0 (utf8 "login".toList)
        (utf8 "a\",\"action\":\"b".toList) (utf8 "c".toList) (utf8Details []))
      (entryJson 0 (entryMembers "login".toList "a\",\"action\":\"b".toList "c".toList [])) ∧
    ExactJson (AuditLog.formatEntry 0 (utf8 "login".toList)
        (utf8 "a\",\"action\":\"b".toList) (utf8 "c".toList) (utf8Details []))
      (entryJson 0 (entryMembers "login".toList "a".toList "b".toList
        [("action".toList, "c".toList)])) := by
  have hactor : ¬ "a\",\"action\":\"b".toList.all isPlain = true := by decide
  rw [formatEntry_eq]
  constructor
  · intro h
    exact hactor (plain_entryMembers.mp (entry_exact_iff.mp h)).2.1
  · have htext : entryText 0 (entryMembers "login".toList "a\",\"action\":\"b".toList
        "c".toList []) = entryText 0 (entryMembers "login".toList "a".toList "b".toList
        [("action".toList, "c".toList)]) := by
      decide +kernel
    rw [htext]
    exact entry_exact_iff.mpr (plain_entryMembers.mpr
      ⟨by decide, by decide, by decide, List.forall_mem_singleton.mpr ⟨rfl, rfl⟩⟩)

end Alpine
