import Alpine.RestBridge.HttpServer
import Alpine.RestBridge.HttpRequest

/-!
# Requests on a connection

`handleConnection` takes each read as one request; `processRequest`, which serves TLS, takes the
first read as the whole head and reads on until the body is as long as announced. A client's stream
may be cut anywhere. The requests are served as they were written if the reads end where requests
end, and the first read of a request has its head (`Aligned`); since a stream can be cut after each
byte, only the empty stream is served in the same way for every cut (`framed`).
-/

namespace Alpine

open Lib

/-- What the server does with what it read. -/
inductive Served where
  | dispatched (request : HttpRequest)
  /-- The connection becomes a WebSocket. -/
  | upgraded (request : HttpRequest)
  /-- An error is answered and the connection closed. -/
  | rejected

namespace HttpServer

def MAX_BODY_SIZE : Nat := 65536

def READ_BUFFER_SIZE : Nat := 65536

def isWebSocketUpgrade (headers : UMap (List UInt8) (List UInt8)) : Bool :=
  match headers.find (utf8 "upgrade".toList) with
  | none => false
  | some value => utf8 "websocket".toList <:+: value.map HttpRequest.toLower

/-- The response announces that the connection is closed; `requestCount` has this request. -/
def lastRequest (keepAliveMaxRequests requestCount : Nat) (request : HttpRequest) : Bool :=
  (match request.headers.find (utf8 "connection".toList) with
    | none => false
    | some value => utf8 "close".toList <:+: value) ||
  keepAliveMaxRequests ≤ requestCount

/-- The length that a request announces; `none` is an error. -/
def announcedLength (request : HttpRequest) : Option Nat :=
  match request.headers.find RequestText.contentLength with
  | none => some 0
  | some text =>
    match parseUlong text with
    | none => none
    | some contentLength => if contentLength > MAX_BODY_SIZE then none else some contentLength

/-- The loop of a plain connection, over what each `read_some` gives. -/
def handleConnection (keepAliveMaxRequests : Nat) : Nat → List (List UInt8) → List Served
  | _, [] => []
  | requestCount, read :: reads =>
    match HttpRequest.parse read with
    | none => [.rejected]
    | some request =>
      if isWebSocketUpgrade request.headers then [.upgraded request]
      else if lastRequest keepAliveMaxRequests (requestCount + 1) request then
        [.dispatched request]
      else .dispatched request :: handleConnection keepAliveMaxRequests (requestCount + 1) reads

/-- The loop of a TLS connection; a request whose body is not complete is kept. -/
def processRequest (keepAliveMaxRequests : Nat) :
    Nat → Option (HttpRequest × Nat) → List (List UInt8) → List Served
  | _, none, [] => []
  | _, some _, [] => [.rejected]
  | requestCount, none, read :: reads =>
    match HttpRequest.parse read with
    | none => [.rejected]
    | some request =>
      match announcedLength request with
      | none => [.rejected]
      | some contentLength =>
        if request.body.length < contentLength then
          processRequest keepAliveMaxRequests requestCount (some (request, contentLength)) reads
        else if lastRequest keepAliveMaxRequests (requestCount + 1) request then
          [.dispatched request]
        else
          .dispatched request :: processRequest keepAliveMaxRequests (requestCount + 1) none reads
  | requestCount, some (request, contentLength), read :: reads =>
    let request := { request with body := request.body ++ read }
    if request.body.length < contentLength then
      processRequest keepAliveMaxRequests requestCount (some (request, contentLength)) reads
    else if lastRequest keepAliveMaxRequests (requestCount + 1) request then [.dispatched request]
    else .dispatched request :: processRequest keepAliveMaxRequests (requestCount + 1) none reads

/-! ## What is meant to be served -/

/-- A plain connection ends with an upgrade. -/
def endsWithUpgrade (protocol : Protocol) (r : RequestText) : Bool :=
  protocol = .plain && isWebSocketUpgrade r.decoded.headers

/-- The requests in order, up to one with which the server announces that it closes. -/
def meant (protocol : Protocol) (keepAliveMaxRequests : Nat) : Nat → List RequestText → List Served
  | _, [] => []
  | requestCount, r :: rs =>
    if endsWithUpgrade protocol r then [.upgraded r.decoded]
    else if lastRequest keepAliveMaxRequests (requestCount + 1) r.decoded then
      [.dispatched r.decoded]
    else .dispatched r.decoded :: meant protocol keepAliveMaxRequests (requestCount + 1) rs

/-- What the server serves of a stream that comes in these reads. -/
def served (protocol : Protocol) (keepAliveMaxRequests : Nat) (reads : List (List UInt8)) :
    List Served :=
  match protocol with
  | .plain => handleConnection keepAliveMaxRequests 0 reads
  | .tls => processRequest keepAliveMaxRequests 0 none reads

/-- The reads are the stream of the requests, cut somewhere. -/
structure Cut (rs : List RequestText) (reads : List (List UInt8)) : Prop where
  stream : reads.flatten = rs.flatMap RequestText.encode
  sizes : ∀ read ∈ reads, read ≠ [] ∧ read.length ≤ READ_BUFFER_SIZE

/-- While the connection is open, a request's reads end with it and the first has its head; there
is only this one on a plain connection. -/
def Aligned (protocol : Protocol) (keepAliveMaxRequests : Nat) :
    Nat → List RequestText → List (List UInt8) → Prop
  | _, [], _ => True
  | requestCount, r :: rs, reads => ∃ start more rest,
    reads = (r.head ++ start) :: (more ++ rest) ∧ start ++ more.flatten = r.body ∧
    (protocol = .plain → more = []) ∧ r.WithinLimits ∧ r.body.length ≤ MAX_BODY_SIZE ∧
    (endsWithUpgrade protocol r = false →
      lastRequest keepAliveMaxRequests (requestCount + 1) r.decoded = false →
      Aligned protocol keepAliveMaxRequests (requestCount + 1) rs rest)

section Framing

variable {keepAliveMaxRequests requestCount : Nat} {r : RequestText} {rs : List RequestText}
  {reads more rest : List (List UInt8)} {body : List UInt8}

theorem announcedLength_decoded (hbody : r.body.length ≤ MAX_BODY_SIZE) (body : List UInt8) :
    announcedLength { r.decoded with body := body } = some r.body.length := by
  have hheaders : r.decoded.headers = RequestText.headerMap r.headers := by
    unfold RequestText.decoded
    split <;> rfl
  have hframed := r.framed
  unfold announcedLength
  dsimp only
  rw [hheaders]
  cases hfind : (RequestText.headerMap r.headers).find RequestText.contentLength with
  | none =>
    rw [hfind] at hframed
    dsimp only at hframed ⊢
    rw [hframed]
    rfl
  | some text =>
    rw [hfind] at hframed
    dsimp only at hframed ⊢
    rw [hframed]
    dsimp only
    rw [if_neg (Nat.not_lt.mpr hbody)]

theorem body_decoded (r : RequestText) : { r.decoded with body := r.body } = r.decoded := by
  unfold RequestText.decoded
  split <;> rfl

theorem flatten_pos (hmore : ∀ read ∈ more, read ≠ []) (hne : more ≠ []) :
    0 < more.flatten.length := by
  obtain ⟨next, hnext⟩ := List.exists_mem_of_ne_nil more hne
  rw [List.length_pos_iff, Ne, List.flatten_eq_nil_iff]
  exact fun h => hmore next hnext (h next hnext)

/-- After the head the reads of the body are added up. -/
theorem processRequest_body (hmore : ∀ read ∈ more, read ≠ [])
    (hbody : body ++ more.flatten = r.body) (hpending : more ≠ []) :
    processRequest keepAliveMaxRequests requestCount
      (some ({ r.decoded with body := body }, r.body.length)) (more ++ rest) =
    if lastRequest keepAliveMaxRequests (requestCount + 1) r.decoded then [.dispatched r.decoded]
    else .dispatched r.decoded :: processRequest keepAliveMaxRequests (requestCount + 1) none
      rest := by
  induction more generalizing body with
  | nil => exact absurd rfl hpending
  | cons read more ih =>
    rw [List.cons_append, processRequest]
    dsimp only
    by_cases hnil : more = []
    · subst hnil
      have hwhole : body ++ read = r.body := by
        rw [← hbody]
        simp
      rw [hwhole, if_neg (Nat.lt_irrefl _), body_decoded, List.nil_append]
    · have hflat := flatten_pos (fun other hother => hmore other (List.mem_cons_of_mem _ hother))
        hnil
      have hlength := congrArg List.length hbody
      rw [List.flatten_cons, List.length_append, List.length_append] at hlength
      rw [if_pos (by rw [List.length_append]; omega)]
      exact ih (fun other hother => hmore other (List.mem_cons_of_mem _ hother))
        (by rw [← hbody, List.flatten_cons, List.append_assoc]) hnil

theorem Cut.nil (hcut : Cut [] reads) : reads = [] := by
  cases reads with
  | nil => rfl
  | cons read reads =>
    have hstream := hcut.stream
    rw [List.flatten_cons] at hstream
    exact absurd (List.append_eq_nil_iff.mp hstream).1 (hcut.sizes read List.mem_cons_self).1

/-- Behind the reads of a request are those of the others. -/
theorem Cut.behind {start : List UInt8}
    (hcut : Cut (r :: rs) ((r.head ++ start) :: (more ++ rest)))
    (hbody : start ++ more.flatten = r.body) : Cut rs rest := by
  constructor
  · have hstream := hcut.stream
    rw [List.flatten_cons, List.flatten_append, List.flatMap_cons, RequestText.encode, ← hbody,
      ← List.append_assoc, List.append_assoc r.head] at hstream
    exact List.append_cancel_left hstream
  · exact fun read hread =>
      hcut.sizes read (List.mem_cons_of_mem _ (List.mem_append_right _ hread))

/-- A plain connection whose reads are the requests. -/
theorem handleConnection_aligned (hcut : Cut rs reads)
    (haligned : Aligned .plain keepAliveMaxRequests requestCount rs reads) :
    handleConnection keepAliveMaxRequests requestCount reads =
      meant .plain keepAliveMaxRequests requestCount rs := by
  induction rs generalizing reads requestCount with
  | nil =>
    rw [hcut.nil]
    rfl
  | cons r rs ih =>
    obtain ⟨start, more, rest, rfl, hbody, hplain, hlimits, -, hnext⟩ := haligned
    have hrest := hcut.behind hbody
    obtain rfl := hplain rfl
    have hstart : start = r.body := by
      rw [← hbody]
      simp
    rw [handleConnection, RequestText.parse_head hlimits, hstart, body_decoded, meant]
    have hupgrade : endsWithUpgrade .plain r = isWebSocketUpgrade r.decoded.headers :=
      Bool.true_and _
    rw [hupgrade] at hnext ⊢
    dsimp only
    cases hup : isWebSocketUpgrade r.decoded.headers with
    | true => rfl
    | false =>
      rw [if_neg Bool.false_ne_true, if_neg Bool.false_ne_true]
      cases hlast : lastRequest keepAliveMaxRequests (requestCount + 1) r.decoded with
      | true => rfl
      | false =>
        rw [if_neg Bool.false_ne_true, if_neg Bool.false_ne_true, List.nil_append,
          ih hrest (hnext hup hlast)]

/-- A TLS connection whose first reads have the heads. -/
theorem processRequest_aligned (hcut : Cut rs reads)
    (haligned : Aligned .tls keepAliveMaxRequests requestCount rs reads) :
    processRequest keepAliveMaxRequests requestCount none reads =
      meant .tls keepAliveMaxRequests requestCount rs := by
  induction rs generalizing reads requestCount with
  | nil =>
    rw [hcut.nil]
    rfl
  | cons r rs ih =>
    obtain ⟨start, more, rest, rfl, hbody, -, hlimits, hle, hnext⟩ := haligned
    have hrest := hcut.behind hbody
    have hmore : ∀ read ∈ more, read ≠ [] := fun read hread =>
      (hcut.sizes read (List.mem_cons_of_mem _ (List.mem_append_left _ hread))).1
    have hlength := congrArg List.length hbody
    rw [List.length_append] at hlength
    have hserved : processRequest keepAliveMaxRequests requestCount none
          ((r.head ++ start) :: (more ++ rest)) =
        if lastRequest keepAliveMaxRequests (requestCount + 1) r.decoded then
          [.dispatched r.decoded]
        else .dispatched r.decoded :: processRequest keepAliveMaxRequests (requestCount + 1) none
          rest := by
      rw [processRequest, RequestText.parse_head hlimits]
      dsimp only
      rw [announcedLength_decoded hle]
      dsimp only
      by_cases hnil : more = []
      · subst hnil
        have hstart : start = r.body := by
          rw [← hbody]
          simp
        rw [hstart, if_neg (Nat.lt_irrefl _), body_decoded, List.nil_append]
      · have hpositive := flatten_pos hmore hnil
        rw [if_pos (by omega)]
        exact processRequest_body hmore hbody hnil
    have hupgrade : endsWithUpgrade .tls r = false := rfl
    rw [hserved, meant, hupgrade, if_neg Bool.false_ne_true]
    cases hlast : lastRequest keepAliveMaxRequests (requestCount + 1) r.decoded with
    | true => rfl
    | false =>
      rw [if_neg Bool.false_ne_true, if_neg Bool.false_ne_true, ih hrest (hnext hupgrade hlast)]

/-- The stream cut after each byte. -/
theorem cut_bytes (rs : List RequestText) :
    Cut rs ((rs.flatMap RequestText.encode).map fun c => [c]) where
  stream := by
    induction rs.flatMap RequestText.encode with
    | nil => rfl
    | cons c stream ih => rw [List.map_cons, List.flatten_cons, ih]; rfl
  sizes read hread := by
    obtain ⟨c, -, rfl⟩ := List.mem_map.mp hread
    exact ⟨List.cons_ne_nil c [], by simp [READ_BUFFER_SIZE]⟩

/-- One byte is no request. -/
theorem parse_byte (c : UInt8) : HttpRequest.parse [c] = none := by
  have hline : HttpRequest.cutLine [c] = none := by
    rw [HttpRequest.cutLine]
    · rfl
    · intro t _ h
      cases h
  unfold HttpRequest.parse
  rw [hline]
  rfl

/-- After its first byte a stream is given up. -/
theorem served_bytes (protocol : Protocol) (keepAliveMaxRequests : Nat) (r : RequestText)
    (rs : List RequestText) :
    served protocol keepAliveMaxRequests
      (((r :: rs).flatMap RequestText.encode).map fun c => [c]) = [.rejected] := by
  obtain ⟨c, stream, hstream⟩ : ∃ c stream, (r :: rs).flatMap RequestText.encode = c :: stream := by
    obtain ⟨c, method, hmethod⟩ := List.exists_cons_of_ne_nil r.method_token.1
    rw [List.flatMap_cons, RequestText.encode, RequestText.head, RequestText.requestLine, hmethod]
    exact ⟨c, _, rfl⟩
  rw [hstream, List.map_cons]
  unfold served
  cases protocol with
  | plain =>
    dsimp only
    rw [handleConnection, parse_byte]
  | tls =>
    dsimp only
    rw [processRequest, parse_byte]

theorem meant_ne_rejected (protocol : Protocol) (keepAliveMaxRequests : Nat) (r : RequestText)
    (rs : List RequestText) :
    meant protocol keepAliveMaxRequests 0 (r :: rs) ≠ [.rejected] := by
  intro h
  rw [meant] at h
  split at h
  · cases h
  · split at h <;> cases h

end Framing

/-- Requests are served as they were written if the reads end where requests end; and only the empty
stream is served so for every cut. -/
theorem framed (protocol : Protocol) (keepAliveMaxRequests : Nat) (rs : List RequestText) :
    (∀ reads, Cut rs reads → Aligned protocol keepAliveMaxRequests 0 rs reads →
      served protocol keepAliveMaxRequests reads = meant protocol keepAliveMaxRequests 0 rs) ∧
    ((∀ reads, Cut rs reads →
      served protocol keepAliveMaxRequests reads = meant protocol keepAliveMaxRequests 0 rs) ↔
      rs = []) := by
  refine ⟨fun reads hcut haligned => ?_, fun h => ?_, ?_⟩
  · cases protocol with
    | plain => exact handleConnection_aligned hcut haligned
    | tls => exact processRequest_aligned hcut haligned
  · cases rs with
    | nil => rfl
    | cons r rs =>
      have hbytes := h _ (cut_bytes (r :: rs))
      rw [served_bytes] at hbytes
      exact absurd hbytes.symm (meant_ne_rejected protocol keepAliveMaxRequests r rs)
  · rintro rfl reads hcut
    rw [hcut.nil]
    cases protocol <;> rfl

/-- A request without headers. -/
def rootRequest : RequestText where
  method := utf8 ['G', 'E', 'T']
  target := utf8 ['/']
  headers := []
  body := []
  method_token := by decide +kernel
  target_plain := ⟨by decide +kernel, by decide +kernel⟩
  headers_plain _ h := by cases h
  framed := rfl

/-- A request with one byte behind its head. -/
def byteRequest : RequestText where
  method := utf8 ['P', 'U', 'T']
  target := utf8 ['/']
  headers := [(RequestText.contentLength, utf8 ['1'])]
  body := utf8 ['x']
  method_token := by decide +kernel
  target_plain := ⟨by decide +kernel, by decide +kernel⟩
  headers_plain := by decide +kernel
  framed := by
    have hfind : (RequestText.headerMap [(RequestText.contentLength, utf8 ['1'])]).find
        RequestText.contentLength = some (utf8 ['1']) := by decide +kernel
    rw [hfind]
    decide +kernel

/-- Two requests, the first with its body in a read of its own. -/
theorem twoRequests_framed :
    served .tls 100 [byteRequest.head, byteRequest.body, rootRequest.encode] =
      meant .tls 100 0 [byteRequest, rootRequest] := by
  have hcut : Cut [byteRequest, rootRequest]
      [byteRequest.head, byteRequest.body, rootRequest.encode] := by
    refine ⟨by simp [RequestText.encode], ?_⟩
    decide +kernel
  have hlast : Aligned .tls 100 1 [rootRequest] [rootRequest.encode] :=
    ⟨[], [], [], rfl, rfl, nofun, ⟨by decide, fun _ h => by cases h⟩, by decide +kernel,
      fun _ _ => trivial⟩
  have hfirst : byteRequest.WithinLimits := by
    refine ⟨by decide, ?_⟩
    decide +kernel
  exact (framed .tls 100 [byteRequest, rootRequest]).1 _ hcut
    ⟨[], [byteRequest.body], [rootRequest.encode], by simp, by simp, nofun, hfirst,
      by decide +kernel, fun _ _ => hlast⟩

/-- The body that comes in a read of its own is taken as another request. -/
theorem bodyApart_not_framed :
    ¬ ∀ (protocol : Protocol) (keepAliveMaxRequests : Nat) (rs : List RequestText)
      (reads : List (List UInt8)), Cut rs reads →
      served protocol keepAliveMaxRequests reads = meant protocol keepAliveMaxRequests 0 rs := by
  intro h
  have hserved := congrArg List.length
    (h .plain 100 [byteRequest] [byteRequest.head, byteRequest.body]
      ⟨by simp [RequestText.encode], by decide +kernel⟩)
  revert hserved
  decide +kernel

end HttpServer

end Alpine
