import Alpine.Protocol.QueryPacketRoundTrip
import Alpine.Protocol.ResultsSteps

/-!
# Retrieving the resources of a peer

A peer offers its resources and sends them in parts, each the answer to a request of the results.
`Retrieved` says that every part is taken, that the next request asks for exactly what is left, and
that in the end all resources are there in order. It does not come to that: `readData` looks for the
number of resources of a reply with `ntohl` in two bytes, so no reply is ever read; and a reply does
not carry the offset it is for, so that the second part of a result would look like a duplicate of
the first (`retrieved_iff`).
-/

namespace Alpine

open Lib DataBuffer

variable {π δ : Type}

/-! ## On the wire -/

theorem storeLE_mod (n v : Nat) : storeLE n (v % 256 ^ n) = storeLE n v := by
  have h := storeLE_loadLE (storeLE n v)
  rwa [loadLE_storeLE, length_storeLE] at h

theorem putLong_mod (v : Nat) : putLong (v % 2 ^ 32) = putLong v := by
  have hmod : storeLE 4 (v % 2 ^ 32) = storeLE 4 v := storeLE_mod 4 v
  unfold putLong htonl swap
  rw [hmod]

theorem load_lt {size v : Nat} {curr rest : List UInt8} (h : load size curr = .ok (v, rest)) :
    v < 256 ^ size := by
  unfold load at h
  split at h
  · cases h
  · next hle =>
    injection h with h
    injection h with hv _
    have hlt := loadLE_lt (curr.take size)
    rw [List.length_take, Nat.min_eq_left (by omega)] at hlt
    rwa [← hv]

/-- Whatever the two bytes are, what is read from them is 0 or more than a set may have. -/
theorem getShortByNtohl_cases {curr rest : List UInt8} {v : Nat}
    (h : getShortByNtohl curr = .ok (v, rest)) : v = 0 ∨ maxReplySetSize < v := by
  unfold getShortByNtohl at h
  cases hload : load sizeofShort curr with
  | error e =>
    rw [hload] at h
    cases h
  | ok loaded =>
    obtain ⟨word, after⟩ := loaded
    rw [hload] at h
    injection h with h
    injection h with hv _
    have hword : word < 2 ^ 16 := load_lt hload
    rw [← hv, ntohlShort_eq hword]
    split
    · exact .inl rfl
    · exact .inr (by decide)

variable [QueryOptionData δ]

/-- The loop for no resources does not end with a list. -/
theorem ResourceDesc.readList_zero (fuel : Nat) (list : List (ResourceDesc δ)) (b : DataBuffer)
    (r : List (ResourceDesc δ) × DataBuffer) : readList 0 fuel list b ≠ .ok r := by
  induction fuel generalizing list b with
  | zero =>
    intro h
    cases h
  | succ fuel ih =>
    intro h
    unfold readList at h
    obtain ⟨⟨desc, b'⟩, -, hrest⟩ := bind_eq_ok.mp h
    dsimp only at hrest
    rw [if_neg (by simp)] at hrest
    exact ih _ _ hrest

/-- No bytes are a reply. -/
theorem QueryPacket.readData_reply (b : DataBuffer) (r : QueryPacket π δ × DataBuffer) :
    (fresh .queryReply : QueryPacket π δ).readData b ≠ .ok r := by
  intro h
  unfold readData at h
  cases hb : b.getReadBuffer with
  | none =>
    rw [hb] at h
    cases h
  | some buffer =>
    rw [hb] at h
    dsimp only at h
    split at h
    · cases h
    obtain ⟨⟨queryId, curr⟩, -, h⟩ := bind_eq_ok.mp h
    obtain ⟨⟨q, b'⟩, hbody, -⟩ := bind_eq_ok.mp h
    have hreply : ({ (fresh .queryReply : QueryPacket π δ) with queryId }).readReply sizeofLong curr
        b = .ok (q, b') := hbody
    unfold readReply at hreply
    obtain ⟨⟨replySetSize, rest⟩, hsize, hreply⟩ := bind_eq_ok.mp hreply
    dsimp only at hreply
    rcases getShortByNtohl_cases hsize with rfl | hmany
    · rw [if_neg (by decide)] at hreply
      unfold readResourceListData at hreply
      obtain ⟨⟨list, b''⟩, hlist, -⟩ := bind_eq_ok.mp hreply
      exact ResourceDesc.readList_zero _ _ _ _ hlist
    · rw [if_pos hmany] at hreply
      cases hreply

/-- What the reader makes of a packet that is written to a buffer of this size. -/
def overWire [StackLinkInterface π] (size : UInt32) (p : QueryPacket π δ) :
    Option (QueryPacket π δ) :=
  match p.writeData (ofSize size.toNat) with
  | (false, _) => none
  | (true, linkBuffer) =>
    match (QueryPacket.fresh p.packetType).readData (ofData linkBuffer.getData) with
    | .error _ => none
    | .ok (q, _) => some q

theorem overWire_reply [StackLinkInterface π] (size : UInt32) {p : QueryPacket π δ}
    (hty : p.packetType = .queryReply) : overWire size p = none := by
  unfold overWire
  split
  · rfl
  · next linkBuffer _ =>
    cases hread : (QueryPacket.fresh p.packetType : QueryPacket π δ).readData
        (ofData linkBuffer.getData) with
    | error e => rfl
    | ok r =>
      rw [hty] at hread
      exact absurd hread (QueryPacket.readData_reply _ r)

/-! ## The conversation -/

/-- A part of the result, and what the unset variable of `verifyQueryReply` holds when it comes. -/
structure Part (δ : Type) where
  verifyId : Nat
  chunk : List (ResourceDesc δ)
  nonempty : chunk ≠ []

structure Conversation (δ : Type) where
  /-- The buffers have room for an offer. -/
  size : UInt32
  room : 27 ≤ size.toNat
  queryId : Nat
  peerId : Nat
  /-- What the unset variable of `verifyQueryOffer` holds. -/
  offerId : Nat
  parts : List (Part δ)

namespace Conversation

variable (c : Conversation δ)

def resources : List (ResourceDesc δ) := c.parts.flatMap (·.chunk)

/-- The packets of the peer have the id that it read from the query. -/
def offer : QueryPacket π δ :=
  { QueryPacket.fresh .queryOffer with
    queryId := c.queryId % 2 ^ 32, numHits := c.resources.length }

def reply (offset : Nat) (chunk : List (ResourceDesc δ)) : QueryPacket π δ :=
  { QueryPacket.fresh .queryReply with
    queryId := c.queryId % 2 ^ 32, offset, replySetSize := chunk.length, resourceList := some chunk }

/-- The next request is for what is left of the resources. -/
structure Asks (received : Nat) (request : QueryPacket π δ) : Prop where
  packetType : request.packetType = .queryRequest
  queryId : request.queryId = c.queryId
  offset : request.offset = received
  replySetSize : request.replySetSize = c.resources.length - received

/-- The results have these resources of the peer, and no duplicate. -/
def Holds (r : QueryResults δ) (received : List (ResourceDesc δ)) : Prop :=
  ∃ state, r.replyIndex.find c.peerId = some state ∧ state.duplicateCount = 0 ∧
    state.resourceDescSet = received

/-- For the query and the peer these are the same results: other peers may have answered. -/
structure SameFor (peerId : Nat) (r r' : QueryResults δ) : Prop where
  queryId : r'.queryId = r.queryId
  queryOptions : r'.queryOptions = r.queryOptions
  state : r'.replyIndex.find peerId = r.replyIndex.find peerId

/-- Each part comes when the one before it was taken, whatever other peers did in the meantime. -/
def PartsTaken [ResourceHash] (deliver : QueryPacket π δ → Option (QueryPacket π δ)) :
    QueryResults δ → List (ResourceDesc δ) → List (Part δ) → Prop
  | r, received, [] => c.Holds r c.resources ∧ received = c.resources
  | r, received, part :: parts => ∀ r₁, SameFor c.peerId r r₁ →
    ∃ packet r' request, deliver (c.reply received.length part.chunk) = some packet ∧
      r₁.processQueryReply c.peerId part.verifyId packet = (true, r', [], some request) ∧
      c.Holds r' (received ++ part.chunk) ∧
      c.Asks (received ++ part.chunk).length (request : QueryPacket π δ) ∧
      PartsTaken deliver r' (received ++ part.chunk) parts

/-- The offer is taken as well, by any results of the query that have no state of the peer. -/
def Retrieved [ResourceHash] [StackLinkInterface π]
    (deliver : QueryPacket π δ → Option (QueryPacket π δ)) (queryOptions : QueryOptions) : Prop :=
  ∀ r : QueryResults δ, r.queryId = c.queryId → r.queryOptions = queryOptions →
    r.replyIndex.find c.peerId = none →
    ∃ packet r' request, overWire c.size (c.offer : QueryPacket π δ) = some packet ∧
      r.processQueryOffer c.peerId c.offerId packet = (true, r', [], some request) ∧
      c.Holds r' [] ∧ c.Asks 0 (request : QueryPacket π δ) ∧ c.PartsTaken deliver r' [] c.parts

/-! ### The offer on the wire -/

section Offer

variable {c}

/-- The offer as it fits the wire. -/
def offerOf (c : Conversation δ) (numHits : Nat) : QueryPacket π δ :=
  { QueryPacket.fresh .queryOffer with queryId := c.queryId % 2 ^ 32, numHits }

omit [QueryOptionData δ] in
theorem offer_eq : (c.offer : QueryPacket π δ) = c.offerOf c.resources.length := rfl

theorem writeData_offerOf [StackLinkInterface π] (numHits : Nat) (b : DataBuffer) :
    (c.offerOf numHits : QueryPacket π δ).writeData b =
      (c.offerOf (numHits % 2 ^ 32) : QueryPacket π δ).writeData b := by
  have hfields : (c.offerOf numHits : QueryPacket π δ).fixedFields =
      (c.offerOf (numHits % 2 ^ 32) : QueryPacket π δ).fixedFields := by
    have hhits : putLong (c.offerOf (numHits % 2 ^ 32) : QueryPacket π δ).numHits =
        putLong (c.offerOf numHits : QueryPacket π δ).numHits := putLong_mod numHits
    show putLong _ ++ putLong _ ++ putShort _ ++ putLong _ =
      putLong _ ++ putLong _ ++ putShort _ ++ putLong _
    rw [hhits]
    rfl
  unfold QueryPacket.writeData
  rw [hfields]
  rfl

theorem offerOf_fitsWire (numHits : Nat) (h : numHits < 2 ^ 32) :
    (c.offerOf numHits : QueryPacket π δ).FitsWire (fun _ => []) (ofSize c.size.toNat) where
  type := fun h => by cases h
  parent := rfl
  queryId := Nat.mod_lt _ (Nat.two_pow_pos 32)
  optionId := Nat.two_pow_pos 32
  numHits := h
  offset := Nat.two_pow_pos 32
  uploadSlots := Nat.two_pow_pos 16
  replySetSize := Nat.two_pow_pos 16
  queryString := by
    show CString.empty.size < maxStringLen
    decide
  option := fun _ => .inl rfl
  resources := fun h => by cases h
  writable := writable_ofSize _ c.size.toNat_lt
  room := by
    have hwire : ((c.offerOf numHits : QueryPacket π δ).wire fun _ => []).length = 27 := by
      show (putLong _ ++ putLong _ ++ putShort _ ++ putLong _ ++ ([] ++ [_])).length = 27
      simp
    rw [hwire]
    exact c.room

/-- By design an offer of too many hits is not read; the field has 32 bits on the wire. -/
theorem overWire_offer [StackLinkInterface π] :
    (maxHits < c.resources.length % 2 ^ 32 →
      overWire c.size (c.offer : QueryPacket π δ) = none) ∧
    (c.resources.length % 2 ^ 32 ≤ maxHits →
      ∃ uploadSlots, overWire c.size (c.offer : QueryPacket π δ) =
        some { c.offerOf (c.resources.length % 2 ^ 32) with uploadSlots }) := by
  have hfits := offerOf_fitsWire (π := π) (c := c) (c.resources.length % 2 ^ 32)
    (Nat.mod_lt _ (Nat.two_pow_pos 32))
  obtain ⟨hstatus, hwrote⟩ := hfits.wrote
  unfold overWire
  rw [offer_eq, writeData_offerOf]
  generalize hw : (c.offerOf (c.resources.length % 2 ^ 32) : QueryPacket π δ).writeData
    (ofSize c.size.toNat) = written at hstatus hwrote ⊢
  obtain ⟨status, linkBuffer⟩ := written
  dsimp only at hstatus hwrote
  rw [hstatus]
  dsimp only
  have hdata : linkBuffer.getData =
      (c.offerOf (c.resources.length % 2 ^ 32) : QueryPacket π δ).wire fun _ => [] := hwrote.data
  rw [hdata]
  constructor
  · intro hmany
    have hrefused : (QueryPacket.fresh (c.offerOf c.resources.length : QueryPacket π δ).packetType :
        QueryPacket π δ).readData (ofData ((c.offerOf (c.resources.length % 2 ^ 32) :
          QueryPacket π δ).wire fun _ => [])) = .error .failed := hfits.offer_refused rfl hmany
    rw [hrefused]
  · intro hfew
    obtain ⟨b', hread, -⟩ := hfits.readsBack_offer rfl hfew
    have hback : (QueryPacket.fresh (c.offerOf c.resources.length : QueryPacket π δ).packetType :
        QueryPacket π δ).readData (ofData ((c.offerOf (c.resources.length % 2 ^ 32) :
          QueryPacket π δ).wire fun _ => [])) = .ok (_, b') := hread
    rw [hback]
    exact ⟨_, rfl⟩

end Offer

/-! ### The rounds -/

variable {c} {queryOptions : QueryOptions}

omit [QueryOptionData δ] in
/-- The request after an offer or a reply is for the rest, if no more was expected than there is
room for. -/
theorem asks_iff {r : QueryResults δ} (hid : r.queryId = c.queryId) (state : ReplyState δ)
    (hle : state.currOffset ≤ state.expectedTotal) (hlt : state.expectedTotal < 2 ^ 64) :
    c.Asks state.currOffset (r.populateQueryRequest state : QueryPacket π δ) ↔
      min (state.expectedTotal - state.currOffset) ushrtMax =
        c.resources.length - state.currOffset := by
  have hsize : (state.expectedTotal + 2 ^ 64 - state.currOffset) % 2 ^ 64 =
      state.expectedTotal - state.currOffset := by
    have hsplit : state.expectedTotal + 2 ^ 64 - state.currOffset =
        (state.expectedTotal - state.currOffset) + 2 ^ 64 := by omega
    rw [hsplit, Nat.add_mod_right, Nat.mod_eq_of_lt (by omega)]
  constructor
  · intro h
    have := h.replySetSize
    unfold QueryResults.populateQueryRequest at this
    dsimp only at this
    rwa [hsize] at this
  · intro h
    refine ⟨rfl, hid, rfl, ?_⟩
    unfold QueryResults.populateQueryRequest
    dsimp only
    rw [hsize, h]

omit [QueryOptionData δ] in
theorem resources_nil (h : c.parts = []) : c.resources = [] := by
  unfold resources
  rw [h]
  rfl

omit [QueryOptionData δ] in
/-- What is asked for after the offer. -/
theorem asks_opened_iff {r : QueryResults δ} (hid : r.queryId = c.queryId)
    (hoptions : r.queryOptions = queryOptions) {numHits : Nat}
    (hhits : numHits = c.resources.length % 2 ^ 32) (hfew : numHits ≤ maxHits) :
    c.Asks 0 (r.populateQueryRequest (r.opened c.peerId numHits) : QueryPacket π δ) ↔
      c.resources.length ≤ maxHits ∧ c.resources.length ≤ queryOptions.maxDescPerPeer := by
  have hfew' : numHits ≤ 10000 := hfew
  have hasks := asks_iff (π := π) hid (r.opened c.peerId numHits) (Nat.zero_le _)
    (lt_of_le_of_lt (Nat.min_le_left _ _) (by omega))
  refine Iff.trans hasks ?_
  show min (min numHits r.queryOptions.maxDescPerPeer - 0) ushrtMax = c.resources.length - 0 ↔
    c.resources.length ≤ 10000 ∧ _
  rw [hoptions]
  unfold ushrtMax
  omega

omit [QueryOptionData δ] in
theorem holds_opened (r : QueryResults δ) (numHits : Nat) :
    c.Holds (r.withOffer c.peerId numHits) [] :=
  ⟨_, by rw [QueryResults.find_withOffer, if_pos rfl], rfl, rfl⟩

omit [QueryOptionData δ] in
theorem length_wire (hmax : c.resources.length ≤ maxHits) :
    c.resources.length % 2 ^ 32 = c.resources.length := by
  have hlimit : maxHits = 10000 := rfl
  omega

/-- The conversation up to the first part. -/
theorem retrieved_iff_parts [ResourceHash] [StackLinkInterface π]
    (deliver : QueryPacket π δ → Option (QueryPacket π δ)) :
    c.Retrieved deliver queryOptions ↔ c.offerId = c.queryId ∧ c.resources.length ≤ maxHits ∧
      c.resources.length ≤ queryOptions.maxDescPerPeer ∧
      ∀ r : QueryResults δ, r.queryId = c.queryId → r.queryOptions = queryOptions →
        r.replyIndex.find c.peerId = none →
          c.PartsTaken deliver (r.withOffer c.peerId c.resources.length) [] c.parts := by
  have hpass : ∀ (r : QueryResults δ) uploadSlots, r.queryId = c.queryId →
      (r.OfferPasses c.offerId ({ c.offerOf (c.resources.length % 2 ^ 32) with uploadSlots } :
        QueryPacket π δ) ↔ c.offerId = c.queryId) := by
    intro r uploadSlots hid
    rw [← hid]
    exact ⟨fun h => h.2, fun h => ⟨rfl, h⟩⟩
  constructor
  · intro h
    have hsome := h (QueryResults.new c.queryId queryOptions) rfl rfl rfl
    obtain ⟨packet, r', request, hwire, hprocess, -, hasks, -⟩ := hsome
    rcases Nat.lt_or_ge maxHits (c.resources.length % 2 ^ 32) with hmany | hfew
    · rw [(overWire_offer (π := π)).1 hmany] at hwire
      cases hwire
    · obtain ⟨uploadSlots, hsent⟩ := (overWire_offer (π := π)).2 hfew
      rw [hsent] at hwire
      cases hwire
      have hid : c.offerId = c.queryId := by
        by_contra hne
        rw [QueryResults.processQueryOffer_refused
          (fun hp => hne ((hpass _ uploadSlots rfl).mp hp))] at hprocess
        cases hprocess
      have hnone : (QueryResults.new c.queryId queryOptions : QueryResults δ).replyIndex.find
          c.peerId = none := rfl
      have hopens := QueryResults.processQueryOffer_opens
        ((hpass (QueryResults.new c.queryId queryOptions) uploadSlots rfl).mpr hid) hnone
      rw [hopens] at hprocess
      cases hprocess
      obtain ⟨hmax, hdesc⟩ := (asks_opened_iff rfl rfl rfl hfew).mp hasks
      refine ⟨hid, hmax, hdesc, fun r hr ho hn => ?_⟩
      obtain ⟨packet, r', request, hwire, hprocess, -, -, hparts⟩ := h r hr ho hn
      rw [hsent] at hwire
      cases hwire
      rw [QueryResults.processQueryOffer_opens ((hpass r uploadSlots hr).mpr hid) hn] at hprocess
      cases hprocess
      rw [← length_wire hmax]
      exact hparts
  · rintro ⟨hid, hmax, hdesc, hparts⟩ r hr ho hn
    obtain ⟨uploadSlots, hsent⟩ := (overWire_offer (π := π)).2 (by rw [length_wire hmax]; exact hmax)
    refine ⟨_, _, _, hsent,
      QueryResults.processQueryOffer_opens ((hpass r uploadSlots hr).mpr hid) hn,
      holds_opened r _, ?_, ?_⟩
    · exact (asks_opened_iff hr ho rfl (by rw [length_wire hmax]; exact hmax)).mpr ⟨hmax, hdesc⟩
    · have hparts := hparts r hr ho hn
      rw [← length_wire hmax] at hparts
      exact hparts

/-- No reply is read from the wire. -/
theorem partsTaken_overWire_iff [ResourceHash] [StackLinkInterface π] {r : QueryResults δ}
    (numHits : Nat) :
    c.PartsTaken (overWire c.size : QueryPacket π δ → _) (r.withOffer c.peerId numHits) [] c.parts ↔
      c.parts = [] := by
  constructor
  · intro h
    cases hparts : c.parts with
    | nil => rfl
    | cons part parts =>
      rw [hparts] at h
      obtain ⟨packet, r', request, hwire, -⟩ := h _ ⟨rfl, rfl, rfl⟩
      rw [overWire_reply c.size rfl] at hwire
      cases hwire
  · intro hnil
    rw [hnil]
    unfold PartsTaken
    rw [resources_nil hnil]
    exact ⟨holds_opened r numHits, rfl⟩

omit [QueryOptionData δ] in
/-- A reply has no offset, so that only the first part is at the offset that was asked for. -/
theorem partsTaken_carried_iff [ResourceHash] {r : QueryResults δ} (hid : r.queryId = c.queryId)
    (hoptions : r.queryOptions = queryOptions) (hmax : c.resources.length ≤ maxHits)
    (hdesc : c.resources.length ≤ queryOptions.maxDescPerPeer) :
    c.PartsTaken (fun p : QueryPacket π δ => some p.carried)
        (r.withOffer c.peerId c.resources.length) [] c.parts ↔
      c.parts.length ≤ 1 ∧ ∀ part ∈ c.parts, part.verifyId = c.queryId := by
  have hopened : (r.withOffer c.peerId c.resources.length).replyIndex.find c.peerId =
      some (r.opened c.peerId c.resources.length) := by
    rw [QueryResults.find_withOffer, if_pos rfl]
  constructor
  · intro h
    cases hparts : c.parts with
    | nil => exact ⟨Nat.zero_le _, fun part hmem => by cases hmem⟩
    | cons part parts =>
      rw [hparts] at h
      obtain ⟨packet, r', request, hsent, hprocess, hholds, -, hrest⟩ := h _ ⟨rfl, rfl, rfl⟩
      cases hsent
      obtain ⟨state, hm, -⟩ := QueryResults.processQueryReply_true hprocess
      have hverify : part.verifyId = c.queryId := hm.id.trans hid
      cases parts with
      | nil =>
        refine ⟨Nat.le_refl _, fun part' hmem => ?_⟩
        rw [List.mem_singleton.mp hmem]
        exact hverify
      | cons part₂ parts =>
        -- the second reply looks like a duplicate of the first
        obtain ⟨packet, r'', request₂, hsent, hprocess₂, -⟩ := hrest _ ⟨rfl, rfl, rfl⟩
        cases hsent
        obtain ⟨state₂, hm₂, hoffset⟩ := QueryResults.processQueryReply_true hprocess₂
        obtain ⟨state', hfind, -, hset⟩ := hholds
        have hsame : state' = state₂ := Option.some.inj (hfind.symm.trans hm₂.found)
        have hzero : 0 = state₂.resourceDescSet.length := hoffset
        rw [← hsame, hset, List.nil_append] at hzero
        exact absurd (List.length_eq_zero_iff.mp hzero.symm) part.nonempty
  · rintro ⟨hone, hverify⟩
    cases hparts : c.parts with
    | nil =>
      unfold PartsTaken
      rw [resources_nil hparts]
      exact ⟨holds_opened r _, rfl⟩
    | cons part parts =>
      rw [hparts] at hone hverify
      cases parts with
      | cons part₂ parts =>
        simp only [List.length_cons] at hone
        omega
      | nil =>
        have hall : c.resources = part.chunk := by
          unfold resources
          rw [hparts]
          simp
        have hlimit : maxHits = 10000 := rfl
        intro r₁ hsame
        have hm : r₁.ReplyMatches c.peerId part.verifyId
            (c.reply 0 part.chunk : QueryPacket π δ).carried
              (r.opened c.peerId c.resources.length) := by
          refine ⟨rfl, ?_, ?_⟩
          · rw [hverify part (List.mem_singleton_self part), hsame.queryId]
            exact hid.symm
          · rw [hsame.state, hopened]
        have hfull : ((r.opened c.peerId c.resources.length).add part.chunk).currOffset =
            part.chunk.length := rfl
        have htotal : ((r.opened c.peerId c.resources.length).add part.chunk).expectedTotal =
            part.chunk.length := by
          show min c.resources.length r.queryOptions.maxDescPerPeer = _
          rw [hoptions, Nat.min_eq_left hdesc, hall]
        have hholds : c.Holds (r₁.withReply c.peerId (r.opened c.peerId c.resources.length)
            part.chunk) ([] ++ part.chunk) :=
          ⟨_, by rw [QueryResults.find_withReply, if_pos rfl], rfl, rfl⟩
        refine ⟨_, _, _, rfl, QueryResults.processQueryReply_adds hm rfl rfl, hholds, ?_, ?_⟩
        · have hasks := asks_iff (π := π) (hsame.queryId.trans hid)
            ((r.opened c.peerId c.resources.length).add part.chunk) (by omega) (by
              rw [hall] at hmax
              omega)
          have hnone := hasks.mpr (by rw [htotal, hfull, hall, Nat.sub_self]; rfl)
          exact hnone
        · obtain ⟨state, hfind, hcount, hset⟩ := hholds
          exact ⟨⟨state, hfind, hcount, hset.trans hall.symm⟩, hall.symm⟩

/-- A result is retrieved over the wire exactly if it is empty; if the resources of a reply were
read as they were sent, it would be exactly if it comes in one part. -/
theorem retrieved_iff [ResourceHash] [StackLinkInterface π] (c : Conversation δ)
    (queryOptions : QueryOptions) :
    (c.Retrieved (overWire c.size : QueryPacket π δ → _) queryOptions ↔
      c.offerId = c.queryId ∧ c.parts = []) ∧
    (c.Retrieved (fun p : QueryPacket π δ => some p.carried) queryOptions ↔
      c.offerId = c.queryId ∧ c.resources.length ≤ maxHits ∧
        c.resources.length ≤ queryOptions.maxDescPerPeer ∧
        c.parts.length ≤ 1 ∧ ∀ part ∈ c.parts, part.verifyId = c.queryId) := by
  constructor
  · rw [retrieved_iff_parts]
    constructor
    · rintro ⟨hid, -, -, hparts⟩
      have h := hparts (QueryResults.new c.queryId queryOptions) rfl rfl rfl
      exact ⟨hid, (partsTaken_overWire_iff _).mp h⟩
    · rintro ⟨hid, hnil⟩
      have hzero : c.resources.length = 0 := by
        rw [resources_nil hnil]
        rfl
      exact ⟨hid, by omega, by omega, fun r _ _ _ => (partsTaken_overWire_iff _).mpr hnil⟩
  · rw [retrieved_iff_parts]
    constructor
    · rintro ⟨hid, hmax, hdesc, hparts⟩
      have h := hparts (QueryResults.new c.queryId queryOptions) rfl rfl rfl
      exact ⟨hid, hmax, hdesc, (partsTaken_carried_iff rfl rfl hmax hdesc).mp h⟩
    · rintro ⟨hid, hmax, hdesc, hone⟩
      exact ⟨hid, hmax, hdesc,
        fun r hr ho _ => (partsTaken_carried_iff hr ho hmax hdesc).mpr hone⟩

/-- A peer with two resources, which it sends one by one. -/
def twoParts : Conversation ByteOption where
  size := 100
  room := by decide
  queryId := 7
  peerId := 5
  offerId := 7
  parts := [⟨7, [⟨1, 1000, [], .empty, none⟩], List.cons_ne_nil _ _⟩,
    ⟨7, [⟨2, 2000, [], .empty, none⟩], List.cons_ne_nil _ _⟩]

theorem twoParts_not_retrieved :
    let _ := ResourceHash.bySize
    let options : QueryOptions := ⟨"default", .empty, 100, 128⟩
    ¬ twoParts.Retrieved (overWire 100 : QueryPacket Empty ByteOption → _) options ∧
      ¬ twoParts.Retrieved (fun p : QueryPacket Empty ByteOption => some p.carried) options := by
  intro _ options
  constructor
  · intro h
    have hparts := ((retrieved_iff_parts _).mp h).2.2.2 (QueryResults.new 7 options) rfl rfl rfl
    exact absurd ((partsTaken_overWire_iff _).mp hparts) (List.cons_ne_nil _ _)
  · intro h
    have hparts := ((retrieved_iff_parts _).mp h).2.2.2 (QueryResults.new 7 options) rfl rfl rfl
    have hone := (partsTaken_carried_iff rfl rfl (by decide) (by decide)).mp hparts
    exact absurd hone.1 (by decide)

end Conversation

end Alpine
