import Alpine.RestBridge.ChallengeTable

/-!
# The challenges in runs

What the steps keep of the challenges and their events (`Kept`), what comes of a step (`Outcome`),
and that a run is sound exactly if its steps fit (`along_challenges_iff`).
-/

namespace Alpine

open Lib

namespace ChallengeTable

open AuthHandler (readUrandom elapsedSeconds decodeHex CHALLENGE_TTL_SECONDS
  MAX_PENDING_CHALLENGES)

/-- A verification goes on with the nonce of a challenge that was made here and taken in time. -/
def Taken (history : List ChallengeEvent) (v : Verification) : Prop :=
  ∃ id nonceBytes challenge time, ChallengeEvent.created id nonceBytes challenge ∈ history ∧
    challenge.nonce = readUrandom nonceBytes ∧
    ChallengeEvent.consumed id challenge time (some v) ∈ history ∧
    v.challengeNonce = challenge.nonce ∧
    challenge.createdAt ≤ time ∧ elapsedSeconds time challenge.createdAt ≤ CHALLENGE_TTL_SECONDS

structure Kept (history : List ChallengeEvent) (s : ChallengeTable) : Prop where
  limit : s.handler.pendingChallenges.keys.length ≤ MAX_PENDING_CHALLENGES
  counts : ∀ id challenge, history.countP (isConsumed id challenge) +
    (if s.handler.pendingChallenges.find id = some challenge then 1 else 0) ≤
      history.countP (isCreated id challenge)
  pending : ∀ id challenge, s.handler.pendingChallenges.find id = some challenge →
    challenge.createdAt ≤ s.clock ∧
      ∃ nonceBytes, ChallengeEvent.created id nonceBytes challenge ∈ history ∧
        challenge.nonce = readUrandom nonceBytes
  begun : ∀ v, history.countP (isIssued v) + s.handler.verifications.count v ≤
    history.countP (isBegun v)
  taken : ∀ v ∈ s.handler.verifications, Taken history v

variable {library : JsonLibrary} {tls : Option TlsBuild} {history : List ChallengeEvent}
  {s : ChallengeTable}

theorem Taken.append {v : Verification} (h : Taken history v) (events : List ChallengeEvent) :
    Taken (history ++ events) v := by
  obtain ⟨id, nonceBytes, challenge, time, hcreated, hnonce, hconsumed, hrest⟩ := h
  exact ⟨id, nonceBytes, challenge, time, List.mem_append_left _ hcreated, hnonce,
    List.mem_append_left _ hconsumed, hrest⟩

/-- The source of random bytes did not fail. -/
theorem Taken.challenged {v : Verification} (h : Taken history v) (hne : v.challengeNonce ≠ []) :
    Challenged history v := by
  obtain ⟨id, nonceBytes, challenge, time, hcreated, hnonce, hconsumed, hv, hrest⟩ := h
  rw [hv] at hne
  cases nonceBytes with
  | none => exact absurd hnonce hne
  | some bytes => exact ⟨id, bytes, challenge, time, hcreated, hnonce, hconsumed, hv, hne, hrest⟩

theorem Challenged.nonce_ne {v : Verification} (h : Challenged history v) :
    v.challengeNonce ≠ [] := by
  obtain ⟨id, bytes, challenge, time, -, -, -, hv, hne, -⟩ := h
  rw [hv]
  exact hne

theorem countP_reply (p : ChallengeEvent → Bool) (reply : AuthReply)
    (hp : p (.replied reply) = false) :
    (history ++ [ChallengeEvent.replied reply]).countP p = history.countP p := by
  rw [List.countP_append, List.countP_singleton, hp]
  rfl

theorem Kept.reply (h : Kept history s) (reply : AuthReply) :
    Kept (history ++ [.replied reply]) s where
  limit := h.limit
  counts id challenge := by
    rw [countP_reply _ reply rfl, countP_reply _ reply rfl]
    exact h.counts id challenge
  pending id challenge hfind := by
    obtain ⟨hclock, nonceBytes, hcreated, hnonce⟩ := h.pending id challenge hfind
    exact ⟨hclock, nonceBytes, List.mem_append_left _ hcreated, hnonce⟩
  begun v := by
    rw [countP_reply _ reply rfl, countP_reply _ reply rfl]
    exact h.begun v
  taken v hv := (h.taken v hv).append _

/-- No challenge comes in, and the verifications stay. -/
theorem Kept.shrink (h : Kept history s) {s' : ChallengeTable}
    (hfind : ∀ id challenge, s'.handler.pendingChallenges.find id = some challenge →
      s.handler.pendingChallenges.find id = some challenge)
    (hlength : s'.handler.pendingChallenges.keys.length ≤ s.handler.pendingChallenges.keys.length)
    (hverifications : s'.handler.verifications = s.handler.verifications)
    (hclock : s.clock ≤ s'.clock) : Kept history s' where
  limit := Nat.le_trans hlength h.limit
  counts id challenge := by
    have hcounts := h.counts id challenge
    by_cases hsome : s'.handler.pendingChallenges.find id = some challenge
    · rw [if_pos hsome]
      rwa [if_pos (hfind id challenge hsome)] at hcounts
    · rw [if_neg hsome]
      omega
  pending id challenge hsome := by
    obtain ⟨hcreated, hrest⟩ := h.pending id challenge (hfind id challenge hsome)
    exact ⟨hcreated.trans hclock, hrest⟩
  begun v := by
    rw [hverifications]
    exact h.begun v
  taken := by
    rw [hverifications]
    exact h.taken

theorem Kept.evictNext (h : Kept history s) (i : Nat) : Kept history (s.evictNext i) := by
  unfold ChallengeTable.evictNext
  split
  · refine h.shrink (fun id challenge hfind => ?_) ?_ rfl (Int.le_refl _)
    · change (UMap.keep _ s.handler.pendingChallenges).find id = some challenge at hfind
      rw [UMap.find_keep, Option.filter_eq_some_iff] at hfind
      exact hfind.1
    · exact UMap.length_keys_keep_le _ _
  · exact h

theorem isCreated_created {id id' : List UInt8} {nonceBytes : Option (Vector UInt8 32)}
    {challenge challenge' : PendingChallenge} :
    isCreated id challenge (.created id' nonceBytes challenge') =
      decide (id' = id ∧ challenge' = challenge) := by
  unfold isCreated
  rw [Bool.decide_and]

/-- There is room: the challenge takes its id. -/
theorem Kept.created (h : Kept history s)
    (hroom : s.handler.pendingChallenges.keys.length < MAX_PENDING_CHALLENGES) (id : List UInt8)
    (nonceBytes : Option (Vector UInt8 32)) (calls : List ChallengeCall) :
    Kept (history ++ [.created id nonceBytes ⟨readUrandom nonceBytes, s.clock⟩])
      { s with
        handler.pendingChallenges :=
          s.handler.pendingChallenges.assign id ⟨readUrandom nonceBytes, s.clock⟩
        calls } where
  limit := (UMap.length_keys_assign_le ..).trans hroom
  counts id' challenge' := by
    have hcounts := h.counts id' challenge'
    rw [List.countP_append, List.countP_append, List.countP_singleton, List.countP_singleton,
      isCreated_created, UMap.find_assign]
    rw [show isConsumed id' challenge'
      (.created id nonceBytes ⟨readUrandom nonceBytes, s.clock⟩) = false from rfl]
    by_cases hid : id' = id
    · subst hid
      rw [if_pos rfl]
      by_cases hchallenge : (⟨readUrandom nonceBytes, s.clock⟩ : PendingChallenge) = challenge'
      · rw [if_pos (congrArg some hchallenge), if_pos (decide_eq_true ⟨rfl, hchallenge⟩),
          if_neg Bool.false_ne_true]
        omega
      · rw [if_neg fun heq => hchallenge (Option.some.inj heq), if_neg Bool.false_ne_true]
        omega
    · rw [if_neg hid, if_neg Bool.false_ne_true]
      omega
  pending id' challenge' hfind := by
    rw [UMap.find_assign] at hfind
    split at hfind
    · rename_i hid
      cases hfind
      refine ⟨Int.le_refl _, nonceBytes, ?_, rfl⟩
      rw [hid]
      exact List.mem_append_right _ (List.mem_singleton.mpr rfl)
    · obtain ⟨hclock, drawn, hcreated, hnonce⟩ := h.pending id' challenge' hfind
      exact ⟨hclock, drawn, List.mem_append_left _ hcreated, hnonce⟩
  begun v := by
    rw [List.countP_append, List.countP_append, List.countP_singleton, List.countP_singleton]
    exact h.begun v
  taken v hv := (h.taken v hv).append _

theorem Kept.insertNext (h : Kept history s) (i : Nat) (idBytes : Option (Vector UInt8 16))
    (nonceBytes : Option (Vector UInt8 32)) :
    Kept (history ++ (s.insertNext i idBytes nonceBytes).2)
      (s.insertNext i idBytes nonceBytes).1 := by
  rcases insertNext_cases s i idBytes nonceBytes with
    ⟨-, hnone⟩ | ⟨-, hfull⟩ | ⟨-, hroom, hcreated⟩
  · rw [hnone, List.append_nil]
    exact h
  · have hshrink : Kept history { s with calls := s.calls.eraseIdx i } :=
      h.shrink (fun _ _ hfind => hfind) (Nat.le_refl _) rfl (Int.le_refl _)
    rw [hfull]
    exact hshrink.reply _
  · have hkept := (h.created hroom (readUrandom idBytes) nonceBytes (s.calls.eraseIdx i)).reply
      (.challenge (readUrandom idBytes) (readUrandom nonceBytes))
    rw [List.append_assoc] at hkept
    rw [hcreated]
    exact hkept

/-! ## Taking a challenge -/

theorem isConsumed_consumed {id id' : List UInt8} {challenge challenge' : PendingChallenge}
    {time : Int} {v : Option Verification} :
    isConsumed id challenge (.consumed id' challenge' time v) =
      decide (id' = id ∧ challenge' = challenge) := by
  unfold isConsumed
  rw [Bool.decide_and]

/-- A challenge leaves the table, and its verification may go on. -/
theorem Kept.consumed (h : Kept history s) {id : List UInt8} {challenge : PendingChallenge}
    (hfind : s.handler.pendingChallenges.find id = some challenge) {v : Option Verification}
    (hv : ∀ v', v = some v' → v'.challengeNonce = challenge.nonce ∧
      elapsedSeconds s.clock challenge.createdAt ≤ CHALLENGE_TTL_SECONDS) :
    Kept (history ++ [.consumed id challenge s.clock v])
      { s with
        handler.pendingChallenges := s.handler.pendingChallenges.erase id
        handler.verifications := s.handler.verifications ++ v.toList } where
  limit := by
    have hlimit := h.limit
    have herase := UMap.countBy_erase hfind fun _ _ => true
    rw [← UMap.length_keys_eq_countBy, ← UMap.length_keys_eq_countBy] at herase
    exact Nat.le_trans (Nat.le.intro herase) hlimit
  counts id' challenge' := by
    have hcounts := h.counts id' challenge'
    rw [List.countP_append, List.countP_append, List.countP_singleton, List.countP_singleton,
      isConsumed_consumed, UMap.find_erase]
    rw [show isCreated id' challenge' (.consumed id challenge s.clock v) = false from rfl]
    by_cases hid : id' = id
    · subst hid
      have hgone : ¬ (none : Option PendingChallenge) = some challenge' := by rintro ⟨⟩
      rw [if_pos rfl, if_neg hgone, if_neg Bool.false_ne_true]
      rw [hfind] at hcounts
      by_cases hchallenge : challenge = challenge'
      · rw [if_pos (congrArg some hchallenge)] at hcounts
        rw [if_pos (decide_eq_true ⟨rfl, hchallenge⟩)]
        exact hcounts
      · rw [if_neg fun heq => hchallenge (of_decide_eq_true heq).2]
        omega
    · rw [if_neg hid, if_neg Bool.false_ne_true,
        if_neg fun heq => hid (of_decide_eq_true heq).1.symm]
      exact hcounts
  pending id' challenge' hfind' := by
    rw [UMap.find_erase] at hfind'
    split at hfind'
    · cases hfind'
    · obtain ⟨hclock, drawn, hcreated, hnonce⟩ := h.pending id' challenge' hfind'
      exact ⟨hclock, drawn, List.mem_append_left _ hcreated, hnonce⟩
  begun v' := by
    have hbegun := h.begun v'
    rw [List.countP_append, List.countP_append, List.countP_singleton, List.countP_singleton]
    rw [show isIssued v' (.consumed id challenge s.clock v) = false from rfl]
    rw [show isBegun v' (.consumed id challenge s.clock v) = decide (v = some v') from rfl]
    rw [List.count_append, if_neg Bool.false_ne_true]
    cases v with
    | none =>
      rw [Option.toList_none, List.count_nil, if_neg (by simp)]
      exact hbegun
    | some v =>
      rw [Option.toList_some, List.count_singleton]
      by_cases heq : v = v'
      · rw [if_pos (beq_iff_eq.mpr heq), if_pos (by simpa using heq)]
        omega
      · rw [if_neg (by simpa using heq), if_neg (by simpa using heq)]
        exact hbegun
  taken v' hmem := by
    rcases List.mem_append.mp hmem with hmem | hmem
    · exact (h.taken v' hmem).append _
    · have hsome := Option.mem_toList.mp hmem
      obtain ⟨hclock, drawn, hcreated, hnonce⟩ := h.pending id challenge hfind
      have hgood := hv v' hsome
      refine ⟨id, drawn, challenge, s.clock, List.mem_append_left _ hcreated, hnonce, ?_, hgood.1,
        hclock, hgood.2⟩
      rw [hsome]
      exact List.mem_append_right _ (List.mem_singleton.mpr rfl)

theorem Kept.verifySignature (h : Kept history s) (request : HttpRequest) :
    Kept (history ++ (s.verifySignature library request).2)
      (s.verifySignature library request).1 := by
  rcases verifySignature_cases library s request with
    ⟨reply, hrefused, -⟩ | ⟨id, challenge, signature, publicKey, hfind, -, htaken⟩
  · rw [hrefused]
    exact h.reply reply
  · split at htaken
    · have hconsumed := (h.consumed hfind (v := none) (by rintro _ ⟨⟩)).reply
        (.badRequest "Challenge expired")
      rw [List.append_assoc] at hconsumed
      rw [htaken]
      refine hconsumed.shrink (fun _ _ hfind' => hfind') (Nat.le_refl _) ?_ (Int.le_refl _)
      exact (List.append_nil _).symm
    · rename_i hintime
      rw [htaken]
      refine h.consumed hfind (v := some ⟨challenge.nonce, signature, publicKey⟩) fun v hv => ?_
      cases hv
      exact ⟨rfl, Nat.le_of_not_lt hintime⟩

/-! ## The end of a verification -/

theorem count_eraseIdx {vs : List Verification} {i : Nat} {v : Verification}
    (h : vs[i]? = some v) (v' : Verification) :
    (vs.eraseIdx i).count v' + (if v = v' then 1 else 0) = vs.count v' := by
  obtain ⟨hi, rfl⟩ := List.getElem?_eq_some_iff.mp h
  rw [← (List.getElem_cons_eraseIdx_perm hi).count_eq v', List.count_cons]
  simp only [beq_iff_eq]

/-- A verification leaves, with a token or without. -/
theorem Kept.finished (h : Kept history s) {i : Nat} {v : Verification}
    (hv : s.handler.verifications[i]? = some v) {events : List ChallengeEvent}
    (hevents : events = [] ∨ ∃ token, events = [.issued v token]) :
    Kept (history ++ events)
      { s with handler.verifications := s.handler.verifications.eraseIdx i } := by
  have hcount := count_eraseIdx hv
  rcases hevents with rfl | ⟨token, rfl⟩
  · rw [List.append_nil]
    refine ⟨h.limit, h.counts, h.pending, fun v' => ?_, fun v' hmem => ?_⟩
    · have hbegun := h.begun v'
      have hcount := hcount v'
      dsimp only
      omega
    · exact h.taken v' (List.mem_of_mem_eraseIdx hmem)
  · refine ⟨h.limit, fun id challenge => ?_, fun id challenge hfind => ?_, fun v' => ?_,
      fun v' hmem => ?_⟩
    · rw [List.countP_append, List.countP_append, List.countP_singleton, List.countP_singleton]
      exact h.counts id challenge
    · obtain ⟨hclock, drawn, hcreated, hnonce⟩ := h.pending id challenge hfind
      exact ⟨hclock, drawn, List.mem_append_left _ hcreated, hnonce⟩
    · have hbegun := h.begun v'
      have hcount := hcount v'
      rw [List.countP_append, List.countP_append, List.countP_singleton, List.countP_singleton]
      rw [show isBegun v' (.issued v token) = false from rfl, if_neg Bool.false_ne_true]
      rw [show isIssued v' (.issued v token) = decide (v = v') from rfl]
      dsimp only
      by_cases heq : v = v'
      · rw [if_pos heq] at hcount
        rw [if_pos (decide_eq_true heq)]
        omega
      · rw [if_neg heq] at hcount
        rw [if_neg fun hd => heq (of_decide_eq_true hd)]
        omega
    · exact (h.taken v' (List.mem_of_mem_eraseIdx hmem)).append _

theorem Kept.finishNext (h : Kept history s) (i : Nat) (tokenBytes : Option (Vector UInt8 32)) :
    Kept (history ++ (s.finishNext tls i tokenBytes).2) (s.finishNext tls i tokenBytes).1 := by
  rcases finishNext_cases tls s i tokenBytes with
    ⟨-, hnone⟩ | ⟨v, reply, events, hv, hfinish, -, hevents⟩
  · rw [hnone, List.append_nil]
    exact h
  · rw [hfinish, ← List.append_assoc]
    refine Kept.reply (h.finished hv ?_) reply
    rcases hevents with ⟨token, hissued, -⟩ | ⟨hnone, -⟩
    · exact .inr ⟨token, hissued⟩
    · exact .inl hnone

theorem Kept.step (h : Kept history s) (a : ChallengeStep) :
    Kept (history ++ (s.step library tls a).2) (s.step library tls a).1 := by
  cases a with
  | enrollDevice request idBytes =>
    have hframe := enrollDevice_frame library s.handler request idBytes
    have hstep : s.step library tls (.enrollDevice request idBytes) =
        ({ s with handler := (s.handler.enrollDevice library request idBytes).1 },
          [.replied (s.handler.enrollDevice library request idBytes).2]) := rfl
    rw [hstep]
    refine Kept.reply ?_ _
    refine h.shrink (fun id challenge hfind => ?_) ?_ ?_ (Int.le_refl _)
    · dsimp only at hfind
      rwa [hframe.1] at hfind
    · dsimp only
      rw [hframe.1]
    · exact hframe.2.1
  | getChallenge =>
    change Kept (history ++ []) _
    rw [List.append_nil]
    exact h.shrink (fun _ _ hfind => hfind) (Nat.le_refl _) rfl (Int.le_refl _)
  | evict i =>
    change Kept (history ++ []) _
    rw [List.append_nil]
    exact h.evictNext i
  | insert i idBytes nonceBytes => exact h.insertNext i idBytes nonceBytes
  | verifySignature request => exact h.verifySignature request
  | finishVerify i tokenBytes => exact h.finishNext i tokenBytes
  | tick duration =>
    change Kept (history ++ []) _
    rw [List.append_nil]
    refine h.shrink (fun _ _ hfind => hfind) (Nat.le_refl _) rfl ?_
    exact Int.le_add_of_nonneg_right (Int.natCast_nonneg duration)

theorem kept_start : Kept [] start where
  limit := Nat.zero_le _
  counts _ _ := Nat.le_refl 0
  pending _ _ hfind := by cases hfind
  begun _ := Nat.le_refl 0
  taken _ hmem := by cases hmem

/-! ## What steps guarantee -/

theorem Kept.once (h : Kept history s) {id : List UInt8} {challenge : PendingChallenge}
    (hfind : s.handler.pendingChallenges.find id = some challenge) :
    history.countP (isConsumed id challenge) < history.countP (isCreated id challenge) := by
  have hcounts := h.counts id challenge
  rw [if_pos hfind] at hcounts
  exact hcounts

/-- What comes of a step. -/
inductive Outcome (library : JsonLibrary) (tls : Option TlsBuild) (s : ChallengeTable)
    (a : ChallengeStep) : Prop where
  | quiet (hevents : (s.step library tls a).2 = [])
      (hfits : ∀ history, StepFits library tls history s a)
  | replied (reply : AuthReply) (hevents : (s.step library tls a).2 = [.replied reply])
      (hfits : ∀ history, reply = .threw ↔ ¬ StepFits library tls history s a)
  | created (i : Nat) (idBytes : Option (Vector UInt8 16)) (nonceBytes : Option (Vector UInt8 32))
      (ha : a = .insert i idBytes nonceBytes) (hcall : s.calls[i]? = some .inserting)
      (hroom : s.handler.pendingChallenges.keys.length < MAX_PENDING_CHALLENGES)
      (hpending : (s.step library tls a).1.handler.pendingChallenges =
        s.handler.pendingChallenges.assign (readUrandom idBytes)
          ⟨readUrandom nonceBytes, s.clock⟩)
      (hevents : (s.step library tls a).2 =
        [.created (readUrandom idBytes) nonceBytes ⟨readUrandom nonceBytes, s.clock⟩,
          .replied (.challenge (readUrandom idBytes) (readUrandom nonceBytes))])
  | consumed (id : List UInt8) (challenge : PendingChallenge) (v : Option Verification)
      (events : List ChallengeEvent)
      (hfind : s.handler.pendingChallenges.find id = some challenge)
      (hevents : (s.step library tls a).2 = .consumed id challenge s.clock v :: events)
      (hrest : events = [] ∨ events = [.replied (.badRequest "Challenge expired")])
      (hfits : ∀ history, StepFits library tls history s a)
  | issued (v : Verification) (token : ApiKey) (reply : AuthReply)
      (hv : v ∈ s.handler.verifications)
      (hevents : (s.step library tls a).2 = [.issued v token, .replied reply])
      (hreply : reply ≠ .threw) (henrolled : s.Enrolled v) (hsigned : Signed tls v)
      (hfits : ∀ history, StepFits library tls history s a ↔ v.challengeNonce ≠ [])

theorem insert_outcome (library : JsonLibrary) (tls : Option TlsBuild) (s : ChallengeTable)
    (i : Nat) (idBytes : Option (Vector UInt8 16)) (nonceBytes : Option (Vector UInt8 32)) :
    Outcome library tls s (.insert i idBytes nonceBytes) := by
  rcases insertNext_cases s i idBytes nonceBytes with
    ⟨hcall, hnone⟩ | ⟨hfull, hrefused⟩ | ⟨hcall, hroom, hcreated⟩
  · exact .quiet (congrArg Prod.snd hnone) fun _ hinserting => absurd hinserting hcall
  · refine .replied _ (congrArg Prod.snd hrefused) fun _ => iff_of_false (by rintro ⟨⟩) ?_
    exact not_not.mpr fun _ hroom => absurd hroom (Nat.not_lt.mpr hfull)
  · refine .created i idBytes nonceBytes rfl hcall hroom ?_ (congrArg Prod.snd hcreated)
    exact congrArg (fun r => r.1.handler.pendingChallenges) hcreated

theorem finish_outcome (library : JsonLibrary) (tls : Option TlsBuild) (s : ChallengeTable)
    (i : Nat) (tokenBytes : Option (Vector UInt8 32)) :
    Outcome library tls s (.finishVerify i tokenBytes) := by
  rcases finishNext_cases tls s i tokenBytes with
    ⟨hget, hnone⟩ | ⟨v, reply, events, hget, hfinish, hthrew, hevents⟩
  · refine .quiet (congrArg Prod.snd hnone) fun _ v hv => ?_
    rw [hget] at hv
    cases hv
  · have hfits : ∀ history, StepFits library tls history s (.finishVerify i tokenBytes) ↔
        reply ≠ .threw ∧ (s.Enrolled v ∧ Signed tls v → v.challengeNonce ≠ []) := by
      intro history
      rw [Ne, hthrew]
      constructor
      · intro hfits
        refine ⟨?_, ?_⟩
        · rintro ⟨henrolled, build, hbuild, hready, hbad⟩
          exact (hfits v hget henrolled build hbuild hready).1 hbad
        · rintro ⟨henrolled, hsigned⟩
          have hsigned' := hsigned
          obtain ⟨build, hbuild, hready, -⟩ := hsigned'
          exact (hfits v hget henrolled build hbuild hready).2 hsigned
      · rintro ⟨hanswered, hnonce⟩ v' hv' henrolled build hbuild hready
        rw [hget] at hv'
        cases hv'
        exact ⟨fun hbad => hanswered ⟨henrolled, build, hbuild, hready, hbad⟩,
          fun hsigned => hnonce ⟨henrolled, hsigned⟩⟩
    rcases hevents with ⟨token, rfl, hgood⟩ | ⟨rfl, hnot⟩
    · -- a signature that is taken was decoded
      have hanswered : reply ≠ .threw := by
        intro hbad
        obtain ⟨-, build, hbuild, -, hdecode⟩ := hthrew.mp hbad
        obtain ⟨build', hbuild', -, sigBytes, hdecode', -⟩ := hgood.2
        rw [hdecode] at hdecode'
        cases hdecode'
      refine .issued v token reply (List.mem_of_getElem? hget) (congrArg Prod.snd hfinish) hanswered
        hgood.1 hgood.2 fun history => ?_
      rw [hfits history]
      exact ⟨fun h => h.2 hgood, fun h => ⟨hanswered, fun _ => h⟩⟩
    · refine .replied reply (congrArg Prod.snd hfinish) fun history => ?_
      rw [hfits history]
      refine ⟨fun hbad h => h.1 hbad, fun h => by_contra fun hok => h ⟨hok, fun hg => ?_⟩⟩
      exact absurd hg hnot

theorem outcome (library : JsonLibrary) (tls : Option TlsBuild) (s : ChallengeTable)
    (a : ChallengeStep) : Outcome library tls s a := by
  cases a with
  | enrollDevice request idBytes =>
    have hframe := (enrollDevice_frame library s.handler request idBytes).2.2
    refine .replied (s.handler.enrollDevice library request idBytes).2 rfl fun _ => ?_
    rw [hframe]
    exact not_not.symm
  | getChallenge => exact .quiet rfl fun _ => trivial
  | evict i => exact .quiet rfl fun _ => trivial
  | tick duration => exact .quiet rfl fun _ => trivial
  | insert i idBytes nonceBytes => exact insert_outcome library tls s i idBytes nonceBytes
  | finishVerify i tokenBytes => exact finish_outcome library tls s i tokenBytes
  | verifySignature request =>
    rcases verifySignature_cases library s request with
      ⟨reply, hrefused, hthrew⟩ | ⟨id, challenge, signature, publicKey, hfind, hreader, htaken⟩
    · refine .replied reply (congrArg Prod.snd hrefused) fun _ => ?_
      rw [hthrew]
      exact not_not.symm
    · split at htaken
      · exact .consumed id challenge none _ hfind (congrArg Prod.snd htaken) (.inr rfl)
          fun _ => hreader
      · exact .consumed id challenge _ [] hfind (congrArg Prod.snd htaken) (.inl rfl)
          fun _ => hreader

/-- An answer alone is sound if it is one. -/
theorem Kept.sound_replied (h : Kept history s) {a : ChallengeStep} {reply : AuthReply}
    (hevents : (s.step library tls a).2 = [.replied reply]) :
    StepSound library tls history s a ↔ reply ≠ .threw := by
  constructor
  · rintro hsound rfl
    exact hsound.answered (hevents ▸ List.mem_singleton.mpr rfl)
  · intro hreply
    refine ⟨?_, ?_, (h.step a).limit, ?_, ?_⟩
    · rw [hevents]
      intro id challenge time v hmem
      cases List.mem_singleton.mp hmem
    · rw [hevents]
      intro v token hmem
      cases List.mem_singleton.mp hmem
    · rw [hevents]
      intro id nonceBytes challenge hmem
      cases List.mem_singleton.mp hmem
    · rw [hevents]
      intro hmem
      cases List.mem_singleton.mp hmem
      exact hreply rfl

theorem Kept.sound_quiet (h : Kept history s) {a : ChallengeStep}
    (hevents : (s.step library tls a).2 = []) : StepSound library tls history s a := by
  refine ⟨?_, ?_, (h.step a).limit, ?_, ?_⟩
  · rw [hevents]
    intro id challenge time v hmem
    cases hmem
  · rw [hevents]
    intro v token hmem
    cases hmem
  · rw [hevents]
    intro id nonceBytes challenge hmem
    cases hmem
  · rw [hevents]
    exact List.not_mem_nil

theorem Kept.sound_consumed (h : Kept history s) {a : ChallengeStep} {id : List UInt8}
    {challenge : PendingChallenge} {v : Option Verification} {events : List ChallengeEvent}
    (hfind : s.handler.pendingChallenges.find id = some challenge)
    (hevents : (s.step library tls a).2 = .consumed id challenge s.clock v :: events)
    (hrest : events = [] ∨ events = [.replied (.badRequest "Challenge expired")]) :
    StepSound library tls history s a := by
  refine ⟨?_, ?_, (h.step a).limit, ?_, ?_⟩
  · rw [hevents]
    intro id' challenge' time v' hmem
    rcases List.mem_cons.mp hmem with heq | hmem
    · cases heq
      exact h.once hfind
    · rcases hrest with rfl | rfl
      · cases hmem
      · cases List.mem_singleton.mp hmem
  · rw [hevents]
    intro v' token hmem
    rcases List.mem_cons.mp hmem with heq | hmem
    · cases heq
    · rcases hrest with rfl | rfl
      · cases hmem
      · cases List.mem_singleton.mp hmem
  · rw [hevents]
    intro id' nonceBytes challenge' hmem
    rcases List.mem_cons.mp hmem with heq | hmem
    · cases heq
    · rcases hrest with rfl | rfl
      · cases hmem
      · cases List.mem_singleton.mp hmem
  · rw [hevents]
    intro hmem
    rcases List.mem_cons.mp hmem with heq | hmem
    · cases heq
    · rcases hrest with rfl | rfl
      · cases hmem
      · cases List.mem_singleton.mp hmem

/-- A verification that is under way leads to its first token. -/
theorem Kept.first (h : Kept history s) {v : Verification} (hv : v ∈ s.handler.verifications) :
    history.countP (isIssued v) < history.countP (isBegun v) := by
  have hbegun := h.begun v
  have hcount := List.count_pos_iff.mpr hv
  omega

theorem Kept.sound_issued (h : Kept history s) {a : ChallengeStep} {v : Verification}
    {token : ApiKey} {reply : AuthReply} (hv : v ∈ s.handler.verifications)
    (hevents : (s.step library tls a).2 = [.issued v token, .replied reply])
    (hreply : reply ≠ .threw) (henrolled : s.Enrolled v) (hsigned : Signed tls v) :
    StepSound library tls history s a ↔ v.challengeNonce ≠ [] := by
  constructor
  · intro hsound
    have hissued : ChallengeEvent.issued v token ∈ (s.step library tls a).2 := by
      rw [hevents]
      exact List.mem_cons_self
    exact (hsound.token v token hissued).1.nonce_ne
  · intro hnonce
    refine ⟨?_, ?_, (h.step a).limit, ?_, ?_⟩
    · rw [hevents]
      intro id challenge time v' hmem
      rcases List.mem_pair.mp hmem with heq | heq
      · cases heq
      · cases heq
    · rw [hevents]
      intro v' token' hmem
      rcases List.mem_pair.mp hmem with heq | heq
      · cases heq
        exact ⟨(h.taken v hv).challenged hnonce, henrolled, hsigned, h.first hv⟩
      · cases heq
    · rw [hevents]
      intro id nonceBytes challenge hmem
      rcases List.mem_pair.mp hmem with heq | heq
      · cases heq
      · cases heq
    · rw [hevents]
      intro hmem
      rcases List.mem_pair.mp hmem with heq | heq
      · cases heq
      · cases heq
        exact hreply rfl

/-- A challenge that is made takes its id from no other. -/
theorem Kept.sound_created (h : Kept history s) {i : Nat} {idBytes : Option (Vector UInt8 16)}
    {nonceBytes : Option (Vector UInt8 32)} (hcall : s.calls[i]? = some .inserting)
    (hroom : s.handler.pendingChallenges.keys.length < MAX_PENDING_CHALLENGES)
    (hpending : (s.step library tls (.insert i idBytes nonceBytes)).1.handler.pendingChallenges =
      s.handler.pendingChallenges.assign (readUrandom idBytes) ⟨readUrandom nonceBytes, s.clock⟩)
    (hevents : (s.step library tls (.insert i idBytes nonceBytes)).2 =
      [.created (readUrandom idBytes) nonceBytes ⟨readUrandom nonceBytes, s.clock⟩,
        .replied (.challenge (readUrandom idBytes) (readUrandom nonceBytes))]) :
    StepSound library tls history s (.insert i idBytes nonceBytes) ↔
      StepFits library tls history s (.insert i idBytes nonceBytes) := by
  constructor
  · intro hsound _ _ challenge hfind
    have hkept := hsound.kept (readUrandom idBytes) nonceBytes ⟨readUrandom nonceBytes, s.clock⟩
      (by rw [hevents]; exact List.mem_cons_self) (readUrandom idBytes) challenge hfind
    rw [hpending, UMap.find_assign, if_pos rfl] at hkept
    exact (Option.some.inj hkept).symm
  · intro hfits
    refine ⟨?_, ?_, (h.step _).limit, ?_, ?_⟩
    · rw [hevents]
      intro id challenge time v hmem
      rcases List.mem_pair.mp hmem with heq | heq
      · cases heq
      · cases heq
    · rw [hevents]
      intro v token hmem
      rcases List.mem_pair.mp hmem with heq | heq
      · cases heq
      · cases heq
    · intro _ _ _ _ id challenge hfind
      rw [hpending, UMap.find_assign]
      split
      · rename_i hid
        rw [hid] at hfind
        exact congrArg some (hfits hcall hroom challenge hfind).symm
      · exact hfind
    · rw [hevents]
      intro hmem
      rcases List.mem_pair.mp hmem with heq | heq
      · cases heq
      · cases heq

theorem Kept.sound_iff (h : Kept history s) (a : ChallengeStep) :
    StepSound library tls history s a ↔ StepFits library tls history s a := by
  cases outcome library tls s a with
  | quiet hevents hfits => exact iff_of_true (h.sound_quiet hevents) (hfits history)
  | replied reply hevents hfits =>
    rw [h.sound_replied hevents, Ne, hfits history]
    exact not_not
  | created i idBytes nonceBytes ha hcall hroom hpending hevents =>
    subst ha
    exact h.sound_created hcall hroom hpending hevents
  | consumed id challenge v events hfind hevents hrest hfits =>
    exact iff_of_true (h.sound_consumed hfind hevents hrest) (hfits history)
  | issued v token reply hv hevents hreply henrolled hsigned hfits =>
    rw [h.sound_issued hv hevents hreply henrolled hsigned, hfits history]

end ChallengeTable

/-- A run is sound exactly if no step meets a source of random bytes that fails for a nonce or
repeats an id, a signature that is not hexadecimal, or a body that cannot be read. -/
theorem ChallengeTable.along_challenges_iff (library : JsonLibrary) (tls : Option TlsBuild)
    (steps : List ChallengeStep) :
    (ChallengeTable.machine library tls).Along (ChallengeTable.StepSound library tls) []
        ChallengeTable.start steps ↔
      (ChallengeTable.machine library tls).Along (ChallengeTable.StepFits library tls) []
        ChallengeTable.start steps :=
  Machine.along_congr (I := ChallengeTable.Kept) (fun _ _ a h _ => h.step a)
    (fun _ _ a h => h.sound_iff a) ChallengeTable.kept_start

namespace ChallengeTable

open RestBridge (enrollBody verifyBody challengeId loginLibrary loginBuild loginToken post)

/-- The source fails twice: the second challenge has the id of the first. -/
def failingSource : List ChallengeStep :=
  [.getChallenge, .evict 0, .insert 0 none none, .tick 1, .getChallenge, .evict 0]

/-- The source fails for the nonce of a challenge, which is then met with any signature. -/
def emptyNonce : List ChallengeStep :=
  [.enrollDevice (post enrollBody) (some (Vector.replicate 16 0)), .getChallenge, .evict 0,
    .insert 0 (some (Vector.replicate 16 0)) none, .verifySignature (post verifyBody)]

def oddBody : List UInt8 :=
  utf8 ("\x7b\"challengeId\":\"".toList ++ challengeId ++
    "\",\"signature\":\"zz\",\"publicKey\":\"k\"\x7d".toList)

def oddLibrary : JsonLibrary where
  parse body :=
    if body = enrollBody then .document (.object [("publicKey".toList, .str ['k'])])
    else if body = oddBody then
      .document (.object [("challengeId".toList, .str challengeId),
        ("signature".toList, .str ['z', 'z']), ("publicKey".toList, .str ['k'])])
    else .parseError
  fits _ := true

/-- A signature that is not hexadecimal. -/
def oddSignature : List ChallengeStep :=
  [.enrollDevice (post enrollBody) (some (Vector.replicate 16 0)), .getChallenge, .evict 0,
    .insert 0 (some (Vector.replicate 16 0)) (some (Vector.replicate 32 0)),
    .verifySignature (post oddBody)]

theorem oddSignature_not_challenges :
    ¬ (machine loginLibrary none).Along (StepSound loginLibrary none) [] start
        (failingSource ++ [.insert 0 none none]) ∧
      ¬ (machine loginLibrary (some loginBuild)).Along (StepSound loginLibrary (some loginBuild)) []
        start (emptyNonce ++ [.finishVerify 0 (some (Vector.replicate 32 0))]) ∧
      ¬ (machine oddLibrary (some loginBuild)).Along (StepSound oddLibrary (some loginBuild)) []
        start (oddSignature ++ [.finishVerify 0 (some (Vector.replicate 32 0))]) := by
  refine ⟨fun h => ?_, fun h => ?_, fun h => ?_⟩
  · obtain ⟨-, hlast, -⟩ := Machine.along_append.mp h
    have hkept := hlast.kept [] none ⟨[], 1⟩ (by decide +kernel) [] ⟨[], 0⟩ (by decide +kernel)
    revert hkept
    decide +kernel
  · obtain ⟨-, hlast, -⟩ := Machine.along_append.mp h
    exact (hlast.token ⟨[], [], [107]⟩ loginToken (by decide +kernel)).1.nonce_ne rfl
  · obtain ⟨-, hlast, -⟩ := Machine.along_append.mp h
    exact hlast.answered (by decide +kernel)

end ChallengeTable

end Alpine
