import Alpine.Dtcp.PendingAckMap
import Alpine.Lib.Replay
import Mathlib.Data.Finset.Max

/-!
# The life of a reliable request

A request is added, sent again up to `maxRetries` times and then given up, unless it is removed
first; and the round trip time is sampled only at the removal of a request that was never sent
again. `phaseStep` says so as an automaton over the events of one
id, and `Tracks` that the table follows it: every history is one the automaton allows for every
id, the requests it calls live are those in the index, and each of them has exactly one entry in
the queue. Entries of removed requests stay behind, but none of them has the id of a live one.
-/

namespace Alpine

namespace PendingAckMap

open Lib

variable {R : Type}

/-! ## The life of one request -/

inductive Phase where
  | unused
  | live (resends : Nat)
  | removed
  | failed
  deriving DecidableEq, Repr

/-- How often a live request has been sent again. -/
def Phase.resends? : Phase → Option Nat
  | live resends => some resends
  | _ => none

/-- The events of the request `id` that its phase allows, when `max` is the number of retries. -/
def phaseStep (max id : Nat) (phase : Phase) (e : AckEvent R) : Option Phase :=
  if e.id = id then
    match phase, e with
    | .unused, .added _ => some (.live 0)
    | .live n, .resent _ => if n < max then some (.live (n + 1)) else none
    | .live n, .failed _ _ => if n = max then some .failed else none
    | .live n, .removed _ sampled => if sampled = (n == 0) then some .removed else none
    | _, _ => none
  else some phase

/-- The request `id` is sent again. -/
def isResent (id : Nat) : AckEvent R → Bool
  | .resent id' => id' == id
  | _ => false

/-- The requestor of `id` is told that it failed. -/
def isFailed (id : Nat) : AckEvent R → Bool
  | .failed id' _ => id' == id
  | _ => false

def resends (id : Nat) (h : List (AckEvent R)) : Nat := h.countP (isResent id)

def failures (id : Nat) (h : List (AckEvent R)) : Nat := h.countP (isFailed id)

/-- What a history says about `id` when it ends in the phase. -/
def Phase.Describes (max id : Nat) (h : List (AckEvent R)) : Phase → Prop
  | unused => ∀ e ∈ h, e.id ≠ id
  | live n => resends id h = n ∧ n ≤ max ∧ failures id h = 0 ∧ ∀ sampled, .removed id sampled ∉ h
  | removed => failures id h = 0 ∧ ∃ sampled, .removed id sampled ∈ h
  | failed => resends id h = max ∧ failures id h = 1 ∧ ∀ sampled, .removed id sampled ∉ h

theorem phaseStep_other {max id : Nat} {e : AckEvent R} (h : e.id ≠ id) (p : Phase) :
    phaseStep max id p e = some p := by
  simp [phaseStep, h]

theorem isResent_other {id : Nat} {e : AckEvent R} (h : e.id ≠ id) : isResent id e = false := by
  cases e <;> simp_all [isResent, AckEvent.id]

theorem isFailed_other {id : Nat} {e : AckEvent R} (h : e.id ≠ id) : isFailed id e = false := by
  cases e <;> simp_all [isFailed, AckEvent.id]

theorem resends_of_other {id : Nat} {h : List (AckEvent R)} (hne : ∀ e ∈ h, e.id ≠ id) :
    resends id h = 0 := by
  refine List.countP_eq_zero.mpr fun e he => ?_
  simp [isResent_other (hne e he)]

theorem failures_of_other {id : Nat} {h : List (AckEvent R)} (hne : ∀ e ∈ h, e.id ≠ id) :
    failures id h = 0 := by
  refine List.countP_eq_zero.mpr fun e he => ?_
  simp [isFailed_other (hne e he)]

theorem resends_concat (id : Nat) (h : List (AckEvent R)) (e : AckEvent R) :
    resends id (h ++ [e]) = resends id h + if isResent id e then 1 else 0 := by
  simp [resends, List.countP_append, List.countP_singleton]

theorem failures_concat (id : Nat) (h : List (AckEvent R)) (e : AckEvent R) :
    failures id (h ++ [e]) = failures id h + if isFailed id e then 1 else 0 := by
  simp [failures, List.countP_append, List.countP_singleton]

/-- Events of other requests do not matter. -/
theorem Phase.Describes.other {max id : Nat} {h : List (AckEvent R)} {p : Phase} {e : AckEvent R}
    (hp : p.Describes max id h) (he : e.id ≠ id) : p.Describes max id (h ++ [e]) := by
  have hr : resends id (h ++ [e]) = resends id h := by simp [resends_concat, isResent_other he]
  have hf : failures id (h ++ [e]) = failures id h := by simp [failures_concat, isFailed_other he]
  have hrem : ∀ sampled, .removed id sampled ≠ e := by
    rintro sampled rfl
    exact he rfl
  cases p with
  | unused =>
    intro x hx
    rcases List.mem_append.mp hx with hx | hx
    · exact hp x hx
    · rwa [List.mem_singleton.mp hx]
  | live n =>
    obtain ⟨h1, h2, h3, h4⟩ := hp
    refine ⟨by omega, h2, by omega, fun sampled hmem => ?_⟩
    simp only [List.mem_append, List.mem_singleton] at hmem
    exact hmem.elim (h4 sampled) (hrem sampled)
  | removed =>
    obtain ⟨h1, sampled, h2⟩ := hp
    exact ⟨by omega, sampled, List.mem_append_left _ h2⟩
  | failed =>
    obtain ⟨h1, h2, h3⟩ := hp
    refine ⟨by omega, by omega, fun sampled hmem => ?_⟩
    simp only [List.mem_append, List.mem_singleton] at hmem
    exact hmem.elim (h3 sampled) (hrem sampled)

/-- The automaton counts right. -/
theorem describes_of_replay {max id : Nat} {h : List (AckEvent R)} {p : Phase}
    (hr : replay (phaseStep max id) .unused h = some p) : p.Describes max id h := by
  refine replay_invariant (J := fun q es => q.Describes max id es) (by simp [Phase.Describes]) ?_ hr
  intro q q' es e hq hstep
  by_cases hid : e.id = id
  swap
  · rw [phaseStep_other hid] at hstep
    cases hstep
    exact hq.other hid
  unfold phaseStep at hstep
  rw [if_pos hid] at hstep
  split at hstep
  · next id' =>
    cases hstep
    simp only [AckEvent.id] at hid
    subst hid
    have hnot : ∀ sampled, (.removed id' sampled : AckEvent R) ∉ es :=
      fun sampled hmem => hq _ hmem rfl
    refine ⟨?_, Nat.zero_le _, ?_, by simpa using hnot⟩
    · simp [resends_concat, resends_of_other hq, isResent]
    · simp [failures_concat, failures_of_other hq, isFailed]
  · next n id' =>
    simp only [AckEvent.id] at hid
    subst hid
    obtain ⟨h1, h2, h3, h4⟩ := hq
    split at hstep
    · cases hstep
      refine ⟨?_, by omega, ?_, by simpa using h4⟩
      · simp [resends_concat, h1, isResent]
      · simp [failures_concat, h3, isFailed]
    · cases hstep
  · next n id' requestor =>
    simp only [AckEvent.id] at hid
    subst hid
    obtain ⟨h1, h2, h3, h4⟩ := hq
    split at hstep
    · cases hstep
      refine ⟨?_, ?_, by simpa using h4⟩
      · simp [resends_concat, isResent]
        omega
      · simp [failures_concat, h3, isFailed]
    · cases hstep
  · next n id' sampled =>
    simp only [AckEvent.id] at hid
    subst hid
    obtain ⟨h1, h2, h3, h4⟩ := hq
    split at hstep
    · cases hstep
      exact ⟨by simp [failures_concat, h3, isFailed], sampled, by simp⟩
    · cases hstep
  · cases hstep

/-! ## The table follows the automaton -/

def isAdded : AckEvent R → Bool
  | .added _ => true
  | _ => false

def adds (h : List (AckEvent R)) : Nat := h.countP isAdded

theorem adds_append (h e : List (AckEvent R)) : adds (h ++ e) = adds h + adds e := by
  simp [adds, List.countP_append]

/-- The table after the history `h`. -/
structure Tracks (h : List (AckEvent R)) (m : PendingAckMap R) : Prop where
  next : m.currId = (1 + adds h) % 2 ^ 64
  ids : ∀ id, .added id ∈ h → ∃ i < adds h, id = (1 + i) % 2 ^ 64
  /-- The live requests are the ones in the index. -/
  phase : ∀ id, ∃ p, replay (phaseStep m.maxRetries id) .unused h = some p ∧
    (m.recordIndex.find id).map (·.retryCount) = p.resends?
  keyed : ∀ id record, m.recordIndex.find id = some record → record.id = id
  /-- Of the entries in the queue, exactly one has the id of a live request, and it has its time. -/
  queued : ∀ id record, m.recordIndex.find id = some record →
    m.retryQueue.filter (fun entry => entry.id = id) = [⟨id, record.nextRetryTime⟩]
  entries : ∀ entry ∈ m.retryQueue, .added entry.id ∈ h
  rto : ∀ id record, m.recordIndex.find id = some record → 2 ≤ record.currentRto

theorem tracks_new (configured : Option Int) : Tracks [] (new configured : PendingAckMap R) := by
  refine ⟨rfl, by simp, fun id => ⟨.unused, rfl, rfl⟩, ?_, ?_, ?_, ?_⟩ <;> simp [new]

theorem unused_of_not_added {max id : Nat} {h : List (AckEvent R)} {p : Phase}
    (hr : replay (phaseStep max id) .unused h = some p) (hnot : .added id ∉ h) : p = .unused := by
  refine replay_invariant (J := fun q es => .added id ∉ es → q = .unused) (fun _ => rfl) ?_ hr hnot
  intro q q' es e hq hstep hmem
  simp only [List.mem_append, List.mem_singleton, not_or] at hmem
  have hunused := hq hmem.1
  subst hunused
  by_cases hid : e.id = id
  · unfold phaseStep at hstep
    rw [if_pos hid] at hstep
    cases e with
    | added id' =>
      simp only [AckEvent.id] at hid
      subst hid
      exact absurd rfl hmem.2
    | _ => cases hstep
  · rw [phaseStep_other hid] at hstep
    cases hstep
    rfl

section Steps

variable {h : List (AckEvent R)} {m : PendingAckMap R}

theorem Tracks.fresh (hm : Tracks h m) (hlt : adds h < 2 ^ 64) : .added m.currId ∉ h := by
  intro hmem
  obtain ⟨i, hi, heq⟩ := hm.ids _ hmem
  have := hm.next
  omega

theorem Tracks.find_fresh (hm : Tracks h m) {id : Nat} (hnot : .added id ∉ h) :
    m.recordIndex.find id = none := by
  obtain ⟨p, hr, hp⟩ := hm.phase id
  rw [unused_of_not_added hr hnot] at hp
  simpa [Phase.resends?] using hp

theorem Tracks.add (hm : Tracks h m) (hlt : adds h < 2 ^ 64) (now : Nat) (requestor : Option R)
    (data : List UInt8) (ip port : Nat) (draw : ℚ) :
    Tracks (h ++ [AckEvent.added (m.add now requestor data ip port draw).1])
      (m.add now requestor data ip port draw).2 := by
  have hfresh := hm.fresh hlt
  have hnone := hm.find_fresh hfresh
  have hrto := m.computeRto_ge ip
  constructor
  · simp only [PendingAckMap.add, adds_append, hm.next]
    simp [adds, isAdded]
    omega
  · intro id hmem
    simp only [List.mem_append, List.mem_singleton] at hmem
    simp only [adds_append]
    rcases hmem with hmem | hmem
    · obtain ⟨i, hi, heq⟩ := hm.ids id hmem
      exact ⟨i, by omega, heq⟩
    · cases hmem
      exact ⟨adds h, by simp [adds, isAdded], hm.next⟩
  · intro id
    obtain ⟨p, hr, hp⟩ := hm.phase id
    by_cases hid : id = m.currId
    · subst hid
      refine ⟨.live 0, ?_, ?_⟩
      · rw [unused_of_not_added hr hfresh] at hr
        rw [show (m.add now requestor data ip port draw).2.maxRetries = m.maxRetries from rfl,
          replay_append_of_eq hr]
        simp [phaseStep, PendingAckMap.add, AckEvent.id]
      · simp [PendingAckMap.add, hnone, Phase.resends?]
    · refine ⟨p, ?_, ?_⟩
      · rw [show (m.add now requestor data ip port draw).2.maxRetries = m.maxRetries from rfl,
          replay_append_of_eq hr, replay_cons, phaseStep_other (fun heq => hid heq.symm)]
        rfl
      · simpa [PendingAckMap.add, hid] using hp
  · intro id record hf
    simp only [PendingAckMap.add, UMap.find_emplace, hnone, Option.getD_none] at hf
    split at hf
    · next heq =>
      cases hf
      exact heq.symm
    · exact hm.keyed id record hf
  · intro id record hf
    simp only [PendingAckMap.add, UMap.find_emplace, hnone, Option.getD_none] at hf
    split at hf
    · next heq =>
      cases hf
      subst heq
      have hold : m.retryQueue.filter (fun entry => entry.id = m.currId) = [] := by
        refine List.filter_eq_nil_iff.mpr fun entry hentry => ?_
        have hadd := hm.entries entry hentry
        simp only [decide_eq_true_eq]
        intro heq
        rw [heq] at hadd
        exact hfresh hadd
      simp [PendingAckMap.add, hold]
    · next hne =>
      have hne' : m.currId ≠ id := fun heq => hne heq.symm
      simpa [PendingAckMap.add, hne'] using hm.queued id record hf
  · intro entry hentry
    simp only [PendingAckMap.add, List.mem_cons] at hentry
    rcases hentry with rfl | hentry
    · simp [PendingAckMap.add]
    · exact List.mem_append_left _ (hm.entries entry hentry)
  · intro id record hf
    simp only [PendingAckMap.add, UMap.find_emplace, hnone, Option.getD_none] at hf
    split at hf
    · cases hf
      show 2 ≤ m.computeRto ip
      omega
    · exact hm.rto id record hf

/-- The phase of a request in the index. -/
theorem Tracks.replay_live (hm : Tracks h m) {id : Nat} {record : PendingRecord R}
    (hf : m.recordIndex.find id = some record) :
    replay (phaseStep m.maxRetries id) .unused h = some (.live record.retryCount) := by
  obtain ⟨p, hr, hp⟩ := hm.phase id
  rw [hf] at hp
  cases p with
  | live n =>
    have hn : record.retryCount = n := by simpa [Phase.resends?] using hp
    rw [hr, hn]
  | _ => simp [Phase.resends?] at hp

theorem filter_erase_of_ne {queue : List RetryEntry} {entry : RetryEntry} {id : Nat}
    (hne : entry.id ≠ id) :
    (queue.erase entry).filter (fun e => e.id = id) = queue.filter (fun e => e.id = id) := by
  rw [← List.erase_filter, List.erase_of_not_mem]
  simp [hne]

/-- An event of a request in the index that ends its life. -/
theorem Tracks.drop (hm : Tracks h m) {id : Nat} {record : PendingRecord R}
    (hf : m.recordIndex.find id = some record) {e : AckEvent R} (he : e.id = id)
    (hadd : isAdded e = false) {q : Phase}
    (hstep : phaseStep m.maxRetries id (.live record.retryCount) e = some q)
    (hdead : q.resends? = none) {m' : PendingAckMap R} (hmax : m'.maxRetries = m.maxRetries)
    (hcurr : m'.currId = m.currId) (hindex : m'.recordIndex = m.recordIndex.erase id)
    (hsub : ∀ entry ∈ m'.retryQueue, entry ∈ m.retryQueue)
    (hfilter : ∀ id', id' ≠ id → m'.retryQueue.filter (fun entry => entry.id = id') =
      m.retryQueue.filter (fun entry => entry.id = id')) : Tracks (h ++ [e]) m' := by
  have hadds : adds (h ++ [e]) = adds h := by
    rw [adds_append]
    simp [adds, hadd]
  have hother : ∀ {id' : Nat} {r : PendingRecord R}, m'.recordIndex.find id' = some r →
      id' ≠ id ∧ m.recordIndex.find id' = some r := by
    intro id' r hf'
    rw [hindex, UMap.find_erase] at hf'
    split at hf'
    · cases hf'
    · next hne => exact ⟨hne, hf'⟩
  refine ⟨by rw [hcurr, hadds]; exact hm.next, ?_, ?_, ?_, ?_, ?_, ?_⟩
  · intro id' hmem
    rw [hadds]
    rcases List.mem_append.mp hmem with hmem | hmem
    · exact hm.ids id' hmem
    · rw [← List.mem_singleton.mp hmem] at hadd
      cases hadd
  · intro id'
    by_cases hid : id' = id
    · subst hid
      refine ⟨q, ?_, by simp [hindex, hdead]⟩
      rw [hmax, replay_append_of_eq (hm.replay_live hf), replay_cons, hstep]
      rfl
    · obtain ⟨p, hr, hp⟩ := hm.phase id'
      refine ⟨p, ?_, by simpa [hindex, hid] using hp⟩
      rw [hmax, replay_append_of_eq hr, replay_cons,
        phaseStep_other (fun heq => hid (heq.symm.trans he))]
      rfl
  · intro id' r hf'
    exact hm.keyed id' r (hother hf').2
  · intro id' r hf'
    obtain ⟨hne, hf'⟩ := hother hf'
    rw [hfilter id' hne]
    exact hm.queued id' r hf'
  · intro entry hentry
    exact List.mem_append_left _ (hm.entries entry (hsub entry hentry))
  · intro id' r hf'
    exact hm.rto id' r (hother hf').2

theorem Tracks.remove (hm : Tracks h m) (now id : Nat) :
    Tracks (h ++ (m.remove now id).2.2) (m.remove now id).2.1 := by
  unfold PendingAckMap.remove
  cases hf : m.recordIndex.find id with
  | none => simpa using hm
  | some record =>
    dsimp only
    refine hm.drop hf rfl rfl (q := .removed) ?_ rfl ?_ ?_ ?_ ?_ ?_
    · simp [phaseStep, AckEvent.id]
    all_goals split <;> simp [updatePeerRtt]

/-- The entry popped, seen from the record that has its id. -/
theorem Tracks.popped (hm : Tracks h m) {entry : RetryEntry} (hentry : entry ∈ m.retryQueue)
    {record : PendingRecord R} (hf : m.recordIndex.find entry.id = some record) :
    entry = ⟨entry.id, record.nextRetryTime⟩ ∧
      (m.retryQueue.erase entry).filter (fun e => e.id = entry.id) = [] := by
  have hq := hm.queued entry.id record hf
  have hmem : entry ∈ m.retryQueue.filter (fun e => e.id = entry.id) := by simp [hentry]
  rw [hq, List.mem_singleton] at hmem
  refine ⟨hmem, ?_⟩
  rw [← List.erase_filter, hq, ← hmem]
  simp

/-- An entry whose request is gone. -/
theorem Tracks.stale (hm : Tracks h m) {entry : RetryEntry}
    (hf : m.recordIndex.find entry.id = none) :
    Tracks h { m with retryQueue := m.retryQueue.erase entry } := by
  refine ⟨hm.next, hm.ids, hm.phase, hm.keyed, ?_, ?_, hm.rto⟩
  · intro id record hf'
    have hne : entry.id ≠ id := by
      rintro rfl
      rw [hf] at hf'
      cases hf'
    simp only [filter_erase_of_ne hne]
    exact hm.queued id record hf'
  · intro e he
    exact hm.entries e (List.mem_of_mem_erase he)

/-- A request that is sent again: its old entry is gone from the queue, a new one is in it. -/
theorem Tracks.resend (hm : Tracks h m) {now : Nat} {entry : RetryEntry} {draw : ℚ}
    (hentry : entry ∈ m.retryQueue) {record : PendingRecord R}
    (hf : m.recordIndex.find entry.id = some record) (hlt : record.retryCount < m.maxRetries) :
    Tracks (h ++ [AckEvent.resent record.id]) { m with
      recordIndex := m.recordIndex.assign entry.id (PendingAckMap.resend record now draw)
      retryQueue := ⟨record.id, (PendingAckMap.resend record now draw).nextRetryTime⟩ ::
        m.retryQueue.erase entry } := by
  obtain ⟨-, hrest⟩ := hm.popped hentry hf
  have hkey := hm.keyed _ _ hf
  have hadds : adds (h ++ [AckEvent.resent record.id]) = adds h := by simp [adds, isAdded]
  have hfind : ∀ {id : Nat} {r : PendingRecord R},
      (m.recordIndex.assign entry.id (PendingAckMap.resend record now draw)).find id = some r →
      (id = entry.id ∧ r = PendingAckMap.resend record now draw) ∨
        (id ≠ entry.id ∧ m.recordIndex.find id = some r) := by
    intro id r hf'
    rw [UMap.find_assign] at hf'
    split at hf'
    · next heq => exact .inl ⟨heq, (Option.some.inj hf').symm⟩
    · next hne => exact .inr ⟨hne, hf'⟩
  refine ⟨by rw [hadds]; exact hm.next, ?_, ?_, ?_, ?_, ?_, ?_⟩
  · intro id hmem
    rw [hadds]
    simp only [List.mem_append, List.mem_singleton] at hmem
    rcases hmem with hmem | hmem
    · exact hm.ids id hmem
    · cases hmem
  · intro id
    by_cases hid : id = entry.id
    · subst hid
      refine ⟨.live (record.retryCount + 1), ?_, by simp [PendingAckMap.resend, Phase.resends?]⟩
      rw [replay_append_of_eq (hm.replay_live hf)]
      simp [phaseStep, AckEvent.id, hkey, hlt]
    · obtain ⟨p, hr, hp⟩ := hm.phase id
      refine ⟨p, ?_, by simpa [hid] using hp⟩
      have hne : (AckEvent.resent record.id : AckEvent R).id ≠ id :=
        fun heq => hid (Eq.trans heq.symm hkey)
      rw [replay_append_of_eq hr, replay_cons, phaseStep_other hne]
      rfl
  · intro id r hf'
    rcases hfind hf' with ⟨rfl, rfl⟩ | ⟨-, hf'⟩
    · exact hkey
    · exact hm.keyed id r hf'
  · intro id r hf'
    rcases hfind hf' with ⟨rfl, rfl⟩ | ⟨hne, hf'⟩
    · simp [hkey, hrest]
    · have hne' : record.id ≠ id := fun heq => hne (heq.symm.trans hkey)
      simp only [List.filter_cons, hne', decide_false, Bool.false_eq_true, if_false,
        filter_erase_of_ne hne.symm]
      exact hm.queued id r hf'
  · intro e he
    rcases List.mem_cons.mp he with rfl | he
    · have hadd := hm.entries entry hentry
      simp [hkey, hadd]
    · exact List.mem_append_left _ (hm.entries e (List.mem_of_mem_erase he))
  · intro id r hf'
    rcases hfind hf' with ⟨rfl, rfl⟩ | ⟨-, hf'⟩
    · have hrto := hm.rto _ _ hf
      have hmax : 2 ≤ ofMs kMaxRtoMs := ofMs_ge (by norm_num [kMaxRtoMs])
      simp only [PendingAckMap.resend]
      omega
    · exact hm.rto id r hf'

theorem Tracks.retry (hm : Tracks h m) (now : Nat) {entry : RetryEntry} (draw : ℚ)
    (hentry : entry ∈ m.retryQueue) :
    Tracks (h ++ (m.retry now entry draw).2) (m.retry now entry draw).1 := by
  unfold PendingAckMap.retry
  dsimp only
  cases hf : m.recordIndex.find entry.id with
  | none => simpa using hm.stale hf
  | some record =>
    obtain ⟨hpop, hrest⟩ := hm.popped hentry hf
    have htime : record.nextRetryTime = entry.nextRetryTime :=
      (congrArg RetryEntry.nextRetryTime hpop).symm
    have hkey := hm.keyed _ _ hf
    have hlive := hm.replay_live hf
    have hle : record.retryCount ≤ m.maxRetries := (describes_of_replay hlive).2.1
    simp only [htime, ne_eq, not_true_eq_false, if_false]
    split
    · next hmax =>
      refine hm.drop (e := .failed record.id record.requestor) (q := .failed) hf hkey rfl ?_ rfl rfl
        rfl rfl ?_ ?_
      · have heq : record.retryCount = m.maxRetries := by omega
        simp [phaseStep, AckEvent.id, hkey, heq]
      · exact fun e he => List.mem_of_mem_erase he
      · exact fun id' hne => filter_erase_of_ne hne.symm
    · next hmax =>
      simp only [resend_id]
      exact hm.resend hentry hf (by omega)

end Steps

/-! ## Calls of `processTimers` -/

/-- The request is in the index and its time has come. -/
def due (m : PendingAckMap R) (now id : Nat) : Bool :=
  match m.recordIndex.find id with
  | none => false
  | some record => record.nextRetryTime ≤ now

/-- How often the events handle `id`: send it again or give it up. -/
def handlings (id : Nat) (events : List (AckEvent R)) : Nat := resends id events + failures id events

/-- The entries of the queue whose time has come. -/
def dueEntries (m : PendingAckMap R) (now : Nat) : Nat :=
  m.retryQueue.countP fun entry => entry.nextRetryTime ≤ now

theorem handlings_append (id : Nat) (es fs : List (AckEvent R)) :
    handlings id (es ++ fs) = handlings id es + handlings id fs := by
  simp only [handlings, resends, failures, List.countP_append]
  omega

section Passes

variable {h : List (AckEvent R)} {m : PendingAckMap R} {now : Nat}

/-- What a pass does to the queue and to each request, when the entry popped is due. -/
theorem Tracks.retry_due (hm : Tracks h m) {entry : RetryEntry} {draw : ℚ}
    (hentry : entry ∈ m.retryQueue) (hdue : entry.nextRetryTime ≤ now)
    (hpos : DrawsPositive m entry draw) :
    dueEntries (m.retry now entry draw).1 now + 1 = dueEntries m now ∧
      ∀ id, handlings id (m.retry now entry draw).2 +
        (due (m.retry now entry draw).1 now id).toNat = (due m now id).toNat := by
  have herase : (m.retryQueue.erase entry).countP (fun e => e.nextRetryTime ≤ now) + 1 =
      dueEntries m now := by
    have hle : 1 ≤ dueEntries m now :=
      List.countP_pos_iff.mpr ⟨entry, hentry, by simpa using hdue⟩
    rw [List.countP_erase]
    simp only [hentry, hdue, dueEntries] at hle ⊢
    simp
    omega
  unfold PendingAckMap.retry
  dsimp only
  cases hf : m.recordIndex.find entry.id with
  | none =>
    refine ⟨herase, fun id => ?_⟩
    simp [handlings, resends, failures, due]
  | some record =>
    obtain ⟨hpop, -⟩ := hm.popped hentry hf
    have htime : record.nextRetryTime = entry.nextRetryTime :=
      (congrArg RetryEntry.nextRetryTime hpop).symm
    have hkey := hm.keyed _ _ hf
    simp only [htime, ne_eq, not_true_eq_false, if_false]
    split
    · refine ⟨herase, fun id => ?_⟩
      by_cases hid : id = entry.id
      · subst hid
        simp [handlings, resends, failures, isResent, isFailed, due, hf, hkey, htime, hdue]
      · have hid' : ¬ entry.id = id := fun heq => hid heq.symm
        simp [handlings, resends, failures, isResent, isFailed, due, hkey, hid, hid']
    · have hlater : now < (PendingAckMap.resend record now draw).nextRetryTime := by
        have hp := hpos record hf
        simp only [PendingAckMap.resend]
        omega
      have hnot : ¬ (PendingAckMap.resend record now draw).nextRetryTime ≤ now := by omega
      refine ⟨?_, fun id => ?_⟩
      · simpa [dueEntries, hnot] using herase
      · by_cases hid : id = entry.id
        · subst hid
          simp [handlings, resends, failures, isResent, isFailed, due, hf, hkey, htime, hdue, hnot]
        · have hid' : ¬ entry.id = id := fun heq => hid heq.symm
          simp [handlings, resends, failures, isResent, isFailed, due, hkey, hid, hid']

theorem Tracks.passes {k : Nat} {events : List (AckEvent R)} {m' : PendingAckMap R}
    (hm : Tracks h m) (hp : Passes now k m events m') :
    Tracks (h ++ events) m' ∧ k + dueEntries m' now = dueEntries m now ∧
      ∀ id, handlings id events + (due m' now id).toNat = (due m now id).toNat := by
  induction hp generalizing h with
  | start => exact ⟨by simpa using hm, by omega, by simp [handlings, resends, failures]⟩
  | pass htop hdue hpos _ ih =>
    obtain ⟨hone, hall⟩ := hm.retry_due htop.1 hdue hpos
    obtain ⟨htracks, hcount, hrest⟩ := ih (hm.retry now _ htop.1)
    refine ⟨by simpa using htracks, by omega, fun id => ?_⟩
    have h1 := hall id
    have h2 := hrest id
    rw [handlings_append]
    omega

/-- Without due entries no request is due. -/
theorem Tracks.not_due (hm : Tracks h m) (hnone : ∀ entry ∈ m.retryQueue, now < entry.nextRetryTime)
    (id : Nat) : due m now id = false := by
  unfold due
  cases hf : m.recordIndex.find id with
  | none => rfl
  | some record =>
    have hmem : (⟨id, record.nextRetryTime⟩ : RetryEntry) ∈ m.retryQueue := by
      have : (⟨id, record.nextRetryTime⟩ : RetryEntry) ∈
          m.retryQueue.filter (fun entry => entry.id = id) := by
        rw [hm.queued id record hf]
        simp
      exact (List.mem_filter.mp this).1
    have hlt := hnone _ hmem
    simp only at hlt ⊢
    simpa using hlt

theorem exists_isTop {m : PendingAckMap R} (hne : m.retryQueue ≠ []) : ∃ entry, IsTop m entry := by
  obtain ⟨entry, hmem, hmin⟩ := m.retryQueue.toFinset.exists_min_image (·.nextRetryTime)
    (by simpa [List.toFinset_nonempty_iff] using hne)
  exact ⟨entry, List.mem_toFinset.mp hmem, fun other ho => hmin other (List.mem_toFinset.mpr ho)⟩

/-- However a call has begun, it can go on to its end. -/
theorem Tracks.processTimers_exists (hm : Tracks h m) (now : Nat) :
    ∃ events m', ProcessTimers now m events m' := by
  induction hn : dueEntries m now generalizing h m with
  | zero =>
    refine ⟨[], m, 0, .start, fun entry hentry => ?_⟩
    have := List.countP_eq_zero.mp hn entry hentry
    simpa using this
  | succ n ih =>
    obtain ⟨entry₀, hmem₀, hdue₀⟩ := List.countP_pos_iff.mp (by rw [← dueEntries]; omega :
      0 < m.retryQueue.countP fun entry => entry.nextRetryTime ≤ now)
    obtain ⟨entry, htop⟩ := exists_isTop (List.ne_nil_of_mem hmem₀)
    have hdue : entry.nextRetryTime ≤ now := by
      have := htop.2 entry₀ hmem₀
      simp only [decide_eq_true_eq] at hdue₀
      omega
    have hpos : DrawsPositive m entry 0 := by
      intro record hf
      have hrto := hm.rto _ _ hf
      have hmax : 2 ≤ ofMs kMaxRtoMs := ofMs_ge (by norm_num [kMaxRtoMs])
      exact applyJitter_pos (by omega) le_rfl
    obtain ⟨hone, -⟩ := hm.retry_due htop.1 hdue hpos
    obtain ⟨events, m', k, hpasses, hdone⟩ := ih (hm.retry now 0 htop.1) (by omega)
    exact ⟨_, m', k + 1, .pass htop hdue hpos hpasses, hdone⟩

end Passes

/-! ## Runs -/

theorem retry_maxRetries (m : PendingAckMap R) (now : Nat) (entry : RetryEntry) (draw : ℚ) :
    (m.retry now entry draw).1.maxRetries = m.maxRetries := by
  unfold PendingAckMap.retry
  dsimp only
  split
  · rfl
  split
  · rfl
  split <;> rfl

theorem Step.maxRetries {m m' : PendingAckMap R} {events : List (AckEvent R)}
    (hs : Step m events m') : m'.maxRetries = m.maxRetries := by
  cases hs with
  | add => rfl
  | remove =>
    unfold PendingAckMap.remove
    dsimp only
    split
    · rfl
    · dsimp only
      split <;> rfl
  | processTimers hp =>
    obtain ⟨k, hp, -⟩ := hp
    induction hp with
    | start => rfl
    | pass _ _ _ _ ih => rw [ih, retry_maxRetries]

theorem retry_peerRttIndex (m : PendingAckMap R) (now : Nat) (entry : RetryEntry) (draw : ℚ) :
    (m.retry now entry draw).1.peerRttIndex = m.peerRttIndex := by
  unfold PendingAckMap.retry
  dsimp only
  split
  · rfl
  split
  · rfl
  split <;> rfl

/-- The round trip times change only where the events say that a sample is taken. -/
theorem Step.peerRttIndex {m m' : PendingAckMap R} {events : List (AckEvent R)}
    (hs : Step m events m') (hnone : ∀ id, .removed id true ∉ events) :
    m'.peerRttIndex = m.peerRttIndex := by
  cases hs with
  | add => rfl
  | @remove now id =>
    unfold PendingAckMap.remove at hnone ⊢
    cases hf : m.recordIndex.find id with
    | none => rfl
    | some record =>
      rw [hf] at hnone
      dsimp only at hnone ⊢
      cases hsampled : record.retryCount == 0 with
      | false => rfl
      | true =>
        rw [hsampled] at hnone
        exact absurd List.mem_cons_self (hnone id)
  | processTimers hp =>
    obtain ⟨k, hp, -⟩ := hp
    clear hnone
    induction hp with
    | start => rfl
    | pass _ _ _ _ ih => rw [ih, retry_peerRttIndex]

theorem Tracks.step {h events : List (AckEvent R)} {m m' : PendingAckMap R} (hm : Tracks h m)
    (hs : Step m events m') (hlt : adds h < 2 ^ 64) : Tracks (h ++ events) m' := by
  cases hs with
  | add _ => exact hm.add hlt _ _ _ _ _ _
  | remove => exact hm.remove _ _
  | processTimers hp =>
    obtain ⟨k, hp, -⟩ := hp
    exact (hm.passes hp).1

theorem Reaches.tracks {configured : Option Int} {h : List (AckEvent R)} {m : PendingAckMap R}
    (hr : Reaches configured h m) (hlt : adds h < 2 ^ 64) :
    Tracks h m ∧ m.maxRetries = (PendingAckMap.new configured : PendingAckMap R).maxRetries := by
  induction hr with
  | new => exact ⟨tracks_new configured, rfl⟩
  | step _ hs ih =>
    rw [adds_append] at hlt
    obtain ⟨hm, hmax⟩ := ih (by omega)
    exact ⟨hm.step hs (by omega), hs.maxRetries.trans hmax⟩

/-- What the table promises, after the history `h`, when requests are sent again up to `max`
times. -/
structure TableCorrect (max : Nat) (h : List (AckEvent R)) (m : PendingAckMap R) : Prop where
  /-- Exactly one entry still refers to a live record. -/
  oneEntry : ∀ id record, m.recordIndex.find id = some record →
    m.retryQueue.countP
      (fun entry => entry.id = id ∧ entry.nextRetryTime = record.nextRetryTime) = 1
  /-- Nothing happens to a request that was removed. -/
  removedLast : ∀ pre post id sampled, h = pre ++ AckEvent.removed id sampled :: post →
    ∀ e ∈ post, e.id ≠ id
  /-- One never removed is live, or it was sent again `max` times, failed once and is gone. -/
  retried : ∀ id, .added id ∈ h → (∀ sampled, .removed id sampled ∉ h) →
    ((m.recordIndex.find id).isSome ∧ resends id h ≤ max ∧ failures id h = 0) ∨
      (m.recordIndex.find id = none ∧ resends id h = max ∧ failures id h = 1)
  /-- The failure is the last that happens to it. -/
  failedLast : ∀ pre post id requestor, h = pre ++ AckEvent.failed id requestor :: post →
    resends id pre = max ∧ ∀ e ∈ post, e.id ≠ id
  /-- A sample is taken from requests never sent again. -/
  sampled : ∀ pre post id, h = pre ++ AckEvent.removed id true :: post → resends id pre = 0
  /-- A call makes as many passes as there are entries due, handles no request twice, and whatever
  it has done so far it can go on to its end. -/
  terminates : ∀ now k events m', Passes now k m events m' →
    k ≤ dueEntries m now ∧ (∀ id, handlings id events ≤ 1) ∧
      ∃ more m'', ProcessTimers now m' more m''
  /-- A call handles the requests that are due, each once, and no other. -/
  handled : ∀ now events m', ProcessTimers now m events m' →
    ∀ id, handlings id events = (due m now id).toNat

section Correct

variable {h : List (AckEvent R)} {m : PendingAckMap R}

theorem Tracks.oneEntry (hm : Tracks h m) {id : Nat} {record : PendingRecord R}
    (hf : m.recordIndex.find id = some record) :
    m.retryQueue.countP
      (fun entry => entry.id = id ∧ entry.nextRetryTime = record.nextRetryTime) = 1 := by
  have hq := hm.queued id record hf
  have hsplit : m.retryQueue.countP
      (fun entry => entry.id = id ∧ entry.nextRetryTime = record.nextRetryTime) =
      (m.retryQueue.filter (fun entry => entry.id = id)).countP
        (fun entry => entry.nextRetryTime = record.nextRetryTime) := by
    rw [List.countP_filter]
    refine List.countP_congr fun entry _ => ?_
    simp [and_comm]
  rw [hsplit, hq]
  simp

theorem Tracks.retried (hm : Tracks h m) {id : Nat} (hadd : .added id ∈ h)
    (hnot : ∀ sampled, .removed id sampled ∉ h) :
    ((m.recordIndex.find id).isSome ∧ resends id h ≤ m.maxRetries ∧ failures id h = 0) ∨
      (m.recordIndex.find id = none ∧ resends id h = m.maxRetries ∧ failures id h = 1) := by
  obtain ⟨p, hr, hp⟩ := hm.phase id
  have hd := describes_of_replay hr
  cases p with
  | unused => exact absurd rfl (hd _ hadd)
  | live n =>
    obtain ⟨h1, h2, h3, -⟩ := hd
    refine .inl ⟨?_, by omega, h3⟩
    cases hf : m.recordIndex.find id with
    | none => simp [hf, Phase.resends?] at hp
    | some record => rfl
  | removed =>
    obtain ⟨-, sampled, hmem⟩ := hd
    exact absurd hmem (hnot sampled)
  | failed =>
    obtain ⟨h1, h2, -⟩ := hd
    refine .inr ⟨?_, h1, h2⟩
    simpa [Phase.resends?] using hp

/-- The phase before an event and what follows it. -/
theorem Tracks.split (hm : Tracks h m) {pre post : List (AckEvent R)} {e : AckEvent R}
    (heq : h = pre ++ e :: post) :
    ∃ q q' p, q.Describes m.maxRetries e.id pre ∧ phaseStep m.maxRetries e.id q e = some q' ∧
      replay (phaseStep m.maxRetries e.id) q' post = some p := by
  obtain ⟨p, hr, -⟩ := hm.phase e.id
  rw [heq] at hr
  obtain ⟨q, q', hq, hstep, hrest⟩ := replay_split hr
  exact ⟨q, q', p, describes_of_replay hq, hstep, hrest⟩

/-- Removed and failed requests have no more events. -/
theorem ended_last {max id : Nat} {q p : Phase} (hended : q = .removed ∨ q = .failed)
    {post : List (AckEvent R)} (hr : replay (phaseStep max id) q post = some p) :
    ∀ e ∈ post, e.id ≠ id := by
  refine replay_final (K := fun e => e.id = id) ?_ (fun e he => phaseStep_other he q) hr
  intro e he
  rcases hended with rfl | rfl <;> simp [phaseStep, he]

theorem Tracks.correct (hm : Tracks h m) : TableCorrect m.maxRetries h m := by
  refine ⟨fun id record hf => hm.oneEntry hf, ?_, fun id hadd hnot => hm.retried hadd hnot,
    ?_, ?_, ?_, ?_⟩
  · intro pre post id sampled heq
    obtain ⟨q, q', p, -, hstep, hrest⟩ := hm.split heq
    have hended : q' = .removed := by
      cases q <;> simp [phaseStep, AckEvent.id] at hstep
      exact hstep.2.symm
    exact ended_last (.inl hended) hrest
  · intro pre post id requestor heq
    obtain ⟨q, q', p, hd, hstep, hrest⟩ := hm.split heq
    cases q with
    | live n =>
      simp [phaseStep, AckEvent.id] at hstep
      obtain ⟨hn, rfl⟩ := hstep
      exact ⟨hd.1.trans hn, ended_last (.inr rfl) hrest⟩
    | _ => simp [phaseStep] at hstep
  · intro pre post id heq
    obtain ⟨q, q', p, hd, hstep, -⟩ := hm.split heq
    cases q with
    | live n =>
      simp [phaseStep, AckEvent.id] at hstep
      exact hd.1.trans hstep.1
    | _ => simp [phaseStep] at hstep
  · intro now k events m' hp
    obtain ⟨hm', hcount, hall⟩ := hm.passes hp
    refine ⟨by omega, fun id => ?_, hm'.processTimers_exists now⟩
    have h1 := hall id
    have h2 := Bool.toNat_le (due m now id)
    omega
  · intro now events m' hp id
    obtain ⟨k, hp, hdone⟩ := hp
    obtain ⟨hm', -, hall⟩ := hm.passes hp
    have h1 := hall id
    rw [hm'.not_due hdone id] at h1
    exact h1

end Correct

/-- After every run that added fewer than `2 ^ 64` requests the table keeps its promises. -/
theorem tableCorrect_reaches {configured : Option Int} {h : List (AckEvent R)}
    {m : PendingAckMap R} (hr : Reaches configured h m) (hlt : adds h < 2 ^ 64) :
    TableCorrect (new configured : PendingAckMap R).maxRetries h m := by
  obtain ⟨hm, hmax⟩ := hr.tracks hlt
  rw [← hmax]
  exact hm.correct

/-- One request of a transport. -/
def requested : PendingAckMap Unit := ((new none).add 0 (some ()) [1, 2] 9 9 0).2

/-- Its time comes after 150 ms. -/
def requestedAgain : PendingAckMap Unit := (requested.retry 150000000 ⟨1, 150000000⟩ 0).1

/-- The request is sent again, and acknowledged then. -/
theorem tableCorrect_acknowledged :
    TableCorrect 8 [.added 1, .resent 1, .removed 1 false]
      (requestedAgain.remove 160000000 1).2.1 := by
  have hadd : Reaches none [.added 1] requested :=
    .step .new (.add (applyJitter_pos (le_trans (by decide) (computeRto_ge _ _)) le_rfl))
  have htop : IsTop requested ⟨1, 150000000⟩ := ⟨by decide +kernel, by decide +kernel⟩
  have hdraw : DrawsPositive requested ⟨1, 150000000⟩ 0 := by
    intro record hf
    obtain rfl := Option.some.inj hf
    decide +kernel
  have hevents : (requested.retry 150000000 ⟨1, 150000000⟩ 0).2 = [.resent 1] := by decide +kernel
  have hpasses : Passes 150000000 1 requested
      ((requested.retry 150000000 ⟨1, 150000000⟩ 0).2 ++ []) requestedAgain :=
    .pass htop le_rfl hdraw .start
  rw [hevents] at hpasses
  have hresend : ProcessTimers 150000000 requested [.resent 1] requestedAgain :=
    ⟨1, hpasses, by decide +kernel⟩
  have hremoved : (requestedAgain.remove 160000000 1).2.2 = [.removed 1 false] := by
    decide +kernel
  have hlast := @Step.remove _ requestedAgain 160000000 1
  rw [hremoved] at hlast
  exact tableCorrect_reaches (.step (.step hadd (.processTimers hresend)) hlast) (by decide)

end PendingAckMap

end Alpine
