import Mathlib.Data.UInt
import Alpine.Protocol.RatingEngine

/-!
# Feedback from file accesses

`AlpineFeedbackAggregator` has a session for each process and path that has the file open, and rates
the resource when the file is closed. There is one session for a process and path however often the
file is open: an Open starts it anew and a Close ends it, so that of nested opens only the last is
seen, and only by the first Close (`nestedClose_not_own`). Each Close is classified by the events of
its process and path alone (`along_classified`).

Times are nanoseconds of `steady_clock`, which does not go back and has 63 bits for them.
-/

namespace Alpine

open Lib

inductive FsOp where
  | open
  | read
  | close
  deriving DecidableEq

/-- `FsEvent`. -/
structure FsEvent where
  fsPath : List Char
  op : FsOp
  bytes : UInt64
  pid : Int
  ts : Int

/-- `Config`, as far as it is read. -/
structure FeedbackConfig where
  dwellMinMs : UInt64
  debounceSec : UInt64

namespace FeedbackConfig

def default : FeedbackConfig := ⟨500, 5⟩

end FeedbackConfig

/-- `Session`. -/
structure FeedbackSession where
  openedAt : Int
  readCount : UInt64
  bytesRead : UInt64

/-- A process and a path. -/
abbrev SessionKey := Int × List Char

/-- A rating that is submitted. -/
structure ResourceFeedback where
  resourceId : UInt64
  peerId : UInt64
  rating : ResourceRating
  time : Nat
  deriving DecidableEq

/-- An event, what the resource store answers for its path, how long after the last reading the
clock is read first, and how long after that it is read again. -/
structure FeedbackInput where
  event : FsEvent
  resolved : Option (UInt64 × UInt64)
  wait : Nat
  wait' : Nat

/-- What is recorded of a run. -/
inductive FeedbackRecord where
  | observed (event : FsEvent)
  | rated (feedback : ResourceFeedback)

structure FeedbackAggregator where
  sessions : UMap SessionKey FeedbackSession
  lastEmit : UMap UInt64 Nat
  totalEvents : UInt64
  totalRatings : UInt64
  clock : Nat

namespace FsEvent

def key (event : FsEvent) : SessionKey := (event.pid, event.fsPath)

def isRead (event : FsEvent) : Bool := event.op = .read

end FsEvent

namespace FeedbackAggregator

def start : FeedbackAggregator := ⟨∅, ∅, 0, 0, 0⟩

/-- `duration_cast` to milliseconds, and the cast to `ulong`. -/
def dwellMs (now openedAt : Int) : UInt64 :=
  UInt64.ofNat (((now - openedAt).tdiv 1000000) % 2 ^ 64).toNat

def classify (cfg : FeedbackConfig) (now : Int) (session : FeedbackSession) : ResourceRating :=
  if session.readCount = 0 ∨ dwellMs now session.openedAt < cfg.dwellMinMs then .low
  else if session.bytesRead > 0 ∧ session.readCount ≥ 4 then .high
  else .average

/-- The key of `lastEmit`. -/
def emitKey (uid : UInt32) (resourceId : UInt64) : UInt64 := uid.toUInt64 <<< 32 ||| resourceId

def shouldDebounce (cfg : FeedbackConfig) (s : FeedbackAggregator) (uid : UInt32)
    (resourceId : UInt64) (now : Nat) : Bool × FeedbackAggregator :=
  let key := emitKey uid resourceId
  match s.lastEmit.find key with
  | some last =>
    if (now - last) / 1000000000 < cfg.debounceSec.toNat then (true, s)
    else (false, { s with lastEmit := s.lastEmit.assign key now })
  | none => (false, { s with lastEmit := s.lastEmit.assign key now })

/-- `clientResourceEvaluation` accepts every profile that is not null. -/
def finalizeSession (cfg : FeedbackConfig) (s : FeedbackAggregator) (session : FeedbackSession)
    (resolved : Option (UInt64 × UInt64)) (now later : Nat) :
    FeedbackAggregator × Option ResourceFeedback :=
  match resolved with
  | none => (s, none)
  | some (resourceId, peerId) =>
    let rating := classify cfg now session
    let debounced := shouldDebounce cfg s 0 resourceId later
    if debounced.1 then (debounced.2, none)
    else
      ({ debounced.2 with totalRatings := debounced.2.totalRatings + 1 },
        some ⟨resourceId, peerId, rating, later⟩)

/-- A Close without an Open before it. -/
def closeSession (event : FsEvent) : FeedbackSession :=
  ⟨event.ts, if event.bytes > 0 then 1 else 0, event.bytes⟩

def onEvent (cfg : FeedbackConfig) (s : FeedbackAggregator) (input : FeedbackInput) :
    FeedbackAggregator × Option ResourceFeedback :=
  let event := input.event
  let now := s.clock + input.wait
  let later := now + input.wait'
  let s := { s with totalEvents := s.totalEvents + 1, clock := later }
  match event.op with
  | .open => ({ s with sessions := s.sessions.assign event.key ⟨event.ts, 0, 0⟩ }, none)
  | .read =>
    match s.sessions.find event.key with
    | some session =>
      let session : FeedbackSession := { session with
        readCount := session.readCount + 1, bytesRead := session.bytesRead + event.bytes }
      ({ s with sessions := s.sessions.assign event.key session }, none)
    | none => (s, none)
  | .close =>
    match s.sessions.find event.key with
    | some session =>
      finalizeSession cfg { s with sessions := s.sessions.erase event.key } session input.resolved
        now later
    | none => finalizeSession cfg s (closeSession event) input.resolved now later

def machine (cfg : FeedbackConfig) : Machine FeedbackAggregator FeedbackInput FeedbackRecord where
  step s input := ((onEvent cfg s input).1,
    .observed input.event :: ((onEvent cfg s input).2.map .rated).toList)

/-! ## What the events say -/

/-- The events of a process and path. -/
def eventsOf (key : SessionKey) (history : List FeedbackRecord) : List FsEvent :=
  history.filterMap fun
    | .observed event => if event.key = key then some event else none
    | .rated _ => none

/-- When a resource was rated. -/
def ratedTimes (resourceId : UInt64) (history : List FeedbackRecord) : List Nat :=
  history.filterMap fun
    | .observed _ => none
    | .rated feedback => if feedback.resourceId = resourceId then some feedback.time else none

/-- The time of an Open and the reads behind it. -/
def sessionOf (opened : FsEvent) (reads : List FsEvent) : FeedbackSession :=
  ⟨opened.ts, UInt64.ofNat reads.length, (reads.map FsEvent.bytes).sum⟩

/-- The last Open and the reads behind it, unless there is a Close behind it. -/
def lastOpen (events : List FsEvent) : Option (FsEvent × List FsEvent) :=
  match events.reverse.dropWhile FsEvent.isRead with
  | [] => none
  | event :: _ =>
    if event.op = .open then some (event, (events.reverse.takeWhile FsEvent.isRead).reverse)
    else none

/-- The session that a Close ends, after some events of its process and path. -/
def sessionAt (events : List FsEvent) (event : FsEvent) : FeedbackSession :=
  match lastOpen events with
  | some (opened, reads) => sessionOf opened reads
  | none => closeSession event

/-- A rating is given exactly for a Close of a resource that has none in the last `debounceSec`
seconds, and is that of the session. -/
def Classified (cfg : FeedbackConfig) (history : List FeedbackRecord) (s : FeedbackAggregator)
    (input : FeedbackInput) : Prop :=
  ∀ feedback, (onEvent cfg s input).2 = some feedback ↔
    input.event.op = .close ∧
    input.resolved = some (feedback.resourceId, feedback.peerId) ∧
    feedback.rating = classify cfg (s.clock + input.wait : Nat)
      (sessionAt (eventsOf input.event.key history) input.event) ∧
    feedback.time = s.clock + input.wait + input.wait' ∧
    ∀ t ∈ ratedTimes feedback.resourceId history,
      t + cfg.debounceSec.toNat * 1000000000 ≤ feedback.time

/-! ## The last Open -/

theorem lastOpen_open (events : List FsEvent) {event : FsEvent} (hop : event.op = .open) :
    lastOpen (events ++ [event]) = some (event, []) := by
  have hread : ¬ event.isRead := by rw [FsEvent.isRead, hop]; decide
  rw [lastOpen, List.reverse_concat, List.dropWhile_cons_of_neg hread,
    List.takeWhile_cons_of_neg hread]
  dsimp only
  rw [if_pos hop]
  rfl

theorem lastOpen_close (events : List FsEvent) {event : FsEvent} (hop : event.op = .close) :
    lastOpen (events ++ [event]) = none := by
  have hread : ¬ event.isRead := by rw [FsEvent.isRead, hop]; decide
  rw [lastOpen, List.reverse_concat, List.dropWhile_cons_of_neg hread]
  dsimp only
  rw [if_neg (by rw [hop]; decide)]

theorem lastOpen_read (events : List FsEvent) {event : FsEvent} (hop : event.op = .read) :
    lastOpen (events ++ [event]) = (lastOpen events).map fun p => (p.1, p.2 ++ [event]) := by
  have hread : event.isRead := decide_eq_true hop
  rw [lastOpen, lastOpen, List.reverse_concat, List.dropWhile_cons_of_pos hread,
    List.takeWhile_cons_of_pos hread, List.reverse_cons]
  cases events.reverse.dropWhile FsEvent.isRead with
  | nil => rfl
  | cons opened rest =>
    dsimp only
    split <;> rfl

theorem sessionOf_concat (opened : FsEvent) (reads : List FsEvent) (event : FsEvent) :
    sessionOf opened (reads ++ [event]) =
      ⟨(sessionOf opened reads).openedAt, (sessionOf opened reads).readCount + 1,
        (sessionOf opened reads).bytesRead + event.bytes⟩ := by
  unfold sessionOf
  rw [List.length_append, UInt64.ofNat_add, List.map_append, List.sum_append]
  simp

/-! ## What is recorded -/

theorem eventsOf_append (key : SessionKey) (history more : List FeedbackRecord) :
    eventsOf key (history ++ more) = eventsOf key history ++ eventsOf key more :=
  List.filterMap_append

theorem ratedTimes_append (resourceId : UInt64) (history more : List FeedbackRecord) :
    ratedTimes resourceId (history ++ more) =
      ratedTimes resourceId history ++ ratedTimes resourceId more :=
  List.filterMap_append

/-- A step adds its event to those of its process and path. -/
theorem eventsOf_step (key : SessionKey) (event : FsEvent) (feedback : Option ResourceFeedback) :
    eventsOf key (.observed event :: (feedback.map .rated).toList) =
      if event.key = key then [event] else [] := by
  cases feedback <;> by_cases hkey : event.key = key <;> simp [eventsOf, hkey]

theorem ratedTimes_step (resourceId : UInt64) (event : FsEvent)
    (feedback : Option ResourceFeedback) :
    ratedTimes resourceId (.observed event :: (feedback.map .rated).toList) =
      ((feedback.filter (·.resourceId = resourceId)).map (·.time)).toList := by
  cases feedback with
  | none => rfl
  | some feedback =>
    by_cases hid : feedback.resourceId = resourceId <;>
      simp [ratedTimes, hid, Option.filter]

theorem emitKey_zero (resourceId : UInt64) : emitKey 0 resourceId = resourceId := by
  simp [emitKey]

/-! ## One event -/

/-- The sessions are those of the events, and `lastEmit` has the last ratings. -/
structure Follows (history : List FeedbackRecord) (s : FeedbackAggregator) : Prop where
  sessions : ∀ key, s.sessions.find key =
    (lastOpen (eventsOf key history)).map fun p => sessionOf p.1 p.2
  emitted : ∀ resourceId, s.lastEmit.find resourceId = (ratedTimes resourceId history).getLast?
  sorted : ∀ resourceId, (ratedTimes resourceId history).Pairwise (· ≤ ·)
  passed : ∀ resourceId, ∀ t ∈ ratedTimes resourceId history, t ≤ s.clock

variable {cfg : FeedbackConfig} {s : FeedbackAggregator} {history : List FeedbackRecord}

theorem follows_start : Follows [] start :=
  ⟨fun _ => rfl, fun _ => rfl, fun _ => List.Pairwise.nil, nofun⟩

/-- What a session becomes at an event of its process and path. -/
def nextSession (event : FsEvent) (session : Option FeedbackSession) : Option FeedbackSession :=
  match event.op with
  | .open => some ⟨event.ts, 0, 0⟩
  | .read => session.map fun session => ⟨session.openedAt, session.readCount + 1,
      session.bytesRead + event.bytes⟩
  | .close => none

theorem nextSession_lastOpen (events : List FsEvent) (event : FsEvent) :
    nextSession event ((lastOpen events).map fun p => sessionOf p.1 p.2) =
      (lastOpen (events ++ [event])).map fun p => sessionOf p.1 p.2 := by
  rw [nextSession]
  cases hop : event.op with
  | «open» => rw [lastOpen_open events hop]; rfl
  | close => rw [lastOpen_close events hop]; rfl
  | read =>
    rw [lastOpen_read events hop, Option.map_map, Option.map_map]
    refine Option.map_congr fun p _ => ?_
    exact (sessionOf_concat p.1 p.2 event).symm

theorem le_getLast {times : List Nat} (hsorted : times.Pairwise (· ≤ ·)) {last : Nat}
    (hlast : times.getLast? = some last) : ∀ t ∈ times, t ≤ last := by
  obtain ⟨front, rfl⟩ := List.getLast?_eq_some_iff.mp hlast
  intro t ht
  rcases List.mem_append.mp ht with hfront | hend
  · exact (List.pairwise_append.mp hsorted).2.2 t hfront last (List.mem_singleton_self _)
  · exact Nat.le_of_eq (List.mem_singleton.mp hend)

variable (cfg) in
/-- A rating is held back exactly if there is one of the resource in the last `debounceSec`
seconds. -/
theorem shouldDebounce_spec {times : List Nat} {resourceId : UInt64} {now : Nat}
    (hlast : s.lastEmit.find resourceId = times.getLast?) (hsorted : times.Pairwise (· ≤ ·))
    (hpassed : ∀ t ∈ times, t ≤ now) :
    ((∀ t ∈ times, t + cfg.debounceSec.toNat * 1000000000 ≤ now) ∧
      shouldDebounce cfg s 0 resourceId now =
        (false, { s with lastEmit := s.lastEmit.assign resourceId now })) ∨
    (¬ (∀ t ∈ times, t + cfg.debounceSec.toNat * 1000000000 ≤ now) ∧
      shouldDebounce cfg s 0 resourceId now = (true, s)) := by
  rw [shouldDebounce, emitKey_zero, hlast]
  cases hget : times.getLast? with
  | none =>
    rw [List.getLast?_eq_none_iff] at hget
    exact .inl ⟨by rw [hget]; nofun, rfl⟩
  | some last =>
    have hmem : last ∈ times := List.mem_of_getLast? hget
    have hle := hpassed last hmem
    dsimp only
    by_cases hrecent : (now - last) / 1000000000 < cfg.debounceSec.toNat
    · rw [if_pos hrecent]
      rw [Nat.div_lt_iff_lt_mul (by decide)] at hrecent
      refine .inr ⟨fun hall => ?_, rfl⟩
      have := hall last hmem
      omega
    · rw [if_neg hrecent]
      rw [Nat.div_lt_iff_lt_mul (by decide)] at hrecent
      refine .inl ⟨fun t ht => ?_, rfl⟩
      have := le_getLast hsorted hget t ht
      omega

variable (cfg) in
/-- What `finalizeSession` gives, and what it leaves of the rest. -/
theorem finalizeSession_spec {times : UInt64 → List Nat} {now later : Nat}
    (hlast : ∀ r, s.lastEmit.find r = (times r).getLast?)
    (hsorted : ∀ r, (times r).Pairwise (· ≤ ·)) (hpassed : ∀ r, ∀ t ∈ times r, t ≤ later)
    (session : FeedbackSession) (resolved : Option (UInt64 × UInt64)) :
    ∃ feedback, (finalizeSession cfg s session resolved now later).2 = feedback ∧
      (∀ f, feedback = some f ↔ resolved = some (f.resourceId, f.peerId) ∧
        f.rating = classify cfg now session ∧ f.time = later ∧
        ∀ t ∈ times f.resourceId, t + cfg.debounceSec.toNat * 1000000000 ≤ f.time) ∧
      (finalizeSession cfg s session resolved now later).1.sessions = s.sessions ∧
      (finalizeSession cfg s session resolved now later).1.clock = s.clock ∧
      ∀ r, (finalizeSession cfg s session resolved now later).1.lastEmit.find r =
        ((feedback.filter (·.resourceId = r)).map (·.time)).or (s.lastEmit.find r) := by
  cases resolved with
  | none => exact ⟨none, rfl, fun f => ⟨nofun, fun h => nomatch h.1⟩, rfl, rfl, fun r => rfl⟩
  | some resource =>
    obtain ⟨resourceId, peerId⟩ := resource
    rw [finalizeSession]
    dsimp only
    rcases shouldDebounce_spec cfg (hlast resourceId) (hsorted resourceId)
      (hpassed resourceId) with ⟨hfree, hdebounce⟩ | ⟨hrecent, hdebounce⟩
    · rw [hdebounce, if_neg Bool.false_ne_true]
      refine ⟨_, rfl, fun f => ?_, rfl, rfl, fun r => ?_⟩
      · rw [Option.some.injEq]
        constructor
        · rintro rfl
          exact ⟨rfl, rfl, rfl, hfree⟩
        · obtain ⟨fResource, fPeer, fRating, fTime⟩ := f
          rintro ⟨hresolved, rfl, rfl, -⟩
          cases hresolved
          rfl
      · show UMap.find (UMap.assign s.lastEmit resourceId later) r = _
        rw [UMap.find_assign]
        by_cases hr : r = resourceId
        · rw [if_pos hr]
          simp [Option.filter, hr]
        · rw [if_neg hr]
          simp [Option.filter, Ne.symm hr]
    · rw [hdebounce, if_pos rfl]
      refine ⟨none, rfl, fun f => ⟨nofun, ?_⟩, rfl, rfl, fun r => rfl⟩
      rintro ⟨hresolved, -, htime, hfree⟩
      cases hresolved
      rw [htime] at hfree
      exact absurd hfree hrecent

/-- What an event gives, and what it leaves. -/
structure Steps (cfg : FeedbackConfig) (history : List FeedbackRecord) (s : FeedbackAggregator)
    (input : FeedbackInput) : Prop where
  given : Classified cfg history s input
  sessions : ∀ key, (onEvent cfg s input).1.sessions.find key =
    if input.event.key = key then nextSession input.event (s.sessions.find key)
    else s.sessions.find key
  clock : (onEvent cfg s input).1.clock = s.clock + input.wait + input.wait'
  lastEmit : ∀ r, (onEvent cfg s input).1.lastEmit.find r =
    (((onEvent cfg s input).2.filter (·.resourceId = r)).map (·.time)).or (s.lastEmit.find r)

/-- An event that is no Close gives no rating. -/
theorem steps_of_not_close {input : FeedbackInput} (sessions : UMap SessionKey FeedbackSession)
    (hop : input.event.op ≠ .close)
    (hstep : onEvent cfg s input =
      ({ s with sessions, totalEvents := s.totalEvents + 1,
                clock := s.clock + input.wait + input.wait' }, none))
    (hsessions : ∀ key, sessions.find key =
      if input.event.key = key then nextSession input.event (s.sessions.find key)
      else s.sessions.find key) : Steps cfg history s input := by
  refine ⟨fun feedback => ?_, ?_, ?_, ?_⟩
  · rw [hstep]
    exact ⟨nofun, fun h => absurd h.1 hop⟩
  · rw [hstep]
    exact hsessions
  · rw [hstep]
  · rw [hstep]
    exact fun r => rfl

/-- A Close ends a session and gives its rating. -/
theorem steps_of_close (h : Follows history s) {input : FeedbackInput}
    (sessions : UMap SessionKey FeedbackSession) (hop : input.event.op = .close)
    (hstep : onEvent cfg s input =
      finalizeSession cfg { s with sessions, totalEvents := s.totalEvents + 1,
                                   clock := s.clock + input.wait + input.wait' }
        (sessionAt (eventsOf input.event.key history) input.event) input.resolved
        (s.clock + input.wait) (s.clock + input.wait + input.wait'))
    (hsessions : ∀ key, sessions.find key =
      if input.event.key = key then nextSession input.event (s.sessions.find key)
      else s.sessions.find key) : Steps cfg history s input := by
  have hpassed : ∀ r, ∀ t ∈ ratedTimes r history, t ≤ s.clock + input.wait + input.wait' := by
    intro r t ht
    have := h.passed r t ht
    omega
  obtain ⟨feedback, hfeedback, hgiven, hkept, hclock, hemit⟩ := @finalizeSession_spec cfg
    { s with sessions, totalEvents := s.totalEvents + 1,
             clock := s.clock + input.wait + input.wait' }
    _ (s.clock + input.wait) _ h.emitted h.sorted hpassed
    (sessionAt (eventsOf input.event.key history) input.event) input.resolved
  refine ⟨fun f => ?_, ?_, ?_, ?_⟩
  · rw [hstep, hfeedback, hgiven, and_iff_right hop]
  · rw [hstep, hkept]
    exact hsessions
  · rw [hstep, hclock]
  · rw [hstep, hfeedback]
    exact hemit

variable (cfg) in
theorem onEvent_steps (h : Follows history s) (input : FeedbackInput) :
    Steps cfg history s input := by
  have hfind := h.sessions input.event.key
  cases hop : input.event.op with
  | «open» =>
    refine steps_of_not_close (s.sessions.assign input.event.key ⟨input.event.ts, 0, 0⟩)
      (by rw [hop]; decide) (by rw [onEvent, hop]) fun key => ?_
    rw [UMap.find_assign, nextSession, hop]
    by_cases hkey : key = input.event.key
    · rw [if_pos hkey, if_pos hkey.symm]
    · rw [if_neg hkey, if_neg (Ne.symm hkey)]
  | read =>
    cases hsession : s.sessions.find input.event.key with
    | none =>
      refine steps_of_not_close s.sessions (by rw [hop]; decide) ?_ fun key => ?_
      · rw [onEvent, hop]
        dsimp only
        rw [hsession]
      · split
        · next hkey => rw [← hkey, hsession, nextSession, hop]; rfl
        · rfl
    | some session =>
      refine steps_of_not_close (s.sessions.assign input.event.key
        ⟨session.openedAt, session.readCount + 1, session.bytesRead + input.event.bytes⟩)
        (by rw [hop]; decide) ?_ fun key => ?_
      · rw [onEvent, hop]
        dsimp only
        rw [hsession]
      · rw [UMap.find_assign]
        by_cases hkey : key = input.event.key
        · rw [if_pos hkey, if_pos hkey.symm, hkey, hsession, nextSession, hop]
          rfl
        · rw [if_neg hkey, if_neg (Ne.symm hkey)]
  | close =>
    cases hlast : lastOpen (eventsOf input.event.key history) with
    | none =>
      rw [hlast] at hfind
      refine steps_of_close h s.sessions hop ?_ fun key => ?_
      · rw [onEvent, hop, sessionAt, hlast]
        dsimp only
        rw [hfind]
        rfl
      · split
        · next hkey => rw [← hkey, hfind, nextSession, hop]; rfl
        · rfl
    | some opened =>
      rw [hlast] at hfind
      refine steps_of_close h (s.sessions.erase input.event.key) hop ?_ fun key => ?_
      · rw [onEvent, hop, sessionAt, hlast]
        dsimp only
        rw [hfind]
        rfl
      · rw [UMap.find_erase]
        by_cases hkey : key = input.event.key
        · rw [if_pos hkey, if_pos hkey.symm, nextSession, hop]
        · rw [if_neg hkey, if_neg (Ne.symm hkey)]

theorem follows_step (h : Follows history s) (input : FeedbackInput) :
    Follows (history ++ ((machine cfg).step s input).2) ((machine cfg).step s input).1 := by
  have hsteps := onEvent_steps cfg h input
  have hclock : s.clock ≤ (onEvent cfg s input).1.clock := by
    rw [hsteps.clock]
    omega
  -- The times of a resource, with that of a rating that is given.
  have htimes : ∀ r, ratedTimes r (history ++ ((machine cfg).step s input).2) =
      ratedTimes r history ++
        (((onEvent cfg s input).2.filter (·.resourceId = r)).map (·.time)).toList :=
    fun r => by rw [ratedTimes_append, machine, ratedTimes_step]
  have hnew : ∀ r, ∀ t ∈ (((onEvent cfg s input).2.filter (·.resourceId = r)).map
      (·.time)).toList, t = (onEvent cfg s input).1.clock := by
    intro r t ht
    rw [Option.mem_toList, Option.map_eq_some_iff] at ht
    obtain ⟨feedback, hfeedback, rfl⟩ := ht
    rw [hsteps.clock]
    exact ((hsteps.given feedback).mp (Option.eq_some_of_filter_eq_some hfeedback)).2.2.2.1
  refine ⟨fun key => ?_, fun r => ?_, fun r => ?_, fun r t ht => ?_⟩
  · show (onEvent cfg s input).1.sessions.find key = _
    rw [hsteps.sessions, eventsOf_append, machine, eventsOf_step]
    split
    · next hkey => rw [h.sessions, nextSession_lastOpen]
    · rw [List.append_nil, h.sessions]
  · show (onEvent cfg s input).1.lastEmit.find r = _
    rw [htimes, hsteps.lastEmit, List.getLast?_append, h.emitted]
    cases ((onEvent cfg s input).2.filter (·.resourceId = r)).map (·.time) <;> rfl
  · rw [htimes]
    refine List.pairwise_append.mpr ⟨h.sorted r, ?_, fun t ht t' ht' => ?_⟩
    · cases ((onEvent cfg s input).2.filter (·.resourceId = r)).map (·.time) <;> simp
    · rw [hnew r t' ht']
      exact Nat.le_trans (h.passed r t ht) hclock
  · rw [htimes] at ht
    rcases List.mem_append.mp ht with hold | hadded
    · exact Nat.le_trans (h.passed r t hold) hclock
    · exact Nat.le_of_eq (hnew r t hadded)

/-- Every Close of a run is classified by the last Open of its process and path, and two resources
have two places in `lastEmit`. -/
theorem along_classified (cfg : FeedbackConfig) (inputs : List FeedbackInput) :
    (machine cfg).Along (Classified cfg) [] start inputs ∧ Function.Injective (emitKey 0) := by
  refine ⟨Machine.run_along (I := Follows) (fun _ _ input h => follows_step h input)
    (fun _ _ input h => (onEvent_steps _ h input).given) inputs follows_start, fun r r' hkey => ?_⟩
  rwa [emitKey_zero, emitKey_zero] at hkey

/-! ## Nested opens -/

/-- Every Open, with the reads behind it. -/
def opens : List FsEvent → List (FsEvent × List FsEvent)
  | [] => []
  | event :: events =>
    if event.op = .open then (event, events.filter FsEvent.isRead) :: opens events
    else opens events

/-- An event of process 1 on `/a`, which is resource 7 of peer 9, after some seconds. -/
def accessAfter (op : FsOp) (bytes : UInt64) (ts : Int) (seconds : Nat) : FeedbackInput :=
  ⟨⟨['/', 'a'], op, bytes, 1, ts⟩, some (7, 9), seconds * 1000000000, 0⟩

/-- The file is opened twice and read, and closed after a second. -/
def nestedOpens : List FeedbackInput :=
  [accessAfter .open 0 0 0, accessAfter .open 0 0 0, accessAfter .read 1024 0 0,
    accessAfter .close 0 1000000000 1]

/-- The second Close is given a rating that is not that of either Open. -/
theorem nestedClose_not_own :
    let history := ((machine .default).run start nestedOpens).2
    let s := ((machine .default).run start nestedOpens).1
    (onEvent .default s (accessAfter .close 0 10000000000 9)).2 =
        some ⟨7, 9, .low, 10000000000⟩ ∧
      (opens (eventsOf (1, ['/', 'a']) history)).length = 2 ∧
      ∀ p ∈ opens (eventsOf (1, ['/', 'a']) history),
        classify .default 10000000000 (sessionOf p.1 p.2) = .average := by
  decide +kernel

end FeedbackAggregator

end Alpine
