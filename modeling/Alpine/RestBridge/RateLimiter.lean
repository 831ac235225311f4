import Alpine.Lib.Run
import Alpine.Lib.TokenBucket
import Alpine.Lib.UMap

/-!
# The rate limiter of the bridge

Every client address has a bucket in one of sixteen shards. A bucket is created for the first
request, which it admits at once, and forgotten by `cleanup` when it was not used for five minutes.

A limiter that was set up admits what the client's token bucket would admit (`Lawful`), whatever the
other clients do.
-/

namespace Alpine

open Lib

structure TokenBucket where
  tokens : ℚ
  /-- In seconds. -/
  lastRefill : ℚ
  deriving DecidableEq

structure RateLimiter where
  rate : ℚ
  burst : Nat
  initialized : Bool
  shards : Fin 16 → UMap String TokenBucket

inductive LimiterCall where
  | allowRequestNormalized (normalizedIp : String) (now : ℚ)
  | cleanup (now : ℚ)
  deriving DecidableEq

inductive LimiterEvent where
  | decided (normalizedIp : String) (now : ℚ) (allowed : Bool)
  | cleaned (now : ℚ)
  deriving DecidableEq

def LimiterCall.now : LimiterCall → ℚ
  | allowRequestNormalized _ now => now
  | cleanup now => now

def LimiterEvent.now : LimiterEvent → ℚ
  | decided _ now _ => now
  | cleaned now => now

namespace RateLimiter

/-- `STALE_TIMEOUT`. -/
def staleTimeout : ℚ := 300

/-- The limiter before anything is set. -/
def new : RateLimiter where
  rate := 10
  burst := 20
  initialized := false
  shards := fun _ => ∅

def setUp (s : RateLimiter) (requestsPerSecond : ℚ) (burstSize : Nat) : RateLimiter :=
  { s with rate := requestsPerSecond, burst := burstSize, initialized := true }

def refillBucket (s : RateLimiter) (bucket : TokenBucket) (now : ℚ) : TokenBucket :=
  let elapsed := now - bucket.lastRefill
  let tokens := bucket.tokens + elapsed * s.rate
  { tokens := if (s.burst : ℚ) < tokens then s.burst else tokens
    lastRefill := now }

variable (hash : String → Nat)

def shardIndex (clientIp : String) : Fin 16 := Fin.ofNat 16 (hash clientIp)

def putBucket (s : RateLimiter) (clientIp : String) (bucket : TokenBucket) : RateLimiter :=
  let i := shardIndex hash clientIp
  { s with shards := Function.update s.shards i ((s.shards i).assign clientIp bucket) }

def allowRequestNormalized (s : RateLimiter) (normalizedIp : String) (now : ℚ) :
    RateLimiter × Bool :=
  if s.initialized = false then (s, true)
  else
    match (s.shards (shardIndex hash normalizedIp)).find normalizedIp with
    | none => (s.putBucket hash normalizedIp ⟨s.burst - 1, now⟩, true)
    | some bucket =>
      let bucket := s.refillBucket bucket now
      if 1 ≤ bucket.tokens then
        (s.putBucket hash normalizedIp { bucket with tokens := bucket.tokens - 1 }, true)
      else (s.putBucket hash normalizedIp bucket, false)

def cleanup (s : RateLimiter) (now : ℚ) : RateLimiter :=
  { s with shards := fun i => (s.shards i).keep fun bucket =>
      !decide (staleTimeout < now - bucket.lastRefill) }

def step (s : RateLimiter) : LimiterCall → RateLimiter × List LimiterEvent
  | .allowRequestNormalized normalizedIp now =>
    let (s, allowed) := s.allowRequestNormalized hash normalizedIp now
    (s, [.decided normalizedIp now allowed])
  | .cleanup now => (s.cleanup now, [.cleaned now])

def machine : Machine RateLimiter LimiterCall LimiterEvent := ⟨step hash⟩

/-! ## What the limiter is to do -/

/-- A decision on a client's request, with its time. -/
def decisionFor (clientIp : String) : LimiterEvent → Option (ℚ × Bool)
  | .decided clientIp' now allowed => if clientIp' = clientIp then some (now, allowed) else none
  | .cleaned _ => none

def decisionsFor (clientIp : String) (events : List LimiterEvent) : List (ℚ × Bool) :=
  events.filterMap (decisionFor clientIp)

/-- The times of a client's requests. -/
def timesFor (clientIp : String) (events : List LimiterEvent) : List ℚ :=
  (decisionsFor clientIp events).map Prod.fst

/-- The call is not another client's request. -/
def concerns (clientIp : String) : LimiterCall → Bool
  | .allowRequestNormalized clientIp' _ => clientIp' = clientIp
  | .cleanup _ => true

/-- The events of a run of a limiter that was set up. -/
def emitted (rate : ℚ) (burst : Nat) (calls : List LimiterCall) : List LimiterEvent :=
  ((machine hash).run (new.setUp rate burst) calls).2

structure Lawful (rate : ℚ) (burst : Nat) (calls : List LimiterCall) : Prop where
  window : ∀ clientIp u t, 0 ≤ t →
    (Bucket.countIn u (u + t) (decisionsFor clientIp (emitted hash rate burst calls)) : ℚ) ≤
      burst + rate * t
  unused : ∀ clientIp,
    ∀ d ∈ (decisionsFor clientIp (emitted hash rate burst calls)).take burst, d.2 = true
  independent : ∀ clientIp, decisionsFor clientIp (emitted hash rate burst calls) =
    decisionsFor clientIp (emitted hash rate burst (calls.filter (concerns clientIp)))
  /-- What is admitted the plain token bucket admits. -/
  plain : ∀ clientIp, List.Forall₂ (fun d d' : ℚ × Bool => d.1 = d'.1 ∧ (d.2 = true → d'.2 = true))
    (decisionsFor clientIp (emitted hash rate burst calls))
    (Bucket.decisions rate (burst : ℚ) (timesFor clientIp (emitted hash rate burst calls)))

/-- A call does not come before one that was made. -/
def Timely (history : List LimiterEvent) (_ : RateLimiter) (c : LimiterCall) : Prop :=
  ∀ e ∈ history, e.now ≤ c.now

/-- The bucket of a client, if there is one. -/
def bucketOf (s : RateLimiter) (clientIp : String) : Option TokenBucket :=
  (s.shards (shardIndex hash clientIp)).find clientIp

/-- The client's token bucket after its requests. -/
def plainBucket (rate : ℚ) (burst : Nat) (clientIp : String) (history : List LimiterEvent) :
    Option (Bucket ℚ) :=
  Bucket.after rate (burst : ℚ) (timesFor clientIp history)

/-- A bucket is created only where a full one is right, and holds a token. -/
def CreatesFull (history : List LimiterEvent) (s : RateLimiter) : LimiterCall → Prop
  | .allowRequestNormalized clientIp now => s.bucketOf hash clientIp = none →
    1 ≤ s.burst ∧ ∀ b, plainBucket s.rate s.burst clientIp history = some b →
      (s.burst : ℚ) ≤ b.level + s.rate * (now - b.time)
  | .cleanup _ => True

/-!
## The laws of the rate limiter

A call changes the bucket of one client only (`Serves`), so that the clients do not meet
(`decisionsFor_filter`). As long as buckets are created only where a full one is right, what is kept
for a client is its plain token bucket (`Tracks`), and every law is one of token buckets. In every
run buckets are created so exactly if the burst holds a token and flows in before a bucket is stale
(`lawful_iff_refills`).
-/

variable {hash} {rate : ℚ} {burst : Nat} {s : RateLimiter}
  {history : List LimiterEvent}

/-! ### What a call does to a client -/

theorem bucketOf_putBucket (s : RateLimiter) (clientIp c : String) (bucket : TokenBucket) :
    (s.putBucket hash clientIp bucket).bucketOf hash c =
      if c = clientIp then some bucket else s.bucketOf hash c := by
  unfold bucketOf putBucket
  dsimp only
  by_cases hi : shardIndex hash c = shardIndex hash clientIp
  · rw [hi, Function.update_self, UMap.find_assign]
  · rw [Function.update_of_ne hi, if_neg fun h => hi (congrArg _ h)]

/-- The bucket of a client after a request, and the decision. -/
def answer (s : RateLimiter) (bucket : Option TokenBucket) (now : ℚ) : TokenBucket × Bool :=
  match bucket with
  | none => (⟨s.burst - 1, now⟩, true)
  | some bucket =>
    let bucket := s.refillBucket bucket now
    if 1 ≤ bucket.tokens then ({ bucket with tokens := bucket.tokens - 1 }, true)
    else (bucket, false)

theorem allow_eq (hinit : s.initialized = true) (clientIp : String) (now : ℚ) :
    s.allowRequestNormalized hash clientIp now =
      (s.putBucket hash clientIp (s.answer (s.bucketOf hash clientIp) now).1,
        (s.answer (s.bucketOf hash clientIp) now).2) := by
  unfold allowRequestNormalized bucketOf answer
  rw [if_neg (by rw [hinit]; decide)]
  cases (s.shards (shardIndex hash clientIp)).find clientIp with
  | none => rfl
  | some bucket =>
    dsimp only
    split <;> rfl

theorem bucketOf_cleanup (s : RateLimiter) (now : ℚ) (c : String) :
    (s.cleanup now).bucketOf hash c =
      (s.bucketOf hash c).filter fun bucket => !decide (staleTimeout < now - bucket.lastRefill) :=
  UMap.find_keep ..

/-- What is set stays as it is. -/
structure SetTo (rate : ℚ) (burst : Nat) (s : RateLimiter) : Prop where
  rate_eq : s.rate = rate
  burst_eq : s.burst = burst
  initialized : s.initialized = true

theorem SetTo.step (h : SetTo rate burst s) (c : LimiterCall) :
    SetTo rate burst (s.step hash c).1 := by
  cases c with
  | allowRequestNormalized clientIp now =>
    dsimp only [RateLimiter.step]
    rw [allow_eq h.initialized]
    exact ⟨h.rate_eq, h.burst_eq, h.initialized⟩
  | cleanup now => exact ⟨h.rate_eq, h.burst_eq, h.initialized⟩

theorem SetTo.answer_congr {s' : RateLimiter} (h : SetTo rate burst s) (h' : SetTo rate burst s') :
    s.answer = s'.answer := by
  unfold answer refillBucket
  rw [h.rate_eq, h'.rate_eq, h.burst_eq, h'.burst_eq]

theorem setTo_setUp (rate : ℚ) (burst : Nat) : SetTo rate burst (new.setUp rate burst) :=
  ⟨rfl, rfl, rfl⟩

@[simp] theorem decisionsFor_append (c : String) (h h' : List LimiterEvent) :
    decisionsFor c (h ++ h') = decisionsFor c h ++ decisionsFor c h' := List.filterMap_append

@[simp] theorem timesFor_append (c : String) (h h' : List LimiterEvent) :
    timesFor c (h ++ h') = timesFor c h ++ timesFor c h' := by
  unfold timesFor
  rw [decisionsFor_append, List.map_append]

theorem decisionsFor_decided_self (c : String) (now : ℚ) (allowed : Bool) :
    decisionsFor c [.decided c now allowed] = [(now, allowed)] := by
  simp [decisionsFor, decisionFor]

theorem decisionsFor_decided_ne {c c' : String} (h : c ≠ c') (now : ℚ) (allowed : Bool) :
    decisionsFor c [.decided c' now allowed] = [] := by
  simp [decisionsFor, decisionFor, Ne.symm h]

/-- What a call does to the bucket of a client, and the client's decisions. -/
structure Serves (hash : String → Nat) (s : RateLimiter) (a : LimiterCall) (c : String)
    (bucket : Option TokenBucket) (decisions : List (ℚ × Bool)) : Prop where
  bucket_eq : (s.step hash a).1.bucketOf hash c = bucket
  decisions_eq : decisionsFor c (s.step hash a).2 = decisions

theorem serves_self (hash : String → Nat) (hset : SetTo rate burst s) (c : String) (now : ℚ) :
    Serves hash s (.allowRequestNormalized c now) c (some (s.answer (s.bucketOf hash c) now).1)
      [(now, (s.answer (s.bucketOf hash c) now).2)] := by
  refine ⟨?_, ?_⟩ <;> dsimp only [step] <;> rw [allow_eq hset.initialized]
  · rw [bucketOf_putBucket, if_pos rfl]
  · exact decisionsFor_decided_self ..

theorem serves_ne (hash : String → Nat) (hset : SetTo rate burst s) {c c' : String}
    (hc : c ≠ c') (now : ℚ) :
    Serves hash s (.allowRequestNormalized c' now) c (s.bucketOf hash c) [] := by
  refine ⟨?_, ?_⟩ <;> dsimp only [step] <;> rw [allow_eq hset.initialized]
  · rw [bucketOf_putBucket, if_neg hc]
  · exact decisionsFor_decided_ne hc ..

theorem serves_cleanup (hash : String → Nat) (s : RateLimiter) (c : String) (now : ℚ) :
    Serves hash s (.cleanup now) c
      ((s.bucketOf hash c).filter fun bucket => !decide (staleTimeout < now - bucket.lastRefill))
      [] :=
  ⟨bucketOf_cleanup s now c, rfl⟩

/-! ### Other clients -/

/-- Limiters that hold the same for a client decide the same for it, whatever others ask. -/
theorem decisionsFor_filter {s' : RateLimiter} {c : String} (hset : SetTo rate burst s)
    (hset' : SetTo rate burst s') (hsame : s.bucketOf hash c = s'.bucketOf hash c)
    (calls : List LimiterCall) :
    decisionsFor c ((machine hash).run s calls).2 =
      decisionsFor c ((machine hash).run s' (calls.filter (concerns c))).2 := by
  induction calls generalizing s s' with
  | nil => rfl
  | cons a calls ih =>
    have hnext : ∀ {bucket bucket' decisions}, Serves hash s a c bucket decisions →
        Serves hash s' a c bucket' decisions → bucket = bucket' → concerns c a = true →
        decisionsFor c ((machine hash).run s (a :: calls)).2 =
          decisionsFor c ((machine hash).run s' ((a :: calls).filter (concerns c))).2 := by
      intro bucket bucket' decisions h h' heq hconcerns
      rw [List.filter_cons_of_pos hconcerns, Machine.run_cons, Machine.run_cons]
      dsimp only
      rw [decisionsFor_append, decisionsFor_append]
      exact congrArg₂ _ (h.decisions_eq.trans h'.decisions_eq.symm)
        (ih (hset.step a) (hset'.step a)
          (h.bucket_eq.trans (heq.trans h'.bucket_eq.symm)))
    cases a with
    | cleanup now =>
      exact hnext (serves_cleanup hash s c now) (serves_cleanup hash s' c now) (by rw [hsame]) rfl
    | allowRequestNormalized clientIp now =>
      by_cases hclient : clientIp = c
      · subst hclient
        have hserves := serves_self hash hset' clientIp now
        rw [← hsame, ← hset.answer_congr hset'] at hserves
        exact hnext (serves_self hash hset clientIp now) hserves rfl (decide_eq_true rfl)
      · have h := serves_ne hash hset (Ne.symm hclient) now
        rw [List.filter_cons_of_neg (by simpa [concerns] using hclient), Machine.run_cons]
        dsimp only
        rw [decisionsFor_append]
        exact (congrArg (· ++ _) h.decisions_eq).trans
          (ih (hset.step _) hset' (h.bucket_eq.trans hsame))

/-! ### The plain token bucket -/

def asBucket (bucket : TokenBucket) : Bucket ℚ := ⟨bucket.tokens, bucket.lastRefill⟩

/-- A bucket that is there answers as a token bucket. -/
theorem answer_some (hset : SetTo rate burst s) (bucket : TokenBucket) (now : ℚ) :
    asBucket (s.answer (some bucket) now).1 =
        ((asBucket bucket).request rate (burst : ℚ) now).1 ∧
      (s.answer (some bucket) now).2 = ((asBucket bucket).request rate (burst : ℚ) now).2 := by
  have hrefill : asBucket (s.refillBucket bucket now) =
      (asBucket bucket).refill rate (burst : ℚ) now := by
    unfold refillBucket Bucket.refill asBucket
    dsimp only
    rw [hset.rate_eq, hset.burst_eq, mul_comm rate, min_def]
    split <;> split <;> first | rfl | (congr 1; linarith)
  unfold answer Bucket.request Bucket.spend
  rw [← hrefill]
  dsimp only
  by_cases htoken : 1 ≤ (s.refillBucket bucket now).tokens
  · have hlevel : 1 ≤ (asBucket (s.refillBucket bucket now)).level := htoken
    rw [if_pos htoken, if_pos hlevel]
    exact ⟨rfl, rfl⟩
  · have hlevel : ¬ 1 ≤ (asBucket (s.refillBucket bucket now)).level := htoken
    rw [if_neg htoken, if_neg hlevel]
    exact ⟨rfl, rfl⟩

/-- A bucket that is created answers as a token bucket that is full by now. -/
theorem answer_none (hset : SetTo rate burst s) (hburst : 1 ≤ burst) {b : Bucket ℚ} {now : ℚ}
    (hfull : (burst : ℚ) ≤ b.level + rate * (now - b.time)) :
    asBucket (s.answer none now).1 = (b.request rate (burst : ℚ) now).1 ∧
      (s.answer none now).2 = (b.request rate (burst : ℚ) now).2 := by
  have htoken : (1 : ℚ) ≤ burst := by exact_mod_cast hburst
  unfold answer Bucket.request Bucket.refill Bucket.spend asBucket
  rw [min_eq_left hfull, if_pos htoken, hset.burst_eq]
  exact ⟨rfl, rfl⟩

/-- What is kept for a client is its token bucket, and what was decided is what it decides. -/
structure Tracks (hash : String → Nat) (rate : ℚ) (burst : Nat) (history : List LimiterEvent)
    (s : RateLimiter) : Prop where
  set : SetTo rate burst s
  held : ∀ c bucket, s.bucketOf hash c = some bucket →
    plainBucket rate burst c history = some (asBucket bucket)
  decided : ∀ c, decisionsFor c history = Bucket.decisions rate (burst : ℚ) (timesFor c history)

theorem tracks_setUp (rate : ℚ) (burst : Nat) : Tracks hash rate burst [] (new.setUp rate burst) :=
  ⟨setTo_setUp rate burst, fun _ _ h => (nomatch h), fun _ => rfl⟩

/-- The bucket that a request of a client finds. -/
def foundBucket (rate : ℚ) (burst : Nat) (c : String) (history : List LimiterEvent) (now : ℚ) :
    Bucket ℚ :=
  Bucket.found (burst : ℚ) (plainBucket rate burst c history) now

theorem Tracks.answer_eq (h : Tracks hash rate burst history s) {c : String} {now : ℚ}
    (hcreates : CreatesFull hash history s (.allowRequestNormalized c now)) :
    asBucket (s.answer (s.bucketOf hash c) now).1 =
        ((foundBucket rate burst c history now).request rate (burst : ℚ) now).1 ∧
      (s.answer (s.bucketOf hash c) now).2 =
        ((foundBucket rate burst c history now).request rate (burst : ℚ) now).2 := by
  unfold CreatesFull at hcreates
  rw [h.set.rate_eq, h.set.burst_eq] at hcreates
  unfold foundBucket
  cases hbucket : s.bucketOf hash c with
  | some bucket =>
    rw [h.held c bucket hbucket]
    exact answer_some h.set bucket now
  | none =>
    obtain ⟨hburst, hfull⟩ := hcreates hbucket
    refine answer_none h.set hburst ?_
    cases hplain : plainBucket rate burst c history with
    | some b => exact hfull b hplain
    | none =>
      show (burst : ℚ) ≤ burst + rate * (now - now)
      rw [sub_self, mul_zero, add_zero]

/-- What a client's decisions say after a call. -/
theorem plainBucket_append (rate : ℚ) (burst : Nat) (c : String)
    (history events : List LimiterEvent) (now : ℚ) (allowed : Bool)
    (h : decisionsFor c events = [(now, allowed)]) :
    plainBucket rate burst c (history ++ events) =
        some ((foundBucket rate burst c history now).request rate (burst : ℚ) now).1 ∧
      Bucket.decisions rate (burst : ℚ) (timesFor c (history ++ events)) =
        Bucket.decisions rate (burst : ℚ) (timesFor c history) ++
          [(now, ((foundBucket rate burst c history now).request rate (burst : ℚ) now).2)] := by
  have htimes : timesFor c (history ++ events) = timesFor c history ++ [now] := by
    rw [timesFor_append, timesFor, timesFor, h]
    rfl
  unfold plainBucket
  rw [htimes]
  exact ⟨Bucket.after_concat .., Bucket.decisions_concat ..⟩

theorem timesFor_append_nil (c : String) (history : List LimiterEvent) {events : List LimiterEvent}
    (h : decisionsFor c events = []) : timesFor c (history ++ events) = timesFor c history := by
  rw [timesFor_append, timesFor, timesFor, h, List.map_nil, List.append_nil]

/-- A client whose bucket is kept, or forgotten, and which asked nothing, is followed as before. -/
theorem Tracks.other (h : Tracks hash rate burst history s) {a : LimiterCall} {c : String}
    {bucket : Option TokenBucket} (hserves : Serves hash s a c bucket [])
    (hbucket : ∀ b, bucket = some b → s.bucketOf hash c = some b) :
    (∀ b, (s.step hash a).1.bucketOf hash c = some b →
        plainBucket rate burst c (history ++ (s.step hash a).2) = some (asBucket b)) ∧
      decisionsFor c (history ++ (s.step hash a).2) =
        Bucket.decisions rate (burst : ℚ) (timesFor c (history ++ (s.step hash a).2)) := by
  unfold plainBucket
  rw [timesFor_append_nil c history hserves.decisions_eq, decisionsFor_append,
    hserves.decisions_eq, List.append_nil]
  refine ⟨fun b hb => h.held c b (hbucket b ?_), h.decided c⟩
  rwa [hserves.bucket_eq] at hb

/-- A step that creates only full buckets follows the token buckets. -/
theorem Tracks.step (h : Tracks hash rate burst history s) {a : LimiterCall}
    (hcreates : CreatesFull hash history s a) :
    Tracks hash rate burst (history ++ (s.step hash a).2) (s.step hash a).1 := by
  have hclients : ∀ c, (∀ b, (s.step hash a).1.bucketOf hash c = some b →
        plainBucket rate burst c (history ++ (s.step hash a).2) = some (asBucket b)) ∧
      decisionsFor c (history ++ (s.step hash a).2) =
        Bucket.decisions rate (burst : ℚ) (timesFor c (history ++ (s.step hash a).2)) := by
    intro c
    cases a with
    | cleanup now =>
      exact h.other (serves_cleanup hash s c now) fun b hb => (Option.filter_eq_some_iff.mp hb).1
    | allowRequestNormalized c' now =>
      by_cases hc : c = c'
      · subst hc
        have hserves := serves_self hash h.set c now
        obtain ⟨hafter, hallowed⟩ := h.answer_eq hcreates
        obtain ⟨hplain, hdecided⟩ := plainBucket_append rate burst c history
          _ now _ hserves.decisions_eq
        refine ⟨fun b hb => ?_, ?_⟩
        · rw [hserves.bucket_eq] at hb
          rw [hplain, ← Option.some.inj hb, hafter]
        · rw [hdecided, decisionsFor_append, hserves.decisions_eq, h.decided c, hallowed]
      · exact h.other (serves_ne hash h.set hc now) fun _ hb => hb
  exact ⟨h.set.step a, fun c => (hclients c).1, fun c => (hclients c).2⟩

/-! ### The laws -/

/-- The events came in the order of their times. -/
theorem ordered_emitted {calls : List LimiterCall}
    (htimely : (machine hash).Along Timely [] (new.setUp rate burst) calls) :
    (emitted hash rate burst calls).Pairwise fun e e' => e.now ≤ e'.now := by
  have hstep : ∀ (h : List LimiterEvent) (s : RateLimiter) (a : LimiterCall),
      (h.Pairwise fun e e' => e.now ≤ e'.now) → Timely h s a →
      (h ++ ((machine hash).step s a).2).Pairwise fun e e' => e.now ≤ e'.now := by
    intro h s a hordered ha
    have hevent : ∃ e, ((machine hash).step s a).2 = [e] ∧ e.now = a.now := by
      cases a with
      | allowRequestNormalized c now => exact ⟨_, rfl, rfl⟩
      | cleanup now => exact ⟨_, rfl, rfl⟩
    obtain ⟨e, he, hnow⟩ := hevent
    rw [he]
    refine List.pairwise_append.mpr ⟨hordered, List.pairwise_singleton .., fun x hx y hy => ?_⟩
    rw [List.mem_singleton.mp hy, hnow]
    exact ha x hx
  exact Machine.along_invariant (M := machine hash)
    (I := fun h _ => h.Pairwise fun e e' => e.now ≤ e'.now) hstep .nil htimely

theorem now_decisionFor {c : String} {e : LimiterEvent} {d : ℚ × Bool}
    (h : decisionFor c e = some d) : d.1 = e.now := by
  cases e with
  | cleaned now => cases h
  | decided clientIp' now allowed =>
    dsimp only [decisionFor] at h
    split at h
    · cases h; rfl
    · cases h

theorem sorted_timesFor {history : List LimiterEvent}
    (h : history.Pairwise fun e e' => e.now ≤ e'.now) (c : String) :
    (timesFor c history).Pairwise (· ≤ ·) := by
  unfold timesFor decisionsFor
  rw [List.pairwise_map, List.pairwise_filterMap]
  refine h.imp fun {e e'} hle d hd d' hd' => ?_
  rw [now_decisionFor hd, now_decisionFor hd']
  exact hle

/-- A run that creates only full buckets meets every law. -/
theorem lawful_of_createsFull (hrate : 0 ≤ rate) {calls : List LimiterCall}
    (htimely : (machine hash).Along Timely [] (new.setUp rate burst) calls)
    (hcreates : (machine hash).Along (CreatesFull hash) [] (new.setUp rate burst) calls) :
    Lawful hash rate burst calls := by
  have htracks : Tracks hash rate burst (emitted hash rate burst calls)
      ((machine hash).run (new.setUp rate burst) calls).1 :=
    Machine.along_invariant (M := machine hash) (I := Tracks hash rate burst)
      (fun _ _ _ h ha => h.step ha) (tracks_setUp rate burst) hcreates
  have hburst : (0 : ℚ) ≤ burst := Nat.cast_nonneg burst
  have hsorted := sorted_timesFor (ordered_emitted htimely)
  constructor
  · intro c u t ht
    have h := Bucket.decisions_window_le hburst hrate (le_add_of_nonneg_right ht) (hsorted c)
      (u := u)
    rw [htracks.decided c]
    rwa [add_sub_cancel_left] at h
  · intro c
    rw [htracks.decided c]
    exact Bucket.admits_first hrate le_rfl (hsorted c)
  · intro c
    exact decisionsFor_filter (setTo_setUp rate burst) (setTo_setUp rate burst) rfl calls
  · intro c
    rw [← htracks.decided c]
    exact List.forall₂_same.mpr fun d _ => ⟨rfl, id⟩

/-! ### Which limits are lawful -/

/-- A bucket is forgotten only when it is stale. -/
structure Kept (hash : String → Nat) (rate : ℚ) (burst : Nat) (history : List LimiterEvent)
    (s : RateLimiter) : Prop where
  tracks : Tracks hash rate burst history s
  level_nonneg : ∀ c b, plainBucket rate burst c history = some b →
    0 ≤ b.level ∧ ∃ e ∈ history, e.now = b.time
  stale : ∀ c b, plainBucket rate burst c history = some b → s.bucketOf hash c = none →
    ∃ e ∈ history, staleTimeout < e.now - b.time

theorem kept_setUp (rate : ℚ) (burst : Nat) : Kept hash rate burst [] (new.setUp rate burst) :=
  ⟨tracks_setUp rate burst, fun _ _ h => (nomatch h), fun _ _ h => (nomatch h)⟩

/-- What flows in while a bucket becomes stale fills it. -/
theorem Kept.createsFull (h : Kept hash rate burst history s) (hrate : 0 ≤ rate)
    (hburst : 1 ≤ burst) (hrefills : (burst : ℚ) ≤ staleTimeout * rate) {a : LimiterCall}
    (htimely : Timely history s a) : CreatesFull hash history s a := by
  cases a with
  | cleanup now => trivial
  | allowRequestNormalized c now =>
    intro hnone
    rw [h.tracks.set.rate_eq, h.tracks.set.burst_eq]
    refine ⟨hburst, fun b hb => ?_⟩
    obtain ⟨e, he, hstale⟩ := h.stale c b hb hnone
    have hlater : staleTimeout ≤ now - b.time :=
      hstale.le.trans (sub_le_sub_right (htimely e he) _)
    calc (burst : ℚ) ≤ staleTimeout * rate := hrefills
      _ ≤ (now - b.time) * rate := mul_le_mul_of_nonneg_right hlater hrate
      _ = rate * (now - b.time) := mul_comm _ _
      _ ≤ b.level + rate * (now - b.time) := le_add_of_nonneg_left (h.level_nonneg c b hb).1

theorem Kept.step (h : Kept hash rate burst history s) (hrate : 0 ≤ rate)
    (hburst : 1 ≤ burst) (hrefills : (burst : ℚ) ≤ staleTimeout * rate) {a : LimiterCall}
    (htimely : Timely history s a) :
    Kept hash rate burst (history ++ (s.step hash a).2) (s.step hash a).1 := by
  have hzero : (0 : ℚ) ≤ burst := Nat.cast_nonneg burst
  have hclients : ∀ c b, plainBucket rate burst c (history ++ (s.step hash a).2) = some b →
      (0 ≤ b.level ∧ ∃ e ∈ history ++ (s.step hash a).2, e.now = b.time) ∧
        ((s.step hash a).1.bucketOf hash c = none →
          ∃ e ∈ history ++ (s.step hash a).2, staleTimeout < e.now - b.time) := by
    intro c b hb
    have hback : ∀ {p : LimiterEvent → Prop}, (∃ e ∈ history, p e) →
        ∃ e ∈ history ++ (s.step hash a).2, p e := fun ⟨e, he, hp⟩ =>
      ⟨e, List.mem_append_left _ he, hp⟩
    have hother : ∀ {bucket}, Serves hash s a c bucket [] →
        plainBucket rate burst c history = some b := fun hserves => by
      unfold plainBucket at hb ⊢
      rwa [timesFor_append_nil c history hserves.decisions_eq] at hb
    cases a with
    | cleanup now =>
      have hserves := serves_cleanup hash s c now
      have hplain := hother hserves
      obtain ⟨hlevel, hevent⟩ := h.level_nonneg c b hplain
      refine ⟨⟨hlevel, hback hevent⟩, fun hnone => ?_⟩
      rw [hserves.bucket_eq] at hnone
      cases hbucket : s.bucketOf hash c with
      | none => exact hback (h.stale c b hplain hbucket)
      | some bucket =>
        have hsame := h.tracks.held c bucket hbucket
        rw [hplain, Option.some.injEq] at hsame
        subst hsame
        refine ⟨.cleaned now, List.mem_append_right _ (List.mem_singleton.mpr rfl), ?_⟩
        by_contra hfresh
        have hkeep : staleTimeout < now - bucket.lastRefill ↔ False := iff_false_intro hfresh
        rw [hbucket, Option.filter_some, if_pos (by rw [decide_eq_false hkeep.mp]; rfl)] at hnone
        cases hnone
    | allowRequestNormalized c' now =>
      by_cases hc : c = c'
      · subst hc
        have hserves := serves_self hash h.tracks.set c now
        have hplain := (plainBucket_append rate burst c history _ now _
          hserves.decisions_eq).1
        rw [hplain, Option.some.injEq] at hb
        subst hb
        refine ⟨⟨?_, .decided c now _, List.mem_append_right _ (List.mem_singleton.mpr rfl), ?_⟩,
          fun hnone => ?_⟩
        · have hfound : 0 ≤ (foundBucket rate burst c history now).level ∧
              (foundBucket rate burst c history now).time ≤ now := by
            unfold foundBucket
            cases hb : plainBucket rate burst c history with
            | none => exact ⟨hzero, le_rfl⟩
            | some b =>
              obtain ⟨hlevel, e, he, hnow⟩ := h.level_nonneg c b hb
              exact ⟨hlevel, hnow ▸ htimely e he⟩
          exact Bucket.request_level_nonneg hzero hrate hfound.1 hfound.2
        · exact (Bucket.time_request now).symm
        · rw [hserves.bucket_eq] at hnone
          cases hnone
      · have hserves := serves_ne hash h.tracks.set hc now
        have hplain := hother hserves
        obtain ⟨hlevel, hevent⟩ := h.level_nonneg c b hplain
        refine ⟨⟨hlevel, hback hevent⟩, fun hnone => ?_⟩
        rw [hserves.bucket_eq] at hnone
        exact hback (h.stale c b hplain hnone)
  exact ⟨h.tracks.step (h.createsFull hrate hburst hrefills htimely),
    fun c b hb => (hclients c b hb).1, fun c b hb => (hclients c b hb).2⟩

theorem along_createsFull (hrate : 0 ≤ rate) (hburst : 1 ≤ burst)
    (hrefills : (burst : ℚ) ≤ staleTimeout * rate) {calls : List LimiterCall}
    (htimely : (machine hash).Along Timely [] (new.setUp rate burst) calls) :
    (machine hash).Along (CreatesFull hash) [] (new.setUp rate burst) calls :=
  Machine.along_imp (M := machine hash) (I := Kept hash rate burst)
    (fun _ _ _ h ha => h.step hrate hburst hrefills ha)
    (fun _ _ _ h ha => h.createsFull hrate hburst hrefills ha) (kept_setUp rate burst) htimely

/-- Calls whose times do not go back are timely. -/
theorem along_timely {calls : List LimiterCall} (hcalls : calls.Pairwise fun a b => a.now ≤ b.now)
    (hhistory : ∀ e ∈ history, ∀ a ∈ calls, e.now ≤ a.now) :
    (machine hash).Along Timely history s calls := by
  induction calls generalizing history s with
  | nil => trivial
  | cons a calls ih =>
    refine ⟨fun e he => hhistory e he a (List.mem_cons_self ..), ih hcalls.of_cons ?_⟩
    intro e he a' ha'
    rcases List.mem_append.mp he with he | he
    · exact hhistory e he a' (List.mem_cons_of_mem _ ha')
    · have hnow : e.now = a.now := by
        cases a with
        | allowRequestNormalized c now => rw [List.mem_singleton.mp he]; rfl
        | cleanup now => rw [List.mem_singleton.mp he]; rfl
      rw [hnow]
      exact List.rel_of_pairwise_cons hcalls ha'

/-- A bucket is emptied at once. -/
theorem run_spend (hset : SetTo rate burst s) {c : String} {t : ℚ} {n : Nat} (hn : n ≤ burst)
    (hbucket : s.bucketOf hash c = some ⟨n, t⟩) :
    SetTo rate burst ((machine hash).run s (List.replicate n (.allowRequestNormalized c t))).1 ∧
      ((machine hash).run s (List.replicate n (.allowRequestNormalized c t))).1.bucketOf hash c =
        some ⟨0, t⟩ ∧
      decisionsFor c ((machine hash).run s (List.replicate n (.allowRequestNormalized c t))).2 =
        List.replicate n (t, true) := by
  induction n generalizing s with
  | zero => exact ⟨hset, by simpa using hbucket, rfl⟩
  | succ n ih =>
    have hserves := serves_self hash hset c t
    have hanswer : s.answer (some ⟨(n + 1 : Nat), t⟩) t = (⟨n, t⟩, true) := by
      have hburst : ((n + 1 : Nat) : ℚ) ≤ burst := Nat.cast_le.mpr hn
      have htoken : (1 : ℚ) ≤ ((n + 1 : Nat) : ℚ) := by exact_mod_cast Nat.le_add_left 1 n
      unfold answer refillBucket
      dsimp only
      rw [sub_self, zero_mul, add_zero, hset.burst_eq, if_neg (not_lt.mpr hburst),
        if_pos htoken]
      push_cast
      rw [add_sub_cancel_right]
    rw [hbucket, hanswer] at hserves
    obtain ⟨hset', hbucket', hdecisions⟩ :=
      ih (hset.step _) (Nat.le_of_succ_le hn) hserves.bucket_eq
    rw [List.replicate_succ, Machine.run_cons]
    refine ⟨hset', hbucket', ?_⟩
    rw [decisionsFor_append, List.replicate_succ]
    exact (congrArg₂ (· ++ ·) hserves.decisions_eq hdecisions).trans rfl

/-- A client without a bucket gets a whole burst. -/
theorem run_burst (hash : String → Nat) (hset : SetTo rate burst s) (hburst : 1 ≤ burst)
    {c : String} (t : ℚ) (hbucket : s.bucketOf hash c = none) :
    SetTo rate burst ((machine hash).run s (List.replicate burst (.allowRequestNormalized c t))).1 ∧
      bucketOf hash ((machine hash).run s
        (List.replicate burst (.allowRequestNormalized c t))).1 c = some ⟨0, t⟩ ∧
      decisionsFor c
          ((machine hash).run s (List.replicate burst (.allowRequestNormalized c t))).2 =
        List.replicate burst (t, true) := by
  obtain ⟨n, rfl⟩ : ∃ n, burst = n + 1 := ⟨burst - 1, by omega⟩
  have hserves := serves_self hash hset c t
  have hanswer : s.answer none t = (⟨n, t⟩, true) := by
    unfold answer
    rw [hset.burst_eq]
    push_cast
    rw [add_sub_cancel_right]
  rw [hbucket, hanswer] at hserves
  obtain ⟨hset', hbucket', hdecisions⟩ :=
    run_spend (hset.step _) (Nat.le_succ n) hserves.bucket_eq
  rw [List.replicate_succ, Machine.run_cons]
  refine ⟨hset', hbucket', ?_⟩
  rw [decisionsFor_append, List.replicate_succ]
  exact (congrArg₂ (· ++ ·) hserves.decisions_eq hdecisions).trans rfl

/-- A burst, a cleanup when the bucket is stale, and a burst again. -/
def twoBursts (burst : Nat) (t : ℚ) : List LimiterCall :=
  List.replicate burst (.allowRequestNormalized "10.0.0.1" 0) ++
    .cleanup t :: List.replicate burst (.allowRequestNormalized "10.0.0.1" t)

theorem decisionsFor_twoBursts (hburst : 1 ≤ burst) {t : ℚ} (ht : staleTimeout < t) :
    decisionsFor "10.0.0.1" (emitted hash rate burst (twoBursts burst t)) =
      List.replicate burst (0, true) ++ List.replicate burst (t, true) := by
  obtain ⟨hset, hbucket, hfirst⟩ :=
    run_burst hash (setTo_setUp rate burst) hburst 0 (c := "10.0.0.1") rfl
  have hserves := serves_cleanup hash ((machine hash).run (new.setUp rate burst)
    (List.replicate burst (.allowRequestNormalized "10.0.0.1" 0))).1 "10.0.0.1" t
  rw [hbucket, Option.filter_some, if_neg (by
    rw [sub_zero, decide_eq_true ht]
    decide)] at hserves
  obtain ⟨-, -, hsecond⟩ := run_burst hash (hset.step (.cleanup t)) hburst t hserves.bucket_eq
  unfold emitted twoBursts
  rw [Machine.run_append, Machine.run_cons]
  dsimp only
  rw [decisionsFor_append, decisionsFor_append, hfirst]
  exact congrArg₂ (· ++ ·) rfl ((congrArg₂ (· ++ ·) hserves.decisions_eq hsecond).trans rfl)

theorem timely_twoBursts {t : ℚ} (ht : 0 ≤ t) :
    (machine hash).Along Timely [] (new.setUp rate burst) (twoBursts burst t) := by
  refine along_timely (List.pairwise_append.mpr ⟨?_, ?_, ?_⟩) fun e he => absurd he (by simp)
  · exact List.pairwise_replicate.mpr (.inr le_rfl)
  · refine List.pairwise_cons.mpr ⟨fun a ha => ?_, List.pairwise_replicate.mpr (.inr le_rfl)⟩
    rw [(List.mem_replicate.mp ha).2]
    exact le_refl t
  · intro a ha b hb
    rw [(List.mem_replicate.mp ha).2]
    rcases List.mem_cons.mp hb with rfl | hb
    · exact ht
    · rw [(List.mem_replicate.mp hb).2]
      exact ht

/-- A limiter that is lawful refills a bucket before it is stale. -/
theorem refills_of_lawful
    (h : ∀ calls, (machine hash).Along Timely [] (new.setUp rate burst) calls →
      Lawful hash rate burst calls) (hburst : 1 ≤ burst) : (burst : ℚ) ≤ staleTimeout * rate := by
  by_contra hless
  rw [not_le] at hless
  have hpos : (0 : ℚ) < burst := by exact_mod_cast hburst
  obtain ⟨t, hstale, hflow⟩ : ∃ t, staleTimeout < t ∧ rate * t < burst := by
    rcases lt_or_ge 0 rate with hrate | hrate
    · obtain ⟨t, hstale, hflow⟩ := exists_between ((lt_div_iff₀ hrate).mpr hless)
      exact ⟨t, hstale, (lt_div_iff₀' hrate).mp hflow⟩
    · have hzero : (0 : ℚ) ≤ staleTimeout + 1 := by unfold staleTimeout; norm_num
      exact ⟨staleTimeout + 1, lt_add_one _,
        (mul_nonpos_of_nonpos_of_nonneg hrate hzero).trans_lt hpos⟩
  have hzero : (0 : ℚ) ≤ t := le_of_lt (lt_trans (by unfold staleTimeout; norm_num) hstale)
  have hwindow := (h _ (timely_twoBursts hzero)).window "10.0.0.1" 0 t hzero
  rw [decisionsFor_twoBursts hburst hstale] at hwindow
  have hcount : Bucket.countIn 0 (0 + t)
      (List.replicate burst ((0 : ℚ), true) ++ List.replicate burst (t, true)) = burst + burst := by
    unfold Bucket.countIn
    rw [List.countP_append, List.countP_replicate, List.countP_replicate]
    simp [hzero]
  rw [hcount] at hwindow
  push_cast at hwindow
  linarith

/-- A limiter that is lawful lets a bucket hold a token. -/
theorem burst_of_lawful
    (h : ∀ calls, (machine hash).Along Timely [] (new.setUp rate burst) calls →
      Lawful hash rate burst calls) : 1 ≤ burst := by
  by_contra hless
  obtain rfl : burst = 0 := by omega
  have hwindow := (h [.allowRequestNormalized "10.0.0.1" 0]
    (along_timely (List.pairwise_singleton ..) fun e he => absurd he (by simp))).window
    "10.0.0.1" 0 0 le_rfl
  have hserves := serves_self hash (setTo_setUp rate 0) "10.0.0.1" 0
  have hone : decisionsFor "10.0.0.1"
      (emitted hash rate 0 [.allowRequestNormalized "10.0.0.1" 0]) = [((0 : ℚ), true)] := by
    unfold emitted
    rw [Machine.run_cons, Machine.run_nil]
    dsimp only
    rw [List.append_nil]
    exact hserves.decisions_eq
  rw [hone] at hwindow
  simp [Bucket.countIn] at hwindow
  exact absurd hwindow (by norm_num)

/-- Limits are lawful in every run exactly if the burst holds a token and flows in before a bucket
is stale; and a run is lawful under any limits if no bucket is created that is not to be full. -/
theorem lawful_iff_refills (hash : String → Nat) {rate : ℚ} (hrate : 0 ≤ rate) (burst : Nat) :
    ((∀ calls, (machine hash).Along Timely [] (new.setUp rate burst) calls →
        Lawful hash rate burst calls) ↔ 1 ≤ burst ∧ (burst : ℚ) ≤ staleTimeout * rate) ∧
      ∀ calls, (machine hash).Along Timely [] (new.setUp rate burst) calls →
        (machine hash).Along (CreatesFull hash) [] (new.setUp rate burst) calls →
        Lawful hash rate burst calls := by
  refine ⟨⟨fun h => ⟨burst_of_lawful h, refills_of_lawful h (burst_of_lawful h)⟩, ?_⟩,
    fun _ => lawful_of_createsFull hrate⟩
  rintro ⟨hburst, hrefills⟩ calls htimely
  exact lawful_of_createsFull hrate htimely (along_createsFull hrate hburst hrefills htimely)

theorem lawful_ten_twenty : (0 : ℚ) ≤ 10 ∧
    ((∀ calls, (machine fun _ => 0).Along Timely [] (new.setUp 10 20) calls →
        Lawful (fun _ => 0) 10 20 calls) ↔ 1 ≤ 20 ∧ ((20 : Nat) : ℚ) ≤ staleTimeout * 10) ∧
      ∀ calls, (machine fun _ => 0).Along Timely [] (new.setUp 10 20) calls →
        (machine fun _ => 0).Along (CreatesFull fun _ => 0) [] (new.setUp 10 20) calls →
        Lawful (fun _ => 0) 10 20 calls :=
  ⟨by norm_num, lawful_iff_refills (fun _ => 0) (by norm_num) 20⟩

/-- Without a rate a client gets a second token by waiting for the cleanup, and one without a burst
is let in once. -/
theorem stale_not_lawful : ¬ Lawful (fun _ => 0) 0 1 (twoBursts 1 301) ∧
    ¬ Lawful (fun _ => 0) 0 0 [.allowRequestNormalized "10.0.0.1" 0] := by
  refine ⟨fun h => ?_, fun h => ?_⟩
  · have hwindow := h.window "10.0.0.1" 0 301 (by norm_num)
    revert hwindow
    decide +kernel
  · have hwindow := h.window "10.0.0.1" 0 0 (by norm_num)
    revert hwindow
    decide +kernel

end RateLimiter

end Alpine
