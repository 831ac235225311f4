import Alpine.RestBridge.HttpRouter

/-!
# Routes and their patterns

What the router answers, told from the list of its routes. The trie has a node for every start of a
pattern; its parameter has the name that was registered first, and its handlers are those that were
registered last (`valueAt_build`). So a walk that comes to the end of a pattern on the way that
prefers literals finds the handlers of that pattern (`walk_way`), and every node that a walk comes
to is one of patterns that match (`walk_some`). `DispatchOk` says what an answer is meant to be and
`Straight` when the walk does not miss it.
-/

namespace Alpine

open Lib

namespace HttpRouter

variable {H R : Type}

def segments (route : Route H) : List Segment := patternSegments route.pattern

def labels (route : Route H) : List Label := (segments route).map Segment.label

/-- The name of the parameter at a position. -/
def nameAt (i : Nat) (route : Route H) : List UInt8 :=
  (((segments route)[i]?).map Segment.name).getD []

/-- Some pattern starts like this. -/
def Passes (routes : List (Route H)) (path : List Label) : Prop :=
  ∃ route ∈ routes, path <+: labels route

instance (routes : List (Route H)) (path : List Label) : Decidable (Passes routes path) :=
  inferInstanceAs (Decidable (∃ route ∈ routes, _))

/-- The name that the first pattern that starts like this gives to the last parameter. -/
def firstName (routes : List (Route H)) (path : List Label) : List UInt8 :=
  if path = [] then []
  else ((routes.find? fun route => path <+: labels route).map (nameAt (path.length - 1))).getD []

def register (path : List Label) (handlers : UMap HttpMethod (HandlerEntry H)) (route : Route H) :
    UMap HttpMethod (HandlerEntry H) :=
  if labels route = path then
    handlers.assign (parseMethod route.method) ⟨route.handler, route.slow⟩
  else handlers

def handlersAt (routes : List (Route H)) (path : List Label) : UMap HttpMethod (HandlerEntry H) :=
  routes.foldl (register path) ∅

/-! ## What the trie holds -/

section Build

variable {routes : List (Route H)} {route : Route H} {path : List Label} {method : HttpMethod}

theorem build_append (routes : List (Route H)) (route : Route H) :
    build (routes ++ [route]) = addRoute (build routes) route := by
  unfold build
  rw [List.foldl_append]
  rfl

theorem handlersAt_append (routes : List (Route H)) (route : Route H) (path : List Label) :
    handlersAt (routes ++ [route]) path = register path (handlersAt routes path) route := by
  unfold handlersAt
  rw [List.foldl_append]
  rfl

theorem handlersAt_eq_empty (h : ¬ Passes routes path) : handlersAt routes path = ∅ := by
  induction routes using List.reverseRecOn with
  | nil => rfl
  | append_singleton routes route ih =>
    have hroutes : ¬ Passes routes path :=
      fun ⟨other, hother, hpre⟩ => h ⟨other, List.mem_append_left _ hother, hpre⟩
    have hlabels : labels route ≠ path := by
      rintro rfl
      exact h ⟨route, by simp, List.prefix_refl _⟩
    rw [handlersAt_append, ih hroutes, register, if_neg hlabels]

theorem firstName_append_of_passes (h : Passes routes path) (route : Route H) :
    firstName (routes ++ [route]) path = firstName routes path := by
  obtain ⟨other, hother, hpre⟩ := h
  have hsome : (routes.find? fun route => path <+: labels route).isSome := by
    rw [List.find?_isSome]
    exact ⟨other, hother, decide_eq_true hpre⟩
  obtain ⟨first, hfirst⟩ := Option.isSome_iff_exists.mp hsome
  unfold firstName
  rw [List.find?_append, hfirst]
  rfl

theorem find?_eq_none_of_not_passes (h : ¬ Passes routes path) :
    (routes.find? fun route => path <+: labels route) = none := by
  rw [List.find?_eq_none]
  exact fun other hother hpre => h ⟨other, hother, of_decide_eq_true hpre⟩

theorem firstName_append_of_not_passes (h : ¬ Passes routes path) (hpath : path ≠ [])
    (hpre : path <+: labels route) :
    firstName (routes ++ [route]) path = nameAt (path.length - 1) route := by
  unfold firstName
  rw [if_neg hpath, List.find?_append, find?_eq_none_of_not_passes h, Option.none_or]
  simp [hpre]

theorem firstName_append_other (h : ¬ path <+: labels route) (routes : List (Route H)) :
    firstName (routes ++ [route]) path = firstName routes path := by
  unfold firstName
  rw [List.find?_append]
  simp [h]

/-- The segments on the way to a node that is not the root. -/
theorem exists_split (hpre : path <+: labels route) (hpath : path ≠ []) :
    ∃ front segment back, segments route = front ++ segment :: back ∧
      path = (front ++ [segment]).map Segment.label := by
  obtain ⟨rest, hrest⟩ := hpre
  obtain ⟨start, back, hsegments, rfl, rfl⟩ := List.map_eq_append_iff.mp hrest.symm
  have hstart : start ≠ [] := by
    rintro rfl
    exact hpath rfl
  obtain ⟨front, segment, rfl⟩ : ∃ front segment, start = front ++ [segment] :=
    ⟨start.dropLast, start.getLast hstart, (List.dropLast_append_getLast hstart).symm⟩
  exact ⟨front, segment, back, by rw [hsegments, List.append_assoc]; rfl, rfl⟩

theorem nameAt_of_split {front back : List Segment} {segment : Segment}
    (hsplit : segments route = front ++ segment :: back) :
    nameAt front.length route = segment.name := by
  unfold nameAt
  rw [hsplit, List.getElem?_append_right (Nat.le_refl _), Nat.sub_self]
  rfl

/-- What a node of the trie has. -/
theorem valueAt_build (routes : List (Route H)) (path : List Label) :
    (build routes).valueAt path =
      if path = [] ∨ Passes routes path then
        some ⟨firstName routes path, handlersAt routes path⟩
      else none := by
  induction routes using List.reverseRecOn with
  | nil =>
    cases path with
    | nil => rfl
    | cons l path =>
      rw [if_neg]
      · rfl
      · rintro (h | ⟨route, hroute, -⟩)
        · cases h
        · cases hroute
  | append_singleton routes route ih =>
    rw [build_append, addRoute]
    by_cases hpre : path <+: labels route
    · rw [if_pos (.inr ⟨route, by simp, hpre⟩)]
      by_cases hpath : path = []
      · subst hpath
        rw [if_pos (.inl rfl)] at ih
        have hvalue : (build routes).value = ⟨[], handlersAt routes []⟩ := Option.some.inj ih
        rw [Trie.valueAt_nil, Trie.value_alter, hvalue, handlersAt_append, register]
        change some (if segments route = [] then _ else _) = _
        by_cases hnil : segments route = []
        · have hlabels : labels route = [] := by
            unfold labels
            rw [hnil]
            rfl
          rw [if_pos hnil, if_pos hlabels]
          rfl
        · have hlabels : labels route ≠ [] := fun h => hnil (List.map_eq_nil_iff.mp h)
          rw [if_neg hnil, if_neg hlabels]
          rfl
      · obtain ⟨front, segment, back, hsegments, hsplit⟩ := exists_split hpre hpath
        change (Trie.alter _ _ _ (segments route) _).valueAt path = _
        rw [hsegments, hsplit, Trie.valueAt_alter_on, ← hsplit, ih]
        have hlength : path.length - 1 = front.length := by
          rw [hsplit, List.length_map, List.length_append]
          rfl
        have hlabels : labels route = path ↔ back = [] := by
          unfold labels
          rw [hsegments, hsplit, List.append_cons, List.map_append]
          simp
        have hregister : ∀ handlers name, (if back = [] then
              setHandler (parseMethod route.method) ⟨route.handler, route.slow⟩ else id)
            (⟨name, handlers⟩ : NodeData H) = ⟨name, register path handlers route⟩ := by
          intro handlers name
          unfold register
          by_cases hback : back = []
          · rw [if_pos hback, if_pos (hlabels.mpr hback)]
            rfl
          · rw [if_neg hback, if_neg (fun h => hback (hlabels.mp h))]
            rfl
        -- The node was there, or is made with the name of this pattern.
        have hold : (if path = [] ∨ Passes routes path then
              some (⟨firstName routes path, handlersAt routes path⟩ : NodeData H)
            else none).getD (newNode segment) =
            ⟨firstName (routes ++ [route]) path, handlersAt routes path⟩ := by
          by_cases hpasses : Passes routes path
          · rw [if_pos (.inr hpasses), Option.getD_some, firstName_append_of_passes hpasses]
          · rw [if_neg (not_or.mpr ⟨hpath, hpasses⟩), Option.getD_none,
              firstName_append_of_not_passes hpasses hpath hpre, hlength,
              nameAt_of_split hsegments, handlersAt_eq_empty hpasses]
            rfl
        rw [hold, hregister, handlersAt_append]
    · have hnil : path ≠ [] := by
        rintro rfl
        exact hpre List.nil_prefix
      have hpasses : Passes (routes ++ [route]) path ↔ Passes routes path := by
        unfold Passes
        simp [hpre]
      have hlabels : labels route ≠ path := by
        rintro rfl
        exact hpre (List.prefix_refl _)
      change (Trie.alter _ _ _ (segments route) _).valueAt path = _
      rw [Trie.valueAt_alter_off _ _ _ hpre, ih, firstName_append_other hpre, handlersAt_append,
        register, if_neg hlabels]
      simp only [hpasses]

/-- The entry for a method is the one that was registered last. -/
theorem find_handlersAt (routes : List (Route H)) (path : List Label) (method : HttpMethod) :
    (handlersAt routes path).find method =
      ((routes.filter fun route => labels route = path ∧ parseMethod route.method = method
        ).getLast?).map fun route => ⟨route.handler, route.slow⟩ := by
  induction routes using List.reverseRecOn with
  | nil => rfl
  | append_singleton routes route ih =>
    rw [handlersAt_append, register, List.filter_append]
    by_cases hlabels : labels route = path
    · rw [if_pos hlabels, UMap.find_assign]
      by_cases hmethod : parseMethod route.method = method
      · rw [if_pos hmethod.symm]
        simp [hlabels, hmethod]
      · rw [if_neg (fun h => hmethod h.symm), ih]
        simp [hmethod]
    · rw [if_neg hlabels, ih]
      simp [hlabels]

end Build

/-! ## What the walks find -/

end HttpRouter

/-- A literal fits itself, a parameter everything. -/
def Label.Fits : Label → List UInt8 → Prop
  | .literal segment, s => segment = s
  | .param, _ => True

namespace HttpRouter

variable {H R : Type}

def Matches (route : Route H) (path : List (List UInt8)) : Prop :=
  List.Forall₂ Label.Fits (labels route) path

/-- No pattern goes on literally where this one has a parameter. -/
def OnWay (routes : List (Route H)) (route : Route H) (path : List (List UInt8)) : Prop :=
  ∀ front back s, labels route = front ++ .param :: back → path[front.length]? = some s →
    ¬ Passes routes (front ++ [.literal s])

/-- Each parameter has the name that was registered first. -/
def Named (routes : List (Route H)) (route : Route H) : Prop :=
  ∀ front name back, segments route = front ++ .param name :: back →
    firstName routes (front.map Segment.label ++ [.param]) = name

/-- The values of the parameters; of two with one name the last. -/
def bindFrom : List Segment → List (List UInt8) → RouteParams → RouteParams
  | .param name :: segments, s :: path, params => bindFrom segments path (params.assign name s)
  | .literal _ :: segments, _ :: path, params => bindFrom segments path params
  | _, _, params => params

def bind (route : Route H) (path : List (List UInt8)) : RouteParams :=
  bindFrom (segments route) path ∅

section Walk

variable {routes : List (Route H)} {route : Route H} {path : List (List UInt8)}
  {done rest : List Segment} {way : List Label} {node last : TrieNode H}
  {params params' : RouteParams}

theorem exists_descend (h : Passes routes way) :
    ∃ node, (build routes).descend way = some node := by
  have hvalue := valueAt_build routes way
  rw [if_pos (.inr h), Trie.valueAt, Option.map_eq_some_iff] at hvalue
  obtain ⟨node, hnode, -⟩ := hvalue
  exact ⟨node, hnode⟩

theorem descend_eq_none (h : ¬ Passes routes way) (hway : way ≠ []) :
    (build routes).descend way = none := by
  have hvalue := valueAt_build routes way
  rw [if_neg (not_or.mpr ⟨hway, h⟩), Trie.valueAt, Option.map_eq_none_iff] at hvalue
  exact hvalue

theorem value_of_descend (h : (build routes).descend way = some node) :
    node.value = ⟨firstName routes way, handlersAt routes way⟩ := by
  have hvalue := valueAt_build routes way
  rw [Trie.valueAt, h, Option.map_some] at hvalue
  split at hvalue
  · exact Option.some.inj hvalue
  · cases hvalue

theorem passes_of_split {segment : Segment} (hroute : route ∈ routes)
    (hsplit : segments route = done ++ segment :: rest) :
    Passes routes (done.map Segment.label ++ [segment.label]) := by
  refine ⟨route, hroute, rest.map Segment.label, ?_⟩
  unfold labels
  rw [hsplit]
  simp

/-- The walk from a node on the way of a pattern. -/
theorem walk_from (hroute : route ∈ routes) (hway : OnWay routes route path)
    {ahead : List (List UInt8)} (hsplit : segments route = done ++ rest)
    (hahead : path.drop done.length = ahead)
    (hfits : List.Forall₂ Label.Fits (rest.map Segment.label) ahead)
    (hnode : (build routes).descend (done.map Segment.label) = some node) (params : RouteParams) :
    ∃ last params', (build routes).descend (labels route) = some last ∧
      walk node ahead params = some (last, params') ∧
      (Named routes route → params' = bindFrom rest ahead params) := by
  induction rest generalizing done ahead node params with
  | nil =>
    cases hfits
    refine ⟨node, params, ?_, rfl, fun _ => rfl⟩
    unfold labels
    rw [hsplit, List.append_nil]
    exact hnode
  | cons segment rest ih =>
    rw [List.map_cons] at hfits
    cases hfits with
    | @cons _ s _ ahead hfit hfits =>
      have hsplit' : segments route = (done ++ [segment]) ++ rest := by
        rw [hsplit, List.append_assoc]
        rfl
      have hahead' : path.drop (done ++ [segment]).length = ahead := by
        rw [List.length_append, ← List.drop_drop, hahead]
        rfl
      obtain ⟨next, hnext⟩ := exists_descend (passes_of_split hroute hsplit)
      have hchild : node.child segment.label = some next := by
        rw [Trie.child_of_descend hnode, hnext]
      have hnext' : (build routes).descend ((done ++ [segment]).map Segment.label) = some next := by
        rw [List.map_append]
        exact hnext
      cases segment with
      | literal segment =>
        change segment = s at hfit
        subst hfit
        obtain ⟨last, params', hlast, hwalk, hparams⟩ :=
          ih hsplit' hahead' hfits hnext' params
        refine ⟨last, params', hlast, ?_, hparams⟩
        change node.child (.literal segment) = some next at hchild
        rw [walk, hchild]
        exact hwalk
      | param name =>
        have hs : path[done.length]? = some s := by
          rw [← List.head?_drop, hahead]
          rfl
        have hlabels : labels route =
            done.map Segment.label ++ .param :: rest.map Segment.label := by
          unfold labels
          rw [hsplit, List.map_append]
          rfl
        have hliteral : node.child (.literal s) = none := by
          rw [Trie.child_of_descend hnode]
          refine descend_eq_none (hway _ _ s hlabels ?_) (by simp)
          rw [List.length_map]
          exact hs
        have hname : next.value.paramName =
            firstName routes (done.map Segment.label ++ [Label.param]) := by
          rw [value_of_descend hnext]
          rfl
        obtain ⟨last, params', hlast, hwalk, hparams⟩ :=
          ih hsplit' hahead' hfits hnext' (params.assign next.value.paramName s)
        refine ⟨last, params', hlast, ?_, fun hnamed => ?_⟩
        · change node.child .param = some next at hchild
          rw [walk, hliteral]
          dsimp only
          rw [hchild]
          exact hwalk
        · rw [hparams hnamed, hname, hnamed done name rest hsplit, bindFrom]

/-- A walk on the way of a pattern that matches comes to its end. -/
theorem walk_way (hroute : route ∈ routes) (hmatches : Matches route path)
    (hway : OnWay routes route path) :
    ∃ last params, (build routes).descend (labels route) = some last ∧
      walk (build routes) path ∅ = some (last, params) ∧
      (Named routes route → params = bind route path) := by
  have hsplit : segments route = [] ++ segments route := rfl
  exact walk_from hroute hway hsplit rfl hmatches rfl ∅

/-- Where a walk ends, the labels on the way fit. -/
theorem walk_some (hnode : (build routes).descend way = some node)
    (hwalk : walk node path params = some (last, params')) :
    ∃ ahead, List.Forall₂ Label.Fits ahead path ∧
      (build routes).descend (way ++ ahead) = some last := by
  induction path generalizing node way params with
  | nil =>
    rw [walk] at hwalk
    obtain ⟨rfl, -⟩ := Prod.mk.inj (Option.some.inj hwalk)
    exact ⟨[], .nil, by rw [List.append_nil]; exact hnode⟩
  | cons s path ih =>
    rw [walk] at hwalk
    cases hliteral : node.child (.literal s) with
    | some next =>
      rw [hliteral] at hwalk
      have hnext := hliteral
      rw [Trie.child_of_descend hnode] at hnext
      obtain ⟨ahead, hfits, hlast⟩ := ih hnext hwalk
      refine ⟨.literal s :: ahead, .cons rfl hfits, ?_⟩
      rw [List.append_cons]
      exact hlast
    | none =>
      rw [hliteral] at hwalk
      dsimp only at hwalk
      cases hparam : node.child .param with
      | none =>
        rw [hparam] at hwalk
        cases hwalk
      | some next =>
        rw [hparam] at hwalk
        have hnext := hparam
        rw [Trie.child_of_descend hnode] at hnext
        obtain ⟨ahead, hfits, hlast⟩ := ih hnext hwalk
        refine ⟨.param :: ahead, .cons trivial hfits, ?_⟩
        rw [List.append_cons]
        exact hlast

/-- The two walks take the same way. -/
theorem slowWalk_eq (node : TrieNode H) (path : List (List UInt8)) (params : RouteParams) :
    slowWalk node path = (walk node path params).map Prod.fst := by
  induction path generalizing node params with
  | nil => rfl
  | cons s path ih =>
    rw [slowWalk, walk]
    cases node.child (.literal s) with
    | some next => exact ih next params
    | none =>
      dsimp only
      cases node.child .param with
      | some next => exact ih next _
      | none => rfl

end Walk

/-! ## What an answer is meant to be -/

/-- A route for the method of the request whose pattern matches. -/
structure Candidate (routes : List (Route H)) (request : HttpRequest) (route : Route H) : Prop where
  mem : route ∈ routes
  method : route.method = request.method
  fits : Matches route (pathSegments request.path)

/-- Where the patterns part, the first has a literal and the second a parameter. -/
def Beats (other route : Route H) : Prop :=
  ∃ i s, (labels other).take i = (labels route).take i ∧
    (labels other)[i]? = some (.literal s) ∧ (labels route)[i]? = some .param

def Best (routes : List (Route H)) (request : HttpRequest) (route : Route H) : Prop :=
  Candidate routes request route ∧ ∀ other, Candidate routes request other → ¬ Beats other route

/-- What comes behind the middleware. -/
def guarded (authMiddleware : Option (HttpRequest → Bool × R)) (request : HttpRequest)
    (answer : Answer H R) : Answer H R :=
  match authMiddleware with
  | none => answer
  | some authMiddleware =>
    if (authMiddleware request).1 then answer else .unauthorized (authMiddleware request).2

/-- A handler runs only if a middleware that is set has let the request through. -/
def Authorized (router : HttpRouter H R) (request : HttpRequest) : Prop :=
  ∀ handler params, dispatch router request = .handled handler params →
    ∀ authMiddleware, router.authMiddleware = some authMiddleware →
      (authMiddleware request).1 = true

/-- What is promised of one request. -/
structure DispatchOk (routes : List (Route H)) (authMiddleware : Option (HttpRequest → Bool × R))
    (request : HttpRequest) : Prop where
  found : (∃ route, Candidate routes request route) → ∃ route, Best routes request route ∧
    dispatch ⟨build routes, authMiddleware⟩ request = guarded authMiddleware request
      (.handled route.handler (bind route (pathSegments request.path))) ∧
    isSlowRoute ⟨build routes, authMiddleware⟩ request = route.slow
  other : (¬ ∃ route, Candidate routes request route) →
    (∃ route ∈ routes, Matches route (pathSegments request.path)) →
    dispatch ⟨build routes, authMiddleware⟩ request = .methodNotAllowed
  missing : dispatch ⟨build routes, authMiddleware⟩ request = .notFound ↔
    ∀ route ∈ routes, ¬ Matches route (pathSegments request.path)
  idle : (¬ ∃ route, Candidate routes request route) →
    isSlowRoute ⟨build routes, authMiddleware⟩ request = false
  authorized : Authorized ⟨build routes, authMiddleware⟩ request

/-- `isSlowRoute` and `dispatch` answer for one route. -/
def OneRoute (routes : List (Route H)) (authMiddleware : Option (HttpRequest → Bool × R))
    (request : HttpRequest) : Prop :=
  (∃ route ∈ routes, Matches route (pathSegments request.path) ∧ ∃ params,
    dispatch ⟨build routes, authMiddleware⟩ request =
      guarded authMiddleware request (.handled route.handler params) ∧
    isSlowRoute ⟨build routes, authMiddleware⟩ request = route.slow) ∨
  (dispatch ⟨build routes, authMiddleware⟩ request = .notFound ∨
    dispatch ⟨build routes, authMiddleware⟩ request = .methodNotAllowed) ∧
  isSlowRoute ⟨build routes, authMiddleware⟩ request = false

/-- No route that comes later has the same pattern, up to names, and the same method. -/
def IsLast (routes : List (Route H)) (route : Route H) : Prop :=
  ∃ before after, routes = before ++ route :: after ∧ ∀ other ∈ after,
    labels other = labels route → parseMethod other.method ≠ parseMethod route.method

/-- The way that prefers literals leads to a pattern that matches; if there is one for the method,
to the end of such a one, whose parameters have their own names. -/
structure Straight (routes : List (Route H)) (request : HttpRequest) : Prop where
  reached : (∃ route ∈ routes, Matches route (pathSegments request.path)) →
    ∃ route ∈ routes, Matches route (pathSegments request.path) ∧
      OnWay routes route (pathSegments request.path)
  served : (∃ route, Candidate routes request route) → ∃ route, Candidate routes request route ∧
    OnWay routes route (pathSegments request.path) ∧ Named routes route ∧ IsLast routes route
  alone : (¬ ∃ route, Candidate routes request route) → ∀ route ∈ routes,
    Matches route (pathSegments request.path) → OnWay routes route (pathSegments request.path) →
    parseMethod route.method ≠ parseMethod request.method

section Dispatch

variable {routes : List (Route H)} {route other : Route H} {request : HttpRequest}
  {path : List (List UInt8)} {authMiddleware : Option (HttpRequest → Bool × R)}
  {last : TrieNode H} {params : RouteParams}

/-- A pattern on the way that prefers literals is beaten by none. -/
theorem Candidate.best (hroute : Candidate routes request route)
    (hway : OnWay routes route (pathSegments request.path)) : Best routes request route := by
  refine ⟨hroute, fun other hother hbeats => ?_⟩
  obtain ⟨i, s, htake, hliteral, hparam⟩ := hbeats
  -- The pattern parts at a parameter, and the path has the literal of the other there.
  obtain ⟨hi, hlit⟩ := List.getElem?_eq_some_iff.mp hliteral
  obtain ⟨hlt, hget⟩ := List.getElem?_eq_some_iff.mp hparam
  have hsplit : labels route = (labels route).take i ++ .param :: (labels route).drop (i + 1) := by
    rw [← hget, List.cons_getElem_drop_succ, List.take_append_drop]
  have hlength : ((labels route).take i).length = i := by
    rw [List.length_take]
    omega
  have hs : (pathSegments request.path)[i]? = some s := by
    have hfits := List.forall₂_iff_get.mp hother.fits
    have hfit := hfits.2 i hi (hfits.1 ▸ hi)
    rw [List.get_eq_getElem, hlit] at hfit
    rw [List.getElem?_eq_getElem (hfits.1 ▸ hi)]
    exact congrArg some hfit.symm
  refine hway _ _ s hsplit (by rw [hlength]; exact hs) ⟨other, hother.mem, ?_⟩
  rw [← htake]
  refine ⟨(labels other).drop (i + 1), ?_⟩
  rw [List.append_assoc, List.singleton_append, ← hlit, List.cons_getElem_drop_succ,
    List.take_append_drop]

/-- What `dispatch` answers at a node. -/
theorem dispatch_at (hmethod : request.method ≠ utf8 ['O', 'P', 'T', 'I', 'O', 'N', 'S'])
    (hwalk : walk (build routes) (pathSegments request.path) ∅ = some (last, params)) :
    dispatch ⟨build routes, authMiddleware⟩ request =
      if last.value.handlers.keys = [] then .notFound
      else
        match last.value.handlers.find (parseMethod request.method) with
        | none => .methodNotAllowed
        | some entry => guarded authMiddleware request (.handled entry.handler params) := by
  unfold dispatch
  rw [if_neg hmethod]
  dsimp only
  rw [hwalk]
  dsimp only
  split
  · rfl
  · cases last.value.handlers.find (parseMethod request.method) with
    | none => rfl
    | some entry => cases authMiddleware <;> rfl

theorem dispatch_lost (hmethod : request.method ≠ utf8 ['O', 'P', 'T', 'I', 'O', 'N', 'S'])
    (hwalk : walk (build routes) (pathSegments request.path) ∅ = none) :
    dispatch ⟨build routes, authMiddleware⟩ request = .notFound := by
  unfold dispatch
  rw [if_neg hmethod]
  dsimp only
  rw [hwalk]

theorem isSlowRoute_eq (routes : List (Route H))
    (authMiddleware : Option (HttpRequest → Bool × R)) (request : HttpRequest) :
    isSlowRoute ⟨build routes, authMiddleware⟩ request =
      match walk (build routes) (pathSegments request.path) ∅ with
      | none => false
      | some (node, _) =>
        match node.value.handlers.find (parseMethod request.method) with
        | none => false
        | some entry => entry.slow := by
  unfold isSlowRoute
  dsimp only
  rw [slowWalk_eq _ _ ∅]
  cases walk (build routes) (pathSegments request.path) ∅ <;> rfl

theorem keys_ne_nil {K V : Type} [DecidableEq K] {m : UMap K V} {k : K} {v : V}
    (h : m.find k = some v) : m.keys ≠ [] := by
  have hmem := UMap.mem_keys.mpr (by rw [h]; rfl : (m.find k).isSome)
  exact List.ne_nil_of_mem hmem

/-- An entry at a node is one of a route whose pattern ends there. -/
theorem exists_route {way : List Label} {method : HttpMethod} {entry : HandlerEntry H}
    (h : (handlersAt routes way).find method = some entry) :
    ∃ route ∈ routes, labels route = way ∧ parseMethod route.method = method ∧
      entry = ⟨route.handler, route.slow⟩ := by
  rw [find_handlersAt, Option.map_eq_some_iff] at h
  obtain ⟨route, hlast, rfl⟩ := h
  obtain ⟨hmem, hboth⟩ := List.mem_filter.mp (List.mem_of_getLast? hlast)
  obtain ⟨hlabels, hparse⟩ := of_decide_eq_true hboth
  exact ⟨route, hmem, hlabels, hparse, rfl⟩

theorem find_isSome_of_mem (hroute : route ∈ routes) :
    ∃ entry, (handlersAt routes (labels route)).find (parseMethod route.method) = some entry := by
  rw [find_handlersAt, ← Option.isSome_iff_exists, Option.isSome_map, ← Option.ne_none_iff_isSome,
    Ne, List.getLast?_eq_none_iff, List.filter_eq_nil_iff]
  exact fun h => h route hroute (decide_eq_true ⟨rfl, rfl⟩)

theorem IsLast.find (hlast : IsLast routes route) :
    (handlersAt routes (labels route)).find (parseMethod route.method) =
      some ⟨route.handler, route.slow⟩ := by
  obtain ⟨before, after, rfl, hafter⟩ := hlast
  have hnil : (after.filter fun other => labels other = labels route ∧
      parseMethod other.method = parseMethod route.method) = [] := by
    rw [List.filter_eq_nil_iff]
    intro other hother hboth
    obtain ⟨hlabels, hparse⟩ := of_decide_eq_true hboth
    exact hafter other hother hlabels hparse
  rw [find_handlersAt, List.filter_append, List.filter_cons_of_pos (by simp), hnil,
    List.getLast?_concat]
  rfl

/-- A handler runs behind the middleware. -/
theorem authorized (root : TrieNode H) (authMiddleware : Option (HttpRequest → Bool × R))
    (request : HttpRequest) : Authorized ⟨root, authMiddleware⟩ request := by
  intro handler params hhandled middleware hset
  change authMiddleware = some middleware at hset
  subst hset
  unfold dispatch at hhandled
  dsimp only at hhandled
  split at hhandled
  · cases hhandled
  · split at hhandled
    · cases hhandled
    · split at hhandled
      · cases hhandled
      · split at hhandled
        · cases hhandled
        · split at hhandled
          · next h => exact h
          · cases hhandled

/-- Both walks come to one node, so that they answer for one route. -/
theorem oneRoute (hmethod : request.method ≠ utf8 ['O', 'P', 'T', 'I', 'O', 'N', 'S'])
    (routes : List (Route H)) (authMiddleware : Option (HttpRequest → Bool × R)) :
    OneRoute routes authMiddleware request := by
  unfold OneRoute
  rw [isSlowRoute_eq]
  cases hwalk : walk (build routes) (pathSegments request.path) ∅ with
  | none => exact .inr ⟨.inl (dispatch_lost hmethod hwalk), rfl⟩
  | some found =>
    obtain ⟨last, params⟩ := found
    obtain ⟨way, hfits, hlast⟩ := walk_some (Trie.descend_nil (build routes)) hwalk
    rw [List.nil_append] at hlast
    rw [dispatch_at hmethod hwalk]
    dsimp only
    cases hfind : last.value.handlers.find (parseMethod request.method) with
    | none =>
      refine .inr ⟨?_, rfl⟩
      dsimp only
      by_cases hkeys : last.value.handlers.keys = []
      · exact .inl (if_pos hkeys)
      · exact .inr (if_neg hkeys)
    | some entry =>
      rw [if_neg (keys_ne_nil hfind)]
      rw [value_of_descend hlast] at hfind
      obtain ⟨route, hroute, hlabels, -, rfl⟩ := exists_route hfind
      refine .inl ⟨route, hroute, ?_, params, rfl, rfl⟩
      unfold Matches
      rw [hlabels]
      exact hfits

/-- If no pattern matches, the answer is that nothing was found. -/
theorem dispatch_unmatched (hmethod : request.method ≠ utf8 ['O', 'P', 'T', 'I', 'O', 'N', 'S'])
    (hnone : ∀ route ∈ routes, ¬ Matches route (pathSegments request.path)) :
    dispatch ⟨build routes, authMiddleware⟩ request = .notFound := by
  cases hwalk : walk (build routes) (pathSegments request.path) ∅ with
  | none => exact dispatch_lost hmethod hwalk
  | some found =>
    obtain ⟨last, params⟩ := found
    obtain ⟨way, hfits, hlast⟩ := walk_some (Trie.descend_nil (build routes)) hwalk
    rw [List.nil_append] at hlast
    rw [dispatch_at hmethod hwalk, if_pos]
    rw [value_of_descend hlast, List.eq_nil_iff_forall_not_mem]
    intro method hmem
    obtain ⟨entry, hentry⟩ := Option.isSome_iff_exists.mp (UMap.mem_keys.mp hmem)
    obtain ⟨route, hroute, hlabels, -, -⟩ := exists_route hentry
    refine hnone route hroute ?_
    unfold Matches
    rw [hlabels]
    exact hfits

/-- On a straight way a request is answered as promised. -/
theorem Straight.dispatchOk (hstraight : Straight routes request)
    (hmethod : request.method ≠ utf8 ['O', 'P', 'T', 'I', 'O', 'N', 'S'])
    (authMiddleware : Option (HttpRequest → Bool × R)) :
    DispatchOk routes authMiddleware request := by
  have hfound : ∀ route, Candidate routes request route →
      OnWay routes route (pathSegments request.path) → Named routes route → IsLast routes route →
      dispatch ⟨build routes, authMiddleware⟩ request = guarded authMiddleware request
        (.handled route.handler (bind route (pathSegments request.path))) ∧
      isSlowRoute ⟨build routes, authMiddleware⟩ request = route.slow := by
    intro route hroute hway hnamed hlast
    obtain ⟨last, params, hnode, hwalk, hparams⟩ := walk_way hroute.mem hroute.fits hway
    have hfind : last.value.handlers.find (parseMethod request.method) =
        some ⟨route.handler, route.slow⟩ := by
      rw [value_of_descend hnode, ← hroute.method]
      exact hlast.find
    rw [dispatch_at hmethod hwalk, if_neg (keys_ne_nil hfind), isSlowRoute_eq, hwalk]
    dsimp only
    rw [hfind, hparams hnamed]
    exact ⟨rfl, rfl⟩
  have hother : (¬ ∃ route, Candidate routes request route) →
      (∃ route ∈ routes, Matches route (pathSegments request.path)) →
      dispatch ⟨build routes, authMiddleware⟩ request = .methodNotAllowed ∧
      isSlowRoute ⟨build routes, authMiddleware⟩ request = false := by
    intro hnone hmatches
    obtain ⟨route, hroute, hfits, hway⟩ := hstraight.reached hmatches
    obtain ⟨last, params, hnode, hwalk, -⟩ := walk_way hroute hfits hway
    have hvalue := value_of_descend hnode
    obtain ⟨entry, hentry⟩ := find_isSome_of_mem hroute
    have hkeys : last.value.handlers.keys ≠ [] := by
      rw [hvalue]
      exact keys_ne_nil hentry
    -- A pattern that ends here is on the way too.
    have hfind : last.value.handlers.find (parseMethod request.method) = none := by
      rw [hvalue]
      by_contra hsome
      obtain ⟨entry', hentry'⟩ := Option.ne_none_iff_exists'.mp hsome
      obtain ⟨route', hroute', hlabels, hparse, -⟩ := exists_route hentry'
      refine hstraight.alone hnone route' hroute' ?_ ?_ hparse
      · unfold Matches
        rw [hlabels]
        exact hfits
      · unfold OnWay
        rw [hlabels]
        exact hway
    rw [dispatch_at hmethod hwalk, if_neg hkeys, isSlowRoute_eq, hwalk]
    dsimp only
    rw [hfind]
    exact ⟨rfl, rfl⟩
  constructor
  · intro hsome
    obtain ⟨route, hroute, hway, hnamed, hlast⟩ := hstraight.served hsome
    exact ⟨route, hroute.best hway, hfound route hroute hway hnamed hlast⟩
  · exact fun hnone hmatches => (hother hnone hmatches).1
  · refine ⟨fun hmissing route hroute hfits => ?_, dispatch_unmatched hmethod⟩
    by_cases hsome : ∃ route, Candidate routes request route
    · obtain ⟨served, hserved, hway, hnamed, hlast⟩ := hstraight.served hsome
      rw [(hfound served hserved hway hnamed hlast).1] at hmissing
      unfold guarded at hmissing
      split at hmissing
      · cases hmissing
      · split at hmissing <;> cases hmissing
    · rw [(hother hsome ⟨route, hroute, hfits⟩).1] at hmissing
      cases hmissing
  · intro hnone
    by_cases hmatches : ∃ route ∈ routes, Matches route (pathSegments request.path)
    · exact (hother hnone hmatches).2
    · obtain ⟨route, hroute, hfits, -⟩ | ⟨-, hslow⟩ := oneRoute hmethod routes authMiddleware
      · exact absurd ⟨route, hroute, hfits⟩ hmatches
      · exact hslow
  · exact authorized _ authMiddleware request

end Dispatch

/-- A preflight is answered as such; every other request runs a handler only behind the middleware,
has one route for both functions, and is answered as promised if its way is straight. -/
theorem dispatches (routes : List (Route H)) (authMiddleware : Option (HttpRequest → Bool × R))
    (request : HttpRequest) :
    (request.method = utf8 ['O', 'P', 'T', 'I', 'O', 'N', 'S'] →
      dispatch ⟨build routes, authMiddleware⟩ request = .preflight) ∧
    Authorized ⟨build routes, authMiddleware⟩ request ∧
    (request.method ≠ utf8 ['O', 'P', 'T', 'I', 'O', 'N', 'S'] →
      OneRoute routes authMiddleware request ∧
      (Straight routes request → DispatchOk routes authMiddleware request)) := by
  refine ⟨fun hmethod => ?_, authorized _ authMiddleware request, fun hmethod =>
    ⟨oneRoute hmethod routes authMiddleware, fun hstraight =>
      hstraight.dispatchOk hmethod authMiddleware⟩⟩
  unfold dispatch
  rw [if_pos hmethod]

/-- A literal beside a parameter, and two methods for the parameter. -/
def peerRoutes : List (Route Nat) :=
  [⟨utf8 "GET".toList, utf8 "/p/me".toList, 1, false⟩,
    ⟨utf8 "GET".toList, utf8 "/p/:id".toList, 7, true⟩,
    ⟨utf8 "POST".toList, utf8 "/p/:id".toList, 8, false⟩]

def peerRequest : HttpRequest := ⟨utf8 "GET".toList, utf8 "/p/5".toList, [], ∅, ∅⟩

/-- An element of a pair that is not the first. -/
theorem split_pair {α : Type} {a b c : α} {front back : List α} (h : [a, b] = front ++ c :: back)
    (hne : a ≠ c) : front = [a] ∧ b = c := by
  cases front with
  | nil => exact absurd (List.cons.inj h).1 hne
  | cons x front =>
    obtain ⟨rfl, hrest⟩ := List.cons.inj h
    cases front with
    | nil => exact ⟨rfl, (List.cons.inj hrest).1⟩
    | cons y front =>
      have hlength := congrArg List.length hrest
      simp at hlength

/-- The request goes past the literal to the parameter. -/
theorem straight_peerRequest : Straight peerRoutes peerRequest := by
  have hpath : pathSegments peerRequest.path = [utf8 ['p'], utf8 ['5']] := by decide +kernel
  have hsegments : segments peerRoutes[1] = [.literal (utf8 ['p']), .param (utf8 ['i', 'd'])] := by
    decide +kernel
  have hlabels : labels peerRoutes[1] = [.literal (utf8 ['p']), .param] := by
    unfold labels
    rw [hsegments]
    rfl
  have hcandidate : Candidate peerRoutes peerRequest peerRoutes[1] := by
    refine ⟨List.getElem_mem _, rfl, ?_⟩
    unfold Matches
    rw [hlabels, hpath]
    exact .cons rfl (.cons trivial .nil)
  have hway : OnWay peerRoutes peerRoutes[1] (pathSegments peerRequest.path) := by
    intro front back s hsplit hs
    rw [hlabels] at hsplit
    obtain ⟨rfl, -⟩ := split_pair hsplit (by decide)
    rw [hpath] at hs
    obtain rfl := Option.some.inj hs
    decide +kernel
  have hnamed : Named peerRoutes peerRoutes[1] := by
    intro front name back hsplit
    rw [hsegments] at hsplit
    obtain ⟨rfl, heq⟩ := split_pair hsplit (by simp)
    cases heq
    decide +kernel
  have hlast : IsLast peerRoutes peerRoutes[1] :=
    ⟨[peerRoutes[0]], [peerRoutes[2]], rfl, by decide +kernel⟩
  exact ⟨fun _ => ⟨_, hcandidate.mem, hcandidate.fits, hway⟩,
    fun _ => ⟨_, hcandidate, hway, hnamed, hlast⟩, fun hnone => absurd ⟨_, hcandidate⟩ hnone⟩

theorem peerRoute_dispatched :
    DispatchOk peerRoutes (none : Option (HttpRequest → Bool × Nat)) peerRequest :=
  ((dispatches peerRoutes none peerRequest).2.2 (by decide +kernel)).2 straight_peerRequest

/-- A route for the method of a preflight does not run. -/
theorem optionsRoute_not_dispatched :
    ¬ ∀ (routes : List (Route Nat)) (authMiddleware : Option (HttpRequest → Bool × Nat))
      (request : HttpRequest), DispatchOk routes authMiddleware request := by
  intro h
  have hok := h [⟨utf8 ['O', 'P', 'T', 'I', 'O', 'N', 'S'], utf8 ['/', 'p'], 7, true⟩] none
    ⟨utf8 ['O', 'P', 'T', 'I', 'O', 'N', 'S'], utf8 ['/', 'p'], [], ∅, ∅⟩
  have hlabels : labels (⟨utf8 ['O', 'P', 'T', 'I', 'O', 'N', 'S'], utf8 ['/', 'p'], 7, true⟩ :
      Route Nat) = [.literal (utf8 ['p'])] := by decide +kernel
  have hpath : pathSegments (utf8 ['/', 'p']) = [utf8 ['p']] := by decide +kernel
  obtain ⟨route, -, hdispatch, -⟩ := hok.found ⟨_, List.mem_singleton_self _, rfl, by
    unfold Matches
    rw [hlabels, hpath]
    exact .cons rfl .nil⟩
  change Answer.preflight = Answer.handled _ _ at hdispatch
  cases hdispatch

end HttpRouter

end Alpine
