/-
Which handler a path finds (`api/router.go`, `APIRouter.Routes`).

The router of chi is still a parameter, but one that finds a route when a registered one of the method fits the path,
only one that fits, and one without braces before one with. A segment in braces stands for any segment that is not empty;
`/` under a group of routes fits the pattern of the group with and without the slash.

The paths of the clients have segments that are only known when the client runs. A `Shape` is a path with the unknown
ones left open. `onlyFits` is decided on the shape: one route must fit, whatever the unknown segments are, and those that
might fit have one handler.

Results:
- `find_shape`: a path of such a shape finds that handler;
- `segments_append`: the segments of a path that is put together;
- `refused_status`: a refusal is an error to every client.
-/
import LogDeck.Api.Access

namespace LogDeck.Api

open Guards

/-! ## Paths -/

theorem segments_append (p q : String) : segments (p ++ "/" ++ q) = segments p ++ segments q := by
  unfold segments
  have hlist : (p ++ "/" ++ q).toList = p.toList ++ '/' :: q.toList := by simp
  rw [hlist]
  exact List.splitOnP_append_cons p.toList q.toList (beq_self_eq_true '/')

/-- one segment of a path, as it stands -/
def IsSegment (s : String) : Prop := s ≠ "" ∧ '/' ∉ s.toList

instance (s : String) : Decidable (IsSegment s) := inferInstanceAs (Decidable (s ≠ "" ∧ '/' ∉ s.toList))

theorem segments_segment {s : String} (h : IsSegment s) : segments s = [s.toList] := by
  apply List.splitOnP_eq_singleton
  intro c hc
  apply beq_false_of_ne
  rintro rfl
  exact h.2 hc

/-! ## Routes that fit -/

/-- a path fits a route, perhaps without the slash that ends the pattern -/
def Route.fitsPath (route : Route) (path : List (List Char)) : Bool :=
  matchesPattern (segments route.pattern) path ||
    ((segments route.pattern).getLast? = some [] && matchesPattern (segments route.pattern).dropLast path)

/-- a pattern without braces -/
def Route.plain (route : Route) : Bool := (segments route.pattern).all fun p => p.head? ≠ some '\x7b'

structure Mux.Finds (mux : Mux) : Prop where
  fits : ∀ {method path : String} {route : Route}, mux.find method path = some route → route.fitsPath (segments path)
  found : ∀ {path : String}, ∀ route ∈ Routes, route.fitsPath (segments path) →
    (mux.find route.method path).isSome
  prefers : ∀ {path : String} {found : Route}, ∀ route ∈ Routes, route.plain → route.fitsPath (segments path) →
    mux.find route.method path = some found → found.plain

/-- a router that takes the first registered route that fits, and those without braces before the others -/
def Mux.plainFirst : Mux where
  find := fun method path =>
    (Routes.filter Route.plain ++ Routes.filter fun route => !route.plain).find? fun route =>
      route.method = method && route.fitsPath (segments path)
  registered := by
    intro method path route h
    have hfits := List.find?_some h
    simp only [Bool.and_eq_true, decide_eq_true_eq] at hfits
    refine ⟨?_, hfits.1⟩
    rcases List.mem_append.1 (List.mem_of_find?_eq_some h) with hmem | hmem
    · exact (List.mem_filter.1 hmem).1
    · exact (List.mem_filter.1 hmem).1

theorem plainFirst_finds : Mux.plainFirst.Finds where
  fits := by
    intro method path route h
    have hfits := List.find?_some (p := fun r : Route => r.method = method && r.fitsPath (segments path)) h
    exact (Bool.and_eq_true_iff.1 hfits).2
  found := by
    intro path route hmem hfits
    apply List.find?_isSome.2
    refine ⟨route, ?_, by simp [hfits]⟩
    cases hplain : route.plain with
    | true => exact List.mem_append_left _ (List.mem_filter.2 ⟨hmem, hplain⟩)
    | false => exact List.mem_append_right _ (List.mem_filter.2 ⟨hmem, by simp [hplain]⟩)
  prefers := by
    intro path found route hmem hplain hfits hfound
    have hfirst : ((Routes.filter Route.plain).find? fun r =>
        r.method = route.method && r.fitsPath (segments path)).isSome :=
      List.find?_isSome.2 ⟨route, List.mem_filter.2 ⟨hmem, hplain⟩, by simp [hfits]⟩
    obtain ⟨first, hfirst⟩ := Option.isSome_iff_exists.1 hfirst
    have hsame : first = found := by
      have hfound : (Routes.filter Route.plain ++ Routes.filter fun r => !r.plain).find? (fun r =>
          r.method = route.method && r.fitsPath (segments path)) = some found := hfound
      rw [List.find?_append, hfirst] at hfound
      exact Option.some.inj hfound
    rw [← hsame]
    exact (List.mem_filter.1 (List.mem_of_find?_eq_some hfirst)).2

/-- a path with some of its segments left open -/
abbrev Shape := List (Option (List Char))

/-- the path has the shape, and what is left open is not empty -/
def Shape.Of (shape : Shape) (path : List (List Char)) : Prop :=
  List.Forall₂ (fun known segment => match known with | some s => segment = s | none => segment ≠ []) shape path

/-- a path of the shape might fit -/
def mayFit : List (List Char) → Shape → Bool
  | [], [] => true
  | _ :: ps, none :: shape => mayFit ps shape
  | p :: ps, some s :: shape => (if p.head? = some '\x7b' then s ≠ [] else p = s) && mayFit ps shape
  | _, _ => false

/-- every path of the shape fits -/
def mustFit : List (List Char) → Shape → Bool
  | [], [] => true
  | p :: ps, none :: shape => p.head? = some '\x7b' && mustFit ps shape
  | p :: ps, some s :: shape => (if p.head? = some '\x7b' then s ≠ [] else p = s) && mustFit ps shape
  | _, _ => false

theorem mayFit_of_matches {pattern : List (List Char)} {shape : Shape} {path : List (List Char)} (hshape : shape.Of path)
    (h : matchesPattern pattern path = true) : mayFit pattern shape = true := by
  induction hshape generalizing pattern with
  | nil =>
    cases pattern with
    | nil => rfl
    | cons p ps => exact h
  | @cons known segment shape path hsegment _ ih =>
    cases pattern with
    | nil => cases h
    | cons p ps =>
      obtain ⟨hhead, htail⟩ := Bool.and_eq_true_iff.1 h
      cases known with
      | none => exact ih htail
      | some s =>
        obtain rfl : segment = s := hsegment
        exact Bool.and_eq_true_iff.2 ⟨hhead, ih htail⟩

theorem matches_of_mustFit {pattern : List (List Char)} {shape : Shape} {path : List (List Char)}
    (hshape : shape.Of path) (h : mustFit pattern shape = true) : matchesPattern pattern path = true := by
  induction hshape generalizing pattern with
  | nil =>
    cases pattern with
    | nil => rfl
    | cons p ps => exact h
  | @cons known segment shape path hsegment _ ih =>
    cases pattern with
    | nil => cases h
    | cons p ps =>
      cases known with
      | none =>
        obtain ⟨hbrace, htail⟩ := Bool.and_eq_true_iff.1 h
        have hne : segment ≠ [] := hsegment
        simp only [matchesPattern, of_decide_eq_true hbrace, if_true, hne, ne_eq, not_false_eq_true, decide_true,
          Bool.true_and]
        exact ih htail
      | some s =>
        obtain rfl : segment = s := hsegment
        obtain ⟨hhead, htail⟩ := Bool.and_eq_true_iff.1 h
        exact Bool.and_eq_true_iff.2 ⟨hhead, ih htail⟩

def Route.mayFit (route : Route) (shape : Shape) : Bool :=
  Api.mayFit (segments route.pattern) shape ||
    ((segments route.pattern).getLast? = some [] && Api.mayFit (segments route.pattern).dropLast shape)

def Route.mustFit (route : Route) (shape : Shape) : Bool :=
  Api.mustFit (segments route.pattern) shape ||
    ((segments route.pattern).getLast? = some [] && Api.mustFit (segments route.pattern).dropLast shape)

/-- a route fits, and those of other handlers that might have braces where one that fits has none -/
def onlyFits (method : String) (shape : Shape) (h : Handler) : Bool :=
  (Routes.any fun route => route.method = method && route.mustFit shape) &&
    Routes.all fun route =>
      !(route.method = method && route.mayFit shape && route.handler ≠ h) ||
        (!route.plain && Routes.any fun route => route.method = method && route.mustFit shape && route.plain)

theorem fits_of_mustFit {route : Route} {shape : Shape} {path : List (List Char)} (hshape : shape.Of path)
    (h : route.mustFit shape = true) : route.fitsPath path = true := by
  rcases Bool.or_eq_true_iff.1 h with hwhole | hgroup
  · exact Bool.or_eq_true_iff.2 (.inl (matches_of_mustFit hshape hwhole))
  · obtain ⟨hslash, hgroup⟩ := Bool.and_eq_true_iff.1 hgroup
    exact Bool.or_eq_true_iff.2 (.inr (Bool.and_eq_true_iff.2 ⟨hslash, matches_of_mustFit hshape hgroup⟩))

theorem mayFit_of_fits {route : Route} {shape : Shape} {path : List (List Char)} (hshape : shape.Of path)
    (h : route.fitsPath path = true) : route.mayFit shape = true := by
  rcases Bool.or_eq_true_iff.1 h with hwhole | hgroup
  · exact Bool.or_eq_true_iff.2 (.inl (mayFit_of_matches hshape hwhole))
  · obtain ⟨hslash, hgroup⟩ := Bool.and_eq_true_iff.1 hgroup
    exact Bool.or_eq_true_iff.2 (.inr (Bool.and_eq_true_iff.2 ⟨hslash, mayFit_of_matches hshape hgroup⟩))

/-- **Routing.** The handler of a shape is found by all its paths. -/
theorem find_shape {mux : Mux} (hmux : mux.Finds) {method path : String} {shape : Shape} {h : Handler}
    (hshape : shape.Of (segments path)) (honly : onlyFits method shape h = true) :
    ∃ route, mux.find method path = some route ∧ route.handler = h := by
  obtain ⟨hany, hall⟩ := Bool.and_eq_true_iff.1 honly
  obtain ⟨route, hmem, hfit⟩ := List.any_eq_true.1 hany
  obtain ⟨hmethod, hmust⟩ := Bool.and_eq_true_iff.1 hfit
  have hmethod : route.method = method := of_decide_eq_true hmethod
  obtain ⟨found, hfound⟩ := Option.isSome_iff_exists.1 (hmux.found route hmem (fits_of_mustFit hshape hmust))
  rw [hmethod] at hfound
  refine ⟨found, hfound, ?_⟩
  -- whatever was found might fit the shape, and is without braces if a route without them fits
  obtain ⟨hregistered, hsame⟩ := mux.registered hfound
  have hmay : found.mayFit shape = true := mayFit_of_fits hshape (hmux.fits hfound)
  by_contra hother
  have hrest := List.all_eq_true.1 hall found hregistered
  rw [hmay, decide_eq_true hsame, decide_eq_true hother] at hrest
  obtain ⟨hbraces, hany⟩ := Bool.and_eq_true_iff.1 hrest
  obtain ⟨better, hbetter, hfit⟩ := List.any_eq_true.1 hany
  obtain ⟨hfit, hplain⟩ := Bool.and_eq_true_iff.1 hfit
  obtain ⟨hmethod, hmust⟩ := Bool.and_eq_true_iff.1 hfit
  have hmethod : better.method = method := of_decide_eq_true hmethod
  have hfoundPlain := hmux.prefers better hbetter hplain (fits_of_mustFit hshape hmust) (hmethod.symm ▸ hfound)
  rw [hfoundPlain] at hbraces
  cases hbraces

/-! ## Refusals -/

theorem tokenString_status {r : Request} {e : Refusal} (h : tokenString r = .error e) : 400 ≤ e.status := by
  unfold tokenString at h
  split at h
  · split at h
    · cases h
    · cases h
      decide
  · split at h
    · cases h
      decide
    · cases h

theorem guard_status {a : Access} {m : Middleware} {c : Context} {e : Refusal} (h : m.guard a c = .error e) :
    400 ≤ e.status := by
  cases m with
  | loginRateLimiter =>
    simp only [Middleware.guard] at h
    split at h
    · cases h
    · cases h
      decide
  | denyReadScope =>
    simp only [Middleware.guard] at h
    split at h
    · cases h
      decide
    · cases h
  | readOnly =>
    simp only [Middleware.guard] at h
    split at h
    · cases h
      simp
    · cases h
  | dynamicMiddleware =>
    simp only [Middleware.guard] at h
    split at h
    · cases h
    · unfold validateAndServe at h
      split at h
      · rename_i htoken
        cases h
        exact tokenString_status htoken
      · repeat' split at h
        all_goals cases h <;> decide

theorem chain_status {a : Access} {stack : List Middleware} {c : Context} {e : Refusal}
    (h : chain (stack.map (Middleware.guard a)) c = .error e) : 400 ≤ e.status := by
  induction stack generalizing c with
  | nil => cases h
  | cons m stack ih =>
    simp only [List.map_cons, chain] at h
    cases hm : m.guard a c with
    | error e' =>
      rw [hm] at h
      cases h
      exact guard_status hm
    | ok c' =>
      rw [hm] at h
      exact ih h

theorem refused_status {mux : Mux} {a : Access} {r : Request} {e : Refusal} (h : dispatch mux a r = .refused e) :
    400 ≤ e.status := by
  unfold dispatch at h
  split at h
  · cases h
  · unfold serve at h
    split at h
    · rename_i hchain
      cases h
      exact chain_status hchain
    · cases h

end LogDeck.Api
