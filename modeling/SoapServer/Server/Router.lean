import Mathlib.Data.List.TakeWhile
import SoapServer.Server.Builder

/-! The router of a service. Which route a request is matched to is axum's part. -/

set_option autoImplicit false

namespace SoapServer.Server

open Markup (Text)
open Maps
open Wsdl Dispatch

variable {H : Type}

/-- axum, as far as a service uses it: from the paths of the routes, in the order in which they are
added, the path that the target of a request is matched to. There is no router where `route` panics,
for a path that is malformed or overlaps with an earlier one. -/
abbrev Axum := List Text → Option (Text → Option Text)

/-- What stands behind a path: the service as a whole, or one of its services with its name. -/
inductive Route (H : Type) where
  | whole
  | service (table : DispatchTable H) (serviceName : Text)

/-- The routes in the order in which they are added. -/
def SoapService.routes (iter : MapOrder) (svc : SoapService H) : List (Text × Route H) :=
  if svc.serviceTables.entries ≠ [] then
    (iter.order .serviceTables svc.serviceTables).entries.map fun e =>
      (e.1, .service e.2 ((svc.servicePathNames.lookup e.1).getD []))
  else [(svc.mountPath, .whole)]

structure Router (H : Type) where
  routes : List (Text × Route H)
  matched : Text → Option Text

def SoapService.intoRouter (axum : Axum) (iter : MapOrder)
    (svc : SoapService H) : Option (Router H) :=
  (axum ((svc.routes iter).map Prod.fst)).map fun matched => ⟨svc.routes iter, matched⟩

/-- The route of a request, with the path under which it was added. -/
def Router.route (router : Router H) (target : Text) : Option (Text × Route H) :=
  (router.matched target).bind fun path => (router.routes.lookup path).map fun route =>
    (path, route)

/-- axum takes the paths, in whatever order they are added, and matches some request to each. -/
def Takes (axum : Axum) (paths : List Text) : Prop :=
  ∀ ordered, ordered.Perm paths → ∃ matched, axum ordered = some matched ∧
    ∀ path ∈ paths, ∃ target, matched target = some path

variable {axum : Axum} {iter : MapOrder} {svc : SoapService H} {router : Router H}

theorem intoRouter_eq_some :
    svc.intoRouter axum iter = some router ↔
      axum ((svc.routes iter).map Prod.fst) = some router.matched ∧ router.routes = svc.routes iter := by
  rw [SoapService.intoRouter, Option.map_eq_some_iff]
  constructor
  · rintro ⟨matched, taken, rfl⟩
    exact ⟨taken, rfl⟩
  · rintro ⟨taken, same⟩
    exact ⟨router.matched, taken, by rw [← same]⟩

theorem route_eq_some {target path : Text} {route : Route H} :
    router.route target = some (path, route) ↔
      router.matched target = some path ∧ router.routes.lookup path = some route := by
  rw [Router.route, Option.bind_eq_some_iff]
  constructor
  · rintro ⟨path', matched, found⟩
    obtain ⟨_, known, same⟩ := Option.map_eq_some_iff.mp found
    cases same
    exact ⟨matched, known⟩
  · rintro ⟨matched, known⟩
    exact ⟨path, matched, by rw [known, Option.map_some]⟩

theorem lookup_entries {V W : Type} (f : Text → V → W) (entries : List (Sigma fun _ : Text => V))
    (path : Text) :
    (entries.map fun e => (e.1, f e.1 e.2)).lookup path = (entries.dlookup path).map (f path) := by
  induction entries with
  | nil => rfl
  | cons e rest ih =>
    obtain ⟨k, v⟩ := e
    by_cases here : path = k
    · subst here
      rw [List.map_cons, List.lookup_cons_self, List.dlookup_cons_eq, Option.map_some]
    · rw [List.map_cons, List.lookup_cons, beq_false_of_ne here, ih, List.dlookup_cons_ne _ _ here]

/-- With several services, a path leads to the table and the name that are kept for it. -/
theorem routes_lookup (several : svc.serviceTables.entries ≠ []) (path : Text) :
    (svc.routes iter).lookup path = (svc.serviceTables.lookup path).map fun table =>
      .service table ((svc.servicePathNames.lookup path).getD []) := by
  rw [SoapService.routes, if_pos several, ← iter.lookup_order .serviceTables svc.serviceTables path]
  exact lookup_entries (fun path table => Route.service table
    ((svc.servicePathNames.lookup path).getD [])) _ path

/-- With several services, the paths of the routes are those of the tables. -/
theorem routes_paths (several : svc.serviceTables.entries ≠ []) :
    (svc.routes iter).map Prod.fst = iter.keys .serviceTables svc.serviceTables := by
  rw [SoapService.routes, if_pos several, List.map_map]
  rfl

theorem several_of_service {path serviceName : Text} {table : DispatchTable H}
    (route : (svc.routes iter).lookup path = some (.service table serviceName)) :
    svc.serviceTables.entries ≠ [] := by
  intro none_
  rw [SoapService.routes, if_neg (not_not.mpr none_), List.lookup_cons] at route
  split at route <;> cases route

/-! Paths in which no character means anything to axum. -/

def isPlainPathChar (c : Char) : Bool := c.isAlphanum || c = '/' || c = '-' || c = '_' || c = '.'

def IsPlainPath (path : Text) : Prop := path.head? = some '/' ∧ path.all isPlainPathChar = true

instance (path : Text) : Decidable (IsPlainPath path) := inferInstanceAs (Decidable (_ ∧ _))

/-- Plain paths are matched to themselves, whatever the query is. -/
def plainAxum : Axum := fun paths =>
  if paths.Nodup ∧ ∀ path ∈ paths, IsPlainPath path then
    some fun target => paths.find? (· = target.takeWhile (· ≠ '?'))
  else none

theorem plainPath_noQuery {path : Text} (plain : IsPlainPath path) :
    path.takeWhile (· ≠ '?') = path := by
  have other : ∀ c ∈ path, decide (c ≠ '?') = true := by
    intro c member
    apply decide_eq_true
    rintro rfl
    exact absurd (List.all_eq_true.mp plain.2 _ member) (by decide)
  exact List.takeWhile_eq_self_iff.mpr other

/-- Different plain paths are taken, and each is matched to itself. -/
theorem plainAxum_matched {paths : List Text} (nodup : paths.Nodup)
    (plain : ∀ path ∈ paths, IsPlainPath path) :
    ∃ matched, plainAxum paths = some matched ∧ ∀ path ∈ paths, matched path = some path := by
  refine ⟨_, if_pos ⟨nodup, plain⟩, fun path member => ?_⟩
  have known : (paths.find? fun other => decide (other = path)).isSome :=
    List.find?_isSome.mpr ⟨path, member, decide_eq_true rfl⟩
  obtain ⟨found, here⟩ := Option.isSome_iff_exists.mp known
  have same := List.find?_some here
  rw [plainPath_noQuery (plain path member), here, of_decide_eq_true same]

theorem plainAxum_takes {paths : List Text} (nodup : paths.Nodup)
    (plain : ∀ path ∈ paths, IsPlainPath path) :
    Takes plainAxum paths := by
  intro ordered same
  obtain ⟨matched, taken, each⟩ := plainAxum_matched (same.nodup_iff.mpr nodup)
    fun path member => plain path (same.mem_iff.mp member)
  exact ⟨matched, taken, fun path member => ⟨path, each path (same.mem_iff.mpr member)⟩⟩

end SoapServer.Server
