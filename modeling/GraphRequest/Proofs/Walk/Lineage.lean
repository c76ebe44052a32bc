import GraphRequest.Proofs.Walk.Preorder

/-!
The pre-order of the declared fields, each with the fields that it is selected inside of. The fields of
a fragment are inside of the field that holds its first spread, however many fragments lie between.
`lineal_induct` proves of all these fields what holds at the start and is handed down.
-/

namespace GraphRequest

open Assembly

namespace PlacedField

def inner (placed : PlacedField) : Site :=
  placed.expectation.inner

end PlacedField

/-- Something with the fields that it is inside of, the outermost first. -/
abbrev Lineal (α : Type) := List PlacedField × α

namespace DeclaredField

mutual

def lineage (outer : List PlacedField) (site : Site) (key : String) :
    DeclaredField → List (Lineal Waypoint)
  | mk attributes nested =>
      (outer, .field site key ⟨attributes, nested⟩) ::
        (attributes.spreads.map (fun name => (outer ++ [⟨site, key, ⟨attributes, nested⟩⟩],
            .spread name (PlacedField.mk site key ⟨attributes, nested⟩).inner)) ++
          lineages (outer ++ [⟨site, key, ⟨attributes, nested⟩⟩])
            (PlacedField.mk site key ⟨attributes, nested⟩).inner nested)

def lineages (outer : List PlacedField) (site : Site) :
    List (String × DeclaredField) → List (Lineal Waypoint)
  | [] => []
  | (key, declared) :: rest => lineage outer site key declared ++ lineages outer site rest

end

mutual

theorem lineage_route (outer : List PlacedField) (site : Site) (key : String) :
    (declared : DeclaredField) → (lineage outer site key declared).map Prod.snd =
      route site key declared
  | mk attributes nested => by
      rw [lineage, route, List.map_cons, List.map_append, List.map_map,
        lineages_routes _ _ nested]
      rfl

theorem lineages_routes (outer : List PlacedField) (site : Site) :
    (declared : List (String × DeclaredField)) →
    (lineages outer site declared).map Prod.snd = routes site declared
  | [] => rfl
  | (key, declared) :: rest => by
      rw [lineages, routes, List.map_append, lineage_route outer site key declared,
        lineages_routes outer site rest]

end

end DeclaredField

namespace Fragment

def lineage (outer : List PlacedField) (site : Site) (fragment : Fragment) : List (Lineal Waypoint) :=
  fragment.includes.map (fun name => (outer, .spread name site)) ++
    DeclaredField.lineages outer site fragment.fields.entries

theorem lineage_route (outer : List PlacedField) (site : Site) (fragment : Fragment) :
    (fragment.lineage outer site).map Prod.snd = fragment.route site := by
  rw [lineage, route, List.map_append, List.map_map, DeclaredField.lineages_routes]
  rfl

end Fragment

namespace Waypoint

def site : Waypoint → Site
  | field site _ _ => site
  | spread _ site => site

def lineal (fragments : Fragments) (seen : List String) :
    List (Lineal Waypoint) → List (Lineal PlacedField)
  | [] => []
  | (outer, .field site key declared) :: rest =>
      (outer, ⟨site, key, declared⟩) :: lineal fragments seen rest
  | (outer, .spread name site) :: rest =>
      if known : name ∈ seen then lineal fragments seen rest
      else
        match found : fragments.get? name with
        | none => lineal fragments seen rest
        | some fragment =>
            have := unopened_lt known (mem_keys_of_get? found)
            lineal fragments (seen ++ [name]) (fragment.lineage outer site ++ rest)
termination_by route => ((unopened fragments seen).length, route.length)

theorem lineal_first {fragments : Fragments} {seen : List String} {rest : List (Lineal Waypoint)}
    {outer : List PlacedField} {name : String} {site : Site} {fragment : Fragment} (new : name ∉ seen)
    (found : fragments.get? name = some fragment) :
    lineal fragments seen ((outer, .spread name site) :: rest) =
      lineal fragments (seen ++ [name]) (fragment.lineage outer site ++ rest) := by
  rw [lineal, dif_neg new]
  split
  · next missing => cases missing.symm.trans found
  · next other also => cases also.symm.trans found; rfl

theorem lineal_preorder (fragments : Fragments) (seen : List String) (route : List (Lineal Waypoint)) :
    (lineal fragments seen route).map Prod.snd = preorder fragments seen (route.map Prod.snd) := by
  fun_induction lineal fragments seen route with
  | case1 seen => rw [List.map_nil, List.map_nil, preorder]
  | case2 seen outer site key declared rest ih =>
      rw [List.map_cons, List.map_cons, preorder, ih]
  | case3 seen outer name site rest known ih => rw [List.map_cons, preorder_seen known, ih]
  | case4 seen outer name site rest new missing ih =>
      rw [ih, List.map_cons, preorder, dif_neg new]
      split
      · rfl
      · next fragment found => cases missing.symm.trans found
  | case5 seen outer name site rest new fragment found _ ih =>
      rw [ih, List.map_cons, preorder_first new found, List.map_append, fragment.lineage_route]

end Waypoint

/-- What holds of a site inside of some fields, it hands down to the sites inside of each field
there. -/
def HandedDown (P : List PlacedField → Site → Prop) : Prop :=
  ∀ outer placed, P outer placed.site → P (outer ++ [placed]) placed.inner

section

variable {P : List PlacedField → Site → Prop}

namespace DeclaredField

mutual

theorem lineage_induct (down : HandedDown P) {outer : List PlacedField} {site : Site} {key : String}
    (start : P outer site) : (declared : DeclaredField) →
    ∀ stop ∈ lineage outer site key declared, P stop.1 stop.2.site
  | mk attributes nested => by
      have below := down outer ⟨site, key, ⟨attributes, nested⟩⟩ start
      rw [lineage, List.forall_mem_cons, List.forall_mem_append, List.forall_mem_map]
      exact ⟨start, fun _ _ => below, lineages_induct down below nested⟩

theorem lineages_induct (down : HandedDown P) {outer : List PlacedField} {site : Site}
    (start : P outer site) : (declared : List (String × DeclaredField)) →
    ∀ stop ∈ lineages outer site declared, P stop.1 stop.2.site
  | [] => List.forall_mem_nil _
  | (key, declared) :: rest => by
      rw [lineages, List.forall_mem_append]
      exact ⟨lineage_induct down start declared, lineages_induct down start rest⟩

end

end DeclaredField

theorem Fragment.lineage_induct (down : HandedDown P) {outer : List PlacedField} {site : Site}
    (start : P outer site) (fragment : Fragment) :
    ∀ stop ∈ fragment.lineage outer site, P stop.1 stop.2.site := by
  rw [lineage, List.forall_mem_append, List.forall_mem_map]
  exact ⟨fun _ _ => start, DeclaredField.lineages_induct down start _⟩

theorem Waypoint.lineal_induct (down : HandedDown P) (fragments : Fragments) (seen : List String)
    (route : List (Lineal Waypoint)) (start : ∀ stop ∈ route, P stop.1 stop.2.site) :
    ∀ stop ∈ lineal fragments seen route, P stop.1 stop.2.site := by
  fun_induction lineal fragments seen route with
  | case1 seen => exact List.forall_mem_nil _
  | case2 seen outer site key declared rest ih =>
      rw [List.forall_mem_cons] at start ⊢
      exact ⟨start.1, ih start.2⟩
  | case3 seen outer name site rest known ih => exact ih (List.forall_mem_cons.mp start).2
  | case4 seen outer name site rest new missing ih => exact ih (List.forall_mem_cons.mp start).2
  | case5 seen outer name site rest new fragment found _ ih =>
      rw [List.forall_mem_cons] at start
      exact ih (List.forall_mem_append.mpr ⟨fragment.lineage_induct down start.1, start.2⟩)

end

end GraphRequest
