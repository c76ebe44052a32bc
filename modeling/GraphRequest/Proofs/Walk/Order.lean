import Mathlib.Data.Set.Finite.Basic
import Mathlib.Logic.Relation

/-!
Depth-first post-order. An entry is finished when all that it leads to is, and an entry whose name
is finished already is passed over. Entries are told apart by their names, so that they can carry
more than a name.
-/

namespace GraphRequest

/-- From the finished entries on, walking through the pending ones finishes the final ones. -/
inductive PostOrder {α ν : Type} (ident : α → ν) (next : α → List α) :
    List α → List α → List α → Prop
  | done {finished} : PostOrder ident next finished [] finished
  | pass {finished entry rest final} (known : ident entry ∈ finished.map ident)
      (later : PostOrder ident next finished rest final) :
      PostOrder ident next finished (entry :: rest) final
  | finish {finished entry rest inner final} (fresh : ident entry ∉ finished.map ident)
      (inside : PostOrder ident next finished (next entry) inner)
      (later : PostOrder ident next (inner ++ [entry]) rest final) :
      PostOrder ident next finished (entry :: rest) final

def Grounded {α ν : Type} (ident : α → ν) (next : α → List α) (order : List α) : Prop :=
  ∀ front entry back, order = front ++ entry :: back →
    ∀ target ∈ next entry, ident target ∈ front.map ident

def Reached {α : Type} (next : α → List α) (roots : List α) (entry : α) : Prop :=
  ∃ root ∈ roots, Relation.ReflTransGen (fun a b => b ∈ next a) root entry

namespace Reached

variable {α : Type} {next : α → List α} {roots : List α} {a b : α}

theorem root (member : a ∈ roots) : Reached next roots a :=
  ⟨a, member, .refl⟩

theorem step (reached : Reached next roots a) (leads : b ∈ next a) : Reached next roots b := by
  rcases reached with ⟨root, member, path⟩
  exact ⟨root, member, path.tail leads⟩

theorem of_roots {others : List α} (included : ∀ root ∈ roots, root ∈ others)
    (reached : Reached next roots a) : Reached next others a := by
  rcases reached with ⟨root, member, path⟩
  exact ⟨root, included root member, path⟩

theorem map {β : Type} {onward : β → List β} (f : α → β)
    (steps : ∀ a, (next a).map f = onward (f a)) (reached : Reached next roots a) :
    Reached onward (roots.map f) (f a) := by
  rcases reached with ⟨root, member, path⟩
  refine ⟨f root, List.mem_map_of_mem member, path.lift f fun first second leads => ?_⟩
  change f second ∈ onward (f first)
  rw [← steps]
  exact List.mem_map_of_mem leads

theorem mem_of_closed {pool : List α} (rooted : ∀ root ∈ roots, root ∈ pool)
    (closed : ∀ a ∈ pool, ∀ b ∈ next a, b ∈ pool) (reached : Reached next roots a) : a ∈ pool := by
  rcases reached with ⟨root, member, path⟩
  induction path with
  | refl => exact rooted root member
  | tail _ leads ih => exact closed _ ih _ leads

/-- Where no entry leads back to itself and all that is reached lies in a list, every descent
ends. -/
theorem acc (pool : List α) (pooled : ∀ a, Reached next roots a → a ∈ pool)
    (acyclic : ∀ a, Reached next roots a → ¬Relation.TransGen (fun a b => b ∈ next a) a a)
    (reached : Reached next roots a) : Acc (fun b a => b ∈ next a) a := by
  have finite : {a | Reached next roots a}.Finite :=
    (List.finite_toSet pool).subset pooled
  let below (b a : {a // Reached next roots a}) : Prop :=
    Relation.TransGen (fun a b => b ∈ next a) a.1 b.1
  have _ : Finite {a // Reached next roots a} := finite
  have _ : IsTrans _ below := ⟨fun _ _ _ first second => second.trans first⟩
  have _ : Std.Irrefl below := ⟨fun a => acyclic a.1 a.2⟩
  have ends := Finite.wellFounded_of_trans_of_irrefl below
  have descends : ∀ entry : {a // Reached next roots a}, Acc (fun b a => b ∈ next a) entry.1 := by
    intro entry
    induction entry using ends.induction with
    | _ entry ih =>
        exact .intro _ fun b leads => ih ⟨b, entry.2.step leads⟩ (.single leads)
  exact descends ⟨a, reached⟩

end Reached

namespace Grounded

variable {α ν : Type} {ident : α → ν} {next : α → List α} {order : List α}

theorem nil : Grounded ident next [] := by
  intro front entry back split
  simp at split

theorem snoc {entry : α} (grounded : Grounded ident next order)
    (leads : ∀ target ∈ next entry, ident target ∈ order.map ident) :
    Grounded ident next (order ++ [entry]) := by
  intro front other back split
  rcases List.eq_nil_or_concat back with rfl | ⟨init, last, rfl⟩
  · obtain ⟨rfl, same⟩ := List.append_inj' split rfl
    obtain rfl : entry = other := by simpa using same
    exact leads
  · have shorter : order ++ [entry] = (front ++ other :: init) ++ [last] := by
      simpa using split
    exact grounded front other init (List.append_inj' shorter rfl).1

theorem idxOf_lt [DecidableEq α] {next : α → List α} (grounded : Grounded id next order) {a b : α}
    (member : a ∈ order) (leads : b ∈ next a) : b ∈ order ∧ order.idxOf b < order.idxOf a := by
  obtain ⟨front, back, rfl, first⟩ := List.eq_append_cons_of_mem member
  have inFront : b ∈ front := by simpa using grounded front a back rfl b leads
  refine ⟨List.mem_append_left _ inFront, ?_⟩
  rw [List.idxOf_append, if_pos inFront, List.idxOf_append, if_neg first]
  have bound := List.idxOf_lt_length_of_mem inFront
  omega

theorem mem_of_reached {next : α → List α} (grounded : Grounded id next order) {roots : List α}
    (rooted : ∀ root ∈ roots, root ∈ order) {entry : α} (reached : Reached next roots entry) :
    entry ∈ order := by
  refine reached.mem_of_closed rooted fun a member b leads => ?_
  obtain ⟨front, back, rfl⟩ := List.append_of_mem member
  have inFront := grounded front a back rfl b leads
  exact List.mem_append_left _ (by simpa using inFront)

theorem acyclic [DecidableEq α] {next : α → List α} (grounded : Grounded id next order) {a : α}
    (member : a ∈ order) : ¬Relation.TransGen (fun a b => b ∈ next a) a a := by
  intro cycle
  have descends : ∀ b, Relation.TransGen (fun a b => b ∈ next a) a b →
      b ∈ order ∧ order.idxOf b < order.idxOf a := by
    intro b path
    induction path with
    | single leads => exact grounded.idxOf_lt member leads
    | tail _ leads ih =>
        have further := grounded.idxOf_lt ih.1 leads
        exact ⟨further.1, by omega⟩
  exact Nat.lt_irrefl _ (descends a cycle).2

end Grounded

namespace PostOrder

variable {α ν : Type} {ident : α → ν} {next : α → List α} {finished pending final : List α}

theorem extends_finished (walk : PostOrder ident next finished pending final) :
    finished <+: final := by
  induction walk with
  | done => exact List.prefix_rfl
  | pass _ _ ih => exact ih
  | finish _ _ _ inner later => exact (inner.trans (List.prefix_append _ _)).trans later

theorem pending_finished (walk : PostOrder ident next finished pending final) :
    ∀ entry ∈ pending, ident entry ∈ final.map ident := by
  induction walk with
  | done => intro entry member; cases member
  | pass known later ih =>
      intro other member
      rcases List.mem_cons.mp member with rfl | member
      · exact (later.extends_finished.map ident).subset known
      · exact ih other member
  | finish _ _ later _ ih =>
      intro other member
      rcases List.mem_cons.mp member with rfl | member
      · exact (later.extends_finished.map ident).subset (by simp)
      · exact ih other member

theorem grounded (walk : PostOrder ident next finished pending final)
    (start : Grounded ident next finished) : Grounded ident next final := by
  induction walk with
  | done => exact start
  | pass _ _ ih => exact ih start
  | finish _ inside _ inner later => exact later ((inner start).snoc inside.pending_finished)

theorem unique (walk : PostOrder ident next finished pending final) {other : List α}
    (again : PostOrder ident next finished pending other) : other = final := by
  induction walk generalizing other with
  | done =>
      cases again
      rfl
  | pass known _ ih =>
      cases again with
      | pass _ later => exact ih later
      | finish fresh _ _ => exact absurd known fresh
  | finish fresh _ _ ihInside ihLater =>
      cases again with
      | pass known _ => exact absurd known fresh
      | finish _ inside later =>
          obtain rfl := ihInside inside
          exact ihLater later

/-- A property that the pending entries have, and that every finished entry hands on, holds of all
entries that the walk finishes. -/
theorem invariant (walk : PostOrder ident next finished pending final) {P : α → Prop}
    (hands : ∀ entry ∈ final, P entry → ∀ target ∈ next entry, P target)
    (rooted : ∀ entry ∈ pending, P entry) : ∀ entry ∈ final, entry ∈ finished ∨ P entry := by
  induction walk with
  | done => intro entry member; exact .inl member
  | pass _ _ ih => exact ih hands fun entry member => rooted entry (List.mem_cons_of_mem _ member)
  | @finish _ first _ _ _ _ _ later ihInner ihLater =>
      have kept := later.extends_finished.subset
      have head : P first := rooted first List.mem_cons_self
      have leads := hands first (kept (by simp)) head
      intro entry member
      rcases ihLater hands (fun entry member => rooted entry (List.mem_cons_of_mem _ member)) entry
        member with early | holds
      · rcases List.mem_append.mp early with early | last
        · exact ihInner (fun other there => hands other (kept (List.mem_append_left _ there))) leads
            entry early
        · rcases List.mem_singleton.mp last with rfl
          exact .inr head
      · exact .inr holds

theorem reached (walk : PostOrder ident next finished pending final) :
    ∀ entry ∈ final, entry ∈ finished ∨ Reached next pending entry :=
  walk.invariant (fun _ _ reached _ => reached.step) fun _ => .root

theorem mem_iff_reached {next : α → List α} (walk : PostOrder id next [] pending final)
    (entry : α) : entry ∈ final ↔ Reached next pending entry := by
  constructor
  · intro member
    exact (walk.reached entry member).resolve_left (by simp)
  · have rooted : ∀ root ∈ pending, root ∈ final := by
      intro root member
      simpa using walk.pending_finished root member
    exact (walk.grounded .nil).mem_of_reached rooted

theorem exists_final_of_each {pending : List α}
    (each : ∀ entry ∈ pending, ∀ finished, ∃ inner,
      PostOrder ident next finished (next entry) inner) (finished : List α) :
    ∃ final, PostOrder ident next finished pending final := by
  induction pending generalizing finished with
  | nil => exact ⟨finished, .done⟩
  | cons entry rest ih =>
      have others := ih fun other member => each other (List.mem_cons_of_mem _ member)
      by_cases known : ident entry ∈ finished.map ident
      · obtain ⟨final, later⟩ := others finished
        exact ⟨final, .pass known later⟩
      · obtain ⟨inner, inside⟩ := each entry List.mem_cons_self finished
        obtain ⟨final, later⟩ := others (inner ++ [entry])
        exact ⟨final, .finish known inside later⟩

/-- A walk comes to its end if every descent along the names does. -/
theorem exists_final {onward : ν → List ν}
    (names : ∀ entry, (next entry).map ident = onward (ident entry)) {pending : List α}
    (ends : ∀ entry ∈ pending, Acc (fun b a => b ∈ onward a) (ident entry)) :
    ∃ final, PostOrder ident next [] pending final := by
  have each : ∀ name, Acc (fun b a => b ∈ onward a) name → ∀ entry, ident entry = name →
      ∀ finished, ∃ inner, PostOrder ident next finished (next entry) inner := by
    intro name descends
    induction descends with
    | intro name _ ih =>
        intro entry named
        refine exists_final_of_each fun target leads => ih _ ?_ target rfl
        rw [← named, ← names]
        exact List.mem_map_of_mem leads
  exact exists_final_of_each (fun entry member => each _ (ends entry member) entry rfl) []

theorem map {β : Type} {other : β → ν} {onward : β → List β} (f : α → β)
    (walk : PostOrder ident next finished pending final) (names : ∀ a, other (f a) = ident a)
    (agrees : ∀ entry ∈ final, entry ∈ finished ∨ (next entry).map f = onward (f entry)) :
    PostOrder other onward (finished.map f) (pending.map f) (final.map f) := by
  have renamed : ∀ entries : List α, (entries.map f).map other = entries.map ident := by
    intro entries
    simp [names]
  induction walk with
  | done => exact .done
  | pass known _ ih =>
      refine .pass ?_ (ih agrees)
      rw [renamed, names]
      exact known
  | @finish finished entry rest inner final fresh inside later ihInner ihLater =>
      have kept := later.extends_finished.subset
      have newEntry : entry ∉ finished := fun member => fresh (List.mem_map_of_mem member)
      have agreed := (agrees entry (kept (by simp))).resolve_left newEntry
      refine @PostOrder.finish _ _ _ _ _ _ _ (inner.map f) _ ?_ ?_ ?_
      · rw [renamed, names]
        exact fresh
      · rw [← agreed]
        exact ihInner fun other member => agrees other (kept (List.mem_append_left _ member))
      · have joined : inner.map f ++ [f entry] = (inner ++ [entry]).map f := by simp
        rw [joined]
        apply ihLater
        intro other member
        rcases agrees other member with early | equal
        · exact .inl (List.mem_append_left _ (inside.extends_finished.subset early))
        · exact .inr equal

theorem named {onward : ν → List ν} (walk : PostOrder ident next finished pending final)
    (names : ∀ entry, (next entry).map ident = onward (ident entry)) :
    PostOrder id onward (finished.map ident) (pending.map ident) (final.map ident) :=
  walk.map ident (fun _ => rfl) fun entry _ => .inr (names entry)

theorem congr {onward : α → List α} (walk : PostOrder ident next finished pending final)
    (agrees : ∀ entry ∈ final, entry ∈ finished ∨ next entry = onward entry) :
    PostOrder ident onward finished pending final := by
  have kept : PostOrder ident onward (finished.map id) (pending.map id) (final.map id) :=
    walk.map id (fun _ => rfl) fun entry member =>
      (agrees entry member).imp_right fun same => by rw [List.map_id, same, id]
  simpa only [List.map_id] using kept

end PostOrder

end GraphRequest
