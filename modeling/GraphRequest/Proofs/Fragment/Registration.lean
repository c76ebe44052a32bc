import GraphRequest.Proofs.Fragment.Needed

/-!
Which fragments can be registered together, and what a registry provides. Neither depends on the order
of the fragments.
-/

namespace GraphRequest

namespace Fragment

structure Registrable (declared : List Fragment) : Prop where
  distinct : (declared.map name).Nodup
  apart : ∀ fragment ∈ declared, fragment.name ∉ fragment.includes

namespace Registrable

variable {declared others extra : List Fragment}

theorem perm (registrable : Registrable declared) (reordered : others.Perm declared) :
    Registrable others where
  distinct := (reordered.map name).nodup_iff.mpr registrable.distinct
  apart fragment member := registrable.apart fragment (reordered.mem_iff.mp member)

theorem append (registrable : Registrable declared) (added : Registrable extra)
    (fresh : ∀ fragment ∈ extra, fragment.name ∉ declared.map name) :
    Registrable (declared ++ extra) where
  distinct := by
    rw [List.map_append, List.nodup_append]
    refine ⟨registrable.distinct, added.distinct, fun first early second late same => ?_⟩
    obtain ⟨fragment, member, rfl⟩ := List.mem_map.mp late
    exact fresh fragment member (same ▸ early)
  apart := List.forall_mem_append.mpr ⟨registrable.apart, added.apart⟩

theorem named?_eq_some_iff (registrable : Registrable declared) {key : String}
    {fragment : Fragment} :
    named? declared key = some fragment ↔ fragment ∈ declared ∧ fragment.name = key := by
  constructor
  · intro found
    exact ⟨List.mem_of_find?_eq_some found, name_of_named? found⟩
  · rintro ⟨member, rfl⟩
    cases found : named? declared fragment.name with
    | none => simpa using List.find?_eq_none.mp found fragment member
    | some other =>
        -- two fragments of one name are the same
        have same := List.inj_on_of_nodup_map registrable.distinct
          (List.mem_of_find?_eq_some found) member (name_of_named? found)
        rw [same]

/-- Registering in another order, or registering more, does not change what is found under the other
names. -/
theorem named?_eq (registrable : Registrable declared) (enlarged : Registrable others)
    (reordered : others.Perm (declared ++ extra)) {key : String}
    (other : key ∉ extra.map name) : named? others key = named? declared key := by
  apply Option.ext
  intro fragment
  rw [enlarged.named?_eq_some_iff, registrable.named?_eq_some_iff, reordered.mem_iff,
    List.mem_append]
  constructor
  · rintro ⟨early | late, rfl⟩
    · exact ⟨early, rfl⟩
    · exact absurd (List.mem_map_of_mem late) other
  · rintro ⟨early, rfl⟩
    exact ⟨.inl early, rfl⟩

end Registrable

end Fragment

namespace Assembly

def register (registry : Fragments) (assembly : Assembly) : Assembly :=
  { assembly with fragments := registry }

theorem introduceFragments_ok_iff {declared : List Fragment} {assembly : Assembly} :
    (∃ after, introduceFragments declared assembly = .ok () after) ↔
      (assembly.fragments.keys ++ declared.map Fragment.name).Nodup ∧
        ∀ fragment ∈ declared, fragment.name ∉ fragment.includes := by
  induction declared generalizing assembly with
  | nil =>
      have distinct : assembly.fragments.keys.Nodup := assembly.fragments.distinct
      simpa [introduceFragments, pure_run] using distinct
  | cons fragment rest ih =>
      have extended : fragment.name ∉ assembly.fragments.keys →
          (assembly.fragments.insert fragment.name fragment).keys ++ rest.map Fragment.name =
            assembly.fragments.keys ++ (fragment :: rest).map Fragment.name := by
        intro absent
        rw [OrderedMap.keys_insert, if_neg absent, List.append_assoc]
        rfl
      rw [List.forall_mem_cons]
      constructor
      · rintro ⟨after, introduced⟩
        obtain ⟨_, middle, first, others⟩ := (bind_eq_ok _ _ _ _ _).mp introduced
        obtain ⟨absent, apart, rfl⟩ := introduceFragment_eq_ok_iff.mp first
        obtain ⟨distinct, later⟩ := ih.mp ⟨after, others⟩
        exact ⟨extended absent ▸ distinct, apart, later⟩
      · rintro ⟨distinct, apart, later⟩
        have absent : fragment.name ∉ assembly.fragments.keys := fun present =>
          (List.nodup_append.mp distinct).2.2 _ present _ List.mem_cons_self rfl
        obtain ⟨after, others⟩ := (@ih { assembly with
          fragments := assembly.fragments.insert fragment.name fragment }).mpr
          ⟨(extended absent).symm ▸ distinct, later⟩
        refine ⟨after, ?_⟩
        rw [introduceFragments, bind_run, introduceFragment_eq_ok_iff.mpr ⟨absent, apart, rfl⟩]
        exact others

theorem introduceFragments_new_iff {declared : List Fragment} {name : String} :
    (∃ base, introduceFragments declared (new name) = .ok () base) ↔
      Fragment.Registrable declared := by
  rw [introduceFragments_ok_iff]
  exact ⟨fun ⟨distinct, apart⟩ => ⟨distinct, apart⟩, fun ⟨distinct, apart⟩ => ⟨distinct, apart⟩⟩

end Assembly

theorem Fragment.Registrable.registered {declared : List Fragment}
    (registrable : Registrable declared) (name : String) :
    ∃ registry : Fragments,
      Assembly.introduceFragments declared (.new name) =
        .ok () ((Assembly.new name).register registry) ∧
      registry.get? = named? declared := by
  obtain ⟨base, introduced⟩ := Assembly.introduceFragments_new_iff.mpr registrable
  obtain ⟨registry, rfl, entries⟩ := Assembly.introduceFragments_eq_ok introduced
  exact ⟨registry, introduced, get?_eq_named? entries⟩

end GraphRequest
