import Mathlib.Data.List.Basic
import SchemaForge.Proofs.Emission.Agreement

/-!
# `Proofs.Emission.Registration` — a shared registry only grows

The parts of a program share one registry. Nothing is in it until it is used; whatever call comes first, be it a
registration or a lookup, puts in the built-in backends before it does its own work, and no later call does so
again. So every call works on the built-in backends and, behind them, those that were registered before it in the
order of their registration: as if the registry had started with the built-in ones. An entry is never taken out
and never moved, and since a lookup by name answers the first entry of the name, what it has answered once it
answers for ever, whatever names are registered later.

## Contents
- **Calls.** `registered_cons`: what calls register, one after the other.
- **Steps.** `ready_perform`: what one call leaves to the next.
- **Runs.** `ready_after`, and `list_after`: what any calls leave.
- **Names and categories.** `find?_eq_some_iff`: the first entry of a name; `ofCategory_perm`: every backend is in
  one category.
- **The whole.** `registry_grows`.
-/

namespace SchemaForge

/-! ## Calls -/

theorem registered_cons (call : RegistryCall) (calls : List RegistryCall) :
    registered (call :: calls) = call.registered?.toList ++ registered calls := by
  unfold registered
  rw [List.filterMap_eq_flatMap_toList, List.filterMap_eq_flatMap_toList, List.flatMap_cons]

namespace SharedRegistry

/-! ## Steps -/

theorem started_start (shared : SharedRegistry) : shared.start.started = true := by
  unfold start
  split
  · assumption
  · rfl

theorem start_of_started {shared : SharedRegistry} (h : shared.started = true) : shared.start = shared :=
  if_pos h

/-- **A call leaves what it found, and the backend that it registers behind it.** -/
theorem ready_perform (shared : SharedRegistry) (call : RegistryCall) :
    (call.perform shared).ready = call.registered?.toList.foldl Registry.register shared.ready := by
  -- whatever the call is, the registry that it leaves has been started
  have hlook : shared.start.ready = shared.ready := by
    unfold ready
    rw [start_of_started shared.started_start]
  cases call with
  | register backend    =>
      have hstarted : (shared.register backend).started = true := shared.started_start
      show (shared.register backend).start.registry = _
      rw [start_of_started hstarted]
      rfl
  | find name           => exact hlook
  | ofCategory category => exact hlook
  | list                => exact hlook
  | names               => exact hlook

/-! ## Runs -/

/-- **Calls leave what they found, and the backends that they register behind it.** -/
theorem ready_after (shared : SharedRegistry) (calls : List RegistryCall) :
    (shared.after calls).ready = (registered calls).foldl Registry.register shared.ready := by
  induction calls generalizing shared with
  | nil => rfl
  | cons call calls ih =>
      show ((call.perform shared).after calls).ready = _
      rw [ih, ready_perform, registered_cons, List.foldl_append]

end SharedRegistry

theorem Registry.backends_foldl_register (registry : Registry) (added : List Backend) :
    (added.foldl register registry).backends = registry.backends ++ added := by
  induction added generalizing registry with
  | nil => exact (List.append_nil _).symm
  | cons backend added ih =>
      rw [List.foldl_cons, ih]
      exact List.append_assoc registry.backends [backend] added

/-- **Every call finds the built-in backends and those that were registered before it**, in this order. -/
theorem SharedRegistry.list_after (calls : List RegistryCall) :
    (unused.after calls).list.1 = Backend.builtin ++ registered calls := by
  show (unused.after calls).ready.backends = _
  rw [ready_after, Registry.backends_foldl_register]
  rfl

/-! ## Names and categories -/

/-- What is found by name is the first entry of the name. -/
theorem Registry.find?_eq_some_iff (registry : Registry) (name : String) (found : Backend) :
    registry.find? name = some found ↔
      ∃ earlier later, registry.backends = earlier ++ found :: later ∧ found.name = name ∧
        ∀ other ∈ earlier, other.name ≠ name := by
  unfold find?
  rw [List.find?_eq_some_iff_append]
  constructor
  · rintro ⟨hname, earlier, later, hsplit, hearlier⟩
    exact ⟨earlier, later, hsplit, by simpa using hname, by simpa using hearlier⟩
  · rintro ⟨earlier, later, hsplit, hname, hearlier⟩
    exact ⟨by simpa using hname, earlier, later, hsplit, by simpa using hearlier⟩

theorem Registry.find?_eq_none_iff (registry : Registry) (name : String) :
    registry.find? name = none ↔ ∀ backend ∈ registry.backends, backend.name ≠ name := by
  unfold find?
  rw [List.find?_eq_none]
  simp only [beq_iff_eq, ne_eq]

/-- **Every backend is in one category.** -/
theorem Registry.ofCategory_perm (registry : Registry) :
    (registry.ofCategory .types ++ registry.ofCategory .validators ++ registry.ofCategory .module).Perm
      registry.backends := by
  unfold ofCategory
  induction registry.backends with
  | nil => exact List.Perm.refl []
  | cons backend backends ih =>
      -- the first backend goes to the front of the backends of its own category
      cases h : backend.category with
      | types      => simpa [List.filter_cons, h] using ih
      | validators =>
          rw [List.append_assoc] at ih
          simpa [List.filter_cons, h] using List.perm_middle.trans (ih.cons backend)
      | module     => simpa [List.filter_cons, h] using List.perm_middle.trans (ih.cons backend)

/-! ## The whole -/

/-- **A registry only grows, and no backend in it is replaced.** Whatever calls came before, the next one works on
    the built-in backends and, behind them, those that were registered, in the order of their registration: so the
    registry is the one that would have started with the built-in backends. A lookup by name answers the first entry
    of the name, and goes on to answer it whatever calls follow; a lookup by category answers the entries of the
    category in their order, and every entry is in one category. -/
theorem registry_grows (calls : List RegistryCall) :
    let shared := SharedRegistry.unused.after calls
    let entries := Backend.builtin ++ registered calls
    shared.ready = (registered calls).foldl Registry.register .initial ∧
    shared.list.1 = entries ∧
    shared.names.1
      = ["zod", "typescript", "typescript-module", "module"] ++ (registered calls).map Backend.name ∧
    (∀ name found, (shared.find? name).1 = some found ↔
      ∃ earlier later, entries = earlier ++ found :: later ∧ found.name = name ∧
        ∀ other ∈ earlier, other.name ≠ name) ∧
    (∀ name, (shared.find? name).1 = none ↔ ∀ backend ∈ entries, backend.name ≠ name) ∧
    (∀ name found, (shared.find? name).1 = some found →
      ∀ more, ((shared.after more).find? name).1 = some found) ∧
    (∀ category,
      (shared.ofCategory category).1 = entries.filter fun backend => backend.category = category) ∧
    ((shared.ofCategory .types).1 ++ (shared.ofCategory .validators).1
      ++ (shared.ofCategory .module).1).Perm entries := by
  intro shared entries
  have hready : shared.ready = (registered calls).foldl Registry.register .initial :=
    SharedRegistry.unused.ready_after calls
  have hentries : shared.ready.backends = entries := SharedRegistry.list_after calls
  refine ⟨hready, hentries, ?names, ?first, ?absent, ?stays, ?category, ?partition⟩
  case names =>
    show shared.ready.backends.map Backend.name = _
    rw [hentries, List.map_append]
    rfl
  case first =>
    intro name found
    show shared.ready.find? name = some found ↔ _
    rw [Registry.find?_eq_some_iff, hentries]
  case absent =>
    intro name
    show shared.ready.find? name = none ↔ _
    rw [Registry.find?_eq_none_iff, hentries]
  case stays =>
    intro name found hfound more
    show (shared.after more).ready.find? name = some found
    rw [SharedRegistry.ready_after]
    exact Registry.find?_foldl_register hfound (registered more)
  case category =>
    intro category
    show shared.ready.backends.filter _ = _
    rw [hentries]
    rfl
  case partition =>
    rw [← hentries]
    exact shared.ready.ofCategory_perm

/-- A lookup first, then a backend under a built-in name, and two under a new one. -/
theorem registry_grows_twoTags :
    let tag (name label : String) : Backend :=
      { name, language := "text", extension := "txt", category := .types, generate := fun _ _ => label }
    let calls : List RegistryCall :=
      [.find "zod", .register (tag "zod" "a"), .ofCategory .types, .register (tag "shout" "b")]
    let shared := SharedRegistry.unused.after calls
    let later := shared.after [.register (tag "shout" "c"), .names]
    (shared.find? "zod").1 = some .zod ∧ (later.find? "zod").1 = some .zod ∧
    (shared.find? "shout").1 = some (tag "shout" "b") ∧
    (later.find? "shout").1 = some (tag "shout" "b") ∧
    shared.names.1 = ["zod", "typescript", "typescript-module", "module", "zod", "shout"] := by
  intro tag calls shared later
  obtain ⟨_, _, hnames, _, _, hstays, _⟩ := registry_grows calls
  have hzod : (shared.find? "zod").1 = some .zod := rfl
  have hshout : (shared.find? "shout").1 = some (tag "shout" "b") := rfl
  exact ⟨hzod, hstays _ _ hzod _, hshout, hstays _ _ hshout _, hnames⟩

end SchemaForge
