import JavaAtlas.Proofs.Actions
import JavaAtlas.Proofs.Growth

/-! What actions leave of the world. How a world after an action is related to the one before is
put together from the steps of the action, whether it fails or not. -/
namespace JavaAtlas

/-- One world after another that is seen from the same directory, with the same home and the same
environment. -/
structure World.SameSite (before after : World) : Prop where
  here : after.here = before.here
  home : after.home = before.home
  environment : after.environment = before.environment

theorem World.SameSite.trans {before middle after : World} (first : before.SameSite middle)
    (last : middle.SameSite after) : before.SameSite after :=
  ⟨last.here.trans first.here,last.home.trans first.home,
    last.environment.trans first.environment⟩

/-- One world after another at the same site, on the disk of which all directories are left, and
of the `kept` places all files. -/
structure World.Keeps (kept : Place → Prop) (before after : World) : Prop
    extends before.SameSite after where
  disk : before.disk.Keeps kept after.disk

instance World.keeps_isPreorder (kept : Place → Prop) : IsPreorder World (World.Keeps kept) where
  refl world := ⟨⟨rfl,rfl,rfl⟩,.refl kept world.disk⟩
  trans _ _ _ first last := ⟨first.toSameSite.trans last.toSameSite,first.disk.trans last.disk⟩

theorem World.Keeps.mono {kept fewer : Place → Prop} {before after : World}
    (keeps : before.Keeps kept after) (subset : ∀ place, fewer place → kept place) :
    before.Keeps fewer after :=
  ⟨keeps.toSameSite,keeps.disk.mono subset⟩

namespace Action
variable {α β : Type} {relation : World → World → Prop} {kept : Place → Prop}

/-- Whatever comes of the action, it leaves a world related to the one it started from. -/
def Within (relation : World → World → Prop) (action : Action α) : Prop :=
  ∀ world, relation world (action.run.run world).2

theorem run_bind_ok {first : Action α} {next : α → Action β} {world after : World} {result : β}
    (done : (first >>= next).run.run world = (.ok result,after)) :
    ∃ value between, first.run.run world = (.ok value,between) ∧
      (next value).run.run between = (.ok result,after) := by
  rw [run_bind] at done
  generalize first.run.run world = outcome at done ⊢
  obtain ⟨outcome,between⟩ := outcome
  cases outcome with
  | error fault => cases done
  | ok value => exact ⟨value,between,rfl,done⟩

/-- What is so after the first part failed, and after the second part wherever the first part
leads, is so after both. -/
theorem run_after {holds : Except Fault β × World → Prop} {first : Action α}
    {next : α → Action β} {world : World} (within : first.Within relation)
    (fails : ∀ fault after, relation world after → holds (.error fault,after))
    (goes : ∀ value after, first.run.run world = (.ok value,after) → relation world after →
      holds ((next value).run.run after)) :
    holds ((first >>= next).run.run world) := by
  rw [run_bind]
  have step := within world
  cases outcome : first.run.run world with
  | mk result after =>
    rw [outcome] at step
    cases result with
    | error fault => exact fails fault after step
    | ok value => exact goes value after outcome step

theorem run_after_same {holds : Except Fault β × World → Prop} {first : Action α}
    {next : α → Action β} {world : World} (same : first.Within Eq)
    (fails : ∀ fault, holds (.error fault,world))
    (goes : ∀ value, first.run.run world = (.ok value,world) →
      holds ((next value).run.run world)) :
    holds ((first >>= next).run.run world) := by
  apply run_after same
  · rintro fault _ rfl
    exact fails fault
  · rintro value _ done rfl
    exact goes value done

theorem run_of_isOk {action : Action α} {world : World}
    (succeeds : (action.run.run world).1.isOk = true) :
    ∃ value after, action.run.run world = (.ok value,after) := by
  generalize action.run.run world = outcome at succeeds
  obtain ⟨result,after⟩ := outcome
  cases result with
  | error fault => cases succeeds
  | ok value => exact ⟨value,after,rfl⟩

theorem ok_of_ofShape {result : Except Json.Mismatch α} {value : α} {world after : World}
    (done : (ofShape result).run.run world = (.ok value,after)) : result = .ok value := by
  cases result with
  | error mismatch => cases done
  | ok found =>
    cases done
    rfl

section Steps
variable [IsPreorder World relation]

theorem within_pure (value : α) : (pure value : Action α).Within relation :=
  fun world => refl_of relation world

theorem Within.of_same {action : Action α} (same : action.Within Eq) : action.Within relation := by
  intro world
  rw [← same world]
  exact refl_of relation world

theorem within_throw (fault : Fault) : (throw fault : Action α).Within relation :=
  fun world => refl_of relation world

theorem within_get : (get : Action World).Within relation :=
  fun world => refl_of relation world

theorem Within.bind {first : Action α} {next : α → Action β} (within : first.Within relation)
    (further : ∀ value, (next value).Within relation) : (first >>= next).Within relation := by
  intro world
  refine @run_after _ _ relation (fun outcome => relation world outcome.2) _ _ _ within ?_ ?_
  · intro fault after step
    exact step
  · intro value after _ step
    exact trans_of relation step (further value after)

theorem within_ofShape (result : Except Json.Mismatch α) : (ofShape result).Within relation := by
  cases result with
  | ok value => exact within_pure value
  | error mismatch => exact within_throw _

theorem within_find? (path : Path) : (find? path).Within relation := by
  rw [find?]
  refine within_get.bind fun world => ?_
  split
  · exact within_throw _
  · exact within_pure _

theorem within_readDocument (path : Path) : (readDocument path).Within relation := by
  rw [readDocument]
  refine within_get.bind fun world => ?_
  split
  · exact within_throw _
  · split
    · exact within_throw _
    · split
      · exact within_throw _
      · exact within_pure _

theorem within_expandHome (path : Path) : (expandHome path).Within relation := by
  rw [expandHome]
  refine within_get.bind fun world => ?_
  split
  · exact within_pure _
  · exact within_throw _

theorem within_resolve (path : Path) : (resolve path).Within relation := by
  rw [resolve]
  refine (within_expandHome path).bind fun expanded => ?_
  split
  · exact within_throw _
  · exact within_get.bind fun _ => within_pure _

theorem Within.tryCatch {action : Action α} {handle : Fault → Action α}
    (within : action.Within relation) (handled : ∀ fault, (handle fault).Within relation) :
    (tryCatch action handle : Action α).Within relation := by
  intro world
  have step := within world
  rw [run_tryCatch]
  generalize action.run.run world = outcome at step
  obtain ⟨outcome,after⟩ := outcome
  cases outcome with
  | ok value => exact step
  | error fault => exact trans_of relation step (handled fault after)

theorem Within.filterMapM {step : α → Action (Option β)}
    (each : ∀ item, (step item).Within relation) (items : List α) :
    (items.filterMapM step).Within relation := by
  induction items with
  | nil => exact within_pure _
  | cons item rest ih =>
    rw [List.filterMapM_cons]
    refine (each item).bind fun found => ?_
    cases found with
    | none => exact ih
    | some value => exact ih.bind fun _ => within_pure _

theorem Within.mapM {step : α → Action β} {items : List α}
    (each : ∀ item ∈ items, (step item).Within relation) : (items.mapM step).Within relation := by
  induction items with
  | nil => exact within_pure _
  | cons item rest ih =>
    rw [List.forall_mem_cons] at each
    rw [List.mapM_cons]
    exact each.1.bind fun _ => (ih each.2).bind fun _ => within_pure _

end Steps

theorem run_makeDirectories (path : Path) (world : World) :
    (makeDirectories path).run.run world =
      match world.disk.makeDirectories world.here path with
      | (.ok _,disk) => (.ok (),{world with disk})
      | (.error fault,disk) => (.error (.disk fault),{world with disk}) := by
  rw [makeDirectories,run_bind,run_get]
  dsimp only
  generalize world.disk.makeDirectories world.here path = made
  obtain ⟨outcome,disk⟩ := made
  cases outcome <;> rfl

theorem within_makeDirectories (path : Path) :
    (makeDirectories path).Within (World.Keeps kept) := by
  intro world
  have keeps := @Disk.keeps_makeDirectories kept world.disk world.here path
  rw [run_makeDirectories]
  generalize world.disk.makeDirectories world.here path = made at keeps
  obtain ⟨outcome,disk⟩ := made
  cases outcome with
  | ok _ => exact ⟨⟨rfl,rfl,rfl⟩,keeps⟩
  | error fault => exact ⟨⟨rfl,rfl,rfl⟩,keeps⟩

theorem within_write {path : Path} (free : ∀ here, ¬ kept (path.place here)) (content : String) :
    (write path content).Within (World.Keeps kept) := by
  intro world
  rw [run_write]
  cases written : world.disk.write world.here path (Text.Utf8.encode content.toList) with
  | error fault => exact refl_of (World.Keeps kept) world
  | ok disk =>
    obtain ⟨place,reached,outside,rfl⟩ := Disk.write_iff.mp written
    have same := Disk.place_of_locate reached
    exact ⟨⟨rfl,rfl,rfl⟩,Disk.keeps_withFile outside (same ▸ free world.here)⟩

end Action

end JavaAtlas
