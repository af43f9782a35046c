import JavaAtlas.World

/-! What actions do to the world: their runs, step by step. -/
namespace JavaAtlas.Action
variable {α β : Type}

theorem run_bind (action : Action α) (next : α → Action β) (world : World) :
    (action >>= next).run.run world =
      match action.run.run world with
      | (.ok value,after) => (next value).run.run after
      | (.error fault,after) => (.error fault,after) := by
  unfold ExceptT.run StateT.run
  simp only [bind,ExceptT.bind,ExceptT.mk,StateT.bind,ExceptT.bindCont]
  cases action world with
  | mk result after => cases result <;> rfl

theorem run_get (world : World) : (get : Action World).run.run world = (.ok world,world) := rfl

theorem run_ofShape (value : α) (world : World) :
    (ofShape (.ok value)).run.run world = (.ok value,world) := rfl

theorem run_tryCatch (action : Action α) (handle : Fault → Action α) (world : World) :
    (tryCatch action handle).run.run world =
      match action.run.run world with
      | (.ok value,after) => (.ok value,after)
      | (.error fault,after) => (handle fault).run.run after := by
  unfold ExceptT.run StateT.run
  simp only [tryCatch,tryCatchThe,MonadExceptOf.tryCatch,ExceptT.tryCatch,ExceptT.mk,bind,
    StateT.bind]
  cases action world with
  | mk result after => cases result <;> rfl

/-- A walk over items, each of which leaves the world as it is. -/
theorem run_filterMapM {step : α → Action (Option β)} {found : α → Option β} {world : World}
    {items : List α}
    (each : ∀ item ∈ items, (step item).run.run world = (.ok (found item),world)) :
    (items.filterMapM step).run.run world = (.ok (items.filterMap found),world) := by
  induction items with
  | nil => rfl
  | cons item rest ih =>
    rw [List.forall_mem_cons] at each
    rw [List.filterMapM_cons,run_bind,each.1]
    dsimp only
    cases one : found item with
    | none => rw [List.filterMap_cons_none one]; exact ih each.2
    | some value =>
      rw [List.filterMap_cons_some one,run_bind,ih each.2]
      rfl

theorem run_write (path : Path) (content : String) (world : World) :
    (write path content).run.run world =
      match world.disk.write world.here path (Text.Utf8.encode content.toList) with
      | .ok disk => (.ok (),{world with disk})
      | .error fault => (.error (.disk fault),world) := by
  rw [write,run_bind,run_get]
  dsimp only
  cases world.disk.write world.here path (Text.Utf8.encode content.toList) <;> rfl

theorem run_find? (path : Path) (world : World) :
    (find? path).run.run world =
      match world.disk.find? world.here path with
      | .ok node => (.ok node,world)
      | .error fault => (.error (.disk fault),world) := by
  rw [find?,run_bind,run_get]
  dsimp only
  cases world.disk.find? world.here path <;> rfl

theorem run_readDocument {path : Path} {world : World} {bytes : List UInt8} {text : List Char}
    {value : Json} (found : world.disk.read world.here path = .ok bytes)
    (decoded : Text.Utf8.decode bytes = .ok text)
    (document : Json.read (Text.Utf8.unifyLineBreaks text) = .ok value) :
    (readDocument path).run.run world = (.ok value,world) := by
  rw [readDocument,run_bind,run_get]
  simp only [found,decoded,document]
  rfl

end JavaAtlas.Action
