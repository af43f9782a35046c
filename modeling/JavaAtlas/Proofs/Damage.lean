import JavaAtlas.Proofs.Deposits

/-! Stores that hold any files. The list passes over a file that cannot be read and over a document
that lacks a part, but a document of another shape, or one nested too deep, ends it: then nothing
is listed, and no bare name is found. -/
namespace JavaAtlas.Store
variable {directory : Path} {world : World} {file name : String} {listed : Json}
  {entries : List Json}

/-- What the list makes of a file. -/
inductive Finding where
  | listed (entry : Json)
  | passedOver
  | stopped (fault : Fault)

namespace Finding

def listed? : Finding → Option Json
  | .listed entry => some entry
  | _ => none

def ofFault (fault : Fault) : Finding := if isPassedOver fault then .passedOver else .stopped fault

/-- The finding on a file, from what reading its document gives. -/
def ofDocument : Except Fault Json → Finding
  | .error fault => ofFault fault
  | .ok value =>
    match entry value with
    | .ok listed => .listed listed
    | .error mismatch => ofFault (.shape mismatch)

def outcome : Finding → Except Fault (Option Json)
  | .listed entry => .ok (some entry)
  | .passedOver => .ok none
  | .stopped fault => .error fault

end Finding

/-- What a file of the store holds, read as a document. -/
def document (directory : Path) (world : World) (file : String) : Except Fault Json :=
  ((Action.readDocument (directory.join ⟨0,[file]⟩)).run.run world).1

def finding (directory : Path) (world : World) (file : String) : Finding :=
  .ofDocument (document directory world file)

theorem run_readDocument_eq (path : Path) (world : World) :
    (Action.readDocument path).run.run world =
      (((Action.readDocument path).run.run world).1,world) := by
  have same := @Action.within_readDocument Eq _ path world
  exact Prod.ext rfl same.symm

theorem run_entryOf?_eq (directory : Path) (world : World) (file : String) :
    (entryOf? (directory.join ⟨0,[file]⟩)).run.run world =
      ((finding directory world file).outcome,world) := by
  have handled (fault : Fault) :
      (if isPassedOver fault then return none else throw fault : Action (Option Json)).run.run
        world = ((Finding.ofFault fault).outcome,world) := by
    rw [Finding.ofFault]
    cases isPassedOver fault <;> rfl
  rw [entryOf?,Action.run_tryCatch,Action.run_bind,run_readDocument_eq,finding,document]
  cases ((Action.readDocument (directory.join ⟨0,[file]⟩)).run.run world).1 with
  | error fault => exact handled fault
  | ok value =>
    dsimp only [Finding.ofDocument]
    cases entry value with
    | ok listed => rfl
    | error mismatch => exact handled (.shape mismatch)

/-- The parts of an analysis that come before its files. -/
structure Heads (fields : List (String × Json)) (repo analyzedAt sourceRoot : Json) : Prop where
  repo : fields.lookup "repo" = some repo
  analyzedAt : fields.lookup "analyzed_at" = some analyzedAt
  sourceRoot : fields.lookup "source_root" = some sourceRoot

/-- The entry that is made of the parts of an analysis. A count with the name of another part takes
its place. -/
def summary (repo analyzedAt sourceRoot : Json) (size : Nat) (counts : List (String × Json)) :
    Json :=
  .obj (OrderedMap.ofList ([("repo",repo),("analyzed_at",analyzedAt),("source_root",sourceRoot),
    ("file_count",.ofNat size)] ++ counts)).entries

/-- Documents that have an entry, with the entry: all parts are there, the files can be counted,
and the counts go by names. -/
inductive Tells : Except Fault Json → Json → Prop
  | parts {fields counts : List (String × Json)} {repo analyzedAt sourceRoot files : Json}
      {size : Nat}
      (heads : Heads fields repo analyzedAt sourceRoot)
      (given : fields.lookup "source_files" = some files) (counted : files.count = .ok size)
      (stats : fields.lookup "stats" = some (.obj counts)) :
      Tells (.ok (.obj fields)) (summary repo analyzedAt sourceRoot size counts)

/-- Documents that end the list: those that are nested too deep, and those of another shape. -/
inductive Stops : Except Fault Json → Prop
  | tooDeep {problem : Json.Problem}
      (deep : problem.cause = .tooDeepList ∨ problem.cause = .tooDeepObject) :
      Stops (.error (.document problem))
  | notObject {value : Json} (other : ∀ fields, value ≠ .obj fields) : Stops (.ok value)
  | uncounted {fields : List (String × Json)} {repo analyzedAt sourceRoot files : Json}
      (heads : Heads fields repo analyzedAt sourceRoot)
      (given : fields.lookup "source_files" = some files)
      (uncounted : ∀ size, files.count ≠ .ok size) : Stops (.ok (.obj fields))
  | unnamed {fields : List (String × Json)} {repo analyzedAt sourceRoot files stats : Json}
      {size : Nat}
      (heads : Heads fields repo analyzedAt sourceRoot)
      (given : fields.lookup "source_files" = some files) (counted : files.count = .ok size)
      (stated : fields.lookup "stats" = some stats) (other : ∀ counts, stats ≠ .obj counts) :
      Stops (.ok (.obj fields))

section Parts
variable {fields : List (String × Json)} {result : Except Fault Json}

theorem need_obj {key : String} {value : Json} (found : fields.lookup key = some value) :
    (Json.obj fields).need key = .ok value := by
  rw [Json.need,found]

theorem need_missing {key : String} (absent : fields.lookup key = none) :
    (Json.obj fields).need key = .error (.missingKey key) := by
  rw [Json.need,absent]

/-- How far the parts of a document go decides what the list makes of it. -/
theorem entry_heads {repo analyzedAt sourceRoot files : Json}
    (heads : Heads fields repo analyzedAt sourceRoot)
    (given : fields.lookup "source_files" = some files) :
    entry (.obj fields) = (do
      let size ← files.count
      let counts ← (← (Json.obj fields).need "stats").mapping
      return summary repo analyzedAt sourceRoot size counts) := by
  rw [entry,need_obj heads.repo,need_obj heads.analyzedAt,need_obj heads.sourceRoot,
    need_obj given]
  rfl

/-- A document lacks a part that comes up to the files, or has all of them. -/
theorem entry_missing_or (fields : List (String × Json)) :
    (∃ key, entry (.obj fields) = .error (.missingKey key)) ∨
      ∃ repo analyzedAt sourceRoot files, Heads fields repo analyzedAt sourceRoot ∧
        fields.lookup "source_files" = some files := by
  cases one : fields.lookup "repo" with
  | none => exact .inl ⟨_,by rw [entry,need_missing one]; rfl⟩
  | some repo =>
    cases two : fields.lookup "analyzed_at" with
    | none => exact .inl ⟨_,by rw [entry,need_obj one,need_missing two]; rfl⟩
    | some analyzedAt =>
      cases three : fields.lookup "source_root" with
      | none => exact .inl ⟨_,by rw [entry,need_obj one,need_obj two,need_missing three]; rfl⟩
      | some sourceRoot =>
        cases four : fields.lookup "source_files" with
        | none =>
          exact .inl ⟨_,by
            rw [entry,need_obj one,need_obj two,need_obj three,need_missing four]; rfl⟩
        | some files => exact .inr ⟨repo,analyzedAt,sourceRoot,files,⟨one,two,three⟩,rfl⟩

theorem Tells.finding_eq (tells : Tells result listed) :
    Finding.ofDocument result = .listed listed := by
  cases tells with
  | parts heads given counted stats =>
    rw [Finding.ofDocument,entry_heads heads given,counted,need_obj stats]
    rfl

theorem Stops.finding_eq (stops : Stops result) :
    ∃ fault, Finding.ofDocument result = .stopped fault := by
  cases stops with
  | @tooDeep problem deep =>
    refine ⟨.document problem,?_⟩
    rw [Finding.ofDocument,Finding.ofFault,isPassedOver]
    rcases deep with list | object
    · rw [list]; rfl
    · rw [object]; rfl
  | @notObject value other =>
    refine ⟨.shape (.notKeyed value),?_⟩
    have unkeyed : value.need "repo" = .error (.notKeyed value) := by
      cases value with
      | obj fields => exact absurd rfl (other fields)
      | _ => rfl
    rw [Finding.ofDocument,entry,unkeyed]
    rfl
  | @uncounted fields repo analyzedAt sourceRoot files heads given uncounted =>
    refine ⟨.shape (.notCounted files),?_⟩
    have count : files.count = .error (.notCounted files) := by
      cases files with
      | arr items => exact absurd rfl (uncounted _)
      | str text => exact absurd rfl (uncounted _)
      | obj fields => exact absurd rfl (uncounted _)
      | _ => rfl
    rw [Finding.ofDocument,entry_heads heads given,count]
    rfl
  | @unnamed fields repo analyzedAt sourceRoot files stats size heads given counted stated other =>
    refine ⟨.shape (.notMapping stats),?_⟩
    have mapping : stats.mapping = .error (.notMapping stats) := by
      cases stats with
      | obj counts => exact absurd rfl (other counts)
      | _ => rfl
    have whole : entry (.obj fields) = .error (.notMapping stats) := by
      rw [entry_heads heads given,counted,need_obj stated]
      change (do let counts ← stats.mapping; return _ : Except Json.Mismatch Json) = _
      rw [mapping]
      rfl
    rw [Finding.ofDocument,whole]
    rfl

/-- What the faults of reading a document are. -/
theorem document_cases (directory : Path) (world : World) (file : String) :
    (∃ fault, document directory world file = .error (.disk fault)) ∨
      (∃ problem, document directory world file = .error (.encoding problem)) ∨
      (∃ problem, document directory world file = .error (.document problem)) ∨
      ∃ value, document directory world file = .ok value := by
  rw [document,Action.readDocument,Action.run_bind,Action.run_get]
  dsimp only
  split
  · exact .inl ⟨_,rfl⟩
  · split
    · exact .inr (.inl ⟨_,rfl⟩)
    · split
      · exact .inr (.inr (.inl ⟨_,rfl⟩))
      · exact .inr (.inr (.inr ⟨_,rfl⟩))

/-- An object is passed over for a part that it lacks, and else has an entry or ends the list. -/
theorem finding_obj (fields : List (String × Json)) :
    Finding.ofDocument (.ok (.obj fields)) = .passedOver ∨
      (∃ listed, Tells (.ok (.obj fields)) listed) ∨ Stops (.ok (.obj fields)) := by
  rcases entry_missing_or fields with
    ⟨key,missing⟩ | ⟨repo,analyzedAt,sourceRoot,files,heads,given⟩
  · refine .inl ?_
    rw [Finding.ofDocument,missing]
    rfl
  · cases counted : files.count with
    | error mismatch =>
      refine .inr (.inr (.uncounted heads given fun size same => ?_))
      rw [counted] at same
      cases same
    | ok size =>
      cases stated : fields.lookup "stats" with
      | none =>
        refine .inl ?_
        rw [Finding.ofDocument,entry_heads heads given,counted,need_missing stated]
        rfl
      | some stats =>
        by_cases object : ∃ counts, stats = .obj counts
        · obtain ⟨counts,rfl⟩ := object
          exact .inr (.inl ⟨_,.parts heads given counted stated⟩)
        · exact .inr (.inr (.unnamed heads given counted stated fun counts same =>
            object ⟨counts,same⟩))

theorem finding_cases (directory : Path) (world : World) (file : String) :
    finding directory world file = .passedOver ∨
      (∃ listed, Tells (document directory world file) listed) ∨
      Stops (document directory world file) := by
  rw [finding]
  rcases document_cases directory world file with
    ⟨fault,read⟩ | ⟨problem,read⟩ | ⟨problem,read⟩ | ⟨value,read⟩
  · rw [read]
    exact .inl rfl
  · rw [read]
    exact .inl rfl
  · rw [read]
    by_cases deep : problem.cause = .tooDeepList ∨ problem.cause = .tooDeepObject
    · exact .inr (.inr (.tooDeep deep))
    · refine .inl ?_
      have others : (problem.cause != .tooDeepList && problem.cause != .tooDeepObject) = true := by
        simpa [not_or] using deep
      rw [Finding.ofDocument,Finding.ofFault,isPassedOver,others]
      rfl
  · rw [read]
    by_cases object : ∃ fields, value = .obj fields
    · obtain ⟨fields,rfl⟩ := object
      exact finding_obj fields
    · exact .inr (.inr (.notObject fun fields same => object ⟨fields,same⟩))

theorem listed?_iff : (finding directory world file).listed? = some listed ↔
    Tells (document directory world file) listed := by
  constructor
  · intro found
    rcases finding_cases directory world file with passed | ⟨other,tells⟩ | stops
    · rw [passed] at found
      cases found
    · rw [finding,tells.finding_eq] at found
      cases found
      exact tells
    · obtain ⟨fault,stopped⟩ := stops.finding_eq
      rw [finding,stopped] at found
      cases found
  · intro tells
    rw [finding,tells.finding_eq]
    rfl

end Parts

/-- The entries of the files that have one, in the order of the files. -/
def told (directory : Path) (world : World) : List Json :=
  (documents directory world).filterMap fun file => (finding directory world file).listed?

/-- The entry of an analysis as it is saved. -/
def described (owner name clock sourceRoot : String) (fileCount : Nat) (stats : Model.Stats) :
    Json :=
  .obj ([("repo",.str (owner ++ "/" ++ name)),("analyzed_at",.str clock),
    ("source_root",.str sourceRoot),("file_count",.ofNat fileCount)] ++ stats.fields)

theorem entry_saved (owner name clock sourceRoot : String) (sourceFiles : List String)
    (model : Model) : entry (describe owner name clock sourceRoot sourceFiles model).toJson =
      .ok (described owner name clock sourceRoot sourceFiles.length model.stats) := by
  have count : (sourceFiles.map Json.str).length = sourceFiles.length := List.length_map Json.str
  rw [← count]
  rfl

theorem tells_saved {owner clock sourceRoot : String} {sourceFiles : List String} {model : Model}
    (faithful : Json.read (describe owner name clock sourceRoot sourceFiles model).toJson.print =
      .ok (describe owner name clock sourceRoot sourceFiles model).toJson)
    (held : world.disk.read world.here (directory.join ⟨0,[file]⟩) = .ok (Text.Utf8.encode
      (describe owner name clock sourceRoot sourceFiles model).toJson.print)) :
    Tells (document directory world file)
      (described owner name clock sourceRoot sourceFiles.length model.stats) := by
  have plain := Json.isPlain_print (describe owner name clock sourceRoot sourceFiles model).toJson
  have value := Action.run_readDocument held (Text.Utf8.decode_encode_plain plain)
    (by rw [Text.Utf8.unifyLineBreaks_plain plain,faithful])
  rw [← listed?_iff,finding,document,value]
  dsimp only
  rw [Finding.ofDocument,entry_saved]
  rfl

/-- A store in which a file of this content lies beside an analysis that was saved. -/
def beside (content : String) : World where
  disk.nodes := .ofList [(["store"],.directory),
    (["store","local-bad.json"],.file (Text.Utf8.encode content.toList)),
    (["store","local-good.json"],.file (Text.Utf8.encode
      (describe "local" "good" "" "/src" [] {}).toJson.print))]

end JavaAtlas.Store
