import JavaAtlas.Proofs.Sessions

/-! Answers from the store. A question by the bare name of a folder is a question by the whole one,
and is answered from the model that was deposited. -/
namespace JavaAtlas.Service
open Query (Deposit)
variable {start world before after final : World} {directory : Path} {tool : Tool}
  {deposits earlier later : List Deposit} {deposit : Deposit} {repo other key : String}
  {arguments : Json} {fields : List (String × Json)}

/-- The arguments of a question about an analysis. -/
def asking (repo : String) (fields : List (String × Json)) : Json :=
  .obj (("repo",.str repo) :: fields)

theorem required_repo : required (asking repo fields) "repo" = pure (.str repo) := rfl

theorem required_asking (apart : key ≠ "repo") :
    required (asking repo fields) key = required (.obj fields) key := by
  rw [required,required,asking,Json.need,Json.need,List.lookup_cons,beq_eq_false_iff_ne.mpr apart]

theorem optional_asking (apart : key ≠ "repo") (default : Json) :
    optional (asking repo fields) key default = optional (.obj fields) key default := by
  rw [optional,optional,asking,Json.getOr,Json.getOr,List.lookup_cons,
    beq_eq_false_iff_ne.mpr apart]

/-- The tools that answer questions about one analysis. -/
def questions : List Tool := [.classHierarchy,.classOutline,.searchEndpoints,.enums,.report]

/-- Names that get the same answers to all questions in a world. -/
def Alike (world : World) (repo other : String) : Prop :=
  ∀ answer, (Query.ask world.settings.storagePath (.str repo) answer).run.run world =
    (Query.ask world.settings.storagePath (.str other) answer).run.run world

theorem run_bind_congr {α β : Type} {first : Action α} {next others : α → Action β}
    (same : first.Within Eq)
    (each : ∀ value, (next value).run.run world = (others value).run.run world) :
    (first >>= next).run.run world = (first >>= others).run.run world := by
  have kept := same world
  rw [Action.run_bind,Action.run_bind]
  generalize first.run.run world = outcome at kept
  obtain ⟨outcome,after⟩ := outcome
  cases outcome with
  | error fault => rfl
  | ok value =>
    dsimp only at kept ⊢
    rw [← kept]
    exact each value

theorem run_alike (alike : Alike world repo other) (question : tool ∈ questions)
    (fields : List (String × Json)) :
    (run tool world.settings.storagePath (asking repo fields)).run.run world =
      (run tool world.settings.storagePath (asking other fields)).run.run world := by
  have needed (key : String) : (required (.obj fields) key).Within Eq := Action.within_ofShape _
  have given (key : String) (default : Json) :
      (optional (.obj fields) key default).Within Eq :=
    Action.within_ofShape _
  cases tool with
  | analyzeFolder => simp [questions] at question
  | listAnalyses => simp [questions] at question
  | classHierarchy =>
    rw [run,run,required_repo,required_repo,pure_bind,pure_bind,optional_asking (by decide),
      optional_asking (by decide)]
    exact run_bind_congr (given _ _) fun package => alike _
  | classOutline =>
    rw [run,run,required_repo,required_repo,pure_bind,pure_bind,required_asking (by decide),
      required_asking (by decide)]
    exact run_bind_congr (needed _) fun className => alike _
  | searchEndpoints =>
    rw [run,run,required_repo,required_repo,pure_bind,pure_bind,optional_asking (by decide),
      optional_asking (by decide),optional_asking (by decide),optional_asking (by decide),
      optional_asking (by decide),optional_asking (by decide)]
    exact run_bind_congr (given _ _) fun query => run_bind_congr (given _ _) fun verb =>
      run_bind_congr (given _ _) fun limit => alike _
  | enums =>
    rw [run,run,required_repo,required_repo,pure_bind,pure_bind,optional_asking (by decide),
      optional_asking (by decide)]
    exact run_bind_congr (given _ _) fun query => alike _
  | report =>
    rw [run,run,required_repo,required_repo,pure_bind,pure_bind,required_asking (by decide),
      required_asking (by decide),optional_asking (by decide),optional_asking (by decide)]
    refine run_bind_congr (needed _) fun kind => run_bind_congr (given _ _) fun className => ?_
    rw [Query.report,Query.report]
    split
    · rfl
    · exact alike _

section Stored
variable (path : world.storePath = .ok directory) (has : Store.Has directory deposit world)
  (sound : deposit.Sound) (faithful : deposit.Faithful)
  (resolved : ((Store.mk directory).resolve (.str repo)).run.run world =
    (.ok (some ("local",deposit.name)),world))
include path has sound faithful resolved

/-- Whoever asks by a name of the deposit is answered from it. -/
theorem run_ask (answer : String → Json → Except Json.Mismatch Json) :
    (Query.ask world.settings.storagePath (.str repo) answer).run.run world =
      (Action.ofShape (answer ("local/" ++ deposit.name)
        deposit.analysis.model)).run.run world := by
  rw [Query.run_ask_stored
    (Store.run_openAt_again (world.storeAt_settings.trans path) has.opened) resolved
    (Store.load_of_has sound faithful has)]
  rfl

theorem run_report (coherent : deposit.model.Coherent) (kind : Query.ReportKind)
    (fields : List (String × Json)) :
    (answer "get_report" (asking repo (("report",.str kind.name) :: fields))).run world =
      (reply ((Query.reportAnswer kind ((fields.lookup "class_name").getD .null)
        ("local/" ++ deposit.name) deposit.model).mapError Fault.shape),world) := by
  have named : Tool.ofName? "get_report" = some .report := by decide
  have kinds : Query.ReportKind.all.find? (fun other =>
      (Json.str kind.name).same (.str other.name)) = some kind := by
    cases kind <;> decide
  have document : Query.documentReport kind ((fields.lookup "class_name").getD .null)
      ("local/" ++ deposit.name) deposit.analysis.model =
      Query.reportAnswer kind ((fields.lookup "class_name").getD .null)
        ("local/" ++ deposit.name) deposit.model := by
    obtain ⟨clock,described⟩ := sound.described
    have model : deposit.analysis.model = deposit.model.toJson := by
      rw [described]
      rfl
    rw [Query.documentReport,model,Model.ofJson_toJson coherent]
  have outcome : (run .report world.settings.storagePath
      (asking repo (("report",.str kind.name) :: fields))).run.run world =
        (Action.ofShape (Query.reportAnswer kind ((fields.lookup "class_name").getD .null)
          ("local/" ++ deposit.name) deposit.model)).run.run world := by
    have report : required (asking repo (("report",.str kind.name) :: fields)) "report" =
        pure (.str kind.name) := rfl
    have className : optional (asking repo (("report",.str kind.name) :: fields)) "class_name"
        .null = pure ((fields.lookup "class_name").getD .null) := rfl
    rw [run,required_repo,pure_bind,report,pure_bind,className,pure_bind,Query.report,kinds,
      ← document]
    exact run_ask path has sound faithful resolved _
  rw [run_answer named,outcome]
  cases Query.reportAnswer kind _ _ deposit.model <;> rfl

end Stored

/-- What reports by this name are: those of the model that was deposited. -/
structure Reports (repo : String) (deposit : Deposit) (world : World) : Prop where
  api : ∀ fields,
    (answer "get_report" (asking repo (("report",.str "api") :: fields))).run world =
      (Query.markdownAnswer ("local/" ++ deposit.name) .api (Report.api deposit.model),world)
  hierarchy : ∀ fields,
    (answer "get_report" (asking repo (("report",.str "hierarchy") :: fields))).run world =
      (Query.markdownAnswer ("local/" ++ deposit.name) .hierarchy
        (Report.hierarchy deposit.model),world)
  enums : ∀ text fields, Report.enums? deposit.model = some text →
    (answer "get_report" (asking repo (("report",.str "enums") :: fields))).run world =
      (Query.markdownAnswer ("local/" ++ deposit.name) .enums text,world)
  methods : ∀ name unit fields, deposit.model.units.get? name = some unit →
    (answer "get_report" (asking repo
        (("report",.str "methods") :: ("class_name",.str name) :: fields))).run world =
      (Query.markdownAnswer ("local/" ++ deposit.name) .methods
        (Report.methodDetails deposit.model unit),world)

theorem pageAnswer_eq {model : Model} (coherent : model.Coherent) {name : String}
    {unit : CompilationUnit} (found : model.units.get? name = some unit) (label : String) :
    Query.pageAnswer (.str name) label model =
      .ok (Query.markdownAnswer label .methods (Report.methodDetails model unit)) := by
  have key : name = unit.qualifiedName :=
    coherent.keyed (name,unit) (OrderedMap.get?_eq_some.mp found)
  have given : (Json.str name).isGiven = true := by
    simp [Json.isGiven,key,CompilationUnit.qualifiedName,qualify]
  have units : Query.unitsNamed model (.str name) = .ok [unit] := by
    change Except.ok (model.find name) = _
    rw [Model.find,found]
  rw [Query.pageAnswer,if_pos given,units]
  rfl

theorem reports_of_has (path : world.storePath = .ok directory)
    (has : Store.Has directory deposit world) (sound : deposit.Sound)
    (faithful : deposit.Faithful) (coherent : deposit.model.Coherent)
    (resolved : ((Store.mk directory).resolve (.str repo)).run.run world =
      (.ok (some ("local",deposit.name)),world)) : Reports repo deposit world := by
  have report := run_report path has sound faithful resolved coherent
  refine ⟨report .api,report .hierarchy,?_,?_⟩
  · intro text fields shown
    have answered := report .enums fields
    rw [Query.reportAnswer,shown] at answered
    exact answered
  · intro name unit fields found
    have answered := report .methods (("class_name",.str name) :: fields)
    have named : (("class_name",Json.str name) :: fields).lookup "class_name" =
        some (.str name) := rfl
    rw [named,Option.getD_some,Query.reportAnswer,pageAnswer_eq coherent found] at answered
    exact answered

/-- An analysis that succeeded has made a deposit. -/
theorem deposit_of_success {answered : Json} (plain : before.Plain)
    (analyzed : (answer "analyze_folder" arguments).run before = (answered,after))
    (success : answered.need "success" = .ok (.bool true)) :
    ∃ request deposit,
      analysisRequest before.settings.storagePath arguments = .ok request ∧
      deposit? "analyze_folder" arguments before = some deposit ∧
      Query.Built request before deposit ∧
      answered.need "repo" = .ok (.str ("local/" ++ deposit.name)) := by
  have named : Tool.ofName? "analyze_folder" = some .analyzeFolder := by decide
  rw [run_answer named] at analyzed
  cases asked : analysisRequest before.settings.storagePath arguments with
  | error mismatch =>
    rw [run_analysis_refused asked] at analyzed
    cases analyzed
    cases success
  | ok request =>
    rw [run_analysis asked] at analyzed
    cases done : (Query.analyze request).run.run before with
    | mk outcome last =>
      rw [done] at analyzed
      cases outcome with
      | error fault =>
        cases analyzed
        cases success
      | ok value =>
        cases analyzed
        obtain ⟨deposit,made,repo⟩ := Query.made_of_success plain done success
        refine ⟨request,deposit,rfl,?_,(Query.stores_analyze plain made).built,repo⟩
        rw [deposit?,named,asked]
        exact made

theorem model_of_built {request : Query.AnalyzeRequest}
    (built : Query.Built request before deposit) :
    deposit.model.Reachable ∧ deposit.model.resolved = true := by
  obtain ⟨specificClass,_,model⟩ := built.model
  obtain ⟨reachable,resolved⟩ := Analysis.ofFiles_resolved before.disk before.here
    (Query.sourcesFor before deposit.place.path specificClass)
  rw [model]
  exact ⟨reachable.summarize _ _,resolved⟩

/-- After an analysis that succeeded its folder goes by its bare name as by its whole one, and
reports are those of the resolved and summarised model, as long as no folder of the same name is
analysed again and the documents of the store are read as they were written. -/
theorem questions_answered {answered : Json} (fresh : Fresh start)
    (first : Session start earlier before)
    (analyzed : (answer "analyze_folder" arguments).run before = (answered,after))
    (success : answered.need "success" = .ok (.bool true)) (rest : Session after later final) :
    ∃ request deposit,
      analysisRequest before.settings.storagePath arguments = .ok request ∧
      deposit? "analyze_folder" arguments before = some deposit ∧
      Query.Built request before deposit ∧ deposit.model.resolved = true ∧
      answered.need "repo" = .ok (.str ("local/" ++ deposit.name)) ∧
      ((∀ stored ∈ earlier ++ deposit :: later, stored.Faithful) →
        (∀ other ∈ later, other.name ≠ deposit.name) →
        (∀ tool ∈ questions, ∀ fields,
          (answer tool.name (asking deposit.name fields)).run final =
            (answer tool.name (asking ("local/" ++ deposit.name) fields)).run final) ∧
        ∀ repo ∈ [deposit.name,"local/" ++ deposit.name], Reports repo deposit final) := by
  have site := (first.orderly fresh).site
  have plain := site.plain fresh.plain
  obtain ⟨request,deposit,asked,made,built,repo⟩ := deposit_of_success plain analyzed success
  obtain ⟨reachable,resolved⟩ := model_of_built built
  refine ⟨request,deposit,asked,made,built,resolved,repo,?_⟩
  intro faithful others
  have call := first.call "analyze_folder" arguments
  rw [made,analyzed] at call
  -- What the store holds is told of the whole session, what it keeps only of the calls after.
  have orderly := (call.append rest).orderly fresh
  obtain ⟨sound,directory,chosen,has,_⟩ := call_stores plain made
  rw [analyzed] at has
  have place : start.storePath = .ok directory := by rw [← site.storePath,chosen]
  have between := (call.orderly fresh).site
  obtain ⟨_,still⟩ :=
    rest.keeps (between.plain fresh.plain) (between.storePath.trans place) has others
  have path : final.storePath = .ok directory := orderly.site.storePath.trans place
  have member : deposit ∈ earlier ++ [deposit] ++ later := by simp
  have each : ∀ stored ∈ earlier ++ [deposit] ++ later, stored.Sound ∧ stored.Faithful :=
    fun stored inside => ⟨orderly.sound stored inside,faithful stored (by simpa using inside)⟩
  have bare := Store.run_resolve_bare still.opened (orderly.only directory place) each member still
  have whole := @Store.run_resolve_whole directory final deposit.name
  have readable := (each deposit member).2
  constructor
  · intro tool question fields
    have alike : Alike final deposit.name ("local/" ++ deposit.name) := by
      intro answer
      rw [run_ask path still sound readable bare,run_ask path still sound readable whole]
    have named : Tool.ofName? tool.name = some tool := by cases tool <;> decide
    rw [run_answer named,run_answer named,run_alike alike question]
  · have coherent := reachable.coherent
    intro repo named
    rcases List.mem_pair.mp named with rfl | rfl
    · exact reports_of_has path still sound readable coherent bare
    · exact reports_of_has path still sound readable coherent whole

/-- Two folders are analysed, the name of the first of which ends that of the second. -/
theorem questions_answered_shop :
    let text := "package shop; public class Cart { public int total() { return 0; } }"
    let source := Node.file (Text.Utf8.encode text.toList)
    let start : World :=
      { disk := ⟨.ofList [(["shop"],.directory),(["shop","Cart.java"],source),
          (["web-shop"],.directory),(["web-shop","Cart.java"],source)]⟩
        environment := [("CODE_ANALYSIS_PATH","store")] }
    let shop := Json.obj [("path",.str "shop")]
    let webShop := Json.obj [("path",.str "web-shop")]
    let after := ((answer "analyze_folder" shop).run start).2
    let final := ((answer "analyze_folder" webShop).run after).2
    ∃ deposit, deposit? "analyze_folder" shop start = some deposit ∧ deposit.name = "shop" ∧
      (deposit? "analyze_folder" webShop after).isSome = true ∧
      (answer "get_class_hierarchy" (asking "shop" [])).run final =
        (answer "get_class_hierarchy" (asking "local/shop" [])).run final ∧
      Reports "shop" deposit final := by
  intro text source start shop webShop after final
  have fresh : Fresh start := by
    refine ⟨nofun,?_⟩
    rintro directory path name
    have chosen : start.storePath = .ok ⟨0,["store"]⟩ := rfl
    rw [chosen] at path
    cases path
    have keys : start.disk.nodes.keys =
        [["shop"],["shop","Cart.java"],["web-shop"],["web-shop","Cart.java"]] := by
      decide +kernel
    change start.disk.nodes.get? ["store",name] = none
    rw [OrderedMap.get?_eq_none,keys]
    simp
  have success : ((answer "analyze_folder" shop).run start).1.need "success" =
      .ok (.bool true) := by
    have flag : ((((answer "analyze_folder" shop).run start).1.need "success").bind
        Json.asFlag).toOption = some true := by
      decide +kernel
    exact Json.eq_bool_of_asFlag flag
  have first : (deposit? "analyze_folder" shop start).map (fun deposit =>
      (deposit.name,deposit.model.stats)) = some ("shop",⟨1,1,1,0,0⟩) := by
    decide +kernel
  have second : (deposit? "analyze_folder" webShop after).map (fun deposit =>
      (deposit.name,deposit.model.stats)) = some ("web-shop",⟨1,1,1,0,0⟩) := by
    decide +kernel
  have small : Model.Stats.Small ⟨1,1,1,0,0⟩ := by
    have few : ∀ count ∈ [1,1,1,0,0], (Nat.toDigits 10 count).length ≤ Text.numeralLimit := by
      decide
    exact few
  clear_value shop webShop start
  have analyzed := (Prod.eta ((answer "analyze_folder" shop).run start)).symm
  have rest : Session after ([] ++ (deposit? "analyze_folder" webShop after).toList) final :=
    .call .start "analyze_folder" webShop
  have calls : Session start ([] ++ (deposit? "analyze_folder" shop start).toList) after :=
    .call .start "analyze_folder" shop
  have sound := ((calls.append rest).orderly fresh).sound
  obtain ⟨request,deposit,_,made,_,_,_,answers⟩ :=
    questions_answered fresh .start analyzed success rest
  obtain ⟨other,later⟩ : ∃ other, deposit? "analyze_folder" webShop after = some other := by
    cases found : deposit? "analyze_folder" webShop after with
    | none =>
      rw [found] at second
      cases second
    | some other => exact ⟨other,rfl⟩
  rw [made] at first sound
  rw [later] at second sound answers
  obtain ⟨name,stats⟩ := Prod.mk.inj (Option.some.inj first)
  obtain ⟨otherName,otherStats⟩ := Prod.mk.inj (Option.some.inj second)
  have members : ∀ stored ∈ [deposit,other], stored.Faithful := by
    simp only [List.forall_mem_cons]
    refine ⟨?_,?_,nofun⟩
    · exact Deposit.faithful (sound deposit (by simp)) (stats ▸ small)
    · exact Deposit.faithful (sound other (by simp)) (otherStats ▸ small)
  obtain ⟨same,reports⟩ := answers members (by simp [name,otherName])
  rw [name] at same reports
  refine ⟨deposit,made,name,?_,?_,?_⟩
  · rw [later]
    rfl
  · exact same .classHierarchy (by simp [questions]) []
  · exact reports "shop" List.mem_cons_self

end JavaAtlas.Service
