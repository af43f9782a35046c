import JavaAtlas.Proofs.Deposits
import JavaAtlas.Proofs.Lowering
import JavaAtlas.Query.Search

/-! Search among endpoints. Those are found in which a word of the query occurs, each of them once,
in the order of their points and where these are equal in that of the model. A filter and a limit
take from this one ranking. -/
namespace JavaAtlas.Query
variable {query : String} {endpoint : Endpoint} {text : List Char} {words : List (List Char)}

/-- The texts of an endpoint in which words are looked for. -/
def searchedTexts (endpoint : Endpoint) : List (List Char) :=
  [endpoint.path,endpoint.methodName,endpoint.qualifiedClass,
    endpoint.consumes.getD "" ++ " " ++ endpoint.produces.getD ""].map fun text =>
      Text.lower text.toList

/-- Whether some word of the query occurs in an endpoint, without regard to case. -/
def Fits (query : String) (endpoint : Endpoint) : Prop :=
  ∃ word ∈ Text.words (Text.lower query.toList), ∃ text ∈ searchedTexts endpoint, word <:+: text

theorem infix_of_wholePoints {exact part : Nat} {query : List Char}
    (counts : 0 < wholePoints exact part query text) : query <:+: text := by
  rw [wholePoints] at counts
  split at counts
  · next equal => exact beq_iff_eq.mp equal ▸ List.infix_rfl
  · split at counts
    · next occurs => exact Text.occursIn_iff.mp occurs
    · cases counts

theorem wordPoints_pos_iff {each : Nat} (worth : 0 < each) :
    0 < wordPoints each words.eraseDups text ↔ ∃ word ∈ words, word <:+: text := by
  rw [wordPoints,Nat.mul_pos_iff_of_pos_left worth,List.length_filter_pos_iff]
  simp only [List.mem_eraseDups,Text.occursIn_iff]

/-- A query that occurs as a whole brings its words with it. -/
theorem fieldPoints_pos_iff {exact part each : Nat} {query : List Char} (worth : 0 < each)
    (worded : Text.words query ≠ []) :
    0 < wholePoints exact part query text + wordPoints each (Text.words query).eraseDups text ↔
      ∃ word ∈ Text.words query, word <:+: text := by
  rw [Nat.add_pos_iff_pos_or_pos,wordPoints_pos_iff worth,or_iff_right_iff_imp]
  intro whole
  obtain ⟨word,member⟩ := List.exists_mem_of_ne_nil _ worded
  exact ⟨word,member,(Text.infix_of_mem_words member).trans (infix_of_wholePoints whole)⟩

theorem score_pos_iff {query : List Char} (worded : Text.words query ≠ []) :
    0 < score query (Text.words query).eraseDups endpoint ↔
      ∃ word ∈ Text.words query, ∃ text ∈ searchedTexts endpoint, word <:+: text := by
  rw [score,Nat.add_assoc (wholePoints _ _ _ _ + wordPoints _ _ _),Nat.add_pos_iff_pos_or_pos,
    Nat.add_pos_iff_pos_or_pos,Nat.add_pos_iff_pos_or_pos,
    fieldPoints_pos_iff (by decide) worded,fieldPoints_pos_iff (by decide) worded,
    wordPoints_pos_iff (by decide),wordPoints_pos_iff (by decide)]
  simp only [searchedTexts,List.map_cons,List.map_nil,List.mem_cons,List.not_mem_nil,or_false,
    exists_eq_or_imp,exists_eq_left,and_or_left,exists_or,or_assoc]

theorem points_pos_iff (asked : Text.words query.toList ≠ []) :
    0 < points query endpoint ↔ Fits query endpoint := by
  have worded := Text.words_lower_ne_nil asked
  rw [← Text.words_trim] at worded
  have nonempty : ¬ (Text.trim (Text.lower query.toList)).isEmpty = true := by
    rw [List.isEmpty_iff]
    intro empty
    rw [empty] at worded
    exact worded rfl
  rw [points,if_neg nonempty,score_pos_iff worded,Text.words_trim,Fits]

section Order
variable {α : Type} {found : List (Nat × α)} {before : Nat × α → Nat × α → Prop}

/-- More points come first, and what has as many stays in its order. -/
theorem pairwise_ranked (ordered : found.Pairwise before) :
    (ranked found).Pairwise fun first second =>
      second.1 < first.1 ∨ first.1 = second.1 ∧ before first second := by
  let le : Nat × α → Nat × α → Bool := fun first second => decide (second.1 ≤ first.1)
  have trans (a b c : Nat × α) (one : le a b = true) (two : le b c = true) : le a c = true := by
    simp only [le,decide_eq_true_eq] at one two ⊢
    omega
  have total (a b : Nat × α) : (le a b || le b a) = true := by
    simp only [le,Bool.or_eq_true,decide_eq_true_eq]
    omega
  have sorted := List.pairwise_mergeSort (List.zipIdxLE_trans trans) (List.zipIdxLE_total total)
    found.zipIdx
  have same := List.mergeSort_perm found.zipIdx (List.zipIdxLE le)
  have apart : ((found.zipIdx.mergeSort (List.zipIdxLE le)).map Prod.snd).Nodup := by
    rw [(same.map Prod.snd).nodup_iff,List.zipIdx_map_snd]
    exact List.nodup_range'
  rw [ranked,← List.mergeSort_zipIdx,List.pairwise_map]
  refine (sorted.and (List.pairwise_map.mp apart)).imp_of_mem ?_
  rintro ⟨first,i⟩ ⟨second,j⟩ one two ⟨precedes,differ⟩
  rw [same.mem_iff,List.mk_mem_zipIdx_iff_getElem?] at one two
  obtain ⟨low,rfl⟩ := List.getElem?_eq_some_iff.mp one
  obtain ⟨high,rfl⟩ := List.getElem?_eq_some_iff.mp two
  by_cases more : found[j].1 < found[i].1
  · exact .inl more
  · right
    simp only [List.zipIdxLE,le,decide_eq_true_eq] at precedes
    split at precedes
    · next least =>
      have equal : found[i].1 = found[j].1 := by omega
      rw [if_pos equal.le,decide_eq_true_eq] at precedes
      exact ⟨equal,List.pairwise_iff_getElem.mp ordered i j low high (by omega)⟩
    · cases precedes

/-- What is left out makes no difference for the order of the others. -/
theorem ranked_filter (ordered : found.Pairwise before)
    (asymmetric : ∀ first second, before first second → ¬ before second first)
    (kept : Nat × α → Bool) : ranked (found.filter kept) = (ranked found).filter kept := by
  refine List.Perm.eq_of_pairwise ?_ (pairwise_ranked (ordered.filter kept))
    ((pairwise_ranked ordered).filter kept) ?_
  · rintro first second _ _ (more | ⟨equal,one⟩) (less | ⟨_,other⟩)
    · omega
    · omega
    · omega
    · exact absurd other (asymmetric _ _ one)
  · exact (List.mergeSort_perm _ _).trans ((List.mergeSort_perm found _).filter kept).symm

theorem ranked_map {β : Type} (f : α → β) :
    ranked (found.map fun result => (result.1,f result.2)) =
      (ranked found).map fun result => (result.1,f result.2) := by
  rw [ranked,ranked,List.map_mergeSort]
  exact fun _ _ _ _ => rfl

end Order

/-- The endpoints that get points, with their points and their places. -/
def matching (query : String) (endpoints : List Endpoint) : List (Nat × Endpoint × Nat) :=
  (endpoints.zipIdx.map fun placed => (points query placed.1,placed)).filter fun result =>
    decide (0 < result.1)

/-- The endpoints that get points, with their places, in the order of the results. -/
def ranking (query : String) (endpoints : List Endpoint) : List (Endpoint × Nat) :=
  (ranked (matching query endpoints)).map Prod.snd

/-- One endpoint before another in the results: it has more points, or as many and is earlier in
the model. -/
def Precedes (query : String) (first second : Endpoint × Nat) : Prop :=
  points query second.1 < points query first.1 ∨
    points query first.1 = points query second.1 ∧ first.2 < second.2

/-- The verb for which a filter stands; none and the empty one stand for all. -/
def verbFor (httpMethod : Option String) : Option String :=
  (httpMethod.filter fun text => !text.isEmpty).map fun text =>
    String.ofList (Text.upper text.toList)

def admits (httpMethod : Option String) (endpoint : Endpoint) : Bool :=
  (verbFor httpMethod).all (· == endpoint.httpMethod)

/-- What is found with a filter and up to a limit. -/
def results (query : String) (httpMethod : Option String) (limit : Int)
    (endpoints : List Endpoint) : List (Nat × Endpoint) :=
  search query (verbFor httpMethod) (some limit) endpoints

section Results
variable {endpoints : List Endpoint} {result : Nat × Endpoint × Nat} {place : Nat}

theorem mem_matching : result ∈ matching query endpoints ↔
    0 < result.1 ∧ result.1 = points query result.2.1 ∧
      endpoints[result.2.2]? = some result.2.1 := by
  obtain ⟨count,endpoint,place⟩ := result
  rw [matching,List.mem_filter,List.mem_map,decide_eq_true_eq,and_comm]
  refine and_congr_right fun _ => ?_
  constructor
  · rintro ⟨placed,member,shape⟩
    cases shape
    exact ⟨rfl,List.mk_mem_zipIdx_iff_getElem?.mp member⟩
  · rintro ⟨worth,stands⟩
    exact ⟨(endpoint,place),List.mk_mem_zipIdx_iff_getElem?.mpr stands,Prod.ext worth.symm rfl⟩

theorem places_matching :
    (matching query endpoints).Pairwise fun first second => first.2.2 < second.2.2 := by
  have places := @List.pairwise_lt_range' 0 endpoints.length 1 (by decide)
  rw [← List.zipIdx_map_snd,List.pairwise_map] at places
  exact List.Pairwise.filter _ (List.pairwise_map.mpr (places.imp id))

theorem perm_ranking : (ranking query endpoints).Perm ((matching query endpoints).map Prod.snd) :=
  (List.mergeSort_perm _ _).map Prod.snd

theorem mem_ranking : (endpoint,place) ∈ ranking query endpoints ↔
    endpoints[place]? = some endpoint ∧ 0 < points query endpoint := by
  rw [perm_ranking.mem_iff,List.mem_map]
  constructor
  · rintro ⟨⟨count,_,_⟩,member,shape⟩
    cases shape
    obtain ⟨counts,worth,stands⟩ := mem_matching.mp member
    exact ⟨stands,worth ▸ counts⟩
  · rintro ⟨stands,counts⟩
    exact ⟨(points query endpoint,endpoint,place),mem_matching.mpr ⟨counts,rfl,stands⟩,rfl⟩

theorem pairwise_ranking : (ranking query endpoints).Pairwise (Precedes query) := by
  rw [ranking,List.pairwise_map]
  refine (pairwise_ranked places_matching).imp_of_mem ?_
  intro first second one two before
  rw [ranked,List.mem_mergeSort] at one two
  rwa [(mem_matching.mp one).2.1,(mem_matching.mp two).2.1] at before

theorem nodup_ranking : ((ranking query endpoints).map Prod.snd).Nodup := by
  rw [(perm_ranking.map Prod.snd).nodup_iff,List.map_map,List.Nodup,List.pairwise_map]
  exact places_matching.imp fun before => before.ne

theorem length_ranking_le : (ranking query endpoints).length ≤ endpoints.length := by
  rw [perm_ranking.length_eq,List.length_map,matching]
  refine (List.length_filter_le _ _).trans ?_
  rw [List.length_map,List.length_zipIdx]

theorem scored_eq (verb : Option String) : scored query verb endpoints =
    ((matching query endpoints).filter fun result =>
      verb.all (· == result.2.1.httpMethod)).map fun result => (result.1,result.2.1) := by
  rw [scored,matching,← List.filterMap_eq_map',List.filterMap_filter,List.filterMap_filter,
    List.filterMap_filter,List.filterMap_map]
  conv_lhs => rw [← List.zipIdx_map_fst 0 endpoints,List.filterMap_map]
  refine List.filterMap_congr fun placed _ => ?_
  rw [Function.comp_apply,Function.comp_apply]
  by_cases scoreless : points query placed.1 = 0
  · simp [scoreless]
  · simp [scoreless,Nat.pos_of_ne_zero scoreless]

theorem ranked_scored (verb : Option String) : ranked (scored query verb endpoints) =
    ((ranking query endpoints).filter fun placed => verb.all (· == placed.1.httpMethod)).map
      fun placed => (points query placed.1,placed.1) := by
  rw [scored_eq,ranked_map Prod.fst,ranked_filter places_matching fun _ _ => Nat.lt_asymm,ranking,
    List.filter_map,List.map_map]
  apply List.map_congr_left
  intro result member
  have listed := List.mem_of_mem_filter member
  rw [ranked,List.mem_mergeSort,mem_matching] at listed
  exact Prod.ext listed.2.1 rfl

theorem results_eq (httpMethod : Option String) (limit : Nat) :
    results query httpMethod limit endpoints =
      (((ranking query endpoints).filter fun placed => admits httpMethod placed.1).take limit).map
        fun placed => (points query placed.1,placed.1) := by
  have nonnegative : ¬ (limit : Int) < 0 := by omega
  rw [results,search,limited,Discovery.takeUpTo,if_neg nonnegative,Int.toNat_natCast,ranked_scored,
    ← List.map_take]
  rfl

/-- A limit that all endpoints keep leaves what the filter leaves. -/
theorem results_filter (httpMethod : Option String) {limit : Nat}
    (whole : endpoints.length ≤ limit) : results query httpMethod limit endpoints =
      (results query none limit endpoints).filter fun result => admits httpMethod result.2 := by
  have short (kept : Endpoint × Nat → Bool) :
      ((ranking query endpoints).filter kept).take limit = (ranking query endpoints).filter kept :=
    List.take_of_length_le ((List.length_filter_le _ _).trans (length_ranking_le.trans whole))
  have every : (fun placed : Endpoint × Nat => admits none placed.1) = fun _ => true := rfl
  rw [results_eq,results_eq,short,short,every,List.filter_true,List.filter_map]
  rfl

theorem results_prefix (httpMethod : Option String) {low high : Nat} (ordered : low ≤ high) :
    results query httpMethod low endpoints <+: results query httpMethod high endpoints := by
  rw [results_eq,results_eq]
  exact (List.take_prefix_take_left ordered).map _

theorem verbOf_ofOption (httpMethod : Option String) :
    verbOf (.ofOption httpMethod) = .ok (verbFor httpMethod) := by
  cases httpMethod with
  | none => rfl
  | some text =>
    rw [verbOf,verbFor,Option.filter_some,Json.ofOption,Json.isGiven]
    cases text.isEmpty <;> rfl

theorem searchAnswer_eq {label : String} {document : Json} {model : Model}
    (stored : Model.ofJson document = .ok model) (repo : Json) (query : String)
    (httpMethod : Option String) (limit : Int) :
    searchAnswer ⟨repo,.str query,.ofOption httpMethod,.int limit⟩ label document =
      .ok (.obj [("repo",.str label),("query",.str query),
        ("result_count",.ofNat (results query httpMethod limit model.endpoints).length),
        ("results",.arr ((results query httpMethod limit model.endpoints).map resultJson))]) := by
  have given : limitOf (.int limit) = .ok (some limit) := rfl
  have text : (Json.str query).textFor "lower" = .ok query := rfl
  rw [searchAnswer,text,verbOf_ofOption,stored,given]
  rw [results,← List.length_map resultJson]
  rfl

end Results

/-- Search answers with a row for each result, and takes the results from one ranking of the endpoints
that fit, in which each stands once. A filter keeps those of its verb, and a limit the first of
them. -/
theorem search_complete_and_ordered {path : Option String} {repo : Json} {world after : World}
    {store : Store} {owner name : String} {analysis : StoredAnalysis} {model : Model}
    (opened : (Store.openAt path).run.run world = (.ok store,after))
    (resolved : (store.resolve repo).run.run after = (.ok (some (owner,name)),after))
    (loaded : (store.load owner name).run.run after = (.ok (some analysis),after))
    (stored : Model.ofJson analysis.model = .ok model)
    (asked : Text.words query.toList ≠ []) :
    (∀ httpMethod limit,
      (searchEndpoints path ⟨repo,.str query,.ofOption httpMethod,.int limit⟩).run.run world =
        (.ok (.obj [("repo",.str (owner ++ "/" ++ name)),("query",.str query),
          ("result_count",.ofNat (results query httpMethod limit model.endpoints).length),
          ("results",.arr ((results query httpMethod limit model.endpoints).map
            fun (score,endpoint) =>
              .obj [("http_method",.str endpoint.httpMethod),("path",.str endpoint.path),
                ("class",.str endpoint.qualifiedClass),("method",.str endpoint.methodName),
                ("consumes",.ofOption endpoint.consumes),("produces",.ofOption endpoint.produces),
                ("score",.ofNat score)]))]),after)) ∧
    (∃ ranking : List (Endpoint × Nat),
      (∀ endpoint place, (endpoint,place) ∈ ranking ↔
        model.endpoints[place]? = some endpoint ∧ Fits query endpoint) ∧
      ranking.Pairwise (Precedes query) ∧ (ranking.map Prod.snd).Nodup ∧
      ∀ httpMethod (limit : Nat), results query httpMethod limit model.endpoints =
        ((ranking.filter fun placed => admits httpMethod placed.1).take limit).map fun placed =>
          (points query placed.1,placed.1)) ∧
    (∀ httpMethod limit, (model.endpoints.length : Int) ≤ limit →
      results query httpMethod limit model.endpoints =
        (results query none limit model.endpoints).filter fun result =>
          admits httpMethod result.2) ∧
    ∀ httpMethod low high, 0 ≤ low → low ≤ high →
      results query httpMethod low model.endpoints <+:
        results query httpMethod high model.endpoints := by
  refine ⟨?_,⟨ranking query model.endpoints,?_,pairwise_ranking,nodup_ranking,results_eq⟩,?_,?_⟩
  · intro httpMethod limit
    rw [searchEndpoints,run_ask_stored opened resolved loaded,searchAnswer_eq stored]
    rfl
  · intro endpoint place
    rw [mem_ranking,points_pos_iff asked]
  · intro httpMethod limit whole
    lift limit to Nat using by omega
    exact results_filter httpMethod (Int.ofNat_le.mp whole)
  · intro httpMethod low high nonnegative ordered
    lift low to Nat using nonnegative
    lift high to Nat using by omega
    exact results_prefix httpMethod (Int.ofNat_le.mp ordered)

/-- Two of three endpoints fit, and the later one has more points. -/
theorem search_complete_and_ordered_orders :
    let list : Endpoint := ⟨"GET","/orders","list","Orders","shop",none,none⟩
    let health : Endpoint := ⟨"GET","/health","check","Health","shop",none,none⟩
    let close : Endpoint := ⟨"POST","/orders/close","close","Orders","shop",some "text/plain",none⟩
    let model : Model := {endpoints := [list,health,close]}
    let analysis := Store.describe "local" "shop" "" "/shop" ["Orders.java"] model
    let disk := ({} : Disk).withFile ["local-shop.json"]
      (Text.Utf8.encode analysis.toJson.print)
    let world : World := {disk}
    let listRow : Json := .obj [("http_method",.str "GET"),("path",.str "/orders"),
      ("class",.str "shop.Orders"),("method",.str "list"),("consumes",.null),("produces",.null),
      ("score",.int 7)]
    let closeRow : Json := .obj [("http_method",.str "POST"),("path",.str "/orders/close"),
      ("class",.str "shop.Orders"),("method",.str "close"),("consumes",.str "text/plain"),
      ("produces",.null),("score",.int 15)]
    let reply (httpMethod : Option String) (limit : Int) :=
      (searchEndpoints (some "/") ⟨.str "local/shop",.str "Close ORDERS",.ofOption httpMethod,
        .int limit⟩).run.run world
    let answer (rows : List Json) : Json := .obj [("repo",.str "local/shop"),
      ("query",.str "Close ORDERS"),("result_count",.ofNat rows.length),("results",.arr rows)]
    reply none 50 = (.ok (answer [closeRow,listRow]),world) ∧
      reply (some "get") 50 = (.ok (answer [listRow]),world) ∧
      reply none 1 = (.ok (answer [closeRow]),world) := by
  intro list health close model analysis disk world listRow closeRow reply answer
  have coherent : model.Coherent := Model.coherent_empty.of_outline rfl rfl
  have small : model.stats.Small := by decide
  have opened := @Store.run_openAt_again world ⟨1,[]⟩ (some "/") rfl ⟨[],rfl,rfl⟩
  have bytes : world.disk.read world.here (Store.fileOf ⟨⟨1,[]⟩⟩ "local" "shop") =
      .ok (Text.Utf8.encode analysis.toJson.print) := rfl
  have loaded := Store.run_load bytes
    (Store.read_describe "local" "shop" "" "/shop" ["Orders.java"] small)
  have asked : Text.words "Close ORDERS".toList ≠ [] := by decide
  obtain ⟨answered,_⟩ := search_complete_and_ordered opened (Store.run_resolve_whole "shop") loaded
    (Model.ofJson_toJson coherent) asked
  have scored : scored "Close ORDERS" none model.endpoints = [(7,list),(15,close)] := by
    decide +kernel
  have ranked : ranked [(7,list),(15,close)] = [(15,close),(7,list)] := by
    simp [ranked,List.mergeSort]
  have unfiltered (limit : Int) : results "Close ORDERS" none limit model.endpoints =
      limited (some limit) [(15,close),(7,list)] := by
    rw [results,search,verbFor,Option.filter_none,Option.map_none,scored,ranked]
  have filtered : results "Close ORDERS" (some "get") 50 model.endpoints = [(7,list)] := by
    decide +kernel
  have whole := answered none 50
  have gets := answered (some "get") 50
  have first := answered none 1
  rw [unfiltered] at whole first
  rw [filtered] at gets
  exact ⟨whole,gets,first⟩

end JavaAtlas.Query
