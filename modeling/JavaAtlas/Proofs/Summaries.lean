import JavaAtlas.Summary.Assistant
import Mathlib.Data.List.Forall2

/-! Summaries with and without an assistant. What an assistant answers reaches the methods that have
neither summary nor documentation, each by its place among them; all others go the plain way, and so
do all where no request is answered. -/
namespace JavaAtlas

/-- The answer to one of the next requests, counted from zero; a request may fail. -/
def Assistant.answer (assistant : Assistant) (request : Nat) : Option String :=
  assistant.replies[request]?.join

/-- The assistant after the requests for the given batches. -/
def Assistant.after (assistant : Assistant) (requests : List (List Method)) : Assistant :=
  ⟨assistant.replies.drop requests.length,assistant.prompts ++ requests.map Summary.prompt⟩

namespace Summary

section Batches
variable {α β : Type} {size : Nat} {items : List α}

/-- Lists are as long as each other if one is made of the other place by place. -/
theorem length_of_getElem? {make : Nat → α → β} {made : List β}
    (each : ∀ i : Nat, made[i]? = items[i]?.map (make i)) : made.length = items.length := by
  apply Nat.le_antisymm
  · rw [← List.getElem?_eq_none_iff,each,List.getElem?_eq_none (Nat.le_refl _),Option.map_none]
  · have outside := (each made.length).symm.trans (List.getElem?_eq_none (Nat.le_refl _))
    rwa [Option.map_eq_none_iff,List.getElem?_eq_none_iff] at outside

theorem flatten_batches (positive : 0 < size) (items : List α) :
    (batches size items).flatten = items := by
  fun_induction batches size items with
  | case1 items stop => rw [stop.resolve_left (by omega),List.flatten_nil]
  | case2 items _ ih => rw [List.flatten_cons,ih,List.take_append_drop]

theorem bounds_of_mem_batches {batch : List α} (member : batch ∈ batches size items) :
    batch ≠ [] ∧ batch.length ≤ size := by
  fun_induction batches size items with
  | case1 => cases member
  | case2 items goes ih =>
    rcases List.mem_cons.mp member with rfl | later
    · rw [ne_eq,List.take_eq_nil_iff]
      exact ⟨goes,List.length_take_le size items⟩
    · exact ih later

/-- What is made of the batches one after another, as many things of each as it has items, is found
batch by batch. -/
theorem getElem?_flatMap_batches (positive : 0 < size) (make : Nat → List α → List β)
    (each : ∀ request batch, (make request batch).length = batch.length) (items : List α)
    (first place : Nat) :
    (((batches size items).zipIdx first).flatMap fun entry => make entry.2 entry.1)[place]? =
      (batches size items)[place / size]?.bind fun batch =>
        (make (first + place / size) batch)[place % size]? := by
  fun_induction batches size items generalizing first place with
  | case1 => rfl
  | case2 items goes ih =>
    have length := each first (items.take size)
    rw [List.length_take] at length
    -- Where the first batch is not full it is the last.
    have last : items.length < size → batches size (items.drop size) = [] := by
      intro short
      rw [batches,if_pos (Or.inr (List.drop_eq_nil_iff.mpr (by omega)))]
    rw [List.zipIdx_cons,List.flatMap_cons]
    dsimp only
    by_cases here : place < size
    · rw [Nat.div_eq_of_lt here,Nat.mod_eq_of_lt here,List.getElem?_cons_zero,Option.bind_some]
      by_cases inside : place < items.length
      · rw [List.getElem?_append_left (by omega)]
        rfl
      · rw [last (by omega),List.zipIdx_nil,List.flatMap_nil,List.append_nil]
        rfl
    · obtain ⟨later,rfl⟩ := Nat.exists_eq_add_of_le (Nat.le_of_not_lt here)
      rw [Nat.add_div_left later positive,Nat.add_mod_left,List.getElem?_cons_succ]
      by_cases full : size ≤ items.length
      · rw [List.getElem?_append_right (by omega),length,Nat.min_eq_left full,
          Nat.add_sub_cancel_left,ih,Nat.add_right_comm,Nat.add_assoc]
      · rw [last (by omega),List.zipIdx_nil,List.flatMap_nil,List.append_nil,
          List.getElem?_eq_none (by omega)]
        rfl

/-- Each item stands in one of the batches. -/
theorem exists_batch (positive : 0 < size) {place : Nat} {item : α}
    (found : items[place]? = some item) :
    ∃ batch, (batches size items)[place / size]? = some batch ∧
      batch[place % size]? = some item := by
  have whole := getElem?_flatMap_batches positive (fun _ batch => batch) (fun _ _ => rfl) items 0 place
  have parts := flatten_batches positive items
  rw [← List.zipIdx_map_fst 0 (batches size _),← List.flatMap_def] at parts
  rw [parts,found] at whole
  obtain ⟨batch,here,inside⟩ := Option.bind_eq_some_iff.mp whole.symm
  exact ⟨batch,here,inside⟩

theorem lengths_batches {others : List β} (same : items.length = others.length) :
    (batches size items).map List.length = (batches size others).map List.length := by
  fun_induction batches size items generalizing others with
  | case1 items stop =>
    have stops : size = 0 ∨ others = [] := by
      rwa [← List.length_eq_zero_iff,same,List.length_eq_zero_iff] at stop
    rw [batches,if_pos stops]
    rfl
  | case2 items goes ih =>
    have go : ¬ (size = 0 ∨ others = []) := by
      rwa [← List.length_eq_zero_iff,same,List.length_eq_zero_iff] at goes
    have later : (items.drop size).length = (others.drop size).length := by
      rw [List.length_drop,List.length_drop,same]
    rw [batches.eq_def _ others,if_neg go,List.map_cons,List.map_cons,ih later,List.length_take,
      List.length_take,same]

end Batches

section Requests
variable {assistant : Assistant} {size : Nat} {method : Method} {methods : List Method}

/-- The batches that are asked about. -/
def requests (size : Nat) (methods : List Method) : List (List Method) :=
  batches size (methods.filter isPending)

/-- The summaries for the batches, the answers to which come one after another. -/
def summariesFor (assistant : Assistant) (groups : List (List Method)) : List String :=
  groups.zipIdx.flatMap fun entry => answered entry.1 (assistant.answer entry.2)

theorem askAll_eq (assistant : Assistant) (groups : List (List Method)) :
    askAll assistant groups = (summariesFor assistant groups,assistant.after groups) := by
  induction groups generalizing assistant with
  | nil => simp [askAll,summariesFor,Assistant.after]
  | cons batch groups ih =>
    have asked : assistant.ask (prompt batch) = (assistant.answer 0,assistant.after [batch]) := by
      rw [Assistant.ask,Assistant.answer,Assistant.after,← List.head?_eq_getElem?,← List.drop_one]
      rfl
    have later (request : Nat) :
        (assistant.after [batch]).answer request = assistant.answer (request + 1) := by
      rw [Assistant.answer,Assistant.answer,Assistant.after,List.getElem?_drop,Nat.add_comm]
      rfl
    rw [askAll,asked]
    dsimp only
    rw [ih]
    refine Prod.ext ?_ ?_
    · simp [summariesFor,List.zipIdx_succ,List.flatMap_map,later]
    · simp [Assistant.after]

theorem length_answered (batch : List Method) (reply : Option String) :
    (answered batch reply).length = batch.length := by
  cases reply with
  | none => exact List.length_map _
  | some text =>
    have placed (lines : List (List Char)) (summaries : List String) :
        (lines.foldl place summaries).length = summaries.length := by
      induction lines generalizing summaries with
      | nil => rfl
      | cons line lines ih =>
        rw [List.foldl_cons,ih,place]
        split
        · split
          · exact List.length_set
          · rfl
        · rfl
    rw [answered,List.length_map,List.length_zip,readReply,placed,List.length_replicate,Nat.min_self]

theorem getElem?_summariesFor (positive : 0 < size) {place : Nat} {batch : List Method}
    (here : (requests size methods)[place / size]? = some batch) :
    (summariesFor assistant (requests size methods))[place]? =
      (answered batch (assistant.answer (place / size)))[place % size]? := by
  have whole := getElem?_flatMap_batches positive
    (fun request batch => answered batch (assistant.answer request))
    (fun request batch => length_answered batch _) (methods.filter isPending) 0 place
  rw [requests] at here
  rw [here,Nat.zero_add] at whole
  exact whole

/-- The number of methods to be asked about before a place. -/
def pendingBefore (methods : List Method) (i : Nat) : Nat := (methods.take i).countP isPending

/-- The method with a summary for it, if it waits for one. -/
def received (summary : Option String) (method : Method) : Method :=
  if isPending method then {method with summary := summary.getD method.summary} else method

theorem getElem?_pending (i : Nat) (found : methods[i]? = some method)
    (pending : isPending method = true) :
    (methods.filter isPending)[pendingBefore methods i]? = some method := by
  induction methods generalizing i with
  | nil => cases found
  | cons first rest ih =>
    cases i with
    | zero =>
      cases found
      rw [List.filter_cons_of_pos pending]
      rfl
    | succ i =>
      have later := ih i found
      rw [pendingBefore] at later
      rw [pendingBefore,List.take_succ_cons,List.countP_cons,List.filter_cons]
      split
      · exact later
      · exact later

theorem getElem?_deliver (methods : List Method) (summaries : List String) (i : Nat) :
    (deliver methods summaries)[i]? =
      methods[i]?.map (received summaries[pendingBefore methods i]?) := by
  induction methods generalizing summaries i with
  | nil => rfl
  | cons first rest ih =>
    rw [deliver.eq_def,pendingBefore]
    dsimp only
    cases pending : isPending first with
    | false =>
      rw [if_neg Bool.false_ne_true]
      cases i with
      | zero =>
        rw [List.getElem?_cons_zero,List.getElem?_cons_zero,Option.map_some,received,pending]
        rfl
      | succ i => simp [ih,pendingBefore,pending]
    | true =>
      rw [if_pos rfl]
      cases summaries with
      | nil =>
        cases i with
        | zero => simp [received]
        | succ i => simp [ih,pendingBefore]
      | cons summary others =>
        cases i with
        | zero => simp [received,pending]
        | succ i => simp [ih,pendingBefore,pending]

theorem received_none : received none = id := by
  funext method
  rw [received]
  split <;> rfl

theorem deliver_nil (methods : List Method) : deliver methods [] = methods := by
  apply List.ext_getElem?
  intro i
  rw [getElem?_deliver,List.getElem?_nil,received_none,Option.map_id_fun]
  rfl

/-- With batches of a size that is positive, what is asked and what is given. -/
theorem byAssistant_eq (positive : 0 < size) (assistant : Assistant) (methods : List Method) :
    byAssistant (some assistant) size methods =
      .ok (deliver methods (summariesFor assistant (requests size methods)),
        some (assistant.after (requests size methods))) := by
  have above : ¬ (size : Int) < 0 := by omega
  have nonzero : ((size : Int) == 0) = false := by rw [beq_eq_false_iff_ne]; omega
  rw [byAssistant]
  dsimp only
  rw [decide_eq_false above,Bool.or_false,nonzero,askAll_eq]
  cases idle : (methods.filter isPending).isEmpty with
  | false => rfl
  | true =>
    have nothing : requests size methods = [] := by
      rw [requests,batches,if_pos (Or.inr (List.isEmpty_iff.mp idle))]
    have silent : summariesFor assistant [] = [] := rfl
    rw [nothing,silent,deliver_nil,if_pos rfl]
    simp [Assistant.after]

end Requests

section Tiers
variable {assistant : Assistant} {method : Method} {methods : List Method}

theorem fallback_ne (method : Method) : fallback method ≠ "" := by
  rw [fallback]
  split
  · simp
  · next given => simpa [Text.clip,limit] using given

theorem give_kept (given : method.summary ≠ "") (summary : String) : give summary method = method := by
  rw [give,if_neg (by rwa [String.isEmpty_iff])]

theorem summary_fromSignature (method : Method) : (fromSignature method).summary ≠ "" := by
  rw [fromSignature]
  by_cases given : method.summary = ""
  · rw [give,if_pos (String.isEmpty_iff.mpr given)]
    exact fallback_ne method
  · rwa [give_kept given]

theorem fromSignature_idem (method : Method) :
    fromSignature (fromSignature method) = fromSignature method :=
  give_kept (summary_fromSignature method) _

theorem not_isPending (documented : method.javadoc ≠ "") : isPending method = false := by
  rw [isPending,Bool.and_eq_false_iff,← Bool.not_eq_true,← Bool.not_eq_true,String.isEmpty_iff,
    String.isEmpty_iff]
  exact .inr documented

theorem javadoc_fromJavadoc (method : Method) : (fromJavadoc method).javadoc = method.javadoc := by
  rw [fromJavadoc,give]
  split
  · rfl
  · split <;> rfl

theorem fromJavadoc_pending (pending : isPending method = true) : fromJavadoc method = method := by
  rw [isPending,Bool.and_eq_true] at pending
  rw [fromJavadoc,if_pos pending.2]

theorem isPending_fromJavadoc (method : Method) :
    isPending (fromJavadoc method) = isPending method := by
  by_cases documented : method.javadoc = ""
  · rw [fromJavadoc,if_pos (String.isEmpty_iff.mpr documented)]
  · rw [not_isPending documented,not_isPending]
    rwa [javadoc_fromJavadoc]

/-- Reading the documentation leaves the methods to be asked about as they are. -/
theorem pending_documented (methods : List Method) :
    (methods.map fromJavadoc).filter isPending = methods.filter isPending := by
  have same : isPending ∘ fromJavadoc = isPending := funext isPending_fromJavadoc
  rw [List.filter_map,same]
  refine Eq.trans (List.map_congr_left fun method member => ?_) (List.map_id _)
  exact fromJavadoc_pending (List.of_mem_filter member)

theorem pendingBefore_documented (methods : List Method) (i : Nat) :
    pendingBefore (methods.map fromJavadoc) i = pendingBefore methods i := by
  have same : isPending ∘ fromJavadoc = isPending := funext isPending_fromJavadoc
  rw [pendingBefore,← List.map_take,List.countP_map,same,pendingBefore]

/-- What an assistant, if there is one, has for the method at a place. -/
def offered (assistant : Option Assistant) (methods : List Method) (i : Nat) : Option String :=
  assistant.bind fun asked =>
    (summariesFor asked (requests batchSize methods))[pendingBefore methods i]?

/-- The tiers one after another: documentation, assistant, signature. -/
def tiered (summary : Option String) (method : Method) : Method :=
  fromSignature (received summary (fromJavadoc method))

theorem assisted_some (assistant : Assistant) (methods : List Method) :
    assisted (some assistant) methods =
      ((deliver (methods.map fromJavadoc) (summariesFor assistant (requests batchSize methods))).map
        fromSignature,some (assistant.after (requests batchSize methods))) := by
  have asked : requests batchSize (methods.map fromJavadoc) = requests batchSize methods := by
    rw [requests,pending_documented,requests]
  rw [assisted,byAssistant_eq (by decide),asked]

theorem getElem?_assisted (assistant : Option Assistant) (methods : List Method) (i : Nat) :
    (assisted assistant methods).1[i]? = methods[i]?.map (tiered (offered assistant methods i)) := by
  cases assistant with
  | none =>
    have once (method : Method) : (fromSignature ∘ fromSignature ∘ fromJavadoc) method =
        tiered none method := by
      rw [tiered,received_none,Function.comp_apply,Function.comp_apply,fromSignature_idem,id]
    rw [assisted,byAssistant,List.getElem?_map,List.getElem?_map,List.getElem?_map,Option.map_map,
      Option.map_map]
    exact congrFun (congrArg Option.map (funext once)) _
  | some assistant =>
    rw [assisted_some,List.getElem?_map,getElem?_deliver,List.getElem?_map,pendingBefore_documented,
      Option.map_map,Option.map_map]
    rfl

/-- A request that fails has the signature for each of its methods. -/
theorem offered_of_failure {i : Nat} (found : methods[i]? = some method)
    (pending : isPending method = true) (fails : ∀ request < (requests batchSize methods).length,
      assistant.answer request = none) :
    offered (some assistant) methods i = some (fallback method) := by
  obtain ⟨batch,here,inside⟩ :=
    exists_batch (by decide : 0 < batchSize) (getElem?_pending i found pending)
  have last := (List.getElem?_eq_some_iff.mp here).1
  rw [offered,Option.bind_some,getElem?_summariesFor (by decide) here,fails _ last,answered,
    List.getElem?_map,inside,Option.map_some]

theorem tiered_waiting (pending : isPending method = true) :
    tiered (some (fallback method)) method = tiered none method := by
  have given := pending
  rw [isPending,Bool.and_eq_true] at given
  rw [tiered,tiered,fromJavadoc_pending pending,received_none,received,if_pos pending,
    Option.getD_some,fromSignature,give_kept (fallback_ne method),id,fromSignature,give,if_pos given.1]

theorem tiered_settled (settled : isPending method = false) (summary : Option String) :
    tiered summary method = tiered none method := by
  rw [← isPending_fromJavadoc] at settled
  rw [tiered,tiered,received,received,settled]
  rfl

/-- What becomes of a method: it has a summary, the one that it had if it had one, and is the same
in all else. -/
structure Summarised (before after : Method) : Prop where
  nonempty : after.summary ≠ ""
  kept : before.summary ≠ "" → after.summary = before.summary
  others : {after with summary := before.summary} = before

theorem others_give (summary text : String) (method : Method) :
    {give text method with summary} = {method with summary} := by
  rw [give]
  split <;> rfl

theorem others_tiered (summary : String) (given : Option String) (method : Method) :
    {tiered given method with summary} = {method with summary} := by
  have unread : {received given (fromJavadoc method) with summary} =
      {fromJavadoc method with summary} := by
    rw [received]
    split <;> rfl
  rw [tiered,fromSignature,others_give,unread,fromJavadoc]
  split
  · rfl
  · exact others_give summary _ method

theorem summarised_tiered (summary : Option String) (method : Method) :
    Summarised method (tiered summary method) := by
  refine ⟨summary_fromSignature _,?_,others_tiered method.summary summary method⟩
  intro given
  have settled : isPending method = false := by
    rw [isPending,Bool.and_eq_false_iff,← Bool.not_eq_true,String.isEmpty_iff]
    exact .inl given
  have read : fromJavadoc method = method := by
    rw [fromJavadoc,give_kept given,ite_self]
  rw [tiered_settled settled,tiered,received_none,id,read,fromSignature,give_kept given]

/-- Without an assistant, or with one that fails in each request, summaries are the plain ones; and
whatever is answered, documented methods have theirs as in plain mode. -/
theorem degrades_to_plain (assistant : Option Assistant) (methods : List Method) :
    let outcome := all true assistant methods
    let simple := (all false assistant methods).1
    ((∀ asked ∈ assistant, ∀ request < (requests batchSize methods).length,
      asked.answer request = none) → outcome.1 = simple) ∧
    outcome.1.length = methods.length ∧
    (∀ (i : Nat) (method : Method), methods[i]? = some method → ∃ after,
      outcome.1[i]? = some after ∧ Summarised method after ∧
        (method.javadoc ≠ "" → simple[i]? = some after)) ∧
    outcome.2 = assistant.map fun asked => asked.after (requests batchSize methods) := by
  intro outcome simple
  have aided (i : Nat) : outcome.1[i]? = methods[i]?.map (tiered (offered assistant methods i)) :=
    getElem?_assisted assistant methods i
  have unaided (i : Nat) : simple[i]? = methods[i]?.map (tiered none) := by
    change (plain methods)[i]? = _
    rw [plain,List.getElem?_map]
    exact congrFun (congrArg Option.map (funext fun method => by rw [tiered,received_none,id])) _
  refine ⟨?_,?_,?_,?_⟩
  · intro fails
    apply List.ext_getElem?
    intro i
    rw [aided,unaided]
    cases found : methods[i]? with
    | none => rw [Option.map_none,Option.map_none]
    | some method =>
      rw [Option.map_some,Option.map_some]
      refine congrArg some ?_
      cases pending : isPending method with
      | false => exact tiered_settled pending _
      | true =>
        cases assistant with
        | none => rfl
        | some asked =>
          rw [offered_of_failure found pending (fails asked rfl),tiered_waiting pending]
  · exact length_of_getElem? aided
  · intro i method found
    have here := aided i
    rw [found,Option.map_some] at here
    refine ⟨_,here,summarised_tiered _ method,fun documented => ?_⟩
    rw [unaided,found,Option.map_some]
    exact congrArg some (tiered_settled (not_isPending documented) _).symm
  · cases assistant with
    | none => rfl
    | some asked => exact congrArg Prod.snd (assisted_some asked methods)

/-- One request is made, and it fails. Documentation may be given and have no sentence. -/
theorem degrades_to_plain_failing :
    let methods : List Method := [{name := "a",signature := "void a()",summary := "Kept."},
      {name := "b",signature := "void b()",javadoc := "@return b"},
      {name := "c",signature := "void c()",javadoc := "Counts. All of it."},
      {name := "d",signature := "void d()",javadoc := " "},{name := "e",signature := ""}]
    let assistant : Assistant := {replies := [none,some "1. Never asked for."]}
    (∀ request < (requests batchSize methods).length, assistant.answer request = none) ∧
    (all true (some assistant) methods).1 = (all false (some assistant) methods).1 ∧
    (all true (some assistant) methods).1.map Method.summary =
      ["Kept.","void b()","Counts.","void d()","method e"] ∧
    (all true (some assistant) methods).2.map Assistant.replies = some [some "1. Never asked for."] := by
  intro methods assistant
  have asked : (requests batchSize methods).length = 1 := by decide +kernel
  have fails : ∀ request < (requests batchSize methods).length, assistant.answer request = none := by
    rw [asked]
    decide
  obtain ⟨same,_,_,after⟩ := degrades_to_plain (some assistant) methods
  have simple := same (fun other known => Option.some.inj known ▸ fails)
  refine ⟨fails,simple,?_,?_⟩
  · rw [simple]
    decide +kernel
  · rw [after,Option.map_some,Option.map_some,Assistant.after,asked]
    rfl

end Tiers

end Summary

end JavaAtlas
