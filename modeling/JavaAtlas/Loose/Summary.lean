import JavaAtlas.Loose.Change
import JavaAtlas.Summary.Plain

/-! Summaries of methods whose documentation and signature may be any values. Methods before one
that cannot be summarised keep their summaries. -/
namespace JavaAtlas.Loose

abbrev MethodStep := ExceptT Json.Mismatch (StateM Method) Unit

namespace Method

def fromJavadoc : MethodStep := do
  let method ← get
  if method.javadoc.isGiven && !method.summary.isGiven then
    let javadoc ← MonadExcept.ofExcept (method.javadoc.textFor "strip")
    set {method with summary := .str (Summary.ofJavadoc javadoc)}

def fallback (method : Method) : Except Json.Mismatch Json :=
  if method.signature.isGiven then method.signature.clip Summary.limit
  else .ok (.str ("method " ++ method.name.text))

def fromSignature : MethodStep := do
  let method ← get
  if !method.summary.isGiven then
    let summary ← MonadExcept.ofExcept method.fallback
    set {method with summary}

def plain : MethodStep := do
  fromJavadoc
  fromSignature

def stepAll (step : MethodStep) : List Method → Except Json.Mismatch Unit × List Method
  | [] => (.ok (),[])
  | method :: rest =>
    match step.run.run method with
    | (.error mismatch,changed) => (.error mismatch,changed :: rest)
    | (.ok _,changed) =>
      let (outcome,others) := stepAll step rest
      (outcome,changed :: others)

end Method

namespace Model

def stepMethods (step : MethodStep) : Change Unit := do
  for (name,unit) in (← get).units.entries do
    let (outcome,methods) := Method.stepAll step unit.methods
    Change.put name {unit with methods}
    Change.ofShape outcome

/-- Summaries for all methods. With an assistant wanted that is not there, all documentation is
read before the first signature. -/
def summarize (wantsAssistant : Bool) : Change Unit := do
  if wantsAssistant then
    stepMethods Method.fromJavadoc
    stepMethods Method.fromSignature
  else stepMethods Method.plain

end Model

end JavaAtlas.Loose
