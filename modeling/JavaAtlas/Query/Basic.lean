import JavaAtlas.Store.Basic

/-! Questions about a stored analysis. An answer is a document; that an analysis is not there is
an answer too. -/
namespace JavaAtlas.Query

def refusal (message : String) : Json := .obj [("error",.str message)]

/-- Answers from the model stored for a repository; the answer is told its full name and the
document of the model. -/
def ask (storagePath : Option String) (repo : Json)
    (answer : String → Json → Except Json.Mismatch Json) : Action Json := do
  let store ← Store.openAt storagePath
  match ← store.resolve repo with
  | none => return refusal ("Analysis not found: " ++ repo.text)
  | some (owner,name) =>
    let label := owner ++ "/" ++ name
    match ← store.load owner name with
    | none => return refusal ("Folder not analyzed: " ++ label)
    | some analysis => Action.ofShape (answer label analysis.model)

def listing (storagePath : Option String) : Action Json := do
  let store ← Store.openAt storagePath
  let analyses ← store.list
  return .obj [("count",.ofNat analyses.length),("analyses",.arr analyses)]

end JavaAtlas.Query
