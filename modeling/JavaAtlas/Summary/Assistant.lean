import JavaAtlas.Summary.Plain
import JavaAtlas.Text.Integer

/-! Summaries written by an assistant. Methods without documentation are put to it in numbered
batches, and numbered lines of its replies are read back. A request that fails, and a line that
is missing, leave the method its signature. -/
namespace JavaAtlas

/-- An assistant as far as it can be observed: the replies to come, where `none` is a request
that fails, and the requests made so far. Without a reply left a request fails. -/
structure Assistant where
  replies : List (Option String) := []
  prompts : List String := []
  deriving DecidableEq, Repr

def Assistant.ask (assistant : Assistant) (prompt : String) : Option String × Assistant :=
  (assistant.replies.head?.join,⟨assistant.replies.tail,assistant.prompts ++ [prompt]⟩)

namespace Summary

def promptLine (number : Nat) (method : Method) : String :=
  let marks := Text.join " " (method.annotations.map AnnotationUse.text)
  String.ofList (Text.ofInt number) ++ ". " ++ (if marks.isEmpty then "" else marks ++ " ") ++
    method.signature

def prompt (batch : List Method) : String :=
  Text.join "\n" (
    ["Summarize each Java method in ONE short sentence (max 15 words).",
      "Focus on what it does, not how.",
      "",
      "Input:"] ++
    (batch.zipIdx 1).map (fun entry => promptLine entry.2 entry.1) ++
    ["",
      "Output format: NUMBER. SUMMARY",
      "Example: 1. Looks up a user by id and returns it as JSON.",
      "",
      "Summaries:"])

def numbered? (line : List Char) : Option (Int × List Char) :=
  let line := Text.trim line
  if line.contains '.' then
    (Text.integer? (Text.trim (line.takeWhile (· != '.')))).map fun number =>
      (number,Text.trim ((line.dropWhile (· != '.')).drop 1))
  else none

def place (summaries : List String) (line : List Char) : List String :=
  match numbered? line with
  | some (number,text) =>
    if 1 ≤ number && number ≤ summaries.length then
      summaries.set (number.toNat - 1) (String.ofList text)
    else summaries
  | none => summaries

/-- The summaries of a reply, empty where it has none. A later line wins. -/
def readReply (reply : List Char) (count : Nat) : List String :=
  (Text.lines reply).foldl place (List.replicate count "")

def answered (batch : List Method) (reply : Option String) : List String :=
  match reply with
  | some text =>
    (batch.zip (readReply text.toList batch.length)).map fun entry =>
      if entry.2.isEmpty then fallback entry.1 else entry.2
  | none => batch.map fallback

/-- The items in groups of the given size, the last of which may be smaller. -/
def batches {α : Type} (size : Nat) (items : List α) : List (List α) :=
  if size = 0 ∨ items = [] then []
  else items.take size :: batches size (items.drop size)
termination_by items.length
decreasing_by
  have := List.length_pos_iff.mpr (fun empty => ‹¬_› (Or.inr empty))
  rw [List.length_drop]
  omega

def askAll (assistant : Assistant) : List (List Method) → List String × Assistant
  | [] => ([],assistant)
  | batch :: rest =>
    let (reply,next) := assistant.ask (prompt batch)
    let (summaries,last) := askAll next rest
    (answered batch reply ++ summaries,last)

def isPending (method : Method) : Bool := method.summary.isEmpty && method.javadoc.isEmpty

def deliver : List Method → List String → List Method
  | [], _ => []
  | method :: rest, summaries =>
    if isPending method then
      match summaries with
      | summary :: others => {method with summary} :: deliver rest others
      | [] => method :: deliver rest []
    else method :: deliver rest summaries

inductive BatchFault where
  | zeroSize
  deriving DecidableEq, Repr

def BatchFault.message : BatchFault → String
  | .zeroSize => "a batch needs at least one method"

/-- Summaries of the pending methods by the assistant, if there is one; without it every method
that has no summary gets its signature. A size of zero is refused only when there is something to
ask, and with a negative one nothing is asked. -/
def byAssistant (assistant : Option Assistant) (size : Int) (methods : List Method) :
    Except BatchFault (List Method × Option Assistant) :=
  match assistant with
  | none => .ok (methods.map fromSignature,none)
  | some assistant =>
    let pending := methods.filter isPending
    if pending.isEmpty || size < 0 then .ok (methods,some assistant)
    else if size == 0 then .error .zeroSize
    else
      let (summaries,next) := askAll assistant (batches size.toNat pending)
      .ok (deliver methods summaries,some next)

def batchSize : Nat := 10

def assisted (assistant : Option Assistant) (methods : List Method) :
    List Method × Option Assistant :=
  let documented := methods.map fromJavadoc
  match byAssistant assistant batchSize documented with
  | .ok (answered,next) => (answered.map fromSignature,next)
  | .error _ => (documented.map fromSignature,assistant)

def all (useAssistant : Bool) (assistant : Option Assistant) (methods : List Method) :
    List Method × Option Assistant :=
  if useAssistant then assisted assistant methods else (plain methods,assistant)

end Summary

end JavaAtlas
