import JavaAtlas.Text.CaseTable

/-! Full case mapping: a character may become several, and a capital sigma at the end of a word
becomes the final form of the small letter. -/
namespace JavaAtlas.Text

private def mapped (sequences : Array (Nat × List Nat)) (runs : Array CaseRun) (c : Char) :
    List Char :=
  match sequences.find? fun entry => entry.1 == c.toNat with
  | some entry => entry.2.map Char.ofNat
  | none =>
    match runs.find? fun run => run.covers c.toNat with
    | some run => [Char.ofNat (c.toNat + run.shift).toNat]
    | none => [c]

def upperChar (c : Char) : List Char :=
  if c.toNat < 128 then [c.toUpper] else mapped upperSequences upperRuns c

def lowerChar (c : Char) : List Char :=
  if c.toNat < 128 then [c.toLower] else mapped lowerSequences lowerRuns c

/-- The ways in which a character gets its small form. -/
theorem lowerChar_cases (c : Char) :
    (c.toNat < 128 ∧ lowerChar c = [c.toLower]) ∨
    (∃ entry ∈ lowerSequences, lowerChar c = entry.2.map Char.ofNat) ∨
    (∃ run ∈ lowerRuns, run.covers c.toNat = true ∧
      lowerChar c = [Char.ofNat (c.toNat + run.shift).toNat]) ∨
    lowerChar c = [c] := by
  rw [lowerChar]
  split
  · next ascii => exact .inl ⟨ascii,rfl⟩
  · right
    rw [mapped]
    split
    · next entry found => exact .inl ⟨entry,Array.mem_of_find?_eq_some found,rfl⟩
    · right
      split
      · next run found =>
        have covers := Array.find?_some found
        exact .inl ⟨run,Array.mem_of_find?_eq_some found,covers,rfl⟩
      · exact .inr rfl

/-- Whether the nearest character that matters for case has case. -/
def meetsCased (side : List Char) : Bool :=
  match side.dropWhile fun c => caseIgnorable.contains c.toNat with
  | c :: _ => cased.contains c.toNat
  | [] => false

/-- A capital sigma is final when a cased letter stands before it and none after it. -/
def lowerFrom (before : List Char) : List Char → List (List Char) → List Char
  | [], done => done.reverse.flatten
  | c :: rest, done =>
    let small :=
      if c == 'Σ' then (if meetsCased before && !meetsCased rest then ['ς'] else ['σ'])
      else lowerChar c
    lowerFrom (c :: before) rest (small :: done)

def lower (text : List Char) : List Char :=
  lowerFrom [] text []

def upper (text : List Char) : List Char :=
  text.flatMap upperChar

end JavaAtlas.Text
