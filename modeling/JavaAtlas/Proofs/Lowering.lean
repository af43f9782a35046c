import JavaAtlas.Proofs.Trimming
import JavaAtlas.Proofs.Words
import JavaAtlas.Text.Case

/-! Small letters and blanks. A character that is not blank has a small form that is not blank
either, so that a text which has words has words when it is set in small letters. -/
namespace JavaAtlas.Text
variable {text : List Char} {c : Char}

/-- The code points of the characters that are blank. -/
def blankPoints : List Nat := List.range' 9 5 ++ List.range' 28 5 ++ wideBlanks

theorem mem_blankPoints (blank : isBlank c = true) : c.toNat ∈ blankPoints := by
  by_cases ascii : c.toNat < 128
  · have narrow : ∀ n < 128, isBlank (Char.ofNat n) = true →
        n ∈ List.range' 9 5 ++ List.range' 28 5 := by
      decide
    have placed := narrow c.toNat ascii
    rw [Char.ofNat_toNat] at placed
    exact List.mem_append_left _ (placed blank)
  · exact List.mem_append_right _ (mem_wideBlanks blank ascii)

theorem ascii_solid (ascii : c.toNat < 128) (solid : isBlank c = false) :
    isBlank c.toLower = false := by
  have each : ∀ n < 128, isBlank (Char.ofNat n) = false →
      isBlank (Char.ofNat n).toLower = false := by
    decide
  have lowered := each c.toNat ascii
  rw [Char.ofNat_toNat] at lowered
  exact lowered solid

theorem sequences_solid {entry : Nat × List Nat} (member : entry ∈ lowerSequences) :
    ∃ d ∈ entry.2.map Char.ofNat, isBlank d = false := by
  have each : ∀ entry ∈ lowerSequences,
      (entry.2.any fun point => !isBlank (Char.ofNat point)) = true := by
    decide +kernel
  obtain ⟨point,listed,solid⟩ := List.any_eq_true.mp (each entry member)
  exact ⟨Char.ofNat point,List.mem_map_of_mem listed,by simpa using solid⟩

/-- No run of the table leads to a blank. -/
theorem runs_solid : ∀ run ∈ lowerRuns, ∀ point ∈ blankPoints,
    run.covers ((point : Int) - run.shift).toNat = false := by
  decide +kernel

theorem toNat_ofNat_or (point : Nat) :
    (Char.ofNat point).toNat = point ∨ (Char.ofNat point).toNat = 0 := by
  rw [Char.ofNat]
  by_cases valid : point.isValidChar
  · rw [dif_pos valid]
    exact .inl rfl
  · rw [dif_neg valid]
    exact .inr rfl

theorem run_solid {run : CaseRun} (member : run ∈ lowerRuns) (covers : run.covers c.toNat = true) :
    isBlank (Char.ofNat (c.toNat + run.shift).toNat) = false := by
  rw [Bool.eq_false_iff]
  intro blank
  have zero : 0 ∉ blankPoints := by decide
  have placed := mem_blankPoints blank
  have apart := runs_solid run member _ placed
  rcases toNat_ofNat_or (c.toNat + run.shift).toNat with whole | missing
  · have back : ((((c.toNat : Int) + run.shift).toNat : Int) - run.shift).toNat = c.toNat := by
      by_cases low : (c.toNat : Int) + run.shift ≤ 0
      · rw [whole,Int.toNat_of_nonpos low] at placed
        exact absurd placed zero
      · omega
    rw [whole,back,covers] at apart
    cases apart
  · rw [missing] at placed
    exact zero placed

theorem exists_solid_lowerChar (solid : isBlank c = false) :
    ∃ d ∈ lowerChar c, isBlank d = false := by
  rcases lowerChar_cases c with ⟨ascii,small⟩ | ⟨entry,member,small⟩ |
    ⟨run,member,covers,small⟩ | small
  · rw [small]
    exact ⟨_,List.mem_cons_self,ascii_solid ascii solid⟩
  · rw [small]
    exact sequences_solid member
  · rw [small]
    exact ⟨_,List.mem_cons_self,run_solid member covers⟩
  · rw [small]
    exact ⟨c,List.mem_cons_self,solid⟩

/-- What is not blank in the text or in what is done already is so in the end. -/
theorem exists_solid_lowerFrom {before : List Char} {done : List (List Char)}
    (solid : (∃ c ∈ text, isBlank c = false) ∨ ∃ c ∈ done.flatten, isBlank c = false) :
    ∃ c ∈ lowerFrom before text done, isBlank c = false := by
  induction text generalizing before done with
  | nil =>
    obtain ⟨_,⟨⟩,_⟩ | ⟨c,member,solid⟩ := solid
    rw [lowerFrom]
    refine ⟨c,?_,solid⟩
    rw [List.mem_flatten] at member ⊢
    simpa only [List.mem_reverse] using member
  | cons c text ih =>
    rw [lowerFrom]
    apply ih
    rcases solid with ⟨d,member,solid⟩ | ⟨d,member,solid⟩
    · rcases List.mem_cons.mp member with rfl | later
      · right
        have small : ∃ e ∈ (if d == 'Σ' then
            (if meetsCased before && !meetsCased text then ['ς'] else ['σ']) else lowerChar d),
            isBlank e = false := by
          split
          · split <;> exact ⟨_,List.mem_cons_self,rfl⟩
          · exact exists_solid_lowerChar solid
        obtain ⟨e,member,solid⟩ := small
        exact ⟨e,List.mem_append_left _ member,solid⟩
      · exact .inl ⟨d,later,solid⟩
    · exact .inr ⟨d,List.mem_append_right _ member,solid⟩

theorem words_lower_ne_nil (worded : words text ≠ []) : words (lower text) ≠ [] := by
  rw [ne_eq,words_eq_nil_iff] at worded ⊢
  simp only [not_forall,exists_prop,Bool.not_eq_true] at worded ⊢
  exact exists_solid_lowerFrom (.inl worded)

end JavaAtlas.Text
