import JavaAtlas.Java.Extraction
import JavaAtlas.Proofs.Masking
import JavaAtlas.Proofs.Searching

/-! What comments have to do with a file. Every reader masks them first, and the one that looks at
the content as well wants comments alone: it passes over whatever looks like one in the mask. -/
namespace JavaAtlas
open Lexical (maskComments maskComments_maskComments)

namespace Method

def undocumented (method : Method) : Method := {method with javadoc := ""}

theorem head?_of_javadoc {border : Option Char} {position : Nat} {rest : List Char} {found : Match}
    (matched : javadocPattern.matchAt border position rest = some found) :
    rest.head? = some '/' := by
  by_contra apart
  have fails : javadocPattern.Fails ⟨position,border,rest,[]⟩ := by
    apply Pattern.Fails.seq
    apply Pattern.fails_literal
    rintro ⟨more,rfl⟩
    exact apart rfl
  rw [Pattern.matchAt,fails] at matched
  cases matched

/-- A documentation comment that is left in a mask stands in a literal. -/
theorem javadocs_masked (content : List Char) :
    javadocs (maskComments content) (maskComments content) = [] := by
  rw [javadocs,List.filter_eq_nil_iff]
  intro found member
  obtain ⟨border,matched⟩ := Pattern.matchAt_of_mem_findAll member
  have slash := head?_of_javadoc matched
  rw [List.head?_drop] at slash
  simp [slash]

theorem ofMatch_undocumented (blocks : List Match) (masked structural : List Char)
    (found : Match) : ofMatch [] masked structural found =
      (ofMatch blocks masked structural found).map undocumented := by
  unfold ofMatch
  cases found.capture? 1 with
  | none => rfl
  | some name =>
    simp only [Option.bind_some]
    split <;> rfl

theorem readAll_masked (content : List Char) :
    readAll (maskComments content) = (readAll content).map undocumented := by
  unfold readAll
  dsimp only
  rw [maskComments_maskComments,javadocs_masked,List.map_filterMap]
  exact List.filterMap_congr fun found _ => ofMatch_undocumented _ _ _ found

end Method

namespace Endpoint

/-- The operations do not depend on the documentation of the methods. -/
theorem readAll_masked (content : List Char) (unit : CompilationUnit) :
    readAll (maskComments content) {unit with methods := unit.methods.map Method.undocumented} =
      readAll content unit := by
  have preamble : typePreamble (maskComments content) unit.name.toList =
      typePreamble content unit.name.toList := by
    unfold typePreamble
    rw [maskComments_maskComments]
  unfold readAll
  rw [maskComments_maskComments,preamble,List.filterMap_map]
  rfl

end Endpoint

namespace Extraction

/-- The extraction with no method documented. -/
def undocumented (extraction : Extraction) : Extraction :=
  {extraction with
    unit := {extraction.unit with
      methods := extraction.unit.methods.map Method.undocumented}}

theorem ofText_masked (content : List Char) (file : String) :
    ofText (maskComments content) file = (ofText content file).undocumented := by
  have header : Header.read (maskComments content) (unitName file).toList =
      Header.read content (unitName file).toList := by
    rw [Header.read,maskComments_maskComments,Header.read]
  have enums (package : String) :
      Enums.readAll (maskComments content) package = Enums.readAll content package := by
    rw [Enums.readAll,maskComments_maskComments,Enums.readAll]
  have operations := Endpoint.readAll_masked content (ofText content file).unit
  unfold ofText at operations ⊢
  dsimp only at operations ⊢
  rw [header,enums,Method.readAll_masked,operations]
  rfl

theorem read?_java (content : List Char) (file : String) :
    read? content file "java" = some (ofText content file) := by
  rw [read?,if_pos (by decide)]

/-- A file whose comments are blanked gives what it gave before, but for the documentation of its
methods. -/
theorem comments_give_javadoc_alone (content : List Char) (file : String) :
    ∃ extraction, read? content file "java" = some extraction ∧
      read? (maskComments content) file "java" = some extraction.undocumented := by
  refine ⟨ofText content file,read?_java content file,?_⟩
  rw [read?_java,ofText_masked]

end Extraction

end JavaAtlas
