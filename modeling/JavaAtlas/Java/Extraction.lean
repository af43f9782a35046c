import JavaAtlas.Java.Endpoint
import JavaAtlas.Java.EnumConstants

/-! Extraction of one file. The base name of the file without its extension names the unit. -/
namespace JavaAtlas

/-- A file name without its extension. Dots in front never start one. -/
def stem (name : List Char) : List Char :=
  let front := Text.beforeLast '.' name
  if front.all (· == '.') then name else front

def unitName (file : String) : String :=
  String.ofList (stem (Text.afterLast '/' file.toList))

namespace Extraction

def languages : List String := ["java"]

def ofText (content : List Char) (file : String) : Extraction :=
  let name := unitName file
  let header := Header.read content name.toList
  let unit : CompilationUnit :=
    { name
      package := header.package
      file
      superclass := header.superclass
      interfaces := header.interfaces
      methods := Method.readAll content
      isInterface := header.isInterface
      isAbstract := header.isAbstract
      isRestResource := header.isRestResource }
  { unit
    endpoints := Endpoint.readAll content unit
    enums := Enums.readAll content header.package }

def read? (content : List Char) (file language : String) : Option Extraction :=
  if languages.contains language then some (ofText content file) else none

end Extraction

end JavaAtlas
