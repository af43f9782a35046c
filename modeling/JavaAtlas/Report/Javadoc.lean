import JavaAtlas.Pattern.Search
import JavaAtlas.Summary.Plain

/-! Documentation comments as Markdown. -/
namespace JavaAtlas.Report
open Pattern

def wordTag (tag : String) : Pattern :=
  sequence [blanks,word tag,blanks1,capture 1 (longest1 (one fun c => !Text.isBlank c)),blanks1]

def plainTag (tag : String) : Pattern :=
  sequence [blanks,word tag,blanks1]

def aboutWord (title : String) (found : Match) : List Char :=
  ("\n\n**" ++ title ++ " `").toList ++ found.captured 1 ++ "`**: ".toList

/-- The interior of a comment without its margin, and with tags as titled paragraphs. -/
def javadoc (interior : String) : String :=
  let lines := (Text.lines (Text.trim interior.toList)).map Summary.prose
  let text := ['\n'].intercalate lines
  let text := (wordTag "@param").replaceAll (aboutWord "Parameter") text
  let text := (plainTag "@return").replaceAll (fun _ => "\n\n**Returns**: ".toList) text
  let text := (wordTag "@throws").replaceAll (aboutWord "Throws") text
  String.ofList (Text.trim text)

end JavaAtlas.Report
